import RoffDocBook.Proofs.Expansion.Step
import RoffDocBook.Proofs.Notes.Package

/-! What a run notes, step by step, and what is noted when its document is concluded. -/
namespace RoffDocBook
open Text Markup Document

namespace Document.Notes

section
variable {still : Bool} {base doc : Document} (h : Notes still base doc)
include h

theorem keepBlock (opener : String) (lines : List Text) : Notes still base (Run.keepBlock doc opener lines) :=
  ((h.beginDisplay .literal opener).emitAll lines).endDisplay

theorem breakBefore (name : String) : Notes still base (Run.breakBefore doc name) := by
  have hlists : Notes still base (if doc.isListBreak name then doc.breakLists name else doc) :=
    .ite (h.breakLists name) h
  exact .ite hlists.closeParagraph hlists

theorem finishPackage (package : Package) : Notes still base (Conversion.finishPackage doc package) := by
  cases package with
  | mdoc => exact h.mdocFinish
  | ms => exact h.finishAbstract _ _
  | mm => exact h.finishAbstract _ _
  | me => exact h.finishLettered
  | troff => exact h
  | man => exact h
  | pod2man => exact h
  | tkman => exact h
  | www => exact h

end

variable {base : Document} {run : Run}

theorem activate {still : Bool} (h : Notes still base run.doc) (package : Package) :
    Notes still base (run.activate package).doc := by
  unfold Run.activate
  extract_lets doc
  split
  · exact h
  · exact h.same (by rfl)

theorem activateAll {still : Bool} (h : Notes still base run.doc) (packages : List Package) :
    Notes still base (packages.foldl Run.activate run).doc := by
  induction packages generalizing run with
  | nil => exact h
  | cons package rest ih => exact ih (h.activate package)

theorem activatePending {still : Bool} (h : Notes still base run.doc) : Notes still base run.activatePending.doc :=
  have hnone : Notes still base { run with doc := { run.doc with pending := [] } }.doc := h.same rfl
  hnone.activateAll _

theorem embeddedBlock (h : Notes false base run.doc) (kind : BlockKind) (request : Request) :
    Notes false base (run.embeddedBlock kind request).doc := by
  have hblock := (h.gatherBlock kind.closer).closeParagraph
  unfold Run.embeddedBlock
  dsimp only
  split
  · exact emitMarkup (hblock.same (by rfl)) _
  · exact keepBlock (warn (hblock.same (by rfl)) _) _ _
  · refine keepBlock (.ite (warn ?_ _) ?_) _ _ <;> exact hblock.same (by rfl)

theorem table (h : Notes false base run.doc) (request : Request) : Notes false base (run.table request).doc :=
  ((h.gatherBlock "TE").closeParagraph.renderTable _ _).closeParagraph

theorem invoke {doc : Document} (h : Notes false base doc) (request : Request) :
    Notes false base (doc.invoke request) := by
  unfold Document.invoke
  split
  · exact h.error _
  · split
    · exact h
    · refine h.trans (of_input (fun hs => by cases hs) ?_ rfl rfl)
      dsimp only
      rw [Input.numbered_pushLines]
      exact List.suffix_refl _

theorem offer (h : Notes false base run.doc) (request : Request) (packages : List Package) :
    (run.offer request packages).After (Notes false base) := by
  induction packages generalizing run with
  | nil => exact (h.error _).emit _
  | cons package rest ih =>
    have hdone := (h.prepare package request).interpret package request
    rw [Run.offer]
    generalize Run.interpret _ package request = outcome at hdone
    cases outcome with
    | declined => exact ih (h.prepare package request)
    | done doc => exact noteFired hdone package
    | aborted message doc => exact hdone

theorem execute (h : Notes false base run.doc) (line : Text) : (run.execute line).After (Notes false base) := by
  unfold Run.execute
  split
  · exact h
  · rename_i name rest _
    split
    · exact h.emitComment _
    · split
      · exact (h.remark _).emitComment _
      · have hbroken : Notes false base { run with doc := Run.breakBefore run.doc name }.doc := h.breakBefore name
        dsimp only
        split
        · exact hbroken.table _
        · split
          · exact hbroken.embeddedBlock _ _
          · split
            · exact hbroken.embeddedBlock _ _
            · split
              · exact hbroken.invoke _
              · exact hbroken.offer _ _

theorem interpretLine (h : Notes false base run.doc) (line : Text) :
    (run.interpretLine line).After (Notes false base) := by
  have hread : Notes false base (run.readStatement line).2.doc := h.joinContinuations _ line
  unfold Run.interpretLine
  generalize run.readStatement line = statement at hread
  match statement with
  | (.comment text, next) => exact hread.emitComment _
  | (.nothing, next) => exact hread
  | (.control control, next) => exact hread.execute control
  | (.text text, next) => exact hread.textLine _

/-- The next item is taken from the input. -/
theorem takeItem (h : Notes false base run.doc) {item : WorkItem} {rest : Input} (hi : run.doc.input = item :: rest)
    (line : Nat) (formatter : Formatter.State) :
    Notes false base { run.doc with input := rest, line, formatter } := by
  refine h.trans (of_input (fun hs => by cases hs) ?_ rfl rfl)
  rw [hi]
  exact Input.numbered_append [item] rest ▸ List.suffix_append _ _

theorem step (h : Notes false base run.doc) : run.step.After (Notes false base) := by
  have hpending {result : RunResult} (hr : result.After (Notes false base)) :
      RunResult.After (Notes false base) (result.map Run.activatePending) := by
    match result with
    | .ok run => exact activatePending hr
    | .error (_, run) => exact hr
  unfold Run.step
  refine hpending ?_
  cases hi : run.doc.input with
  | nil => exact h
  | cons item rest =>
    cases item with
    | line text number =>
      have htaken : Notes false base
          { run with doc := { run.doc with input := rest, line := number.getD run.doc.line } }.doc := h.takeItem hi _ _
      exact htaken.interpretLine text
    | finish number => exact h.takeItem hi number _
    | markup text => exact (h.takeItem hi run.doc.line run.doc.formatter).emitMarkup text
    | paragraphEnd => exact (h.takeItem hi run.doc.line run.doc.formatter).closeParagraph

theorem runAll (h : Notes false base run.doc) (limit : Nat) : (run.runAll limit).After (Notes false base) := by
  induction limit generalizing run with
  | zero => exact h
  | succ limit ih =>
    have hstep := h.step
    rw [Run.runAll]
    split
    · exact h
    · generalize run.step = result at hstep
      match result with
      | .ok next => exact ih hstep
      | .error stopped => exact hstep

theorem finishPackages {doc : Document} (h : Notes false base doc) (packages : List Package) :
    Notes false base (packages.foldl Conversion.finishPackage doc) :=
  h.foldl (fun package h => h.finishPackage package) packages

/-- What is closed at the end of a source, and the guesses about its tokens. -/
theorem conclude {doc : Document} (h : Notes false base doc) : Notes false base (Conversion.conclude doc).2 :=
  (h.finishPackages doc.active).finish.learns (Hints.learns_inferHints _ _)

end Document.Notes

end RoffDocBook

/-! The hints of a run of conversions, whatever their outcomes: each conversion hands on the hints that it was given, with
those of its document over them. -/
namespace RoffDocBook
open Text Markup

namespace Hints

/-- The hints in the comments of a source. -/
def ofComments (source : Text) : HintTable :=
  (({} : Hints).read .document source).1.document

/-- What a line records for a document does not depend on the hints of the run, which stay. -/
theorem readLine_document (document : HintTable) (line : Text) :
    ∃ recorded accepted, ∀ global : HintTable,
      ({ global, document } : Hints).readLine .document line = ({ global, document := recorded }, accepted) := by
  unfold readLine
  match parseComment? line with
  | none => exact ⟨document, false, fun _ => rfl⟩
  | some (token, name) =>
    dsimp only
    cases HintTag.ofName? name with
    | none => exact ⟨document, false, fun _ => rfl⟩
    | some tag =>
      unfold Hints.set
      by_cases he : token.isEmpty
      · exact ⟨document, true, fun global => congrArg (·, true) (if_pos he)⟩
      · exact ⟨HintTable.put token tag document, true, fun global => congrArg (·, true) (if_neg he)⟩

theorem read_document (global document : HintTable) (t : Text) :
    (({ global, document } : Hints).read .document t).1 =
      { global, document := (({ document } : Hints).read .document t).1.document } := by
  unfold Hints.read
  generalize 0 = count
  induction lines t generalizing document count with
  | nil => rfl
  | cons line rest ih =>
    obtain ⟨recorded, accepted, hline⟩ := readLine_document document line
    rw [List.foldl_cons, List.foldl_cons]
    dsimp only
    rw [hline global, hline []]
    exact ih recorded _

end Hints

namespace Conversion

/-- The document at the end of a conversion, whether it has been concluded or the source has ended the run. -/
def ended (environment : Environment) (hints : Hints) (name : String) (source : Text) (detection : Detection) :
    Document :=
  match (prepare environment hints name source detection).runAll environment.limit with
  | .ok run => (conclude run.doc).2
  | .error (_, run) => run.doc

theorem activateAll_account (packages : List Package) (run : Run) :
    (packages.foldl Run.activate run).doc.account = run.doc.account := by
  induction packages generalizing run with
  | nil => rfl
  | cons package rest ih =>
    refine (ih _).trans ?_
    unfold Run.activate
    extract_lets doc
    split <;> rfl

section
variable (environment : Environment) (hints : Hints) (name : String) (source : Text) (detection : Detection)

theorem prepare_hints :
    (prepare environment hints name source detection).doc.hints =
      { global := hints.global, document := Hints.ofComments source } := by
  unfold prepare
  extract_lets begun doc directory sourceDir run activated
  have haccount : activated.doc.account = run.doc.account := activateAll_account _ run
  have hhints : activated.doc.hints = run.doc.hints := congrArg (·.2.2.1) haccount
  exact hhints.trans (Hints.read_document hints.global [] source)

theorem prepare_diagnostics :
    (prepare environment hints name source detection).doc.diagnostics =
      { file := name, portability := environment.settings.portability } := by
  unfold prepare
  extract_lets begun doc directory sourceDir run activated
  have haccount : activated.doc.account = run.doc.account := activateAll_account _ run
  exact congrArg (·.2.2.2) haccount

theorem notes_ended :
    Document.Notes false (prepare environment hints name source detection).doc
      (ended environment hints name source detection) := by
  have hrun : ((prepare environment hints name source detection).runAll environment.limit).After
      (Document.Notes false (prepare environment hints name source detection).doc) := Document.Notes.runAll .refl _
  unfold ended
  generalize (prepare environment hints name source detection).runAll environment.limit = result at hrun
  match result with
  | .ok run => exact Document.Notes.conclude hrun
  | .error (_, run) => exact hrun

end

/-- The text of a file. -/
def sourceOf (bytes : List UInt8) : Text :=
  replace (decodeBytes bytes) "\r\n" "\n"

section
variable (environment : Environment) (given : Hints) {name : String} {bytes : List UInt8}

theorem ofBytes_of_undetected {failure : Failure} (h : Detection.detect name (sourceOf bytes) = .error failure) :
    ofBytes environment given name bytes =
      { result := .error failure, hints := given, diagnostics := [], files := environment.files } := by
  unfold ofBytes
  dsimp only
  rw [← sourceOf, h]

theorem ofBytes_of_detected {detection : Detection} (h : Detection.detect name (sourceOf bytes) = .ok detection) :
    let doc := ended environment given name (sourceOf bytes) detection
    (ofBytes environment given name bytes).hints = doc.hints.endDocument ∧
      (ofBytes environment given name bytes).diagnostics = doc.diagnostics.entries := by
  unfold ofBytes ended
  dsimp only
  rw [← sourceOf, h]
  dsimp only
  generalize (prepare environment given name (sourceOf bytes) detection).runAll environment.limit = result
  match result with
  | .ok run => exact ⟨rfl, rfl⟩
  | .error (message, run) => exact ⟨rfl, rfl⟩

end

/-- What a conversion that was given some hints hands on. If the kind of the document is not detected, these are the
hints that it was given, and it complains about nothing. Otherwise they are the hints of its document over those of the
run, and none for the next document. The document has the hints in the comments of its source and those that it has
learned since, each for a token that there was none for. Every complaint is one of this document, and of its file. -/
def HandsOn (environment : Environment) (given : Hints) (file : String × List UInt8) (conversion : Conversion) :
    Prop :=
  let source := sourceOf file.2
  match Detection.detect file.1 source with
  | .error failure =>
    conversion.result = .error failure ∧ conversion.hints = given ∧ conversion.diagnostics = []
  | .ok detection =>
    let doc := ended environment given file.1 source detection
    conversion.hints = { global := given.global.override doc.hints.document, document := [] } ∧
      Hints.Learns { global := given.global, document := Hints.ofComments source } doc.hints ∧
      conversion.diagnostics = doc.diagnostics.entries ∧
      ∀ diagnostic ∈ conversion.diagnostics, diagnostic.file = file.1

theorem handsOn_ofBytes (environment : Environment) (given : Hints) (name : String) (bytes : List UInt8) :
    HandsOn environment given (name, bytes) (ofBytes environment given name bytes) := by
  unfold HandsOn
  dsimp only
  cases hd : Detection.detect name (sourceOf bytes) with
  | error failure =>
    rw [ofBytes_of_undetected environment given hd]
    exact ⟨rfl, rfl, rfl⟩
  | ok detection =>
    obtain ⟨hhints, hdiagnostics⟩ := ofBytes_of_detected environment given hd
    have hnotes := notes_ended environment given name (sourceOf bytes) detection
    have hlearned := hnotes.learned
    obtain ⟨raised, hraised, hfile⟩ := hnotes.raised
    rw [prepare_hints] at hlearned
    rw [prepare_diagnostics] at hraised hfile
    refine ⟨?_, hlearned, hdiagnostics, ?_⟩
    · rw [hhints, Hints.endDocument, Hints.effective, hlearned.global]
    · rw [hdiagnostics, hraised]
      exact hfile

/-- No token loses its hint. -/
theorem HandsOn.keeps {environment : Environment} {given : Hints} {file : String × List UInt8} {conversion : Conversion}
    (h : HandsOn environment given file conversion) {token : Text}
    (ht : (HintTable.get? given.global token).isSome) : (HintTable.get? conversion.hints.global token).isSome := by
  unfold HandsOn at h
  dsimp only at h
  split at h
  · rw [h.2.1]
    exact ht
  · rw [h.1]
    exact HintTable.isSome_get?_override ht _

theorem keeps_ofFiles {environment : Environment} {given : Hints} {files : List (String × List UInt8)} {token : Text}
    (ht : (HintTable.get? given.global token).isSome) {later : Conversion}
    (hl : later ∈ ofFiles environment given files) : (HintTable.get? later.hints.global token).isSome := by
  induction files generalizing environment given with
  | nil => cases hl
  | cons file files ih =>
    have hnext := (handsOn_ofBytes environment given file.1 file.2).keeps ht
    rcases List.mem_cons.mp hl with rfl | hl
    · exact hnext
    · exact ih hnext hl

/-- Each of some conversions is given the hints, and finds the files, that the one before it has left; no token that has
a hint before one of them is without a hint after it or any later one. -/
def HandOn : Environment → Hints → List (String × List UInt8) → List Conversion → Prop
  | _, _, [], conversions => conversions = []
  | environment, given, file :: files, conversions =>
    ∃ conversion rest, conversions = conversion :: rest ∧ HandsOn environment given file conversion ∧
      (∀ token, (HintTable.get? given.global token).isSome →
        ∀ later ∈ conversions, (HintTable.get? later.hints.global token).isSome) ∧
      HandOn { environment with files := conversion.files } conversion.hints files rest

/-- The hints of a run of conversions are neither lost nor mixed up, whatever becomes of each of them. -/
theorem handOn_ofFiles (environment : Environment) (given : Hints) (files : List (String × List UInt8)) :
    HandOn environment given files (ofFiles environment given files) := by
  induction files generalizing environment given with
  | nil => rfl
  | cons file files ih =>
    obtain ⟨name, bytes⟩ := file
    refine ⟨ofBytes environment given name bytes, _, rfl, handsOn_ofBytes environment given name bytes, ?_, ih _ _⟩
    intro token ht later hl
    exact keeps_ofFiles ht hl

end Conversion

end RoffDocBook
