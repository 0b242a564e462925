import RoffDocBook.Conversion.Basic
import RoffDocBook.Proofs.Conditional.Selection
import RoffDocBook.Proofs.Expansion.Step
import RoffDocBook.Proofs.Markup.Escape
import RoffDocBook.Proofs.Notes.Block
import RoffDocBook.Proofs.Notes.Conversion
import RoffDocBook.Proofs.Text.Words

/-! The numbers of the lines in an input at the start of a run. They count the lines of the source, but for those that a
package drops from it beforehand. -/
namespace RoffDocBook
open Text Markup

namespace Markup

theorem dropReturn_escape (line : Text) : dropReturn (escape line) = escape (dropReturn line) := by
  rcases List.eq_nil_or_concat line with rfl | ⟨before, c, rfl⟩
  · rfl
  · rw [List.concat_eq_append]
    by_cases h : c = '\r'
    · subst h
      rw [escape_append, dropReturn_append_return]
      exact dropReturn_append_return _
    · have hlast : (before ++ [c]).getLast? ≠ some '\r' := by simpa using h
      rw [dropReturn_of_getLast? hlast, dropReturn_of_getLast?]
      intro hreturn
      have hd := List.getLast?_eq_some_getLast (escapeChar_ne_nil c)
      rw [escape_append, escape_singleton, List.getLast?_append, hd, Option.some_or] at hreturn
      have hmem : '\r' ∈ escape [c] := escape_singleton c ▸ List.mem_of_getLast? (hd.trans hreturn)
      exact notMem_escape (by decide) (fun hc => h (List.mem_singleton.mp hc).symm) hmem

/-- Escaping a text escapes each of its lines. -/
theorem lines_escape (t : Text) : lines (escape t) = (lines t).map escape := by
  unfold lines
  rw [splitOn, splitBy_escape (by decide), ← splitOn, ← List.map_reverse]
  cases (splitOn '\n' t).reverse with
  | nil => rfl
  | cons last before =>
    have hclosed : (before.map escape).map dropReturn = (before.map dropReturn).map escape := by
      rw [List.map_map, List.map_map]
      exact List.map_congr_left fun line _ => dropReturn_escape line
    rw [List.map_cons]
    dsimp only
    rw [isEmpty_escape, hclosed, ← List.map_reverse]
    split
    · rfl
    · rw [List.map_append, List.map_singleton]

end Markup

namespace Package

/-- What goes with the definitions of accents is whole lines. -/
theorem lines_dropAccents (source : Text) :
    ∃ first dropped later, lines source = first ++ dropped ++ later ∧ lines (dropAccents source) = first ++ later := by
  have hall : ∃ first dropped later, lines source = first ++ dropped ++ later ∧ lines source = first ++ later :=
    ⟨lines source, [], [], by simp, by simp⟩
  unfold dropAccents
  split
  · exact hall
  · rename_i before after hbefore
    split
    · exact hall
    · rename_i helpers rest hafter
      let kept := (before.reverse.dropWhile (· != '\n')).reverse
      let ending := rest.dropWhile (· != '\n')
      let middle := (before.reverse.takeWhile (· != '\n')).reverse ++ ("Fear.  Run.  Save yourself." : Text) ++
        helpers ++ ("\n.rm #[" : Text) ++ rest.takeWhile (· != '\n')
      have hbegin : before = kept ++ (before.reverse.takeWhile (· != '\n')).reverse := by
        rw [← List.reverse_append, List.takeWhile_append_dropWhile, List.reverse_reverse]
      have hend : rest = rest.takeWhile (· != '\n') ++ ending :=
        List.takeWhile_append_dropWhile.symm
      have hsource : source = kept ++ (middle ++ ending) := by
        rw [breakOn?_eq_some hbefore, breakOn?_eq_some hafter, hbegin, hend]
        simp only [middle, List.append_assoc]
      obtain ⟨dropped, hdropped⟩ := exists_lines_append middle rest
      have hwhole : Whole kept := whole_dropLine before
      refine ⟨lines kept, dropped, _, ?_, hwhole.lines_append _⟩
      rw [hsource, hwhole.lines_append, hdropped, List.append_assoc]

end Package

namespace Input

theorem numbered_mapIdx (lines : List Text) (number : Nat → Nat) :
    numbered (lines.mapIdx fun i line => .line line (some (number i))) =
      lines.mapIdx fun i line => (line, number i) := by
  induction lines generalizing number with
  | nil => rfl
  | cons line lines ih =>
    rw [List.mapIdx_cons, List.mapIdx_cons]
    exact congrArg ((line, number 0) :: ·) (ih fun i => number (i + 1))

theorem numbered_ofText (t : Text) : (ofText t).numbered = (lines t).mapIdx fun i line => (line, i + 1) :=
  numbered_mapIdx (lines t) (· + 1)

end Input

namespace Conversion

theorem foldl_preprocess {packages : List Package} (h : packages.Nodup) (source : Text) :
    packages.foldl preprocess source = if .pod2man ∈ packages then Package.dropAccents source else source := by
  induction packages generalizing source with
  | nil => rfl
  | cons package rest ih =>
    obtain ⟨hnotMem, hrest⟩ := List.nodup_cons.mp h
    rw [List.foldl_cons, ih hrest]
    by_cases hp : package = .pod2man
    · subst hp
      rw [if_neg hnotMem, if_pos List.mem_cons_self]
      rfl
    · have hsame : preprocess source package = source := by
        cases package <;> first | rfl | exact absurd rfl hp
      rw [hsame]
      simp only [List.mem_cons, Ne.symm hp, false_or]

theorem nodup_activate {run : Run} (h : run.doc.active.Nodup) (package : Package) :
    (run.activate package).doc.active.Nodup := by
  unfold Run.activate
  extract_lets doc
  split
  · exact h
  · rename_i hnew
    refine List.nodup_cons.mpr ⟨?_, h⟩
    intro hmem
    exact hnew (by simp [doc, hmem])

theorem nodup_activateAll {run : Run} (h : run.doc.active.Nodup) (packages : List Package) :
    (packages.foldl Run.activate run).doc.active.Nodup := by
  induction packages generalizing run with
  | nil => exact h
  | cons package rest ih => exact ih (nodup_activate h package)

variable (environment : Environment) (hints : Hints) (name : String) (source : Text) (detection : Detection)

theorem prepare_input :
    let run := prepare environment hints name source detection
    run.doc.active.Nodup ∧ run.doc.input = Input.ofText (run.doc.active.foldl preprocess (escape source)) := by
  unfold prepare
  extract_lets begun doc directory sourceDir run activated
  have hnone : run.doc.active.Nodup := List.nodup_nil
  exact ⟨nodup_activateAll hnone _, rfl⟩

/-- Whether a number is that of a line in a source without the lines that are dropped from it before the run. Only one
package drops any. -/
def Locates (active : List Package) (source line : Text) (number : Nat) : Prop :=
  ∃ first dropped later, lines source = first ++ dropped ++ later ∧ (.pod2man ∉ active → dropped = []) ∧
    ∃ i written, number = i + 1 ∧ (first ++ later)[i]? = some written ∧ line = escape written

theorem lines_preprocess {active : List Package} (h : active.Nodup) (source : Text) :
    ∃ first dropped later, lines source = first ++ dropped ++ later ∧ (.pod2man ∉ active → dropped = []) ∧
      lines (active.foldl preprocess (escape source)) = (first ++ later).map escape := by
  rw [foldl_preprocess h]
  split
  · rename_i hp
    obtain ⟨first', dropped', later', hall, hleft⟩ := Package.lines_dropAccents (escape source)
    rw [lines_escape, List.append_assoc] at hall
    obtain ⟨first, others, hsource, rfl, hothers⟩ := List.map_eq_append_iff.mp hall
    obtain ⟨dropped, later, rfl, -, rfl⟩ := List.map_eq_append_iff.mp hothers
    refine ⟨first, dropped, later, hsource.trans (List.append_assoc _ _ _).symm, fun hn => absurd hp hn, ?_⟩
    rw [hleft, List.map_append]
  · refine ⟨lines source, [], [], by simp, fun _ => rfl, ?_⟩
    rw [lines_escape, List.append_nil]

/-- The lines that have a number at the start of a run have their own. -/
theorem locates_of_mem_numbered {line : Text} {number : Nat}
    (h : (line, number) ∈ (prepare environment hints name source detection).doc.input.numbered) :
    Locates (prepare environment hints name source detection).doc.active source line number := by
  obtain ⟨hnodup, hinput⟩ := prepare_input environment hints name source detection
  obtain ⟨first, dropped, later, hsource, hdropped, hleft⟩ := lines_preprocess hnodup source
  rw [hinput, Input.numbered_ofText, hleft] at h
  obtain ⟨i, hi, heq⟩ := List.mem_mapIdx.mp h
  obtain ⟨rfl, rfl⟩ := Prod.mk.inj heq
  rw [List.length_map] at hi
  exact ⟨first, dropped, later, hsource, hdropped, i, _, rfl, List.getElem?_eq_getElem hi, by rw [List.getElem_map]⟩

end Conversion

end RoffDocBook

/-! Requests that no package knows. The complaint about one has the number that its line has in the source, unless the
line has been put back before it is carried out. -/
namespace RoffDocBook
open Text Markup Document

/-- The number of the line at hand once some items are taken from the input at a line. -/
def Input.lineAfter (line : Nat) : Input → Nat
  | [] => line
  | .line _ number :: rest => lineAfter (number.getD line) rest
  | .finish number :: rest => lineAfter number rest
  | _ :: rest => lineAfter line rest

theorem Input.lineAfter_append (line : Nat) (first second : Input) :
    lineAfter line (first ++ second) = lineAfter (lineAfter line first) second := by
  fun_induction lineAfter line first with
  | case1 line => rfl
  | case2 line text number rest ih => exact ih
  | case3 line number rest ih => exact ih
  | case4 line item rest hline hfinish ih =>
    rw [List.cons_append, lineAfter]
    · exact ih
    · exact hline
    · exact hfinish

namespace Document

/-- Items have been taken from the front of the input, and the line at hand is the one that they lead to. -/
def Takes (before after : Document) : Prop :=
  ∃ passed : Input, before.input = passed ++ after.input ∧ after.line = passed.lineAfter before.line

theorem Takes.refl (doc : Document) : Takes doc doc :=
  ⟨[], rfl, rfl⟩

theorem Takes.trans {a b c : Document} (h : Takes a b) (k : Takes b c) : Takes a c := by
  obtain ⟨first, hfirst, hline⟩ := h
  obtain ⟨second, hsecond, hline'⟩ := k
  refine ⟨first ++ second, ?_, ?_⟩
  · rw [hfirst, hsecond, List.append_assoc]
  · rw [hline', hline, Input.lineAfter_append]

theorem takes_nextRawLine_go {input : Input} {doc : Document} (h : doc.input = input) :
    Takes doc (nextRawLine.go input doc).2 := by
  induction input generalizing doc with
  | nil => exact .refl doc
  | cons item rest ih =>
    cases item with
    | line text number => exact ⟨[.line text number], h, rfl⟩
    | finish number =>
      refine Takes.trans ?_ (ih rfl)
      exact ⟨[.finish number], h, rfl⟩
    | markup text => exact .refl doc
    | paragraphEnd => exact .refl doc

end Document

/-- A request that nothing has a meaning for: neither a package in use nor a setting, and no macro has its name. -/
structure Document.Unknown (doc : Document) (request : Request) : Prop where
  ignored : doc.isIgnored request.name = false
  unportable : doc.isUnportable request.name = false
  block : request.name ≠ "TS" ∧ request.name ≠ "EQ" ∧ request.name ≠ "PS"
  unreduced : (Run.breakBefore doc request.name).formatter.reductions.get? request.name = none
  undefined : (Run.breakBefore doc request.name).formatter.macros.contains request.name = false
  declined : ∀ package ∈ (Run.breakBefore doc request.name).active, ∀ asked : Document,
    Run.interpret asked package request = .declined

namespace Run

theorem offer_unknown {request : Request} {packages : List Package} (run : Run)
    (h : ∀ package ∈ packages, ∀ asked : Document, interpret asked package request = .declined) :
    ∃ doc, Notes true run.doc doc ∧
      run.offer request packages =
        .ok { run with doc := (doc.error (.unhandled request.name)).emitUnhandled request.line } := by
  induction packages generalizing run with
  | nil => exact ⟨run.doc, .refl, rfl⟩
  | cons package rest ih =>
    obtain ⟨hp, hrest⟩ := List.forall_mem_cons.mp h
    obtain ⟨doc, hnotes, hoffer⟩ := ih { run with doc := prepare run.doc package request } hrest
    refine ⟨doc, (Notes.refl.prepare package request).trans hnotes, ?_⟩
    rw [offer, hp]
    exact hoffer

/-- An unknown request is complained about at the line at hand. -/
theorem execute_unknown (run : Run) {line rest : Text} {name : String}
    (hs : run.doc.splitControl? line = some (name, rest))
    (hu : run.doc.Unknown { name, arguments := ControlLine.arguments rest, rest, line }) :
    ∃ doc, Notes true run.doc doc ∧
      run.execute line = .ok { run with doc := (doc.error (.unhandled name)).emitUnhandled line } := by
  obtain ⟨hignored, hunportable, ⟨hTS, hEQ, hPS⟩, hreduced, hmacros, hdeclined⟩ := hu
  dsimp only at hignored hunportable hTS hEQ hPS hreduced hmacros hdeclined
  obtain ⟨doc, hnotes, hoffer⟩ := offer_unknown { run with doc := breakBefore run.doc name } hdeclined
  refine ⟨doc, (Notes.refl.breakBefore name).trans hnotes, ?_⟩
  unfold execute
  rw [hs]
  dsimp only
  rw [hignored, hunportable, hreduced]
  simp only [Option.getD_none, beq_eq_false_iff_ne.mpr hTS, beq_eq_false_iff_ne.mpr hEQ, beq_eq_false_iff_ne.mpr hPS,
    hmacros, Bool.and_false, Bool.false_eq_true, if_false]
  exact hoffer

theorem runAll_add (n m : Nat) (run : Run) : run.runAll (n + m) = (run.runAll n).bind (runAll m) := by
  induction n generalizing run with
  | zero => rw [Nat.zero_add]; rfl
  | succ n ih =>
    rw [Nat.succ_add, runAll, runAll]
    split
    · rename_i hempty
      cases m with
      | zero => rfl
      | succ m => exact (if_pos hempty).symm
    · cases run.step with
      | ok next => exact ih next
      | error stopped => rfl

/-- The line that the control line of a step is read from. -/
theorem controlNext?_eq_some {run read : Run} {control : Text} (h : run.controlNext? = some (control, read)) :
    ∃ text number rest, run.doc.input = .line text number :: rest ∧
      { run with doc := { run.doc with input := rest, line := number.getD run.doc.line } }.readStatement text =
        (.control control, read) := by
  unfold controlNext? at h
  split at h
  · rename_i text number rest hi
    refine ⟨text, number, rest, hi, ?_⟩
    split at h
    · rename_i hread
      cases h
      exact hread
    · cases h
  · cases h

theorem takes_joinContinuations (left : Nat) (doc : Document) (line : Text) :
    Takes doc (joinContinuations left doc line).2 := by
  induction left generalizing doc line with
  | zero => exact .refl doc
  | succ left ih =>
    rw [joinContinuations]
    split
    · have h : Takes doc doc.nextRawLine.2 := takes_nextRawLine_go rfl
      generalize doc.nextRawLine = found at h
      obtain ⟨next?, doc⟩ := found
      cases next? with
      | none => exact h
      | some next => exact h.trans (ih doc _)
    · exact .refl doc

/-- The line of a control line, and those that it goes on with. -/
theorem takes_controlNext? {run read : Run} {text control : Text} {number : Option Nat} {rest : Input}
    (hi : run.doc.input = .line text number :: rest) (hc : run.controlNext? = some (control, read)) :
    ∃ passed, rest = passed ++ read.doc.input ∧
      read.doc.line = Input.lineAfter run.doc.line (.line text number :: passed) ∧
      (endsInContinuation text = false → passed = []) := by
  obtain ⟨text', number', rest', hi', hread⟩ := controlNext?_eq_some hc
  rw [hi'] at hi
  cases hi
  let taken : Run := { run with doc := { run.doc with input := rest, line := number.getD run.doc.line } }
  cases he : endsInContinuation text with
  | false =>
    rw [Conditional.readStatement_line _ he] at hread
    obtain ⟨-, rfl⟩ := Prod.mk.inj hread
    exact ⟨[], rfl, rfl, fun _ => rfl⟩
  | true =>
    have htakes : Takes taken.doc (taken.readStatement text).2.doc := takes_joinContinuations _ _ _
    rw [hread] at htakes
    obtain ⟨passed, hpassed, hline⟩ := htakes
    exact ⟨passed, hpassed, hline, fun hn => by cases hn⟩

variable {run read : Run} {control rest : Text} {name : String}

/-- The step over an unknown request complains about it at the line at hand. -/
theorem step_unknown (hc : run.controlNext? = some (control, read))
    (hs : read.doc.splitControl? control = some (name, rest))
    (hu : read.doc.Unknown { name, arguments := ControlLine.arguments rest, rest, line := control }) :
    ∃ next expanding, run.step = .ok next ∧
      { severity := .error, file := run.doc.diagnostics.file, line := read.doc.line, expanding
        message := (Complaint.unhandled name).message : Diagnostic } ∈ next.doc.diagnostics.entries := by
  obtain ⟨text, number, rest', hi, hread⟩ := controlNext?_eq_some hc
  let taken : Run := { run with doc := { run.doc with input := rest', line := number.getD run.doc.line } }
  have hfile : read.doc.diagnostics.file = run.doc.diagnostics.file := by
    have hjoined : Notes false taken.doc (taken.readStatement text).2.doc := Notes.refl.joinContinuations _ text
    rw [hread] at hjoined
    exact hjoined.file
  obtain ⟨doc, hnotes, hexecute⟩ := execute_unknown read hs hu
  have hstep : run.step =
      .ok (activatePending { read with doc := (doc.error (.unhandled name)).emitUnhandled control }) := by
    rw [step_line hi, interpretLine, hread]
    dsimp only
    rw [hexecute]
    rfl
  refine ⟨_, doc.formatter.expanding, hstep, ?_⟩
  have hwritten : Notes false (doc.error (.unhandled name)) ((doc.error (.unhandled name)).emitUnhandled control) :=
    Notes.refl.emit _
  refine Notes.mem_entries (Notes.activatePending hwritten) ?_
  rw [← hfile, ← hnotes.file, ← hnotes.line rfl]
  exact List.mem_append_right _ (List.mem_singleton_self _)

end Run

namespace Conversion

section
variable {environment : Environment} {hints : Hints} {name request : String} {bytes : List UInt8}
  {detection : Detection} {n : Nat} {run read : Run} {text control arguments : Text} {number : Option Nat}
  {rest : Input}

/-- The complaints of a run are those of its conversion. -/
theorem mem_ended {next : Run} {source : Text} {diagnostic : Diagnostic}
    (hrun : (prepare environment hints name source detection).runAll n = .ok run) (hn : n < environment.limit)
    (hi : run.doc.input ≠ []) (hstep : run.step = .ok next) (hd : diagnostic ∈ next.doc.diagnostics.entries) :
    diagnostic ∈ (ended environment hints name source detection).diagnostics.entries := by
  obtain ⟨left, hleft⟩ := Nat.exists_eq_add_of_lt hn
  have hall : (prepare environment hints name source detection).runAll environment.limit = next.runAll left := by
    rw [hleft, Nat.add_assoc, Run.runAll_add, hrun]
    change run.runAll (left + 1) = _
    rw [Run.runAll, if_neg (by simpa using hi), hstep]
  have hnotes : (next.runAll left).After (Document.Notes false next.doc) := Document.Notes.runAll .refl left
  unfold ended
  rw [hall]
  generalize next.runAll left = result at hnotes
  cases result with
  | ok last => exact (Document.Notes.conclude hnotes).mem_entries hd
  | error stopped => exact hnotes.mem_entries hd

/-- The error for an unknown request names the file and the line at hand. That is the last of the lines that the request
takes up, so its own line if it does not go on with the next one; and the number that a line still has is its number in
the source, without the lines that are dropped from it before the run. -/
theorem unknown_request_located (hdetect : Detection.detect name (sourceOf bytes) = .ok detection)
    (hrun : (prepare environment hints name (sourceOf bytes) detection).runAll n = .ok run)
    (hn : n < environment.limit) (hi : run.doc.input = .line text number :: rest)
    (hc : run.controlNext? = some (control, read))
    (hs : read.doc.splitControl? control = some (request, arguments))
    (hu : read.doc.Unknown
      { name := request, arguments := ControlLine.arguments arguments, rest := arguments, line := control }) :
    (∃ expanding, { severity := .error, file := name, line := read.doc.line, expanding
                    message := (Complaint.unhandled request).message : Diagnostic } ∈
      (ofBytes environment hints name bytes).diagnostics) ∧
    (∃ passed, rest = passed ++ read.doc.input ∧
      read.doc.line = Input.lineAfter run.doc.line (.line text number :: passed) ∧
      (endsInContinuation text = false → passed = [])) ∧
    ∀ k, number = some k →
      Locates (prepare environment hints name (sourceOf bytes) detection).doc.active (sourceOf bytes) text k := by
  have hnotes : Document.Notes false (prepare environment hints name (sourceOf bytes) detection).doc run.doc := by
    have hafter : ((prepare environment hints name (sourceOf bytes) detection).runAll n).After
        (Document.Notes false (prepare environment hints name (sourceOf bytes) detection).doc) :=
      Document.Notes.runAll .refl n
    rw [hrun] at hafter
    exact hafter
  refine ⟨?_, Run.takes_controlNext? hi hc, ?_⟩
  · obtain ⟨next, expanding, hstep, hmem⟩ := Run.step_unknown hc hs hu
    have hfile : run.doc.diagnostics.file = name := by rw [hnotes.file, prepare_diagnostics]
    rw [hfile] at hmem
    refine ⟨expanding, ?_⟩
    rw [(ofBytes_of_detected environment hints hdetect).2]
    exact mem_ended hrun hn (by rw [hi]; exact List.cons_ne_nil _ _) hstep hmem
  · rintro k rfl
    refine locates_of_mem_numbered environment hints name (sourceOf bytes) detection (hnotes.numbered.subset ?_)
    rw [hi]
    exact List.mem_cons_self

end

/-- A page with a request that is in no package on its second line. -/
def strayPage : List UInt8 :=
  (".TH FOO 1\n.XYZZY\n" : Text).map fun c => UInt8.ofNat c.toNat

/-- The run of the page after its first line. -/
def strayRun : Run :=
  (prepare {} {} "foo.1" (sourceOf strayPage) ⟨.man, []⟩).advance

/-- The control line of the request. -/
def strayControl : Text × Run :=
  strayRun.controlNext?.getD ([], strayRun)

theorem strayControl_unknown : strayControl.2.doc.Unknown
    { name := "XYZZY", arguments := ControlLine.arguments [], rest := [], line := strayControl.1 } := by
  have hactive : (Run.breakBefore strayControl.2.doc "XYZZY").active = [.man, .troff] := by decide +kernel
  constructor
  case declined =>
    rw [hactive]
    intro package hp asked
    simp only [List.mem_cons, List.not_mem_nil, or_false] at hp
    rcases hp with rfl | rfl
    · rfl
    · rfl
  all_goals decide +kernel

theorem unknown_request_located_page :
    strayRun.doc.input = [.line ".XYZZY" (some 2)] ∧
    ∃ expanding, { severity := .error, file := "foo.1", line := 2, expanding
                   message := "unhandled request .XYZZY" : Diagnostic } ∈
      (ofBytes {} {} "foo.1" strayPage).diagnostics := by
  have hstep : (prepare {} {} "foo.1" (sourceOf strayPage) ⟨.man, []⟩).step = .ok strayRun :=
    Run.step_eq_advance (by decide +kernel)
  have hstart : (prepare {} {} "foo.1" (sourceOf strayPage) ⟨.man, []⟩).doc.input.isEmpty = false := by decide +kernel
  have hrun : (prepare {} {} "foo.1" (sourceOf strayPage) ⟨.man, []⟩).runAll 1 = .ok strayRun := by
    rw [Run.runAll, hstart, if_neg Bool.false_ne_true, hstep]
    rfl
  have hi : strayRun.doc.input = [.line ".XYZZY" (some 2)] := by decide +kernel
  have hc : strayRun.controlNext? = some (strayControl.1, strayControl.2) := by
    have hsome : strayRun.controlNext?.isSome = true := by decide +kernel
    obtain ⟨found, hfound⟩ := Option.isSome_iff_exists.mp hsome
    rw [strayControl, hfound]
    rfl
  have hs : strayControl.2.doc.splitControl? strayControl.1 = some ("XYZZY", []) := by decide +kernel
  obtain ⟨hraised, ⟨passed, -, hline, halone⟩, -⟩ :=
    unknown_request_located (by rfl) hrun (by decide) hi hc hs strayControl_unknown
  rw [hline, halone (by decide)] at hraised
  exact ⟨hi, hraised⟩

end Conversion

end RoffDocBook
