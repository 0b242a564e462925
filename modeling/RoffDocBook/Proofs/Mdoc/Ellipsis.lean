import RoffDocBook.Package.Mdoc
import RoffDocBook.Proofs.Mdoc.Collection

/-! The requests that make up the synopsis of a command. Whatever lines its brackets are opened and closed on, the
synopsis that is written is that of all their tokens together, and so an ellipsis marks what it follows. -/
namespace RoffDocBook.Mdoc
open Text

/-- What goes on between two requests of the package, which has no part in its state. -/
structure Interlude where
  change : Document → Document
  change_withMdoc (doc : Document) (state : Mdoc.State) : change (doc.withMdoc state) = (change doc).withMdoc state

theorem Interlude.change_mdoc (interlude : Interlude) (doc : Document) : (interlude.change doc).mdoc = doc.mdoc :=
  have same : interlude.change doc = (interlude.change doc).withMdoc doc.mdoc := interlude.change_withMdoc doc doc.mdoc
  (congrArg Document.mdoc same).trans rfl

/-- A request of a synopsis with the clauses that its line is made of, and what goes on before it. -/
structure RequestLine where
  before : Interlude
  request : Request
  clauses : List Clause
  tokens : request.name.toList :: request.arguments = clauses.flatMap Clause.tokens

/-- The requests that a line of a synopsis can begin with. -/
def lineRequests : List String :=
  ["Fl", "Ar", "Cm", "Ic", "Oo", "Oc", "Op"]

theorem RequestLine.name_mem (line : RequestLine) : line.request.name ∈ lineRequests := by
  obtain ⟨before, request, clauses, tokens⟩ := line
  have named {name : String} {rest : List Text} (h : request.name.toList :: request.arguments = name.toList :: rest) :
      request.name = name :=
    String.toList_inj.mp (List.cons.inj h).1
  cases clauses with
  | nil => exact absurd tokens (List.cons_ne_nil _ _)
  | cons clause clauses =>
    cases clause with
    | elements kind words => cases kind <;> simp [named tokens, lineRequests]
    | opening | closing | option => simp [named tokens, lineRequests]

/-- What a line and what goes on before it stand for. -/
def RequestLine.reading (line : RequestLine) : Reading :=
  Reading.andThen ⟨fun doc => ([], line.before.change doc), line.before.change_mdoc⟩ (Clause.line line.clauses)

/-- The name of the command, if it is not the page's own one, and the words after it. -/
inductive Heading where
  | bare
  | named (name : Text) (plain : isCallable name = false ∧ isPunctuation name = false) (words : List LooseWord)

namespace Heading

def tokens : Heading → List Text
  | bare => []
  | named name _ words => name :: words.map LooseWord.token

/-- The name that the synopsis shows. -/
def name (heading : Heading) (doc : Document) : Text × Document :=
  match heading with
  | bare => (doc.mdoc.mainName, doc)
  | named name _ _ => (Markup.stripTags (doc.renderIsolated name).1, (doc.renderIsolated name).2)

def reading : Heading → Reading
  | bare => .of []
  | named _ _ words => .each LooseWord.reading words

theorem name_mdoc (heading : Heading) (doc : Document) : (heading.name doc).2.mdoc = doc.mdoc := by
  cases heading with
  | bare => rfl
  | named name plain words => exact doc.renderIsolated_mdoc name

end Heading

/-- The request that begins the synopsis of a command, and the lines that go on with it. -/
structure CommandEntry where
  request : Request
  heading : Heading
  clauses : List Clause
  lines : List RequestLine
  request_name : request.name = "Nm"
  request_arguments : request.arguments = heading.tokens ++ clauses.flatMap Clause.tokens

/-- What all lines of the synopsis together stand for. -/
def CommandEntry.reading (entry : CommandEntry) : Reading :=
  (entry.heading.reading.andThen (Clause.line entry.clauses)).andThen (.each RequestLine.reading entry.lines)

end RoffDocBook.Mdoc

/-! The synopsis that the requests make up. -/
namespace RoffDocBook.Document
open Text Mdoc

/-- The document after the package has carried out a request. -/
def mdocPerform? (doc : Document) (request : Request) : Option Document :=
  match (doc.mdocPrepare request.name).mdocRequest request with
  | .done doc => some doc
  | _ => none

/-- A request that goes on with a synopsis adds its tokens. -/
theorem mdocPerform?_line (doc : Document) (line : RequestLine) (part : doc.mdoc.part = .synopsis)
    (collecting : doc.mdoc.command.isSome = true) :
    doc.mdocPerform? line.request = some (doc.synopsisTokens (line.clauses.flatMap Clause.tokens)) := by
  have known := line.name_mem
  rw [← line.tokens]
  generalize line.request = request at known ⊢
  obtain ⟨name, arguments, rest, text⟩ := request
  have listed : ∀ name ∈ lineRequests, synopsisRequests.contains name = true := by decide
  have goesOn : (doc.mdoc.part == .synopsis && doc.mdoc.command.isSome && synopsisRequests.contains name) = true := by
    rw [part, collecting, listed name known]
    rfl
  -- None of these requests has a meaning of its own, so that they come to the last alternative.
  have general : doc.mdocGeneral ⟨name, arguments, rest, text⟩ =
      .done (doc.synopsisTokens (name.toList :: arguments)) := by
    have keyless : ∀ name ∈ lineRequests, referenceKey? name = none := by decide
    unfold mdocGeneral
    dsimp only
    rw [keyless name known]
    simp only [lineRequests, List.mem_cons, List.not_mem_nil, or_false] at known
    rcases known with rfl | rfl | rfl | rfl | rfl | rfl | rfl <;> exact if_pos goesOn
  have performed : doc.mdocRequest ⟨name, arguments, rest, text⟩ = doc.mdocGeneral ⟨name, arguments, rest, text⟩ := by
    simp only [lineRequests, List.mem_cons, List.not_mem_nil, or_false] at known
    unfold mdocRequest
    rw [part]
    rcases known with rfl | rfl | rfl | rfl | rfl | rfl | rfl <;> rfl
  rw [mdocPerform?, mdocPrepare, listed name known, Bool.not_true, Bool.and_false, if_neg Bool.false_ne_true, performed,
    general]

/-- The document after the lines of a synopsis. -/
def performLines? (doc : Document) (lines : List RequestLine) : Option Document :=
  lines.foldlM (fun doc line => (line.before.change doc).mdocPerform? line.request) doc

/-- The lines of a synopsis add what they stand for. -/
theorem performLines?_withCommand (lines : List RequestLine) (doc : Document) (command : Command)
    (part : doc.mdoc.part = .synopsis) :
    (doc.withCommand command).performLines? lines =
      let read := (Reading.each RequestLine.reading lines).read doc
      some (read.2.withCommand (read.1.foldl Command.add command)) := by
  induction lines generalizing doc command with
  | nil => rfl
  | cons line lines ih =>
    have keeps := line.before.change_mdoc doc
    have before : line.before.change (doc.withCommand command) = (line.before.change doc).withCommand command := by
      unfold withCommand
      rw [line.before.change_withMdoc, keeps]
    have inPart : (line.before.change doc).mdoc.part = .synopsis := (congrArg (·.part) keeps).trans part
    have next : (line.reading.read doc).2.mdoc.part = .synopsis :=
      (congrArg (·.part) (line.reading.read_mdoc doc)).trans part
    have performed : (line.before.change (doc.withCommand command)).mdocPerform? line.request =
        some ((line.reading.read doc).2.withCommand ((line.reading.read doc).1.foldl Command.add command)) := by
      rw [before, mdocPerform?_line ((line.before.change doc).withCommand command) line inPart rfl]
      exact congrArg some (Collects.line line.clauses _ command)
    rw [performLines?, List.foldlM_cons, performed, Option.bind_eq_bind, Option.bind_some, ← performLines?, ih _ _ next]
    rw [Reading.each, Reading.andThen]
    dsimp only
    rw [List.foldl_append]

theorem beginCommand_heading (doc : Document) (heading : Heading) (clauses : List Clause) :
    doc.beginCommand (heading.tokens ++ clauses.flatMap Clause.tokens) =
      let name := heading.name doc.writeSynopsis
      let read := (heading.reading.andThen (Clause.line clauses)).read name.2
      read.2.withCommand (read.1.foldl Command.add { name := name.1 }) := by
  cases heading with
  | bare =>
    have own : doc.beginCommand (clauses.flatMap Clause.tokens) =
        (doc.writeSynopsis.withCommand { name := doc.writeSynopsis.mdoc.mainName }).synopsisTokens
          (clauses.flatMap Clause.tokens) := by
      cases clauses with
      | nil => rfl
      | cons clause clauses =>
        cases clause with
        | elements kind words => cases kind <;> rfl
        | opening | closing | option => rfl
    exact own.trans (Collects.line clauses _ _)
  | named name plain words =>
    have other : (isCallable name || isPunctuation name) = false := by
      rw [plain.1, plain.2]
      rfl
    rw [Heading.tokens, List.cons_append, beginCommand]
    dsimp only
    rw [other, if_neg Bool.false_ne_true]
    exact (Collects.line clauses).loose_tokens words _ _

/-! Writing what has been collected leaves the part of the page alone. -/

theorem emit_mdoc (doc : Document) (text : Text) : (doc.emit text).mdoc = doc.mdoc := by
  unfold emit
  split <;> rfl

theorem append_mdoc (doc : Document) (text : Text) : (doc.append text).mdoc = doc.mdoc := by
  unfold append
  split <;> rfl

theorem emitMarkup_mdoc (doc : Document) (markup : Text) : (doc.emitMarkup markup).mdoc = doc.mdoc := by
  unfold emitMarkup
  induction Text.lines markup generalizing doc with
  | nil => rfl
  | cons line lines ih => exact (ih (doc.emit line)).trans (doc.emit_mdoc line)

theorem closeParagraph_mdoc (doc : Document) : doc.closeParagraph.mdoc = doc.mdoc := by
  unfold closeParagraph
  split
  · exact (append_mdoc doc.closeFont "</para>").trans (append_mdoc doc.takeFontClose.2 doc.takeFontClose.1)
  · rfl

theorem writeCommand_part (doc : Document) : doc.writeCommand.mdoc.part = doc.mdoc.part := by
  unfold writeCommand
  split
  · rfl
  · dsimp only
    rw [emitMarkup_mdoc, closeParagraph_mdoc]
    split <;> rfl

theorem writeFunctions_part (doc : Document) : doc.writeFunctions.mdoc.part = doc.mdoc.part := by
  unfold writeFunctions
  split
  · rfl
  · dsimp only
    split
    · split
      · rfl
      · rw [emitMarkup_mdoc, closeParagraph_mdoc]
        rfl
    · split
      · rfl
      · rw [emitMarkup_mdoc, closeParagraph_mdoc]

theorem writeSynopsis_part (doc : Document) : doc.writeSynopsis.mdoc.part = doc.mdoc.part :=
  (writeFunctions_part doc.writeCommand).trans (writeCommand_part doc)

/-- The document after all requests of a synopsis. -/
def performSynopsis? (doc : Document) (entry : CommandEntry) : Option Document :=
  (doc.mdocPerform? entry.request).bind (·.performLines? entry.lines)

theorem performSynopsis?_eq (doc : Document) (entry : CommandEntry) (part : doc.mdoc.part = .synopsis) :
    doc.performSynopsis? entry =
      let name := entry.heading.name doc.writeSynopsis
      let read := entry.reading.read name.2
      some (read.2.withCommand (read.1.foldl Command.add { name := name.1 })) := by
  have begun : doc.mdocPerform? entry.request =
      some (doc.beginCommand (entry.heading.tokens ++ entry.clauses.flatMap Clause.tokens)) := by
    have goesOn : synopsisRequests.contains "Nm" = true := by decide
    rw [mdocPerform?, mdocPrepare, entry.request_name, goesOn, Bool.not_true, Bool.and_false,
      if_neg Bool.false_ne_true, mdocRequest, part, entry.request_name, ← entry.request_arguments]
    rfl
  have inPart : ((entry.heading.reading.andThen (Clause.line entry.clauses)).read
      (entry.heading.name doc.writeSynopsis).2).2.mdoc.part = .synopsis := by
    rw [Reading.read_mdoc, Heading.name_mdoc, writeSynopsis_part, part]
  rw [performSynopsis?, begun, Option.bind_some, beginCommand_heading]
  dsimp only
  rw [performLines?_withCommand _ _ _ inPart]
  dsimp only
  rw [← List.foldl_append]
  rfl


theorem writeCommand_withCommand (doc : Document) (command : Command) :
    let closed := doc.withMdoc { doc.mdoc with command := none }
    ∃ ready, (ready = closed ∨ ready = closed.warn .unclosedOption) ∧
      (doc.withCommand command).writeCommand = ready.closeParagraph.emitMarkup command.markup := by
  refine ⟨_, ?_, rfl⟩
  dsimp only
  split
  · exact .inl rfl
  · exact .inr rfl

/-- Every synopsis of a command is written as the outline of all its tokens, whatever lines they are on. In it each
element and each bracket that an ellipsis follows shows the mark, except the group of a bracket with alternatives. A
bracket that is never closed ends with the synopsis, and the document complains about it. -/
theorem writeCommand_performed (entry : CommandEntry) (doc : Document) (part : doc.mdoc.part = .synopsis) :
    let name := entry.heading.name doc.writeSynopsis
    let symbols := (entry.reading.read name.2).1
    (∀ outline : Outline, outline.symbols = symbols → Outline.ofSymbols symbols = outline) ∧
      ∃ after ready, doc.performSynopsis? entry = some after ∧
        (ready = after.withMdoc { after.mdoc with command := none } ∨
          ready = (after.withMdoc { after.mdoc with command := none }).warn .unclosedOption) ∧
        after.writeCommand = ready.closeParagraph.emitMarkup ((Outline.ofSymbols symbols).markup name.1) := by
  intro name symbols
  have performed := doc.performSynopsis?_eq entry part
  obtain ⟨ready, closed, written⟩ :=
    writeCommand_withCommand (entry.reading.read name.2).2 (symbols.foldl Command.add { name := name.1 })
  refine ⟨fun outline same => ?_, _, ready, performed, closed, ?_⟩
  · rw [← same, Outline.ofSymbols_symbols]
  · rw [written, Command.markup_foldl_add]

/-- A page with a synopsis of which one line has an ellipsis after a bracket with alternatives, and another line one
after an element. -/
def alternativesAndFiles : Document × CommandEntry :=
  let page := Document.start "frob.1" {} {}
  let flag (name : Char) (following : List Word) (plain : IsText [name]) : Clause :=
    .elements .flag (.text [name] plain :: following)
  (page.withMdoc { page.mdoc with part := .synopsis },
    { request := ⟨"Nm", ["frob"], " frob", ".Nm frob"⟩
      heading := .named "frob" (by decide) []
      clauses := []
      lines :=
        [{ before := ⟨fun doc => { doc with line := 8 }, fun _ _ => rfl⟩
           request := ⟨"Oo", ["Fl", "a", "|", "Fl", "b", "Oc", "..."], " Fl a | Fl b Oc ...", ".Oo Fl a | Fl b Oc ..."⟩
           clauses :=
             [.opening [], flag 'a' [.bar] (by decide), flag 'b' [] (by decide), .closing [⟨.ellipsis, by decide⟩]]
           tokens := rfl },
         { before := ⟨fun doc => { doc with line := 9 }, fun _ _ => rfl⟩
           request := ⟨"Ar", ["file", "..."], " file ...", ".Ar file ..."⟩
           clauses := [.elements .argument [.text "file" (by decide), .ellipsis]]
           tokens := rfl }]
      request_name := rfl
      request_arguments := rfl })

theorem writeCommand_performed_alternatives :
    alternativesAndFiles.1.mdoc.part = .synopsis ∧
      ∃ after ready : Document, alternativesAndFiles.1.performSynopsis? alternativesAndFiles.2 = some after ∧
        after.writeCommand = ready.closeParagraph.emitMarkup
          ("<cmdsynopsis>\n<command>frob</command>\n" ++
            "<group choice='opt'><arg choice='plain'><option>-a</option></arg>" ++
            "<arg choice='plain'><option>-b</option></arg></group>\n" ++
            "<arg choice='plain' rep='repeat'><replaceable>file</replaceable></arg>\n</cmdsynopsis>") := by
  obtain ⟨_, after, ready, performed, _, written⟩ :=
    writeCommand_performed alternativesAndFiles.2 alternativesAndFiles.1 rfl
  refine ⟨rfl, after, ready, performed, written.trans (congrArg ready.closeParagraph.emitMarkup ?_)⟩
  decide +kernel

end RoffDocBook.Document
