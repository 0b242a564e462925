import RoffDocBook.Conversion.Run
import RoffDocBook.Proofs.Conditional.Program
import RoffDocBook.Proofs.Document.Output
import RoffDocBook.Proofs.Text.Search

/-! The stages of a run over lines of text: what is still to be read, and the guards of conditionals whose second arm
is still to come. Plain text is written at every stage in the same way. -/
namespace RoffDocBook.Conditional
open Text

/-- A document at a stage of the run. -/
def stage (doc : Document) (input : Input) (line : Nat) (fired : List Package) (guards : List Bool) : Document :=
  { doc with input, line, fired, formatter := { doc.formatter with guards } }

/-- A run at some line of a document, with the input that is left and the guards that are kept. -/
def At (run : Run) (doc : Document) (input : Input) (guards : List Bool) : Prop :=
  ∃ line fired converters, run = { doc := stage doc input line fired guards, converters }

/-- Work items that are lines. -/
inductive Lists : Input → List Text → Prop where
  | nil : Lists [] []
  | cons {items : Input} {lines : List Text} (text : Text) (number : Option Nat) (h : Lists items lines) :
      Lists (.line text number :: items) (text :: lines)

theorem lists_mapIdx {lines : List Text} {item : Nat → Text → WorkItem}
    (h : ∀ i text, ∃ number, item i text = .line text number) :
    Lists (lines.mapIdx item) lines := by
  induction lines generalizing item with
  | nil => exact .nil
  | cons text lines ih =>
    obtain ⟨number, hn⟩ := h 0 text
    rw [List.mapIdx_cons, hn]
    exact .cons text number (ih fun i text => h (i + 1) text)

/-- The input of a source lists its lines. -/
theorem lists_ofText (source : Text) : Lists (Input.ofText source) (lines source) :=
  lists_mapIdx fun i _ => ⟨some (i + 1), rfl⟩

theorem lists_append {items : Input} {first second : List Text} (h : Lists items (first ++ second)) :
    ∃ before after, items = before ++ after ∧ Lists before first ∧ Lists after second := by
  induction first generalizing items with
  | nil => exact ⟨[], items, rfl, .nil, h⟩
  | cons line lines ih =>
    obtain _ | ⟨_, number, h⟩ := h
    obtain ⟨before, after, rfl, hb, ha⟩ := ih h
    exact ⟨.line line number :: before, after, rfl, .cons line number hb, ha⟩

/-- Plain text is written in the same way at every stage. -/
theorem stage_textLine (doc : Document) (input : Input) (line : Nat) (fired : List Package) (guards : List Bool)
    {t : Text} (h : '\\' ∉ t) :
    (stage doc input line fired guards).textLine t = stage (doc.textLine t) input line fired guards := by
  have hformatter := (doc.writes_textLine h).formatter
  have hfill : ({ doc.formatter with guards } : Formatter.State).fill = doc.formatter.fill := rfl
  refine (doc.relocated_textLine input line fired hfill h).trans ?_
  rw [stage, hformatter]
  rfl

/-! What the lines of a program are read as: its texts as text, its requests as requests, and the end of a block as a
control line without a name. -/

/-- A line without escapes, but that a block may open at its end. -/
def Simple (line : Text) : Prop :=
  ∃ before after, line = before ++ after ∧ '\\' ∉ before ∧ (after = [] ∨ after = ['\\', '{'])

theorem simple_of_notMem {line : Text} (h : '\\' ∉ line) : Simple line :=
  ⟨line, [], (List.append_nil line).symm, h, Or.inl rfl⟩

theorem simple_append {before line : Text} (hb : '\\' ∉ before) (h : Simple line) : Simple (before ++ line) := by
  obtain ⟨start, after, rfl, hs, ha⟩ := h
  refine ⟨before ++ start, after, (List.append_assoc before start after).symm, ?_, ha⟩
  rw [List.mem_append, not_or]
  exact ⟨hb, hs⟩

theorem simple_head (arm : Arm) : Simple arm.head := by
  cases arm with
  | line plain => exact simple_of_notMem plain.notMem
  | block body => exact ⟨[], ['\\', '{'], rfl, by simp, Or.inr rfl⟩

theorem notMem_guard (guard : Guard) : '\\' ∉ guard.text := by
  cases guard with
  | nroff => decide
  | troff => decide
  | integer sign numeral => exact fun h => (Guard.integer_chars h).2.1 rfl

theorem simple_guarded (guard : Guard) (arm : Arm) : Simple (guarded guard arm) := by
  have hspace : '\\' ∉ guard.text ++ [' '] := by
    rw [List.mem_append, not_or]
    exact ⟨notMem_guard guard, by decide⟩
  have h := simple_append hspace (simple_head arm)
  rwa [List.append_assoc] at h

/-- The names of conditional requests. -/
def names : List String := ["if", "ie", "el"]

theorem if_mem_names : "if" ∈ names := by decide

theorem ie_mem_names : "ie" ∈ names := by decide

theorem el_mem_names : "el" ∈ names := by decide

theorem simple_controlLine {name : String} (hn : name ∈ names) {rest : Text} (h : Simple rest) :
    Simple (controlLine name rest) := by
  have hbefore : '\\' ∉ '.' :: (name.toList ++ [' ']) := by
    revert name
    decide
  have hline := simple_append hbefore h
  rwa [List.cons_append, List.append_assoc] at hline

theorem endsInContinuation_of_notMem {t : Text} (h : '\\' ∉ t) : endsInContinuation t = false := by
  have hnone : t.reverse.takeWhile (· == '\\') = [] := by
    have hr : '\\' ∉ t.reverse := by rwa [List.mem_reverse]
    cases hcs : t.reverse with
    | nil => rfl
    | cons c cs =>
      rw [hcs, List.mem_cons, not_or] at hr
      simp [Ne.symm hr.1]
  rw [endsInContinuation, hnone]
  rfl

theorem endsInContinuation_append {before : Text} (hb : endsInContinuation before = false) (t : Text) :
    endsInContinuation (before ++ t) = endsInContinuation t := by
  unfold endsInContinuation at hb ⊢
  rw [List.reverse_append, List.takeWhile_append]
  split
  · rename_i hall
    simp only [beq_eq_false_iff_ne] at hb
    rw [List.length_append, hall, Bool.eq_iff_iff, beq_iff_eq, beq_iff_eq]
    omega
  · rfl

theorem dropComment_go_append {before : Text} (hb : '\\' ∉ before) (t : Text) :
    dropComment.go (before ++ t) = (dropComment.go t).map (before ++ ·) := by
  induction before with
  | nil => simp
  | cons c cs ih =>
    rw [List.mem_cons, not_or] at hb
    rw [List.cons_append, dropComment.go, ih hb.2, Option.map_map]
    · rfl
    · intro d rest hc
      exact absurd hc.symm hb.1

namespace Simple
variable {line : Text}

/-- No escape but the opening of a block is found on the line. -/
theorem contains_escape (h : Simple line) {e : Char} (he : e ≠ '{') : contains line ['\\', e] = false := by
  obtain ⟨before, after, rfl, hb, rfl | rfl⟩ := h
  · rw [contains_append hb]
    rfl
  · rw [contains_append hb]
    simp [contains, breakOn?, dropStart?, he]

theorem expand (h : Simple line) (s : Formatter.State) : s.expand line = line := by
  have hm : Formatter.State.mentionsStrings line = false := by
    rw [Formatter.State.mentionsStrings, Bool.or_eq_false_iff]
    exact ⟨h.contains_escape (by decide), h.contains_escape (by decide)⟩
  rw [Formatter.State.expand, hm, if_neg Bool.false_ne_true]

theorem dropComment_go (h : Simple line) : dropComment.go line = none := by
  obtain ⟨before, after, rfl, hb, ha⟩ := h
  have hafter : dropComment.go after = none := by rcases ha with rfl | rfl <;> rfl
  rw [dropComment_go_append hb, hafter, Option.map_none]

theorem dropComment (h : Simple line) : RoffDocBook.dropComment line = line := by
  rw [RoffDocBook.dropComment, h.dropComment_go]

theorem endsInContinuation (h : Simple line) : RoffDocBook.endsInContinuation line = false := by
  obtain ⟨before, after, rfl, hb, ha⟩ := h
  rw [endsInContinuation_append (endsInContinuation_of_notMem hb)]
  rcases ha with rfl | rfl <;> rfl

end Simple

/-- Conditional requests have their usual meaning, and no package is about to come into use. -/
structure Ready (doc : Document) : Prop where
  active : doc.active = [.man, .troff]
  pending : doc.pending = []
  control : doc.formatter.control = '.'
  noBreak : doc.formatter.noBreak = '\''
  ignored : ∀ name ∈ names, name ∉ doc.settings.ignored
  macros : ∀ name ∈ names, doc.formatter.macros.contains name = false
  reductions : ∀ name ∈ names, doc.formatter.reductions.get? name = none

theorem Ready.stage {doc : Document} (h : Ready doc) (input : Input) (line : Nat) (fired : List Package)
    (guards : List Bool) : Ready (stage doc input line fired guards) :=
  ⟨h.active, h.pending, h.control, h.noBreak, h.ignored, h.macros, h.reductions⟩

/-- A line that is no comment and opens no block at its start is a request or text by its first character. -/
theorem statementOf_simple (doc : Document) {line : Text} (hs : Simple line) (hc : ControlLine.isComment line = false)
    (ho : dropStart? ['\\', '{'] line = none) :
    Run.statementOf doc line =
      if ControlLine.isControl line doc.formatter.control doc.formatter.noBreak then .control line else .text line := by
  have hcloses : contains line "\\\x7d" = false := hs.contains_escape (by decide)
  have hopens : dropStart? "\\\x7b" line = none := ho
  rw [Run.statementOf, hc, if_neg Bool.false_ne_true, hs.expand]
  simp only [hcloses, Bool.or_false, Bool.false_eq_true, if_false, Bool.false_and, hopens, Option.getD_none,
    hs.dropComment]

section
variable {doc : Document} (h : Ready doc)
include h

theorem statementOf_plain (plain : PlainLine) : Run.statementOf doc plain.text = .text plain.text := by
  have hfirst := plain.unescaped
  rw [List.mem_cons, not_or] at hfirst
  have hcomment : ControlLine.isComment plain.text = false := by
    have hstart (ps : Text) : startsWith (plain.first :: plain.rest) ('\\' :: ps) = false :=
      startsWith_of_ne hfirst.1 ps plain.rest
    unfold ControlLine.isComment PlainLine.text
    split
    · rename_i hdot
      exact absurd (List.cons.inj hdot).1 plain.notControl.1
    · rename_i hquote
      exact absurd (List.cons.inj hquote).1 plain.notControl.2
    · exact Bool.or_eq_false_iff.mpr ⟨hstart _, hstart _⟩
  have hcontrol : ControlLine.isControl plain.text doc.formatter.control doc.formatter.noBreak = false := by
    rw [h.control, h.noBreak]
    simp [ControlLine.isControl, PlainLine.text, plain.notControl.1, plain.notControl.2]
  have hopens : dropStart? ['\\', '{'] plain.text = none := dropStart?_of_ne hfirst.1 _ _
  have hs : Simple plain.text := simple_of_notMem plain.notMem
  rw [statementOf_simple doc hs hcomment hopens, hcontrol, if_neg Bool.false_ne_true]

theorem isControl_dot (rest : Text) :
    ControlLine.isControl ('.' :: rest) doc.formatter.control doc.formatter.noBreak = true := by
  rw [h.control]
  rfl

theorem statementOf_request {name : String} (hn : name ∈ names) {rest : Text} (hr : Simple rest) :
    Run.statementOf doc (controlLine name rest) = .control (controlLine name rest) := by
  have hcomment : ControlLine.isComment (controlLine name rest) = false := by
    simp only [names, List.mem_cons, List.not_mem_nil, or_false] at hn
    rcases hn with rfl | rfl | rfl <;> rfl
  have hopens : dropStart? ['\\', '{'] (controlLine name rest) = none := dropStart?_of_ne (by decide) _ _
  rw [statementOf_simple doc (simple_controlLine hn hr) hcomment hopens, controlLine, isControl_dot h, if_pos rfl]

theorem statementOf_blockEnd : Run.statementOf doc blockEnd = .control ['.'] := by
  have hexpand : doc.formatter.expand blockEnd = blockEnd := rfl
  have hcomment : ControlLine.isComment blockEnd = false := by decide
  have hcloses : contains blockEnd "\\\x7d" = true := by decide
  have hreplace : replace blockEnd "\\\x7d" "" = ['.'] := by decide
  have hblank : isAllBlank ['.'] = false := by decide
  have hopens : dropStart? "\\\x7b" ['.'] = none := by decide
  rw [Run.statementOf, hcomment, if_neg Bool.false_ne_true, hexpand]
  simp only [hcloses, Bool.or_true, if_true, hreplace, hblank, Bool.and_false, Bool.false_eq_true, if_false, hopens,
    Option.getD_none, isControl_dot h]
  rfl

theorem splitControl_request {name : String} (hn : name ∈ names) (rest : Text) :
    doc.splitControl? (controlLine name rest) = some (name, rest) := by
  rw [Document.splitControl?, h.control, h.noBreak]
  simp only [names, List.mem_cons, List.not_mem_nil, or_false] at hn
  rcases hn with rfl | rfl | rfl <;> rfl

/-- A control character alone is no request. -/
theorem splitControl_dot : doc.splitControl? ['.'] = none := by
  rw [Document.splitControl?, h.control, h.noBreak]
  rfl

theorem not_listed {table : Descriptor → List String} {name : String}
    (hm : name ∉ table Descriptor.man) (ht : name ∉ table Descriptor.troff) : doc.listed table name = false := by
  rw [Document.listed, h.active]
  simp only [List.any_cons, List.any_nil, Bool.or_false, Bool.or_eq_false_iff, List.contains_eq_mem,
    decide_eq_false_iff_not]
  exact ⟨hm, ht⟩

end

/-- The request that is read from a control line. -/
def requestOf (name : String) (rest : Text) : Request :=
  { name, arguments := ControlLine.arguments rest, rest, line := controlLine name rest }

theorem manRequest_declined (doc : Document) {name : String} (hn : name ∈ names) (rest : Text) :
    doc.manRequest (requestOf name rest) = .declined := by
  simp only [names, List.mem_cons, List.not_mem_nil, or_false] at hn
  rcases hn with rfl | rfl | rfl <;> rfl

/-- What the descriptions of the packages say of no conditional request. -/
theorem not_listed_names {doc : Document} (h : Ready doc) {name : String} (hn : name ∈ names) :
    doc.listed Descriptor.ignored name = false ∧ doc.listed Descriptor.unportable name = false ∧
      doc.listed Descriptor.listBreaks name = false ∧ doc.listed Descriptor.paragraphBreaks name = false ∧
      doc.listed Descriptor.sectionBreaks name = false := by
  simp only [names, List.mem_cons, List.not_mem_nil, or_false] at hn
  refine ⟨not_listed h ?_ ?_, not_listed h ?_ ?_, not_listed h ?_ ?_, not_listed h ?_ ?_, not_listed h ?_ ?_⟩
  all_goals rcases hn with rfl | rfl | rfl <;> simp [Descriptor.man, Descriptor.troff]

/-- A conditional request is carried out by the formatter. -/
theorem execute_request {run : Run} (h : Ready run.doc) {name : String} (hn : name ∈ names) {rest : Text}
    {doc : Document} (hd : run.doc.formatterRequest (requestOf name rest) = .done doc) :
    run.execute (controlLine name rest) = .ok { run with doc := Run.noteFired doc .troff } := by
  obtain ⟨hignored, hunportable, hlist, hparagraph, hsection⟩ := not_listed_names h hn
  have hsettings : run.doc.settings.ignored.contains name = false := by
    simpa using h.ignored name hn
  have hbreak : Run.breakBefore run.doc name = run.doc := by
    simp [Run.breakBefore, Document.isListBreak, Document.isParagraphBreak, Document.isSectionBreak, hlist,
      hparagraph, hsection]
  have hreduced : run.doc.formatter.reductions.get? name = none := h.reductions name hn
  have hmacro : run.doc.formatter.macros.contains name = false := h.macros name hn
  have hblocks : name ≠ "TS" ∧ name ≠ "EQ" ∧ name ≠ "PS" := by
    simp only [names, List.mem_cons, List.not_mem_nil, or_false] at hn
    rcases hn with rfl | rfl | rfl <;> simp
  have hoffer : run.offer (requestOf name rest) run.doc.active = .ok { run with doc := Run.noteFired doc .troff } := by
    rw [h.active]
    simp only [Run.offer, Run.prepare, Run.interpret, manRequest_declined run.doc hn rest, hd]
  unfold Run.execute
  rw [splitControl_request h hn]
  simp only [Document.isIgnored, Document.isUnportable, hignored, hunportable, hsettings, hbreak, hreduced]
  simp only [Bool.or_self, Bool.false_eq_true, if_false, Option.getD_none, beq_iff_eq, hblocks, hmacro, Bool.and_false]
  exact hoffer

end RoffDocBook.Conditional
