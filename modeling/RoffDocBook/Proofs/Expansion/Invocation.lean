import RoffDocBook.Proofs.Conditional.Line
import RoffDocBook.Proofs.Conditional.Selection
import RoffDocBook.Proofs.Expansion.Step
import RoffDocBook.Proofs.Formatter.Expansion

/-! Control lines of requests. Whatever follows the name, its expansion and the removal of a comment leave a control
line of the same name. -/
namespace RoffDocBook.Expansion
open Text Document Conditional

/-- What follows the name of a request on its line: nothing, or a space first. -/
def Apart (after : Text) : Prop :=
  after = [] ∨ ∃ rest, after = ' ' :: rest

theorem Apart.of_isPrefix {t u : Text} (h : Apart t) (hp : u <+: t) : Apart u := by
  obtain ⟨rest, rfl⟩ := hp
  cases u with
  | nil => exact Or.inl rfl
  | cons c cs =>
    rcases h with h | ⟨more, h⟩
    · cases h
    · exact Or.inr ⟨cs, by rw [(List.cons.inj h).1]⟩

theorem Apart.expand {t : Text} (h : Apart t) (s : Formatter.State) : Apart (s.expand t) := by
  have hspace : '\\' ∉ [' '] := by decide
  rcases h with rfl | ⟨rest, rfl⟩
  · exact Or.inl rfl
  · exact Or.inr ⟨_, s.expand_append hspace rest⟩

/-- A name that can stand on a control line. -/
structure Writable (name : String) : Prop where
  nonempty : name.toList ≠ []
  unbroken : ∀ c ∈ name.toList, isBlank c = false ∧ c ≠ '\\'

/-- The control line of a request, with what follows its name. -/
def requestLine (name : String) (after : Text) : Text :=
  '.' :: name.toList ++ after

theorem isPrefix_trimEnd (t : Text) : trimEnd t <+: t := by
  rw [trimEnd, ← List.reverse_suffix, List.reverse_reverse]
  exact List.dropWhile_suffix _

namespace Writable
variable {name : String} (h : Writable name)
include h

theorem notMem : '\\' ∉ '.' :: name.toList := by
  rw [List.mem_cons, not_or]
  exact ⟨by decide, fun hc => (h.unbroken _ hc).2 rfl⟩

theorem isComment (after : Text) : ControlLine.isComment (requestLine name after) = false := by
  obtain ⟨c, cs, hn⟩ := List.exists_cons_of_ne_nil h.nonempty
  obtain ⟨hblank, hescape⟩ := h.unbroken c (by rw [hn]; exact List.mem_cons_self)
  have hstart (ps : Text) : startsWith (trimStart (name.toList ++ after)) ('\\' :: ps) = false := by
    rw [hn, List.cons_append, trimStart, List.dropWhile_cons_of_neg (by rw [hblank]; exact Bool.false_ne_true)]
    exact startsWith_of_ne (Ne.symm hescape) _ _
  exact Bool.or_eq_false_iff.mpr ⟨hstart _, hstart _⟩

theorem splitControl (doc : Document) (hc : doc.formatter.control = '.') {after : Text} (ha : Apart after) :
    doc.splitControl? (requestLine name after) = some (name, after.tail) := by
  have hbody : (name.toList ++ after).dropWhile isSpaceOrTab = name.toList ++ after := by
    obtain ⟨c, cs, hn⟩ := List.exists_cons_of_ne_nil h.nonempty
    have hblank := (h.unbroken c (by rw [hn]; exact List.mem_cons_self)).1
    have hspace : ¬ isSpaceOrTab c = true := by
      rw [isSpaceOrTab, Bool.or_eq_true, beq_iff_eq, beq_iff_eq]
      rintro (rfl | rfl) <;> cases hblank
    rw [hn, List.cons_append, List.dropWhile_cons_of_neg hspace]
  have hname : ∀ c ∈ name.toList, (!(isBlank c || c == '\\')) = true := by
    intro c hc
    obtain ⟨hblank, hescape⟩ := h.unbroken c hc
    rw [hblank, beq_false_of_ne hescape]
    rfl
  have hafter : after.takeWhile (fun c => !(isBlank c || c == '\\')) = [] ∧
      after.dropWhile (fun c => !(isBlank c || c == '\\')) = after := by
    rcases ha with rfl | ⟨rest, rfl⟩ <;> exact ⟨rfl, rfl⟩
  have hempty : name.toList.isEmpty = false := List.isEmpty_eq_false_iff.mpr h.nonempty
  rw [splitControl?, requestLine, List.cons_append, ControlLine.split?, hc]
  simp only [beq_self_eq_true, Bool.true_or, if_true, hbody, spanUntil, List.takeWhile_append_of_pos hname,
    List.dropWhile_append_of_pos hname, hafter, List.append_nil, hempty, Bool.false_eq_true, if_false,
    String.ofList_toList]
  rcases ha with rfl | ⟨rest, rfl⟩ <;> rfl

/-- The name does not end in a blank. -/
theorem trimEnd (after : Text) : Text.trimEnd (requestLine name after) = requestLine name (Text.trimEnd after) := by
  obtain ⟨front, last, hl⟩ : ∃ front last, name.toList = front ++ [last] := by
    rcases List.eq_nil_or_concat name.toList with hn | ⟨front, last, hl⟩
    · exact absurd hn h.nonempty
    · exact ⟨front, last, by rw [hl, List.concat_eq_append]⟩
  have hlast : ¬ isBlank last = true := by
    rw [(h.unbroken last (by rw [hl]; simp)).1]
    exact Bool.false_ne_true
  have hreverse (u : Text) : (requestLine name u).reverse = u.reverse ++ last :: ('.' :: front).reverse := by
    simp [requestLine, hl]
  rw [Text.trimEnd, Text.trimEnd, hreverse, List.dropWhile_append]
  split
  · rename_i hempty
    rw [List.isEmpty_iff.mp hempty, List.dropWhile_cons_of_neg hlast]
    simp [requestLine, hl]
  · simp [requestLine, hl]

theorem dropComment {after : Text} (ha : Apart after) :
    ∃ rest, Apart rest ∧ RoffDocBook.dropComment (requestLine name after) = requestLine name rest := by
  rw [RoffDocBook.dropComment, requestLine, dropComment_go_append h.notMem]
  cases hg : dropComment.go after with
  | none => exact ⟨after, ha, rfl⟩
  | some before =>
    refine ⟨Text.trimEnd before, Apart.of_isPrefix ?_ (isPrefix_trimEnd before), h.trimEnd before⟩
    rcases ha with rfl | ⟨rest, rfl⟩
    · cases hg
    · have hspace : '\\' ∉ [' '] := by decide
      have hmap := (dropComment_go_append hspace rest).symm.trans hg
      obtain ⟨more, _, rfl⟩ := Option.map_eq_some_iff.mp hmap
      exact Or.inr ⟨more, rfl⟩

theorem expand (s : Formatter.State) (after : Text) :
    s.expand (requestLine name after) = requestLine name (s.expand after) :=
  s.expand_append h.notMem after

/-- The line is carried out as a request of that name, whatever it expands to. -/
theorem statementOf (doc : Document) (hc : doc.formatter.control = '.') {after : Text} (ha : Apart after) :
    ∃ rest, Apart rest ∧ Run.statementOf doc (requestLine name after) = .control (requestLine name rest) := by
  have hexpand := h.expand doc.formatter after
  have happart := ha.expand doc.formatter
  obtain ⟨opened, hopened, heq⟩ : ∃ opened, Apart opened ∧
      (if contains (requestLine name after) "\\\x7d" ||
          contains (requestLine name (doc.formatter.expand after)) "\\\x7d" then
        replace (requestLine name (doc.formatter.expand after)) "\\\x7d" "" else
        requestLine name (doc.formatter.expand after)) = requestLine name opened := by
    split
    · refine ⟨replace (doc.formatter.expand after) "\\\x7d" "", ?_, replace_append h.notMem⟩
      rcases happart with hn | ⟨rest, hr⟩
      · rw [hn]
        exact Or.inl rfl
      · have hspace : '\\' ∉ [' '] := by decide
        rw [hr]
        exact Or.inr ⟨_, replace_append hspace⟩
    · exact ⟨_, happart, rfl⟩
  obtain ⟨rest, hrest, hdropped⟩ := h.dropComment hopened
  have hblank : isAllBlank (requestLine name opened) = false := rfl
  have hopens : dropStart? "\\\x7b" (requestLine name opened) = none := dropStart?_of_ne (by decide) _ _
  have hcontrol : ControlLine.isControl (requestLine name opened) doc.formatter.control doc.formatter.noBreak = true := by
    rw [hc]
    rfl
  refine ⟨rest, hrest, ?_⟩
  rw [Run.statementOf, h.isComment, if_neg Bool.false_ne_true, hexpand]
  dsimp only
  rw [heq, hblank, Bool.and_false, if_neg Bool.false_ne_true, hopens, Option.getD_none, hcontrol, if_pos rfl,
    hdropped]

end Writable

end RoffDocBook.Expansion

/-! What the control line of a macro without arguments asks for. A macro that is no more than another name of a standard
request acts as that request, and any other macro puts its body in front of the input. -/
namespace RoffDocBook.Expansion
open Text Document Conditional

/-- The control line that invokes a macro without arguments. -/
def call (name : String) : Text :=
  '.' :: name.toList

theorem requestLine_nil (name : String) : requestLine name [] = call name :=
  List.append_nil _

theorem arguments_nil : ControlLine.arguments [] = [] := by
  simp [ControlLine.arguments]

/-- The request that this line makes under the name that carries it out. -/
def callOf (name effective : String) : Request :=
  { name := effective, arguments := [], rest := [], line := call name }

/-- A name that can stand on a control line, and that no package in use and no setting has a meaning for. -/
structure Ordinary (doc : Document) (name : String) : Prop where
  nonempty : name.toList ≠ []
  unbroken : (name.toList.all fun c => !(isBlank c || c == '\\')) = true
  control : doc.formatter.control = '.'
  ignored : doc.isIgnored name = false
  unportable : doc.isUnportable name = false
  listBreak : doc.isListBreak name = false
  paragraphBreak : doc.isParagraphBreak name = false
  sectionBreak : doc.isSectionBreak name = false
  block : name ≠ "TS" ∧ name ≠ "EQ" ∧ name ≠ "PS"

namespace Ordinary
variable {doc : Document} {name : String} (h : Ordinary doc name)
include h

theorem writable : Writable name := by
  refine ⟨h.nonempty, fun c hc => ?_⟩
  have hall := List.all_eq_true.mp h.unbroken c hc
  simpa using hall

theorem statementOf_call : Run.statementOf doc (call name) = .control (call name) := by
  have hs : Simple (call name) := simple_of_notMem h.writable.notMem
  have hcomment : ControlLine.isComment (call name) = false := by
    rw [← requestLine_nil]
    exact h.writable.isComment []
  have hcontrol : ControlLine.isControl (call name) doc.formatter.control doc.formatter.noBreak = true := by
    rw [h.control]
    rfl
  rw [statementOf_simple doc hs hcomment rfl, hcontrol, if_pos rfl]

theorem splitControl_call : doc.splitControl? (call name) = some (name, []) := by
  rw [← requestLine_nil, h.writable.splitControl doc h.control (Or.inl rfl)]
  rfl

theorem relocated (input : Input) (line : Nat) (fired : List Package) {formatter : Formatter.State}
    (hc : formatter.control = doc.formatter.control) : Ordinary (doc.relocated input line fired formatter) name :=
  ⟨h.nonempty, h.unbroken, hc.trans h.control, h.ignored, h.unportable, h.listBreak, h.paragraphBreak, h.sectionBreak,
    h.block⟩

theorem breakBefore_eq : Run.breakBefore doc name = doc := by
  simp [Run.breakBefore, h.listBreak, h.paragraphBreak, h.sectionBreak]

end Ordinary

/-- What a macro does that can be nested more deeply. -/
theorem invoke_callOf (doc : Document) {name : String} {body : List Text}
    (hb : doc.formatter.macros.get? name = some body) (hd : doc.formatter.invocations.length < maximalNesting) :
    doc.invoke (callOf name name) =
      doc.relocated (Input.pushLines (.finish doc.line :: doc.input) body) doc.line doc.fired
        { doc.formatter with
          invocations := { name, arguments := [], line := doc.line } :: doc.formatter.invocations } := by
  have hbody : doc.formatter.macros.get? (callOf name name).name = some body := hb
  rw [invoke, if_neg (Nat.not_le_of_lt hd), hbody]
  rfl

section
variable {run : Run} {name : String} (h : Ordinary run.doc name)
include h

/-- The line is carried out as it stands. -/
theorem readStatement_call : run.readStatement (call name) = (.control (call name), run) := by
  have hcomplete : endsInContinuation (call name) = false := endsInContinuation_of_notMem h.writable.notMem
  rw [readStatement_line run hcomplete, h.statementOf_call]

theorem interpretLine_call : run.interpretLine (call name) = run.execute (call name) := by
  rw [Run.interpretLine, readStatement_call h]

/-- A macro of its own is expanded. -/
theorem execute_call (hr : run.doc.formatter.reductions.get? name = none)
    (hm : run.doc.formatter.macros.contains name = true) :
    run.execute (call name) = .ok { run with doc := run.doc.invoke (callOf name name) } := by
  unfold Run.execute
  rw [h.splitControl_call]
  simp only [h.ignored, h.unportable, h.breakBefore_eq, hr, arguments_nil]
  simp only [Option.getD_none, Bool.false_eq_true, if_false, beq_iff_eq, h.block, Option.isNone_none]
  rw [hm, Bool.and_self, if_pos rfl]
  rfl

/-- A request that is no macro is offered to the packages in use. -/
theorem execute_offered (hr : run.doc.formatter.reductions.get? name = none)
    (hm : run.doc.formatter.macros.contains name = false) :
    run.execute (call name) = run.offer (callOf name name) run.doc.active := by
  unfold Run.execute
  rw [h.splitControl_call]
  simp only [h.ignored, h.unportable, h.breakBefore_eq, hr, arguments_nil]
  simp only [Option.getD_none, Bool.false_eq_true, if_false, beq_iff_eq, h.block, Option.isNone_none]
  rw [hm, Bool.and_false, if_neg Bool.false_ne_true]
  rfl

/-- A macro that is another name of a standard request acts as that request does without arguments. -/
theorem execute_reduced {only : String} (hr : run.doc.formatter.reductions.get? name = some only)
    (ho : only ≠ "TS" ∧ only ≠ "EQ" ∧ only ≠ "PS") :
    run.execute (call name) = run.offer (callOf name only) run.doc.active := by
  unfold Run.execute
  rw [h.splitControl_call]
  simp only [h.ignored, h.unportable, h.breakBefore_eq, hr, arguments_nil]
  simp only [Option.getD_some, Bool.false_eq_true, if_false, beq_iff_eq, ho, Option.isNone_some, Bool.false_and]
  rfl

end

/-- A step over the invocation of a macro puts its body and the mark of its end in front of the input. -/
theorem step_call {run : Run} {name : String} (h : Ordinary run.doc name)
    (hr : run.doc.formatter.reductions.get? name = none) {body : List Text}
    (hb : run.doc.formatter.macros.get? name = some body)
    (hd : run.doc.formatter.invocations.length < maximalNesting) (hp : run.doc.pending = []) {number : Option Nat}
    {rest : Input} (hi : run.doc.input = .line (call name) number :: rest) :
    run.step = .ok
      { run with
        doc := run.doc.relocated (Input.pushLines (.finish (number.getD run.doc.line) :: rest) body)
          (number.getD run.doc.line) run.doc.fired
          { run.doc.formatter with
            invocations :=
              { name, arguments := [], line := number.getD run.doc.line } :: run.doc.formatter.invocations } } := by
  let taken : Run := { run with doc := { run.doc with input := rest, line := number.getD run.doc.line } }
  have hordinary : Ordinary taken.doc name := h.relocated rest _ run.doc.fired rfl
  have hmacro : taken.doc.formatter.macros.contains name = true := by
    change run.doc.formatter.macros.contains name = true
    rw [Bindings.contains, hb]
    rfl
  have hinterpret : taken.interpretLine (call name) = .ok { taken with doc := taken.doc.invoke (callOf name name) } := by
    rw [interpretLine_call hordinary, execute_call hordinary hr hmacro]
  rw [invoke_callOf taken.doc hb hd] at hinterpret
  rw [Run.step_line hi]
  refine (congrArg (Except.map Run.activatePending) hinterpret).trans ?_
  exact congrArg Except.ok (activatePending_of_nil hp)

end RoffDocBook.Expansion
