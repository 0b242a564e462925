import RoffDocBook.Proofs.Expansion.Invocation
import RoffDocBook.Proofs.Expansion.Step

/-! A macro that never ends. Where the last line of its body invokes the macro again and goes on with the next line, the
search for that line passes the end of the body, so that the macro is left before it is expanded again: its nesting
never grows, and the bound on the nesting stops nothing. -/
namespace RoffDocBook.Expansion
open Text Document Conditional

/-- A run never ends if every step of it leads from one stage with input to another one. -/
theorem runAll_of_stages {stage : Run → Prop} (hi : ∀ run, stage run → run.doc.input ≠ [])
    (hs : ∀ run, stage run → ∃ next, run.step = .ok next ∧ stage next) {run : Run} (h : stage run) (limit : Nat) :
    ∃ last, run.runAll limit = .ok last ∧ stage last := by
  induction limit generalizing run with
  | zero => exact ⟨run, rfl, h⟩
  | succ limit ih =>
    obtain ⟨next, hstep, hnext⟩ := hs run h
    obtain ⟨last, hlast, hstage⟩ := ih hnext
    refine ⟨last, ?_, hstage⟩
    rw [Run.runAll, List.isEmpty_eq_false_iff.mpr (hi run h), if_neg Bool.false_ne_true, hstep]
    exact hlast

/-- The control line that invokes a macro and goes on with the next line. -/
def continuedCall (name : String) : Text :=
  call name ++ ['\\']

/-- A document at some place of the input within some macros. -/
def within (base : Document) (input : Input) (line : Nat) (invocations : List Formatter.Invocation) : Document :=
  base.relocated input line base.fired { base.formatter with invocations }

/-- A macro whose only line invokes it again and goes on with the next line. -/
structure SelfContinuing (base : Document) (name : String) : Prop where
  ordinary : Ordinary base name
  unreduced : base.formatter.reductions.get? name = none
  body : base.formatter.macros.get? name = some [continuedCall name]
  pending : base.pending = []

/-- The macro is about to be read, and nothing follows it. -/
def Circling (base : Document) (name : String) (run : Run) : Prop :=
  ∃ line invocation converters, run =
    { doc := within base [.line (continuedCall name) none, .finish line] line [invocation], converters }

theorem Circling.input_ne_nil {base : Document} {name : String} {run : Run} (hc : Circling base name run) :
    run.doc.input ≠ [] := by
  obtain ⟨line, invocation, converters, rfl⟩ := hc
  exact List.cons_ne_nil _ _

section
variable {base : Document} {name : String} (h : SelfContinuing base name)
include h

theorem SelfContinuing.ordinary_within (input : Input) (line : Nat) (invocations : List Formatter.Invocation) :
    Ordinary (within base input line invocations) name :=
  h.ordinary.relocated input line base.fired rfl

theorem endsInContinuation_continuedCall : endsInContinuation (continuedCall name) = true := by
  have hcall : endsInContinuation (call name) = false := endsInContinuation_of_notMem h.ordinary.writable.notMem
  rw [continuedCall, endsInContinuation_append hcall]
  rfl

/-- The line is joined with nothing, and the macro is left. -/
theorem readStatement_continuedCall (line : Nat) (invocation : Formatter.Invocation) (converters : List Converter) :
    Run.readStatement { doc := within base [.finish line] line [invocation], converters } (continuedCall name) =
      (.control (call name), { doc := within base [] line [], converters }) := by
  have hjoined : Run.joinContinuations 1 (within base [.finish line] line [invocation]) (continuedCall name) =
      (call name, within base [] line []) := by
    rw [Run.joinContinuations, endsInContinuation_continuedCall h, if_pos rfl]
    have hdropped : (continuedCall name).dropLast = call name := List.dropLast_concat
    exact congrArg (·, within base [] line []) hdropped
  have hstatement := (h.ordinary_within [] line []).statementOf_call
  unfold Run.readStatement
  change (let joined := Run.joinContinuations 1 (within base [.finish line] line [invocation]) (continuedCall name)
    (Run.statementOf joined.2 joined.1, ({ doc := joined.2, converters } : Run))) = _
  rw [hjoined]
  dsimp only
  rw [hstatement]

/-- The macro is expanded outside of all macros, as it was before. -/
theorem circling_step {run : Run} (hc : Circling base name run) :
    ∃ next, run.step = .ok next ∧ Circling base name next := by
  obtain ⟨line, invocation, converters, rfl⟩ := hc
  let left : Run := { doc := within base [] line [], converters }
  let next : Run :=
    { doc := within base [.line (continuedCall name) none, .finish line] line [{ name, arguments := [], line }]
      converters }
  have hordinary : Ordinary left.doc name := h.ordinary_within [] line []
  have hmacro : left.doc.formatter.macros.contains name = true := by
    change base.formatter.macros.contains name = true
    rw [Bindings.contains, h.body]
    rfl
  have hinvoke : left.doc.invoke (callOf name name) = next.doc :=
    invoke_callOf left.doc h.body (Nat.zero_lt_succ _)
  have hexecute : left.execute (call name) = .ok next := by
    rw [execute_call hordinary h.unreduced hmacro, hinvoke]
  have hinterpret : Run.interpretLine { doc := within base [.finish line] line [invocation], converters }
      (continuedCall name) = .ok next := by
    rw [Run.interpretLine, readStatement_continuedCall h]
    exact hexecute
  have hpending : next.activatePending = next := activatePending_of_nil h.pending
  refine ⟨next, ?_, line, _, converters, rfl⟩
  rw [Run.step_line rfl]
  exact (congrArg (Except.map Run.activatePending) hinterpret).trans (congrArg Except.ok hpending)

end

/-- A run that comes to such a macro on the last line of its input never ends, however many steps it is given. It
complains of nothing on the way, and never has more than one macro open. -/
theorem runAll_circles {run : Run} {name : String} (h : SelfContinuing run.doc name) {number : Option Nat}
    (hi : run.doc.input = [.line (call name) number]) (hv : run.doc.formatter.invocations = []) (limit : Nat) :
    ∃ last, run.runAll limit = .ok last ∧ last.doc.input ≠ [] ∧
      last.doc.diagnostics = run.doc.diagnostics ∧ last.doc.formatter.invocations.length ≤ 1 := by
  cases limit with
  | zero => exact ⟨run, rfl, by rw [hi]; exact List.cons_ne_nil _ _, rfl, by rw [hv]; exact Nat.zero_le 1⟩
  | succ limit =>
    have hdepth : run.doc.formatter.invocations.length < maximalNesting := by
      rw [hv]
      exact Nat.zero_lt_succ _
    have hstep := step_call h.ordinary h.unreduced h.body hdepth h.pending hi
    rw [hv] at hstep
    obtain ⟨last, hlast, hcircling⟩ := runAll_of_stages (fun _ => Circling.input_ne_nil)
      (fun _ => circling_step h) ⟨number.getD run.doc.line, _, run.converters, rfl⟩ limit
    refine ⟨last, ?_, ?_⟩
    · rw [Run.runAll, hi, hstep]
      exact hlast
    · obtain ⟨_, _, _, rfl⟩ := hcircling
      exact ⟨List.cons_ne_nil _ _, rfl, Nat.le_refl 1⟩

/-- A page that invokes such a macro on its last line. -/
def circlingPage : Run :=
  Conversion.prepare {} {} "page.1" ".de R\n.R\\\n..\n.R\n" ⟨.man, []⟩

/-- The run of the page never ends. -/
theorem runAll_circles_page :
    SelfContinuing circlingPage.advance.doc "R" ∧
      ∀ limit, ∃ last, circlingPage.runAll limit = .ok last ∧ last.doc.input ≠ [] := by
  have hself : SelfContinuing circlingPage.advance.doc "R" := by
    refine ⟨?_, ?_, ?_, ?_⟩
    · constructor <;> decide +kernel
    all_goals decide +kernel
  have hstart : circlingPage.doc.input.isEmpty = false := by decide +kernel
  have hstep : circlingPage.step = .ok circlingPage.advance := Run.step_eq_advance (by decide +kernel)
  have hinput : circlingPage.advance.doc.input = [.line (call "R") (some 4)] := by decide +kernel
  have hinvocations : circlingPage.advance.doc.formatter.invocations = [] := by decide +kernel
  refine ⟨hself, fun limit => ?_⟩
  cases limit with
  | zero => exact ⟨circlingPage, rfl, List.isEmpty_eq_false_iff.mp hstart⟩
  | succ limit =>
    obtain ⟨last, hlast, hleft, _⟩ := runAll_circles hself hinput hinvocations limit
    refine ⟨last, ?_, hleft⟩
    rw [Run.runAll, hstart, if_neg Bool.false_ne_true, hstep]
    exact hlast

end RoffDocBook.Expansion
