import RoffDocBook.Conversion.Run
import RoffDocBook.Proofs.Conditional.Line

/-! The lines of a block that is passed over are passed over as a whole, up to the end of the block. -/
namespace RoffDocBook.Conditional
open Text Document

theorem blockBalance_of_notMem {line : Text} (h : '\\' ∉ line) : blockBalance line = 0 := by
  rw [blockBalance]
  simp only [show ("\\\x7b" : Text) = ['\\', '{'] from rfl, show ("\\\x7d" : Text) = ['\\', '}'] from rfl,
    occurrences_of_notMem h]
  rfl

/-- What stands before the first escape of a line opens and closes nothing. -/
theorem blockBalance_append {before : Text} (h : '\\' ∉ before) (line : Text) :
    blockBalance (before ++ line) = blockBalance line := by
  rw [blockBalance, blockBalance]
  simp only [show ("\\\x7b" : Text) = ['\\', '{'] from rfl, show ("\\\x7d" : Text) = ['\\', '}'] from rfl,
    occurrences_append h]

theorem blockBalance_blockEnd : blockBalance blockEnd = -1 := by
  decide

theorem blockBalance_guarded (guard : Guard) (arm : Arm) :
    blockBalance (guarded guard arm) = blockBalance arm.head := by
  have hspace : '\\' ∉ guard.text ++ [' '] := by
    rw [List.mem_append, not_or]
    exact ⟨notMem_guard guard, by decide⟩
  have h := blockBalance_append hspace arm.head
  rwa [List.append_assoc] at h

theorem blockBalance_controlLine {name : String} (hn : name ∈ names) (rest : Text) :
    blockBalance (controlLine name rest) = blockBalance rest := by
  have hbefore : '\\' ∉ '.' :: (name.toList ++ [' ']) := by
    revert name
    decide
  have h := blockBalance_append hbefore rest
  rwa [List.cons_append, List.append_assoc] at h

section
variable (doc : Document) (fired : List Package) (guards : List Bool)

/-- Passing over lines takes them from the input. -/
def Skips (items : Input) (before after : Int) : Prop :=
  ∀ (left : Nat) (rest : Input) (line : Nat), ∃ next,
    skipBlock.go (items.length + left) before (stage doc (items ++ rest) line fired guards) =
      skipBlock.go left after (stage doc rest next fired guards)

theorem skips_nil (depth : Int) : Skips doc fired guards [] depth depth := by
  intro left rest line
  refine ⟨line, ?_⟩
  rw [List.length_nil, Nat.zero_add, List.nil_append]

theorem skips_append {first second : Input} {a b c : Int} (h : Skips doc fired guards first a b)
    (k : Skips doc fired guards second b c) : Skips doc fired guards (first ++ second) a c := by
  intro left rest line
  obtain ⟨middle, hm⟩ := h (second.length + left) (second ++ rest) line
  obtain ⟨next, hn⟩ := k left rest middle
  refine ⟨next, ?_⟩
  rw [List.length_append, Nat.add_assoc, List.append_assoc, hm, hn]

theorem skips_line {text : Text} {number : Option Nat} {before after : Int} (hb : 0 < before)
    (ha : before + blockBalance text = after) : Skips doc fired guards [.line text number] before after := by
  intro left rest line
  refine ⟨number.getD line, ?_⟩
  rw [List.length_singleton, Nat.add_comm, skipBlock.go, if_pos hb, ha.symm]
  rfl

/-- An arm is passed over from the request that governs it to its last line. -/
theorem skips_arm {arm : Arm} {name : String} (hn : name ∈ names) {rest : Text} {tail : Input} (number : Option Nat)
    {depth : Int} (hd : 0 < depth) (hr : blockBalance rest = blockBalance arm.head)
    (ht : Skips doc fired guards tail (depth + blockBalance arm.head) depth) :
    Skips doc fired guards (.line (controlLine name rest) number :: tail) depth depth := by
  have hline : depth + blockBalance (controlLine name rest) = depth + blockBalance arm.head := by
    rw [blockBalance_controlLine hn, hr]
  exact skips_append doc fired guards (skips_line doc fired guards hd hline) ht

mutual

/-- The lines of a program leave as many blocks open as before them. -/
theorem skips_program (program : Program) {items : Input} (h : Lists items program.lines) {depth : Int}
    (hd : 0 < depth) : Skips doc fired guards items depth depth := by
  cases program with
  | done =>
    cases h
    exact skips_nil doc fired guards depth
  | text plain rest =>
    obtain _ | ⟨_, number, h⟩ := h
    have hline : depth + blockBalance plain.text = depth := by
      rw [blockBalance_of_notMem plain.notMem, Int.add_zero]
    exact skips_append doc fired guards (skips_line doc fired guards hd hline) (skips_program rest h hd)
  | ifThen guard arm rest =>
    obtain _ | ⟨_, number, h⟩ := h
    obtain ⟨tail, others, rfl, ht, ho⟩ := lists_append h
    have harm := skips_arm doc fired guards if_mem_names number hd (blockBalance_guarded guard arm)
      (skips_tail arm ht (Int.le_of_lt hd))
    exact skips_append doc fired guards harm (skips_program rest ho hd)
  | ifElse guard first second rest =>
    obtain _ | ⟨_, number, h⟩ := h
    obtain ⟨tail, others, rfl, hf, h⟩ := lists_append h
    obtain _ | ⟨_, another, h⟩ := h
    obtain ⟨tail, others, rfl, hs, ho⟩ := lists_append h
    have hfirst :=
      skips_arm doc fired guards ie_mem_names number hd (blockBalance_guarded guard first)
        (skips_tail first hf (Int.le_of_lt hd))
    have hsecond := skips_arm doc fired guards el_mem_names another hd rfl (skips_tail second hs (Int.le_of_lt hd))
    exact skips_append doc fired guards hfirst
      (skips_append doc fired guards hsecond (skips_program rest ho hd))

/-- The lines of an arm after its first close what that one opens. -/
theorem skips_tail (arm : Arm) {items : Input} (h : Lists items arm.tail) {depth : Int} (hd : 0 ≤ depth) :
    Skips doc fired guards items (depth + blockBalance arm.head) depth := by
  cases arm with
  | line plain =>
    cases h
    rw [Arm.head, show blockBalance plain.text = 0 from blockBalance_of_notMem plain.notMem, Int.add_zero]
    exact skips_nil doc fired guards depth
  | block body =>
    obtain ⟨before, after, rfl, hb, ha⟩ := lists_append h
    obtain _ | ⟨_, number, ha⟩ := ha
    cases ha
    have hopen : blockBalance (Arm.block body).head = 1 := rfl
    rw [hopen]
    have hclose : depth + 1 + blockBalance blockEnd = depth := by
      rw [blockBalance_blockEnd, Int.add_neg_cancel_right]
    have hdepth : 0 < depth + 1 := by omega
    exact skips_append doc fired guards (skips_program body hb hdepth) (skips_line doc fired guards hdepth hclose)

end

end

end RoffDocBook.Conditional

/-! The texts that a run hands over to be written, and runs that lead from one stage to another. -/
namespace RoffDocBook

def Statement.text? : Statement → Option Text
  | .text t => some t
  | _ => none

namespace Run

/-- The text that the next step hands over to be written, if it does. -/
def handed? (run : Run) : Option Text :=
  match run.doc.input with
  | .line text number :: rest =>
    let doc := { run.doc with input := rest, line := number.getD run.doc.line }
    (({ run with doc } : Run).readStatement text).1.text?
  | _ => none

/-- The texts that are handed over in at most `limit` steps, in order. -/
def texts : Nat → Run → List Text
  | 0, _ => []
  | limit + 1, run =>
    if run.doc.input.isEmpty then []
    else
      run.handed?.toList ++
        match run.step with
        | .ok next => texts limit next
        | .error _ => []

end Run

/-- Steps lead from a run to another one, and hand over these texts. -/
inductive Reaches : Run → List Text → Run → Prop where
  | refl (run : Run) : Reaches run [] run
  | step {run next last : Run} {texts : List Text} (hi : run.doc.input ≠ []) (hs : run.step = .ok next)
      (h : Reaches next texts last) : Reaches run (run.handed?.toList ++ texts) last

namespace Reaches
variable {a b c : Run} {first second : List Text}

theorem trans (h : Reaches a first b) (k : Reaches b second c) : Reaches a (first ++ second) c := by
  induction h with
  | refl run => exact k
  | step hi hs _ ih =>
    rw [List.append_assoc]
    exact .step hi hs (ih k)

/-- A step that hands over no text. -/
theorem silent (hi : a.doc.input ≠ []) (hs : a.step = .ok b) (ht : a.handed? = none) : Reaches a [] b := by
  have h := Reaches.step hi hs (.refl b)
  rwa [ht] at h

/-- A step that hands over a text. -/
theorem single (hi : a.doc.input ≠ []) (hs : a.step = .ok b) {t : Text} (ht : a.handed? = some t) :
    Reaches a [t] b := by
  have h := Reaches.step hi hs (.refl b)
  rwa [ht] at h

/-- Steps that use up the input are the whole run, given enough of them. -/
theorem runAll (h : Reaches a first b) (hb : b.doc.input = []) :
    ∃ enough, ∀ limit ≥ enough, a.runAll limit = .ok b ∧ a.texts limit = first := by
  induction h with
  | refl run =>
    refine ⟨0, fun limit _ => ?_⟩
    cases limit with
    | zero => exact ⟨rfl, rfl⟩
    | succ limit => simp [Run.runAll, Run.texts, hb]
  | @step run next last texts hi hs _ ih =>
    obtain ⟨enough, hrest⟩ := ih hb
    refine ⟨enough + 1, fun limit hl => ?_⟩
    obtain ⟨limit, rfl⟩ : ∃ n, limit = n + 1 := ⟨limit - 1, by omega⟩
    obtain ⟨hrun, htexts⟩ := hrest limit (Nat.le_of_succ_le_succ hl)
    have hempty : run.doc.input.isEmpty = false := by simpa using hi
    simp only [Run.runAll, Run.texts, hempty, Bool.false_eq_true, if_false, hs, hrun, htexts, and_self]

end Reaches

end RoffDocBook

/-! A run over the lines of a program writes the texts that the program selects, and leaves everything else of the
document as it was. -/
namespace RoffDocBook.Conditional
open Text Document

/-- Writing leaves the meaning of conditional requests alone. -/
theorem Ready.writes {doc after : Document} (h : Ready doc) (hw : Writes doc after) : Ready after := by
  obtain ⟨lines, inParagraph, joinNext, trap, fonts, rfl⟩ := hw
  exact ⟨h.active, h.pending, h.control, h.noBreak, h.ignored, h.macros, h.reductions⟩

theorem ready_textLine {doc : Document} (h : Ready doc) {t : Text} (ht : '\\' ∉ t) : Ready (doc.textLine t) :=
  h.writes (doc.writes_textLine ht)

theorem ready_textLines {doc : Document} (h : Ready doc) {texts : List Text} (ht : ∀ t ∈ texts, '\\' ∉ t) :
    Ready (texts.foldl textLine doc) :=
  h.writes (doc.writes_textLines ht)

theorem activatePending_of_nil {run : Run} (h : run.doc.pending = []) : run.activatePending = run := by
  obtain ⟨doc, converters⟩ := run
  rw [Run.activatePending, h]
  dsimp only at h
  cases doc
  subst h
  rfl

theorem joinContinuations_of_false (left : Nat) (doc : Document) {line : Text} (h : endsInContinuation line = false) :
    Run.joinContinuations left doc line = (line, doc) := by
  cases left <;> simp [Run.joinContinuations, h]

/-- The statement of a line that does not go on with the next one. -/
theorem readStatement_line (run : Run) {text : Text} (hc : endsInContinuation text = false) :
    run.readStatement text = (Run.statementOf run.doc text, run) := by
  unfold Run.readStatement
  rw [joinContinuations_of_false _ _ hc]

section
variable {doc : Document} {run : Run} {number : Option Nat} {rest : Input} {guards : List Bool}

theorem step_plain (h : Ready doc) (plain : PlainLine) (hr : At run doc (.line plain.text number :: rest) guards) :
    ∃ next, Reaches run [plain.text] next ∧ At next (doc.textLine plain.text) rest guards := by
  obtain ⟨line, fired, converters, rfl⟩ := hr
  have hs : Simple plain.text := simple_of_notMem plain.notMem
  let after : Run := { doc := stage doc rest (number.getD line) fired guards, converters }
  have hread : after.readStatement plain.text = (.text plain.text, after) := by
    rw [readStatement_line after hs.endsInContinuation, statementOf_plain (h.stage _ _ _ _)]
  have hready := ready_textLine (h.stage rest (number.getD line) fired guards) plain.notMem
  have hwrite := stage_textLine doc rest (number.getD line) fired guards plain.notMem
  refine ⟨{ doc := after.doc.textLine plain.text, converters }, .single (by simp [stage]) ?_ ?_, ?_⟩
  · change (after.interpretLine plain.text).map Run.activatePending = _
    rw [Run.interpretLine, hread]
    exact congrArg _ (activatePending_of_nil hready.pending)
  · change (after.readStatement plain.text).1.text? = _
    rw [hread]
    rfl
  · rw [hwrite]
    exact ⟨_, _, _, rfl⟩

theorem step_blockEnd (h : Ready doc) (hr : At run doc (.line blockEnd number :: rest) guards) :
    ∃ next, Reaches run [] next ∧ At next doc rest guards := by
  obtain ⟨line, fired, converters, rfl⟩ := hr
  let after : Run := { doc := stage doc rest (number.getD line) fired guards, converters }
  have hready : Ready after.doc := h.stage _ _ _ _
  have hread : after.readStatement blockEnd = (.control ['.'], after) := by
    rw [readStatement_line after (by decide), statementOf_blockEnd hready]
  refine ⟨after, .silent (by simp [stage]) ?_ ?_, ⟨_, _, _, rfl⟩⟩
  · change (after.interpretLine blockEnd).map Run.activatePending = _
    rw [Run.interpretLine, hread]
    dsimp only
    rw [Run.execute, splitControl_dot hready]
    exact congrArg _ (activatePending_of_nil hready.pending)
  · change (after.readStatement blockEnd).1.text? = _
    rw [hread]
    rfl

/-- A conditional request hands over nothing. -/
theorem step_request (h : Ready doc) {name : String} (hn : name ∈ names) {body : Text} (hb : Simple body)
    {left : Input} {line next : Nat} {fired : List Package} {after : List Bool} (converters : List Converter)
    (hd : (stage doc rest (number.getD line) fired guards).formatterRequest (requestOf name body) =
      .done (stage doc left next fired after)) :
    ∃ last, Reaches { doc := stage doc (.line (controlLine name body) number :: rest) line fired guards, converters } []
        last ∧ At last doc left after := by
  let start : Run := { doc := stage doc rest (number.getD line) fired guards, converters }
  have hready : Ready start.doc := h.stage _ _ _ _
  have hline := simple_controlLine hn hb
  have hread : start.readStatement (controlLine name body) = (.control (controlLine name body), start) := by
    rw [readStatement_line start hline.endsInContinuation, statementOf_request hready hn hb]
  obtain ⟨noted, hnoted⟩ : ∃ noted, Run.noteFired (stage doc left next fired after) .troff =
      stage doc left next noted after := by
    unfold Run.noteFired
    split
    · exact ⟨_, rfl⟩
    · exact ⟨_, rfl⟩
  refine ⟨{ doc := stage doc left next noted after, converters }, .silent (by simp [stage]) ?_ ?_, ⟨_, _, _, rfl⟩⟩
  · change (start.interpretLine (controlLine name body)).map Run.activatePending = _
    rw [Run.interpretLine, hread]
    dsimp only
    rw [execute_request hready hn hd, hnoted]
    exact congrArg _ (activatePending_of_nil h.pending)
  · change (start.readStatement (controlLine name body)).1.text? = _
    rw [hread]
    rfl

end

theorem trimStart_head (arm : Arm) : trimStart arm.head = arm.head := by
  cases arm with
  | line plain => simp [Arm.head, PlainLine.text, trimStart, plain.notBlank]
  | block body => rfl

section
variable (doc : Document) (input : Input) (line : Nat) (fired : List Package) (guards : List Bool)

theorem guard_stage (guard : Guard) (arm : Arm) (name : String) :
    (stage doc input line fired guards).guard (requestOf name (guarded guard arm)) =
      (guard.holds, arm.head, stage doc input line fired guards) := by
  rw [Document.guard, requestOf, guarded, condition_guard _ guard (trimStart_head arm)]

theorem if_stage (guard : Guard) (arm : Arm) :
    (stage doc input line fired guards).formatterRequest (requestOf "if" (guarded guard arm)) =
      .done ((stage doc input line fired guards).governed guard.holds arm.head) := by
  change Outcome.done ((stage doc input line fired guards).ifRequest _) = _
  rw [ifRequest, guard_stage]

theorem ie_stage (guard : Guard) (arm : Arm) :
    (stage doc input line fired guards).formatterRequest (requestOf "ie" (guarded guard arm)) =
      .done ((stage doc input line fired (guard.holds :: guards)).governed guard.holds arm.head) := by
  change Outcome.done ((stage doc input line fired guards).ifElseRequest _) = _
  rw [ifElseRequest, guard_stage]
  rfl

theorem el_stage (value : Bool) (arm : Arm) :
    (stage doc input line fired (value :: guards)).formatterRequest (requestOf "el" arm.head) =
      .done ((stage doc input line fired guards).governed (!value) arm.head) :=
  rfl

end

/-- The work items that an arm is carried out as, before its lines. -/
def Arm.pushed : Arm → Input
  | .line plain => [.line plain.text none]
  | .block _ => []

/-- An arm that is taken stays in the input, and another one is passed over. -/
theorem governed_stage (doc : Document) (fired : List Package) (guards : List Bool) (taken : Bool) (arm : Arm)
    {tail : Input} (ht : Lists tail arm.tail) (rest : Input) (line : Nat) :
    ∃ next, (stage doc (tail ++ rest) line fired guards).governed taken arm.head =
      stage doc (if taken then arm.pushed ++ tail ++ rest else rest) next fired guards := by
  rw [governed, trimStart_head]
  cases arm with
  | line plain =>
    cases ht
    have hfirst := plain.notMem
    rw [PlainLine.text, List.mem_cons, not_or] at hfirst
    have hopens : dropStart? "\\\x7b" plain.text = none := dropStart?_of_ne hfirst.1 _ _
    refine ⟨line, ?_⟩
    simp only [Arm.head, hopens]
    cases taken <;> rfl
  | block body =>
    cases taken with
    | true => exact ⟨line, rfl⟩
    | false =>
      obtain ⟨next, hn⟩ := skips_tail doc fired guards (.block body) ht (Int.le_refl 0) rest.length rest line
      refine ⟨next, ?_⟩
      change skipBlock.go (tail ++ rest).length 1 _ = _
      rw [List.length_append]
      refine hn.trans ?_
      cases rest <;> rfl

theorem notMem_governed (taken : Bool) {texts : List Text} (h : ∀ t ∈ texts, '\\' ∉ t) :
    ∀ t ∈ (if taken then texts else []), '\\' ∉ t := by
  cases taken with
  | false => simp
  | true => exact h

/-- Work items at the front of the input write these texts. -/
def Runs (doc : Document) (items : Input) (before : List Bool) (texts : List Text) (after : List Bool) : Prop :=
  ∀ run rest, At run doc (items ++ rest) before →
    ∃ last, Reaches run texts last ∧ At last (texts.foldl textLine doc) rest after

theorem runs_nil (doc : Document) (guards : List Bool) : Runs doc [] guards [] guards :=
  fun run _ hr => ⟨run, .refl run, hr⟩

theorem runs_append {doc : Document} {first second : Input} {a b c : List Bool} {texts more : List Text}
    (h : Runs doc first a texts b) (k : Runs (texts.foldl textLine doc) second b more c) :
    Runs doc (first ++ second) a (texts ++ more) c := by
  intro run rest hr
  rw [List.append_assoc] at hr
  obtain ⟨middle, hm, hat⟩ := h run (second ++ rest) hr
  obtain ⟨last, hl, hlast⟩ := k middle rest hat
  rw [← List.foldl_append] at hlast
  exact ⟨last, hm.trans hl, hlast⟩

theorem runs_plain {doc : Document} (h : Ready doc) (plain : PlainLine) (number : Option Nat) (guards : List Bool) :
    Runs doc [.line plain.text number] guards [plain.text] guards :=
  fun _ _ hr => step_plain h plain hr

theorem runs_blockEnd {doc : Document} (h : Ready doc) (number : Option Nat) (guards : List Bool) :
    Runs doc [.line blockEnd number] guards [] guards :=
  fun _ _ hr => step_blockEnd h hr

/-- An arm writes its texts if it is taken, from the request that governs it to its last line. -/
theorem runs_arm {doc : Document} (h : Ready doc) {arm : Arm} {name body : _} (hn : name ∈ names) (hb : Simple body)
    (number : Option Nat) {tail : Input} (ht : Lists tail arm.tail) {before after : List Bool} {taken : Bool}
    (hd : ∀ input line fired, (stage doc input line fired before).formatterRequest (requestOf name body) =
      .done ((stage doc input line fired after).governed taken arm.head))
    (harm : Runs doc (arm.pushed ++ tail) after arm.selected after) :
    Runs doc (.line (controlLine name body) number :: tail) before (if taken then arm.selected else []) after := by
  rintro run rest ⟨line, fired, converters, rfl⟩
  obtain ⟨next, hg⟩ := governed_stage doc fired after taken arm ht rest (number.getD line)
  have hrequest := (hd (tail ++ rest) (number.getD line) fired).trans (congrArg Outcome.done hg)
  obtain ⟨middle, hm, hat⟩ := step_request h hn hb converters hrequest
  cases taken with
  | false => exact ⟨middle, hm, hat⟩
  | true =>
    obtain ⟨last, hl, hlast⟩ := harm middle rest hat
    exact ⟨last, hm.trans hl, hlast⟩

mutual

theorem runs_program (program : Program) {doc : Document} (h : Ready doc) {items : Input}
    (hi : Lists items program.lines) (guards : List Bool) : Runs doc items guards program.selected guards := by
  cases program with
  | done =>
    cases hi
    exact runs_nil doc guards
  | text plain rest =>
    obtain _ | ⟨_, number, hi⟩ := hi
    exact runs_append (runs_plain h plain number guards)
      (runs_program rest (ready_textLine h plain.notMem) hi guards)
  | ifThen guard arm rest =>
    obtain _ | ⟨_, number, hi⟩ := hi
    obtain ⟨tail, others, rfl, ht, ho⟩ := lists_append hi
    have harm := runs_arm h if_mem_names (simple_guarded guard arm) number ht
      (fun input line fired => if_stage doc input line fired guards guard arm) (runs_carried arm h ht guards)
    have hready := ready_textLines h (notMem_governed guard.holds (notMem_arm arm))
    exact runs_append harm (runs_program rest hready ho guards)
  | ifElse guard first second rest =>
    obtain _ | ⟨_, number, hi⟩ := hi
    obtain ⟨tail, others, rfl, hf, hi⟩ := lists_append hi
    obtain _ | ⟨_, another, hi⟩ := hi
    obtain ⟨tail, others, rfl, hs, ho⟩ := lists_append hi
    have hfirst := runs_arm h ie_mem_names (simple_guarded guard first) number hf
      (fun input line fired => ie_stage doc input line fired guards guard first)
      (runs_carried first h hf (guard.holds :: guards))
    have hready := ready_textLines h (notMem_governed guard.holds (notMem_arm first))
    have hsecond := runs_arm hready el_mem_names (simple_head second) another hs
      (fun input line fired => el_stage _ input line fired guards guard.holds second)
      (runs_carried second hready hs guards)
    have hready' := ready_textLines hready (notMem_governed (!guard.holds) (notMem_arm second))
    have hall := runs_append hfirst (runs_append hsecond (runs_program rest hready' ho guards))
    have hselected : (Program.ifElse guard first second rest).selected =
        (if guard.holds then first.selected else []) ++
          ((if !guard.holds then second.selected else []) ++ rest.selected) := by
      rw [Program.selected]
      cases guard.holds <;> rfl
    rw [hselected]
    exact hall

/-- An arm that is carried out writes its texts. -/
theorem runs_carried (arm : Arm) {doc : Document} (h : Ready doc) {tail : Input} (ht : Lists tail arm.tail)
    (guards : List Bool) : Runs doc (arm.pushed ++ tail) guards arm.selected guards := by
  cases arm with
  | line plain =>
    cases ht
    exact runs_plain h plain none guards
  | block body =>
    obtain ⟨before, after, rfl, hb, ha⟩ := lists_append ht
    obtain _ | ⟨_, number, ha⟩ := ha
    cases ha
    have hend := runs_blockEnd (ready_textLines h (notMem_selected body)) number guards
    have hbody := runs_append (runs_program body h hb guards) hend
    rwa [List.append_nil] at hbody

end

/-- A run over the lines of a program hands over exactly the texts that the program selects, in order: of a conditional
the arm that its guard selects, and never both. It uses up the input, keeps the guards that other conditionals wait
for, and changes nothing else of the document than to write those texts. -/
theorem runAll_program (program : Program) {run : Run} (h : Ready run.doc)
    (hi : Lists run.doc.input program.lines) :
    ∃ enough last, (∀ limit ≥ enough, run.runAll limit = .ok last ∧ run.texts limit = program.selected) ∧
      last.doc.formatter.guards = run.doc.formatter.guards ∧
      ∃ line fired, last.doc = { program.selected.foldl textLine run.doc with input := [], line, fired } := by
  have hat : At run run.doc (run.doc.input ++ []) run.doc.formatter.guards :=
    ⟨run.doc.line, run.doc.fired, run.converters, by rw [List.append_nil]; rfl⟩
  obtain ⟨last, hl, line, fired, converters, rfl⟩ :=
    runs_program program h hi run.doc.formatter.guards run [] hat
  obtain ⟨enough, he⟩ := hl.runAll rfl
  refine ⟨enough, _, he, rfl, line, fired, ?_⟩
  obtain ⟨lines, inParagraph, joinNext, trap, fonts, hw⟩ := run.doc.writes_textLines (notMem_selected program)
  rw [hw]
  rfl

/-- A conditional of two blocks, of which the second one holds another conditional. -/
def nested : Program :=
  .ifElse .troff
    (.block (.text ⟨'P', ['a', 'g', 'e'], by decide, by decide, by decide⟩ .done))
    (.block (.ifThen (.integer .none ⟨'2', [], by decide⟩)
      (.line ⟨'T', ['e', 'r', 'm'], by decide, by decide, by decide⟩) .done))
    (.text ⟨'E', ['n', 'd'], by decide, by decide, by decide⟩ .done)

def nestedSource : Text :=
  ".ie t \\\x7b\nPage\n.\\\x7d\n.el \\\x7b\n.if 2 Term\n.\\\x7d\nEnd\n"

def nestedRun : Run :=
  { doc := { Document.start "page.1" {} {} with active := [.man, .troff], input := Input.ofText nestedSource } }

theorem runAll_program_nested :
    ∃ enough last, (∀ limit ≥ enough, nestedRun.runAll limit = .ok last ∧ nestedRun.texts limit = nested.selected) ∧
      last.doc.formatter.guards = nestedRun.doc.formatter.guards ∧
      ∃ line fired, last.doc = { nested.selected.foldl textLine nestedRun.doc with input := [], line, fired } := by
  have hlines : lines nestedSource = nested.lines := by decide
  have hlists : Lists nestedRun.doc.input nested.lines := hlines ▸ lists_ofText nestedSource
  refine runAll_program nested ⟨rfl, rfl, rfl, rfl, ?_, ?_, ?_⟩ hlists
  · intro name _ hn
    cases hn
  · intro name _
    rfl
  · intro name _
    rfl

example : nested.selected = [['T', 'e', 'r', 'm'], ['E', 'n', 'd']] := by decide

end RoffDocBook.Conditional
