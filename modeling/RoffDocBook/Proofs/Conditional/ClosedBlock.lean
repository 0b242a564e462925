import RoffDocBook.Proofs.Conditional.Selection
import RoffDocBook.Proofs.Expansion.Step

/-! A block that is opened and closed on the line of its conditional. The end of the block is dropped from the line
before the conditional is carried out, so that a guard that fails passes over the lines after it as well, up to the
next one that closes a block. -/
namespace RoffDocBook.Conditional
open Text Document

/-- What stands on the line of a conditional before the block that it governs. -/
def opening (name : String) (guard : Guard) : Text :=
  controlLine name (guard.text ++ [' '])

/-- The line of a conditional with a block that is closed on the same line. -/
def closedBlock (name : String) (guard : Guard) (statement : Text) : Text :=
  opening name guard ++ '\\' :: '{' :: (statement ++ ['\\', '}'])

/-- What is left of the line once the end of the block is dropped. -/
def openBlock (name : String) (guard : Guard) (statement : Text) : Text :=
  opening name guard ++ '\\' :: '{' :: statement

theorem openBlock_eq (name : String) (guard : Guard) (statement : Text) :
    openBlock name guard statement = controlLine name (guard.text ++ ' ' :: '\\' :: '{' :: statement) := by
  simp [openBlock, opening, controlLine]

section
variable {name : String} (hn : name ∈ names) (guard : Guard) {statement : Text} (hs : '\\' ∉ statement)

include hn in
theorem notMem_opening : '\\' ∉ opening name guard := by
  have hname : '\\' ∉ name.toList := by
    revert name
    decide
  have hguard := notMem_guard guard
  simp [opening, controlLine, hname, hguard]

include hn hs

/-- The only escapes of the line open and close the block. -/
theorem contains_closedBlock {e : Char} (he : e ≠ '{') :
    contains (closedBlock name guard statement) ['\\', e] = (e == '}') := by
  have hopening := notMem_opening hn guard
  have hend : contains (statement ++ ['\\', '}']) ['\\', e] = (e == '}') := by
    rw [contains_append hs]
    by_cases h : e = '}'
    · rw [h]
      rfl
    · simp [contains, breakOn?, dropStart?, h]
  have hblock : contains ('\\' :: '{' :: (statement ++ ['\\', '}'])) ['\\', e] =
      contains (statement ++ ['\\', '}']) ['\\', e] := by
    simp [contains, breakOn?, dropStart?, he]
  rw [closedBlock, contains_append hopening, hblock, hend]

theorem replace_closedBlock :
    replace (closedBlock name guard statement) ['\\', '}'] [] = openBlock name guard statement := by
  have hopening := notMem_opening hn guard
  have hend : replace (statement ++ ['\\', '}']) ['\\', '}'] [] = statement := by
    rw [replace_append hs]
    exact List.append_nil statement
  have hblock : replace ('\\' :: '{' :: (statement ++ ['\\', '}'])) ['\\', '}'] [] =
      '\\' :: '{' :: replace (statement ++ ['\\', '}']) ['\\', '}'] [] := rfl
  rw [closedBlock, replace_append hopening, hblock, hend, openBlock]

theorem dropComment_openBlock : dropComment (openBlock name guard statement) = openBlock name guard statement := by
  have hopening := notMem_opening hn guard
  have hstatement : dropComment.go statement = none := (simple_of_notMem hs).dropComment_go
  have hblock : dropComment.go ('\\' :: '{' :: statement) = none := by
    rw [dropComment.go, hstatement]
    rfl
  have hgo : dropComment.go (openBlock name guard statement) = none := by
    unfold openBlock
    generalize opening name guard = before at hopening
    induction before with
    | nil => exact hblock
    | cons c cs ih =>
      rw [List.mem_cons, not_or] at hopening
      rw [List.cons_append, dropComment.go, ih hopening.2]
      · rfl
      · intro d rest hc
        exact absurd hc.symm hopening.1
  rw [dropComment, hgo]

/-- The end of the block is dropped, and the request is what is left. -/
theorem statementOf_closedBlock {doc : Document} (h : Ready doc) :
    Run.statementOf doc (closedBlock name guard statement) = .control (openBlock name guard statement) := by
  have hcomment : ControlLine.isComment (closedBlock name guard statement) = false := by
    simp only [names, List.mem_cons, List.not_mem_nil, or_false] at hn
    rcases hn with rfl | rfl | rfl <;> rfl
  have hmentions : Formatter.State.mentionsStrings (closedBlock name guard statement) = false := by
    rw [Formatter.State.mentionsStrings, Bool.or_eq_false_iff]
    exact ⟨contains_closedBlock hn guard hs (by decide), contains_closedBlock hn guard hs (by decide)⟩
  have hexpand : doc.formatter.expand (closedBlock name guard statement) = closedBlock name guard statement := by
    rw [Formatter.State.expand, hmentions, if_neg Bool.false_ne_true]
  have hcloses : contains (closedBlock name guard statement) "\\\x7d" = true :=
    contains_closedBlock hn guard hs (by decide)
  have hreplace : replace (closedBlock name guard statement) "\\\x7d" "" = openBlock name guard statement :=
    replace_closedBlock hn guard hs
  have hblank : isAllBlank (openBlock name guard statement) = false := rfl
  have hopens : dropStart? "\\\x7b" (openBlock name guard statement) = none := rfl
  have hcontrol : ControlLine.isControl (openBlock name guard statement) doc.formatter.control doc.formatter.noBreak =
      true := isControl_dot h _
  rw [Run.statementOf, hcomment, if_neg Bool.false_ne_true, hexpand]
  simp only [hcloses, Bool.or_true, if_true, hreplace, hblank, Bool.and_false, Bool.false_eq_true, if_false, hopens,
    Option.getD_none, hcontrol, dropComment_openBlock hn guard hs]

end

/-- A block that a failing guard passes over counts as open at the end of its line. -/
theorem governed_openBlock (doc : Document) {statement : Text} (hs : '\\' ∉ statement) :
    doc.governed false ('\\' :: '{' :: statement) = doc.skipBlock 1 := by
  have hdepth : 1 + blockBalance statement = 1 := by
    rw [blockBalance_of_notMem hs, Int.add_zero]
  change doc.skipBlock (1 + blockBalance statement) = _
  rw [hdepth]

/-- The request passes over lines as if the block were still open. -/
theorem formatterRequest_openBlock (doc : Document) {name : String} (hn : name = "if" ∨ name = "ie") {guard : Guard}
    (hg : guard.holds = false) {statement : Text} (hs : '\\' ∉ statement) :
    ∃ guards, doc.formatterRequest (requestOf name (guard.text ++ ' ' :: '\\' :: '{' :: statement)) =
      .done ({ doc with formatter := { doc.formatter with guards } }.skipBlock 1) := by
  have hguard : doc.guard (requestOf name (guard.text ++ ' ' :: '\\' :: '{' :: statement)) =
      (false, '\\' :: '{' :: statement, doc) := by
    rw [Document.guard, requestOf, condition_guard _ guard rfl, hg]
  rcases hn with rfl | rfl
  · refine ⟨doc.formatter.guards, ?_⟩
    change Outcome.done (doc.ifRequest _) = _
    rw [ifRequest, hguard]
    exact congrArg Outcome.done (governed_openBlock doc hs)
  · refine ⟨false :: doc.formatter.guards, ?_⟩
    change Outcome.done (doc.ifElseRequest _) = _
    rw [ifElseRequest, hguard]
    exact congrArg Outcome.done (governed_openBlock _ hs)

/-- A step over the line leaves the input that is left after a block that is open. -/
theorem step_closedBlock {run : Run} (h : Ready run.doc) {name : String} (hn : name = "if" ∨ name = "ie")
    {guard : Guard} (hg : guard.holds = false) {statement : Text} (hs : '\\' ∉ statement) {number : Option Nat}
    {rest : Input} (hi : run.doc.input = .line (closedBlock name guard statement) number :: rest) :
    ∃ after line guards, run.step = .ok after ∧
      after.doc.input = ((stage run.doc rest line run.doc.fired guards).skipBlock 1).input := by
  have hnames : name ∈ names := by
    rcases hn with rfl | rfl
    · exact if_mem_names
    · exact ie_mem_names
  let start : Run := { run with doc := { run.doc with input := rest, line := number.getD run.doc.line } }
  have hready : Ready start.doc := ⟨h.active, h.pending, h.control, h.noBreak, h.ignored, h.macros, h.reductions⟩
  have hcontinued : endsInContinuation (closedBlock name guard statement) = false := by
    simp [endsInContinuation, closedBlock]
  have hread : start.readStatement (closedBlock name guard statement) =
      (.control (openBlock name guard statement), start) := by
    rw [readStatement_line start hcontinued, statementOf_closedBlock hnames guard hs hready]
  obtain ⟨guards, hrequest⟩ := formatterRequest_openBlock start.doc hn hg hs
  have hexecute := execute_request hready hnames hrequest
  have hstep : run.step = (start.interpretLine (closedBlock name guard statement)).map Run.activatePending :=
    Run.step_line hi
  let skipped := { start.doc with formatter := { start.doc.formatter with guards } }.skipBlock 1
  let noted : Run := { start with doc := Run.noteFired skipped .troff }
  refine ⟨noted.activatePending, number.getD run.doc.line, guards, ?_, ?_⟩
  · rw [hstep, Run.interpretLine, hread]
    dsimp only
    rw [openBlock_eq, hexecute]
    rfl
  · have hplace := (Run.activatePending_place noted).trans (Run.noteFired_place skipped .troff)
    exact congrArg Prod.fst hplace

/-- Lines without escapes are all passed over. -/
theorem skips_plainLines (doc : Document) (fired : List Package) (guards : List Bool) {items : Input}
    {lines : List Text} (h : Lists items lines) (hl : ∀ line ∈ lines, '\\' ∉ line) :
    Skips doc fired guards items 1 1 := by
  induction h with
  | nil => exact skips_nil doc fired guards 1
  | cons text number h ih =>
    rw [List.forall_mem_cons] at hl
    have hline : 1 + blockBalance text = 1 := by
      rw [blockBalance_of_notMem hl.1, Int.add_zero]
    exact skips_append doc fired guards (skips_line doc fired guards Int.one_pos hline) (ih hl.2)

/-- A block that a failing guard passes over takes the next line with it, although it is closed on its own line; and if
no later line has an escape that could close a block, it takes the whole rest of the input. -/
theorem closedBlock_takes_rest {run : Run} (h : Ready run.doc) {name : String} (hn : name = "if" ∨ name = "ie")
    {guard : Guard} (hg : guard.holds = false) {statement : Text} (hs : '\\' ∉ statement) {number : Option Nat}
    {rest : Input} (hi : run.doc.input = .line (closedBlock name guard statement) number :: rest) :
    ∃ after, run.step = .ok after ∧
      (∀ line next others, rest = .line line next :: others → ∃ passed, others = passed ++ after.doc.input) ∧
      ∀ lines, Lists rest lines → (∀ line ∈ lines, '\\' ∉ line) → after.doc.input = [] := by
  obtain ⟨after, line, guards, hstep, hinput⟩ := step_closedBlock h hn hg hs hi
  refine ⟨after, hstep, ?_, ?_⟩
  · rintro text next others rfl
    have hread := reads_skipBlock_go (stage run.doc others (next.getD line) run.doc.fired guards) others.length
      (1 + blockBalance text)
    obtain ⟨passed, hpassed, _⟩ := hread
    refine ⟨passed, ?_⟩
    rw [hinput]
    exact hpassed
  · intro lines hlists hlines
    obtain ⟨last, hlast⟩ := skips_plainLines run.doc run.doc.fired guards hlists hlines 0 [] line
    rw [List.append_nil, Nat.add_zero] at hlast
    rw [hinput]
    exact congrArg Document.input hlast

def lostSource : Text :=
  ".if t \\\x7bskipped\\\x7d\nKept.\nMore.\n"

def lostRun : Run :=
  Conversion.prepare {} {} "page.1" lostSource ⟨.man, []⟩

/-- The two lines after the block are lost. -/
theorem closedBlock_takes_rest_lost :
    lostRun.doc.input = [.line (closedBlock "if" .troff "skipped".toList) (some 1), .line "Kept.".toList (some 2),
        .line "More.".toList (some 3)] ∧
      ∃ after, lostRun.step = .ok after ∧ after.doc.input = [] := by
  have hready : Ready lostRun.doc := by
    constructor <;> decide +kernel
  have hinput : lostRun.doc.input = [.line (closedBlock "if" .troff "skipped".toList) (some 1),
      .line "Kept.".toList (some 2), .line "More.".toList (some 3)] := by
    decide +kernel
  have hlists : Lists [.line "Kept.".toList (some 2), .line "More.".toList (some 3)] ["Kept.".toList, "More.".toList] :=
    .cons _ _ (.cons _ _ .nil)
  obtain ⟨after, hstep, -, hlost⟩ := closedBlock_takes_rest hready (.inl rfl) rfl (by decide) hinput
  exact ⟨hinput, after, hstep, hlost _ hlists (by decide)⟩

end RoffDocBook.Conditional
