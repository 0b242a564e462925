import RoffDocBook.Proofs.Place.Ahead

/-! What reading ahead takes. It stops before a control line, unless the end of a macro stands right before that line:
then the line is taken for text, whatever it is. -/
namespace RoffDocBook.Document
open Text

/-- A document that has gone over an item of its input: it notes the number of a line, and leaves a macro at its end. -/
def pass (doc : Document) : WorkItem → Document
  | .line _ number => { doc with input := doc.input.tail, line := number.getD doc.line }
  | .finish number =>
    { doc with
      input := doc.input.tail
      line := number
      formatter := { doc.formatter with invocations := doc.formatter.invocations.tail } }
  | _ => { doc with input := doc.input.tail }

/-- A document with other input. -/
def reading (doc : Document) (input : Input) : Document :=
  { doc with input }

def passAll (doc : Document) (items : Input) : Document :=
  items.foldl pass doc

/-- What a line adds to the lines that are gathered: it is expanded where it stands. -/
def gathered (doc : Document) (line : Text) : List Text :=
  let line := doc.formatter.expand line
  if isAllBlank line then [] else [trim line]

/-- The lines that are gathered from the front of the input. -/
def gatheredAll (doc : Document) : Input → List Text
  | [] => []
  | .line line number :: rest => doc.gathered line ++ (doc.pass (.line line number)).gatheredAll rest
  | item :: rest => (doc.pass item).gatheredAll rest

def isControlLine (doc : Document) (line : Text) : Bool :=
  ControlLine.isControl line doc.formatter.control doc.formatter.noBreak

/-- Lines of text, and the ends of macros. -/
def Readable (doc : Document) : WorkItem → Prop
  | .line line _ => doc.isControlLine line = false
  | .finish _ => True
  | _ => False

theorem readable_pass {doc : Document} {item other : WorkItem} (h : doc.Readable item) :
    (doc.pass other).Readable item := by
  cases other <;> cases item <;> exact h

theorem pass_input {doc : Document} {item : WorkItem} {rest : Input} (h : doc.input = item :: rest) :
    (doc.pass item).input = rest := by
  cases item <;> simp [pass, h]

theorem isControlLine_pass (doc : Document) (item : WorkItem) (line : Text) :
    (doc.pass item).isControlLine line = doc.isControlLine line := by
  cases item <;> rfl

theorem passAll_input {doc : Document} {items rest : Input} (h : doc.input = items ++ rest) :
    (doc.passAll items).input = rest := by
  induction items generalizing doc with
  | nil => exact h
  | cons item items ih => exact ih (pass_input h)

section
variable {doc : Document} {line : Text} {number : Option Nat} {mark : Nat} {rest : Input}

theorem nextIsControl_line (h : doc.input = .line line number :: rest) :
    doc.nextIsControl = doc.isControlLine line := by
  rw [nextIsControl, h]
  rfl

theorem nextIsControl_finish (h : doc.input = .finish mark :: rest) : doc.nextIsControl = false := by
  rw [nextIsControl, h]
  rfl

theorem nextRawLine_line (h : doc.input = .line line number :: rest) :
    doc.nextRawLine = (some line, doc.pass (.line line number)) := by
  rw [nextRawLine, h, pass, h]
  rfl

theorem nextLine_line (h : doc.input = .line line number :: rest) :
    doc.nextLine = (some (doc.formatter.expand line), doc.pass (.line line number)) := by
  rw [nextLine, nextRawLine_line h]
  rfl

/-- The end of a macro is no obstacle. -/
theorem nextRawLine_finish (h : doc.input = .finish mark :: rest) :
    doc.nextRawLine = (doc.pass (.finish mark)).nextRawLine := by
  rw [nextRawLine, nextRawLine, pass_input h, h, nextRawLine.go, pass, h]
  rfl

theorem nextLine_finish (h : doc.input = .finish mark :: rest) : doc.nextLine = (doc.pass (.finish mark)).nextLine := by
  rw [nextLine, nextLine, nextRawLine_finish h]

end

theorem nextLine_nil {doc : Document} (h : doc.input = []) : doc.nextLine = (none, doc) := by
  rw [nextLine, nextRawLine, h]
  rfl

theorem length_nextRawLine_lt {input : Input} {doc next : Document} {line : Text}
    (h : nextRawLine.go input doc = (some line, next)) : next.input.length < input.length := by
  induction input generalizing doc with
  | nil => cases h
  | cons item rest ih =>
    cases item with
    | line text number => cases h; exact Nat.lt_succ_self _
    | finish mark => exact Nat.lt_succ_of_lt (ih h)
    | markup text => cases h
    | paragraphEnd => cases h

theorem length_nextLine_lt {doc next : Document} {line : Text} (h : doc.nextLine = (some line, next)) :
    next.input.length < doc.input.length := by
  rw [nextLine, nextRawLine] at h
  split at h
  · rename_i raw after hr
    cases h
    exact length_nextRawLine_lt hr
  · cases h

/-- One more step of a bound that is large enough changes nothing. -/
theorem gatherLines_go_succ {left : Nat} {doc : Document} (hl : doc.input.length ≤ left) :
    gatherLines.go (left + 1) doc = gatherLines.go left doc := by
  induction left generalizing doc with
  | zero =>
    have hi : doc.input = [] := List.length_eq_zero_iff.mp (Nat.le_zero.mp hl)
    have hc : doc.nextIsControl = false := by rw [nextIsControl, hi]; rfl
    rw [gatherLines.go, gatherLines.go, hc, nextLine_nil hi]
    rfl
  | succ left ih =>
    rw [gatherLines.go, gatherLines.go]
    split
    · rfl
    · split
      · rfl
      · rename_i line next hn
        have hlt := length_nextLine_lt hn
        rw [ih (Nat.le_of_lt_succ (Nat.lt_of_lt_of_le hlt hl))]

theorem gatherLines_go_of_le {left : Nat} {doc : Document} (hl : doc.input.length ≤ left) :
    gatherLines.go left doc = doc.gatherLines := by
  obtain ⟨more, rfl⟩ := Nat.exists_eq_add_of_le hl
  induction more with
  | zero => rfl
  | succ more ih => rw [← Nat.add_assoc, gatherLines_go_succ (Nat.le_add_right _ _), ih (Nat.le_add_right _ _)]

theorem gatherLines_control {doc : Document} (h : doc.nextIsControl = true) : doc.gatherLines = ([], doc) := by
  unfold gatherLines
  cases doc.input.length with
  | zero => rfl
  | succ left => rw [gatherLines.go, if_pos h]

/-- A line that is taken, and then those after it. -/
theorem gatherLines_of_nextLine {doc next : Document} {line : Text} (hc : doc.nextIsControl = false)
    (hn : doc.nextLine = (some line, next)) :
    doc.gatherLines = ((if isAllBlank line then [] else [trim line]) ++ next.gatherLines.1, next.gatherLines.2) := by
  have hlt := length_nextLine_lt hn
  obtain ⟨left, hl⟩ : ∃ left, doc.input.length = left + 1 := Nat.exists_eq_succ_of_ne_zero (by omega)
  rw [gatherLines, hl, gatherLines.go, hc, hn, if_neg Bool.false_ne_true]
  dsimp only
  rw [gatherLines_go_of_le (by omega)]
  split <;> rfl

theorem gatherLines_of_none {doc next : Document} (hc : doc.nextIsControl = false) (hn : doc.nextLine = (none, next)) :
    doc.gatherLines = ([], next) := by
  cases hi : doc.input with
  | nil =>
    rw [nextLine_nil hi] at hn
    cases hn
    rw [gatherLines, hi]
    rfl
  | cons item rest =>
    rw [gatherLines, hi, List.length_cons, gatherLines.go, hc, hn]
    rfl

/-- Whether the end of a macro is the last of some items. -/
def EndsInMark (items : Input) : Prop :=
  ∃ mark, items.getLast? = some (.finish mark)

section
variable {doc : Document} {line : Text} {number : Option Nat} {mark : Nat} {rest : Input}

theorem gatherLines_line (h : doc.input = .line line number :: rest) (hc : doc.isControlLine line = false) :
    doc.gatherLines =
      (doc.gathered line ++ (doc.pass (.line line number)).gatherLines.1,
        (doc.pass (.line line number)).gatherLines.2) :=
  gatherLines_of_nextLine (by rw [nextIsControl_line h, hc]) (nextLine_line h)

/-- The line after the end of a macro is taken, whatever it is. -/
theorem gatherLines_finish_line (h : doc.input = .finish mark :: .line line number :: rest) :
    doc.gatherLines =
      ((doc.pass (.finish mark)).gathered line ++
          (doc.passAll [.finish mark, .line line number]).gatherLines.1,
        (doc.passAll [.finish mark, .line line number]).gatherLines.2) :=
  gatherLines_of_nextLine (nextIsControl_finish h)
    ((nextLine_finish h).trans (nextLine_line (pass_input h)))

/-- Elsewhere the end of a macro is passed. -/
theorem gatherLines_finish (h : doc.input = .finish mark :: rest)
    (hc : (doc.pass (.finish mark)).nextIsControl = false) :
    doc.gatherLines = (doc.pass (.finish mark)).gatherLines := by
  have hnext := nextLine_finish h
  cases hn : (doc.pass (.finish mark)).nextLine with
  | mk line? next =>
    rw [hn] at hnext
    cases line? with
    | none => rw [gatherLines_of_none (nextIsControl_finish h) hnext, gatherLines_of_none hc hn]
    | some line => rw [gatherLines_of_nextLine (nextIsControl_finish h) hnext, gatherLines_of_nextLine hc hn]

end

/-- A run over lines of text and the ends of macros gathers them, up to something that it does not pass. -/
theorem gatherLines_readable {doc : Document} {before rest : Input} (hi : doc.input = before ++ rest)
    (hb : ∀ item ∈ before, doc.Readable item) (hm : ¬ EndsInMark before ∨ (doc.passAll before).nextIsControl = false) :
    doc.gatherLines =
      (doc.gatheredAll before ++ (doc.passAll before).gatherLines.1, (doc.passAll before).gatherLines.2) := by
  induction before generalizing doc with
  | nil => rfl
  | cons item before ih =>
    obtain ⟨hitem, hbefore⟩ := List.forall_mem_cons.mp hb
    have hmark : ¬ EndsInMark before ∨ ((doc.pass item).passAll before).nextIsControl = false := by
      refine hm.imp_left fun hne hlast => hne ?_
      obtain ⟨mark, hlast⟩ := hlast
      exact ⟨mark, by rw [List.getLast?_cons, hlast]; rfl⟩
    have hrest := ih (pass_input hi) (fun other ho => readable_pass (hbefore other ho)) hmark
    cases item with
    | line line number =>
      rw [gatherLines_line hi hitem, hrest, gatheredAll, List.append_assoc]
      rfl
    | finish mark =>
      rw [gatherLines_finish hi, hrest]
      · rfl
      · cases before with
        | nil => exact hm.resolve_left fun hne => hne ⟨mark, rfl⟩
        | cons next before =>
          have hnext := (List.forall_mem_cons.mp hbefore).1
          cases next with
          | line line number =>
            rw [nextIsControl_line (pass_input hi), isControlLine_pass]
            exact hnext
          | finish other => exact nextIsControl_finish (pass_input hi)
          | markup text => exact absurd hnext id
          | paragraphEnd => exact absurd hnext id
    | markup text => exact absurd hitem id
    | paragraphEnd => exact absurd hitem id

theorem gatheredAll_append (doc : Document) (a b : Input) :
    doc.gatheredAll (a ++ b) = doc.gatheredAll a ++ (doc.passAll a).gatheredAll b := by
  induction a generalizing doc with
  | nil => rfl
  | cons item a ih =>
    cases item with
    | line line number =>
      rw [List.cons_append, gatheredAll, gatheredAll, ih, List.append_assoc]
      rfl
    | _ => exact ih _

/-- What is gathered does not depend on what else there is to read. -/
theorem gatheredAll_reading (doc : Document) (input items : Input) :
    (doc.reading input).gatheredAll items = doc.gatheredAll items := by
  induction items generalizing doc input with
  | nil => rfl
  | cons item items ih =>
    have hrest := ih (doc.pass item) input.tail
    cases item with
    | line line number => exact congrArg (doc.gathered line ++ ·) hrest
    | _ => exact hrest

theorem passAll_append (doc : Document) (a b : Input) : doc.passAll (a ++ b) = (doc.passAll a).passAll b :=
  List.foldl_append

theorem passAll_isControlLine (doc : Document) (items : Input) (line : Text) :
    (doc.passAll items).isControlLine line = doc.isControlLine line := by
  induction items generalizing doc with
  | nil => rfl
  | cons item items ih => rw [passAll, List.foldl_cons, ← passAll, ih, isControlLine_pass]

/-- Only ends of macros. -/
def AllMarks (items : Input) : Prop :=
  ∀ item ∈ items, ∃ mark, item = .finish mark

section
variable {doc : Document} {marks before rest : Input} {line : Text} {number : Option Nat}

theorem nextLine_marks (hi : doc.input = marks ++ .line line number :: rest) (hm : AllMarks marks) :
    doc.nextLine =
      (some ((doc.passAll marks).formatter.expand line), doc.passAll (marks ++ [.line line number])) := by
  induction marks generalizing doc with
  | nil => exact nextLine_line hi
  | cons item marks ih =>
    obtain ⟨⟨mark, rfl⟩, hmarks⟩ := List.forall_mem_cons.mp hm
    rw [nextLine_finish hi, ih (pass_input hi) hmarks]
    rfl

/-- A font request without arguments writes the next line in its font, unless that is a control line with no end of a
macro before it. -/
theorem fontLine_marks (font : Text) (hi : doc.input = marks ++ .line line number :: rest) (hm : AllMarks marks) :
    doc.fontLine [] font =
      if marks = [] ∧ doc.isControlLine line = true then doc
      else
        (doc.passAll (marks ++ [.line line number])).textLine
          ("\\f" ++ font ++ (doc.passAll marks).formatter.expand line ++ "\\fR") := by
  have hnext := nextLine_marks hi hm
  cases marks with
  | nil =>
    rw [fontLine, nextIsControl_line hi, hnext]
    cases doc.isControlLine line <;> rfl
  | cons item marks =>
    obtain ⟨⟨mark, rfl⟩, -⟩ := List.forall_mem_cons.mp hm
    rw [fontLine, nextIsControl_finish hi, hnext]
    rfl

theorem fontLine_marks_input (font : Text) (hi : doc.input = marks ++ .line line number :: rest) (hm : AllMarks marks) :
    (doc.fontLine [] font).input =
      if marks = [] ∧ doc.isControlLine line = true then .line line number :: rest else rest := by
  rw [fontLine_marks font hi hm]
  split
  · rename_i h
    rw [hi, h.1]
    rfl
  · have hafter : doc.input = (marks ++ [.line line number]) ++ rest := by rw [hi, List.append_assoc]; rfl
    exact (congrArg Prod.fst (textLine_place _ _)).trans (passAll_input hafter)

/-- Lines before the end of the input are all gathered. -/
theorem gatherLines_all (hi : doc.input = before) (hb : ∀ item ∈ before, doc.Readable item) :
    doc.gatherLines = (doc.gatheredAll before, doc.passAll before) := by
  rw [← List.append_nil before] at hi
  have hend := passAll_input hi
  have hcontrol : (doc.passAll before).nextIsControl = false := by rw [nextIsControl, hend]; rfl
  rw [gatherLines_readable hi hb (Or.inr hcontrol), gatherLines_of_none hcontrol (nextLine_nil hend), List.append_nil]

/-- Lines before a control line are gathered, and the control line is left. -/
theorem gatherLines_before_control (hi : doc.input = before ++ .line line number :: rest)
    (hb : ∀ item ∈ before, doc.Readable item) (hc : doc.isControlLine line = true) (hm : ¬ EndsInMark before) :
    doc.gatherLines = (doc.gatheredAll before, doc.passAll before) := by
  have hcontrol : (doc.passAll before).nextIsControl = true := by
    rw [nextIsControl_line (passAll_input hi), passAll_isControlLine, hc]
  rw [gatherLines_readable hi hb (Or.inl hm), gatherLines_control hcontrol, List.append_nil]

/-- A line after the end of a macro is gathered too, and so are the lines after it. -/
theorem gatherLines_over_mark (hi : doc.input = before ++ .line line number :: rest)
    (hb : ∀ item ∈ before, doc.Readable item) (hm : EndsInMark before) :
    doc.gatherLines =
      (doc.gatheredAll (before ++ [.line line number]) ++ (doc.passAll (before ++ [.line line number])).gatherLines.1,
        (doc.passAll (before ++ [.line line number])).gatherLines.2) := by
  obtain ⟨mark, hlast⟩ := hm
  obtain ⟨front, rfl⟩ : ∃ front, before = front ++ [.finish mark] := List.getLast?_eq_some_iff.mp hlast
  rw [List.append_assoc, List.singleton_append] at hi
  have hfront := passAll_input hi
  have hreadable : ∀ item ∈ front, doc.Readable item := fun item hm => hb item (List.mem_append_left _ hm)
  rw [gatherLines_readable hi hreadable (Or.inr (nextIsControl_finish hfront)), gatherLines_finish_line hfront,
    List.append_assoc, gatheredAll_append, passAll_append]
  simp [gatheredAll]

/-- What reading ahead takes of lines and the ends of macros. Gathering takes all lines up to the next control line and
leaves that to be read, unless the end of a macro stands right before it: then the control line is gathered as text,
with the lines after it. A font request without arguments leaves a control line alone, unless ends of macros stand
before it: then it takes that line. -/
theorem lookAhead_readable (font : Text) (hi : doc.input = before ++ rest) (hb : ∀ item ∈ before, doc.Readable item) :
    (rest = [] → doc.gatherLines = (doc.gatheredAll before, doc.passAll before)) ∧
    ∀ line number behind, rest = .line line number :: behind → doc.isControlLine line = true →
      (¬ EndsInMark before →
        doc.gatherLines = (doc.gatheredAll before, doc.passAll before) ∧ (doc.passAll before).input = rest) ∧
      (EndsInMark before →
        doc.gatherLines =
          (doc.gatheredAll (before ++ [.line line number]) ++
              (doc.passAll (before ++ [.line line number])).gatherLines.1,
            (doc.passAll (before ++ [.line line number])).gatherLines.2) ∧
          (doc.passAll (before ++ [.line line number])).input = behind) ∧
      (AllMarks before → (doc.fontLine [] font).input = if before = [] then rest else behind) := by
  constructor
  · rintro rfl
    exact gatherLines_all (hi.trans (List.append_nil before)) hb
  · rintro line number behind rfl hc
    have hafter : doc.input = (before ++ [.line line number]) ++ behind := by rw [hi, List.append_assoc]; rfl
    refine ⟨fun hm => ⟨gatherLines_before_control hi hb hc hm, passAll_input hi⟩,
      fun hm => ⟨gatherLines_over_mark hi hb hm, passAll_input hafter⟩, fun hm => ?_⟩
    rw [fontLine_marks_input font hi hm]
    simp only [hc, and_true]

end

/-- The text of a NAME section that ends with a macro, and the next section after the invocation. -/
def endingDocument : Document :=
  { Document.start "page.1" {} {} with
    input := [.line "foo \\- does a thing" none, .finish 6, .line ".SH DESCRIPTION" (some 7),
      .line "Text." (some 8)] }

/-- The heading of the next section is taken for text. -/
theorem lookAhead_readable_heading :
    endingDocument.gatherLines.1 =
        ["foo \\- does a thing".toList, ".SH DESCRIPTION".toList, "Text.".toList] ∧
      endingDocument.gatherLines.2.input = [] := by
  have htext : endingDocument.isControlLine "foo \\- does a thing" = false := by decide
  have hreadable : ∀ item ∈ ([.line "foo \\- does a thing" none, .finish 6] : Input), endingDocument.Readable item :=
    List.forall_mem_cons.mpr ⟨htext, List.forall_mem_singleton.mpr trivial⟩
  have hlaw := (lookAhead_readable "B" rfl hreadable).2 _ _ _ rfl (by decide)
  have hgathered := (hlaw.2.1 ⟨6, rfl⟩).1
  rw [hgathered]
  exact ⟨by decide +kernel, by decide +kernel⟩

end RoffDocBook.Document
