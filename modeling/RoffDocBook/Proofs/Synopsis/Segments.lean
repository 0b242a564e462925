import RoffDocBook.Proofs.Synopsis.AllOrNothing
import RoffDocBook.Synopsis.Display

/-! The lines of a display in segments, one for each step of the reading. The steps come to the last line, and they
alone tell what is written, whatever the bound on their number. -/
namespace RoffDocBook.Synopsis
open Text TokenReader

def Verdict.result? {α : Type} : Verdict α → Option α
  | parsed result => some result
  | declined => none
  | failed _ => none

def Verdict.reason? {α : Type} : Verdict α → Option Text
  | parsed _ => none
  | declined => none
  | failed reason => some reason

namespace Display

/-- What one step takes of the lines. -/
inductive Segment where
  | blank (line : Text)
  | functions (lines : List Text) (markup : Text) (names : List Text)
  | command (lines : List Text) (markup name : Text)
  /-- A line that no synopsis has claimed, with the reason why it is no command if it looks like one. -/
  | other (line : Text) (failure : Option Text)

namespace Segment

def lines : Segment → List Text
  | blank line => [line]
  | functions lines _ _ => lines
  | command lines _ _ => lines
  | other line _ => [line]

/-- What a segment adds to the display, and to the lines that are kept for a paragraph. -/
def write (display : Display) (stash : Stash) : Segment → Display × Stash
  | blank _ => (display.flush stash, [])
  | functions _ markup names =>
    ({ display.flush stash with
      markup := (display.flush stash).markup ++ [markup]
      found := true
      learned := (display.flush stash).learned ++ names.map (·, HintTag.function) }, [])
  | command _ markup name =>
    ({ display.flush stash with
      markup := (display.flush stash).markup ++ [markup]
      found := true
      learned := (display.flush stash).learned ++ [(name, HintTag.command)] }, [])
  | other line failure => addLine { display with warnings := display.warnings ++ failure.toList } stash line

end Segment

/-- The display with all segments written. -/
def writeAll (display : Display) (stash : Stash) : List Segment → Display
  | [] => display.flush stash
  | segment :: rest => writeAll (segment.write display stash).1 (segment.write display stash).2 rest

/-- The steps that take all lines of a reader. A blank line is one, functions are looked for before sentences, and
commands last. -/
inductive Steps (context : CommandContext) : TokenReader → List Segment → Prop where
  | done {reader : TokenReader} (hl : reader.lines = []) : Steps context reader []
  | blank {reader : TokenReader} {line : Text} {rest : List Text} {segments : List Segment}
      (hl : reader.lines = line :: rest) (hb : isAllBlank line = true) (hs : Steps context reader.popLine.2 segments) :
      Steps context reader (.blank line :: segments)
  | functions {reader after : TokenReader} {line markup : Text} {rest lines names : List Text}
      {segments : List Segment} (hl : reader.lines = line :: rest) (hb : isAllBlank line = false)
      (hp : Function.parse reader = (.parsed (markup, names), after)) (ht : reader.lines = lines ++ after.lines)
      (hn : lines ≠ []) (hs : Steps context after segments) :
      Steps context reader (.functions lines markup names :: segments)
  | command {reader after : TokenReader} {line markup name : Text} {rest lines : List Text} {segments : List Segment}
      (hl : reader.lines = line :: rest) (hb : isAllBlank line = false) (hf : (Function.parse reader).1.result? = none)
      (hc : Command.isProse line = false) (hp : Command.parse reader context = (.parsed (markup, name), after))
      (ht : reader.lines = lines ++ after.lines) (hn : lines ≠ []) (hs : Steps context after segments) :
      Steps context reader (.command lines markup name :: segments)
  | sentence {reader : TokenReader} {line : Text} {rest : List Text} {segments : List Segment}
      (hl : reader.lines = line :: rest) (hb : isAllBlank line = false) (hf : (Function.parse reader).1.result? = none)
      (hc : Command.isProse line = true) (hs : Steps context reader.popLine.2 segments) :
      Steps context reader (.other line none :: segments)
  | unclaimed {reader : TokenReader} {line : Text} {rest : List Text} {segments : List Segment}
      (hl : reader.lines = line :: rest) (hb : isAllBlank line = false) (hf : (Function.parse reader).1.result? = none)
      (hc : Command.isProse line = false) (hp : (Command.parse reader context).1.result? = none)
      (hs : Steps context reader.popLine.2 segments) :
      Steps context reader (.other line (Command.parse reader context).1.reason? :: segments)

/-- No token of a line is pending, and lines are split at their blanks only. -/
structure AtLine (reader : TokenReader) : Prop where
  tokens : reader.tokens = []
  spacing : reader.spacing = none

theorem AtLine.popLine {reader : TokenReader} (h : AtLine reader) : AtLine reader.popLine.2 :=
  ⟨popLine_tokens reader, (advances_popLine reader).spacing.trans h.spacing⟩

theorem popLine_lines {reader : TokenReader} {line : Text} {rest : List Text} (h : reader.lines = line :: rest) :
    reader.popLine.2.lines = rest := by
  rw [popLine_of_cons h]

/-- A line that is taken is the first of those that were left. -/
theorem lines_popLine {reader : TokenReader} {line : Text} {rest : List Text} (h : reader.lines = line :: rest) :
    reader.lines = [line] ++ reader.popLine.2.lines := by
  rw [popLine_lines h, h]
  rfl

/-- A synopsis that is accepted takes lines and stops between two of them. -/
theorem accepted {α : Type} {reader : TokenReader} {read : Verdict α × TokenReader} {result : α}
    (h : AllOrNothing reader read) (hr : read.1.result? = some result) :
    read = (.parsed result, read.2) ∧ AtLine read.2 ∧ ∃ lines, lines ≠ [] ∧ reader.lines = lines ++ read.2.lines := by
  obtain ⟨verdict, after⟩ := read
  cases verdict <;> cases hr
  obtain ⟨⟨lines, hn, hl, _⟩, htokens, hspacing⟩ := h
  exact ⟨rfl, ⟨htokens, hspacing⟩, lines, hn, hl⟩

/-- A synopsis that is not accepted leaves the reader where it was. -/
theorem refused {α : Type} {reader : TokenReader} {read : Verdict α × TokenReader} (h : AllOrNothing reader read)
    (hr : read.1.result? = none) :
    read = (.declined, reader) ∨ ∃ reason, read = (.failed reason, reader) := by
  obtain ⟨verdict, after⟩ := read
  cases verdict with
  | parsed result => cases hr
  | declined => exact Or.inl (by rw [show after = reader from h])
  | failed reason => exact Or.inr ⟨reason, by rw [show after = reader from h]⟩

/-- From between two lines, the steps come to the last line, since each of them takes a line. -/
theorem exists_steps (context : CommandContext) {reader : TokenReader} (h : AtLine reader) :
    ∃ segments, Steps context reader segments := by
  induction hn : reader.lines.length using Nat.strongRecOn generalizing reader with
  | ind n ih =>
    have onward {lines : List Text} {after : TokenReader} (ha : AtLine after) (hne : lines ≠ [])
        (ht : reader.lines = lines ++ after.lines) : ∃ segments, Steps context after segments := by
      refine ih _ ?_ ha rfl
      have hpos := List.length_pos_iff.mpr hne
      rw [← hn, ht, List.length_append]
      omega
    cases hl : reader.lines with
    | nil => exact ⟨[], .done hl⟩
    | cons line rest =>
      obtain ⟨others, hothers⟩ := onward h.popLine (List.cons_ne_nil line []) (lines_popLine hl)
      cases hb : isAllBlank line with
      | true => exact ⟨_, .blank hl hb hothers⟩
      | false =>
        cases hf : (Function.parse reader).1.result? with
        | some result =>
          obtain ⟨hp, hat, lines, hne, ht⟩ := accepted (Function.parse_takes h.tokens h.spacing) hf
          obtain ⟨segments, hs⟩ := onward hat hne ht
          exact ⟨_, .functions hl hb hp ht hne hs⟩
        | none =>
          cases hc : Command.isProse line with
          | true => exact ⟨_, .sentence hl hb hf hc hothers⟩
          | false =>
            cases hr : (Command.parse reader context).1.result? with
            | none => exact ⟨_, .unclaimed hl hb hf hc hr hothers⟩
            | some result =>
              obtain ⟨hp, hat, lines, hne, ht⟩ := accepted (Command.parse_takes h.tokens h.spacing context) hr
              obtain ⟨segments, hs⟩ := onward hat hne ht
              exact ⟨_, .command hl hb hf hc hp ht hne hs⟩

variable {context : CommandContext} {reader : TokenReader} {segments : List Segment}

/-- The segments are the lines in order, and each has one at least. -/
theorem Steps.lines (h : Steps context reader segments) :
    reader.lines = segments.flatMap Segment.lines ∧ ∀ segment ∈ segments, segment.lines ≠ [] := by
  have onward {lines : List Text} {before after : TokenReader} {segment : Segment} {others : List Segment}
      (he : segment.lines = lines) (hne : lines ≠ []) (ht : before.lines = lines ++ after.lines)
      (ih : after.lines = others.flatMap Segment.lines ∧ ∀ segment ∈ others, segment.lines ≠ []) :
      before.lines = (segment :: others).flatMap Segment.lines ∧ ∀ other ∈ segment :: others, other.lines ≠ [] :=
    ⟨by rw [ht, ih.1, List.flatMap_cons, he], List.forall_mem_cons.mpr ⟨he ▸ hne, ih.2⟩⟩
  induction h with
  | done hl => exact ⟨hl, by simp⟩
  | blank hl _ _ ih => exact onward rfl (List.cons_ne_nil _ []) (lines_popLine hl) ih
  | functions _ _ _ ht hn _ ih => exact onward rfl hn ht ih
  | command _ _ _ _ _ ht hn _ ih => exact onward rfl hn ht ih
  | sentence hl _ _ _ _ ih => exact onward rfl (List.cons_ne_nil _ []) (lines_popLine hl) ih
  | unclaimed hl _ _ _ _ _ ih => exact onward rfl (List.cons_ne_nil _ []) (lines_popLine hl) ih

/-- A sentence has too many words for the name of a file. -/
theorem isFileName_of_isProse {line : Text} (h : Command.isProse line = true) : isFileName line = false := by
  rw [← Bool.not_eq_true]
  intro hf
  have hfree : ∀ c ∈ trim line, isBlank c = false := by
    simp only [isFileName, Bool.and_eq_true, Bool.not_eq_true', List.any_eq_false, Bool.not_eq_true] at hf
    exact hf.1.2
  have hle := length_words_of_free hfree
  rw [words_trim] at hle
  have hshort : (words line).length < 4 := by omega
  simp [Command.isProse, hshort] at h

theorem addLine_of_isProse {line : Text} (h : Command.isProse line = true) (display : Display) (stash : Stash) :
    addLine display stash line = (display, line :: stash) := by
  rw [addLine, isFileName_of_isProse h]
  rfl

theorem length_popLine {line : Text} {rest : List Text} (hl : reader.lines = line :: rest) {fuel : Nat}
    (hf : reader.lines.length < fuel + 1) : reader.popLine.2.lines.length < fuel := by
  rw [popLine_lines hl]
  rw [hl, List.length_cons] at hf
  omega

theorem length_after {after : TokenReader} {lines : List Text} (ht : reader.lines = lines ++ after.lines)
    (hn : lines ≠ []) {fuel : Nat} (hf : reader.lines.length < fuel + 1) : after.lines.length < fuel := by
  have hpos := List.length_pos_iff.mpr hn
  rw [ht, List.length_append] at hf
  omega

/-- Reading with any bound above the number of lines writes the segments. -/
theorem Steps.read (h : Steps context reader segments) (ha : AtLine reader) {fuel : Nat}
    (hf : reader.lines.length < fuel) (display : Display) (stash : Stash) :
    read fuel context reader display stash = writeAll display stash segments := by
  induction h generalizing fuel display stash with
  | done hl =>
    cases fuel <;> simp [Display.read, peekLine?, hl, writeAll]
  | blank hl hb _ ih =>
    cases fuel with
    | zero => omega
    | succ fuel =>
      rw [Display.read, peekLine?, hl]
      simp only [List.head?_cons, hb, if_true]
      exact ih ha.popLine (length_popLine hl hf) _ _
  | @functions reader after line markup rest lines names segments hl hb hp ht hn _ ih =>
    cases fuel with
    | zero => omega
    | succ fuel =>
      have hat : AtLine after := by
        have hall := (accepted (Function.parse_takes ha.tokens ha.spacing) (by rw [hp]; rfl)).2.1
        rwa [hp] at hall
      rw [Display.read, peekLine?, hl]
      simp only [List.head?_cons, hb, Bool.false_eq_true, if_false, hp]
      exact ih hat (length_after ht hn hf) _ _
  | @command reader after line markup name rest lines segments hl hb hr hc hp ht hn _ ih =>
    cases fuel with
    | zero => omega
    | succ fuel =>
      have hat : AtLine after := by
        have hall := (accepted (Command.parse_takes ha.tokens ha.spacing context) (by rw [hp]; rfl)).2.1
        rwa [hp] at hall
      rw [Display.read, peekLine?, hl]
      rcases refused (Function.parse_takes ha.tokens ha.spacing) hr with hd | ⟨reason, hd⟩ <;>
      · simp only [List.head?_cons, hb, Bool.false_eq_true, if_false, hd, hc, hp]
        exact ih hat (length_after ht hn hf) _ _
  | sentence hl hb hr hc _ ih =>
    cases fuel with
    | zero => omega
    | succ fuel =>
      rw [Display.read, peekLine?, hl]
      rcases refused (Function.parse_takes ha.tokens ha.spacing) hr with hd | ⟨reason, hd⟩ <;>
      · simp only [List.head?_cons, hb, Bool.false_eq_true, if_false, hd, hc, if_true]
        rw [ih ha.popLine (length_popLine hl hf)]
        simp [writeAll, Segment.write, addLine_of_isProse hc]
  | unclaimed hl hb hr hc hp _ ih =>
    cases fuel with
    | zero => omega
    | succ fuel =>
      rw [Display.read, peekLine?, hl]
      rcases refused (Function.parse_takes ha.tokens ha.spacing) hr with hd | ⟨reason, hd⟩ <;>
        rcases refused (Command.parse_takes ha.tokens ha.spacing context) hp with he | ⟨why, he⟩ <;>
      · simp only [List.head?_cons, hb, Bool.false_eq_true, if_false, hd, hc, he]
        rw [ih ha.popLine (length_popLine hl hf)]
        simp [writeAll, Segment.write, Verdict.reason?]

end Display

end RoffDocBook.Synopsis
