import Mathlib.Data.List.Basic
import Mathlib.Data.List.Induction
import RoffDocBook.Synopsis.Command

/-! The grammar of a command synopsis over its tokens, and a machine that decides it from left to right: brackets match,
bars stand inside brackets, and an ellipsis has something to repeat. -/
namespace RoffDocBook.Synopsis.Command

/-- Two brackets of one kind. -/
def Pair (opening closing : Text) : Prop :=
  (opening = ['['] ∧ closing = [']']) ∨ (opening = ['{'] ∧ closing = ['}'])

def IsBracket (token : Text) : Prop :=
  token = ['['] ∨ token = ['{'] ∨ token = [']'] ∨ token = ['}']

instance (token : Text) : Decidable (IsBracket token) :=
  inferInstanceAs (Decidable (_ ∨ _))

/-- Brackets are properly nested, each closed by one of its own kind. -/
inductive Matched : List Text → Prop where
  | nil : Matched []
  | token {t : Text} {ts : List Text} (h : ¬ IsBracket t) (rest : Matched ts) : Matched (t :: ts)
  | group {opening closing : Text} {inner rest : List Text} (h : Pair opening closing) (hi : Matched inner)
      (hr : Matched rest) : Matched (opening :: inner ++ closing :: rest)

/-- What an ellipsis can repeat: a word, or a bracketed group. -/
inductive Part : List Text → Prop where
  | word {t : Text} (h : isTarget t = true) : Part [t]
  | group {opening closing : Text} {inner : List Text} (h : Pair opening closing) (hi : Matched inner) :
      Part (opening :: inner ++ [closing])

/-- The closing brackets that are due after a token, the innermost first. -/
def closersStep (due : List Text) (token : Text) : Option (List Text) :=
  if token = ['['] then some ([']'] :: due)
  else if token = ['{'] then some (['}'] :: due)
  else if token = [']'] ∨ token = ['}'] then
    match due with
    | closer :: outer => if closer = token then some outer else none
    | [] => none
  else some due

/-- The closing brackets that are due after all tokens. -/
def closers (due ts : List Text) : Option (List Text) :=
  ts.foldlM closersStep due

theorem closersStep_opening {opening closing : Text} (h : Pair opening closing) (due : List Text) :
    closersStep due opening = some (closing :: due) := by
  rcases h with ⟨rfl, rfl⟩ | ⟨rfl, rfl⟩ <;> simp [closersStep]

theorem closersStep_closing {opening closing : Text} (h : Pair opening closing) (due : List Text) :
    closersStep (closing :: due) closing = some due := by
  rcases h with ⟨rfl, rfl⟩ | ⟨rfl, rfl⟩ <;> simp [closersStep]

theorem closersStep_plain {token : Text} (h : ¬ IsBracket token) (due : List Text) :
    closersStep due token = some due := by
  unfold IsBracket at h
  simp only [not_or] at h
  simp [closersStep, h.1, h.2.1, h.2.2.1, h.2.2.2]

theorem closers_append (due a b : List Text) : closers due (a ++ b) = (closers due a).bind (closers · b) := by
  simp only [closers, List.foldlM_append]
  rfl

theorem closers_cons (due : List Text) (t : Text) (ts : List Text) :
    closers due (t :: ts) = (closersStep due t).bind (closers · ts) := by
  simp only [closers, List.foldlM_cons]
  rfl

/-- Matched tokens leave the same brackets open. -/
theorem Matched.closers {ts : List Text} (h : Matched ts) (due : List Text) : closers due ts = some due := by
  induction h generalizing due with
  | nil => rfl
  | token h _ ih => rw [closers_cons, closersStep_plain h]; exact ih due
  | group h _ _ hi hr =>
    rw [List.cons_append, closers_cons, closersStep_opening h, Option.bind_some, closers_append, hi,
      Option.bind_some, closers_cons, closersStep_closing h]
    exact hr due

theorem Matched.append {a b : List Text} (ha : Matched a) (hb : Matched b) : Matched (a ++ b) := by
  induction ha with
  | nil => exact hb
  | token h _ ih => exact .token h ih
  | group h hi _ _ ih =>
    rw [List.append_assoc, List.cons_append]
    exact .group h hi ih

/-- Tokens with some brackets still open: matched tokens before, between and after the opening brackets. -/
inductive Opened : List Text → List Text → Prop where
  | matched {ts : List Text} (ht : Matched ts) : Opened [] ts
  | group {due before ts : List Text} {opening closing : Text} (hb : Opened due before) (hp : Pair opening closing)
      (ht : Matched ts) : Opened (closing :: due) (before ++ opening :: ts)

theorem Opened.append {due a b : List Text} (ha : Opened due a) (hb : Matched b) : Opened due (a ++ b) := by
  cases ha with
  | matched h => exact .matched (h.append hb)
  | group hd h ht =>
    rw [List.append_assoc, List.cons_append]
    exact .group hd h (ht.append hb)

/-- A group that is closed is matched. -/
theorem Opened.close {due ts : List Text} {closing : Text} (ho : Opened (closing :: due) ts) :
    Opened due (ts ++ [closing]) := by
  generalize hd : closing :: due = all at ho
  cases ho with
  | matched => simp at hd
  | @group outer before inner first last hb hp ht =>
    obtain ⟨rfl, rfl⟩ := List.cons.inj hd
    rw [List.append_assoc, List.cons_append]
    exact hb.append (.group hp ht .nil)

structure Outline where
  /-- The closing brackets that are due, the innermost first. -/
  due : List Text := []
  /-- Whether the innermost sequence has a part since its last bar. -/
  filled : Bool := false
  /-- Whether there was a bar outside all brackets. -/
  barred : Bool := false

namespace Outline

/-- What one token does to the outline, unless it is an error. -/
def step (outline : Outline) (token : Text) : Option Outline :=
  if token = ['.', '.', '.'] then
    if outline.filled then some outline else none
  else
    (closersStep outline.due token).map fun due =>
      if token = ['['] ∨ token = ['{'] then { outline with due, filled := false }
      else if token = ['|'] then { due, filled := false, barred := outline.barred || outline.due.isEmpty }
      else { outline with due, filled := true }

/-- The outline after all tokens, unless one of them is an error. -/
def run (outline : Outline) (ts : List Text) : Option Outline :=
  ts.foldlM step outline

theorem run_cons (outline : Outline) (t : Text) (ts : List Text) :
    outline.run (t :: ts) = (outline.step t).bind (run · ts) := by
  simp only [run, List.foldlM_cons]
  rfl

end Outline

end RoffDocBook.Synopsis.Command
