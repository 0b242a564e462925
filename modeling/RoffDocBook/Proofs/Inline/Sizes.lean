import RoffDocBook.Proofs.Document.Output
import RoffDocBook.Proofs.Formatter.Expansion

/-! Changes of size in a text of plain characters. The reader of plain text and that of running text each drop them by
a rule of its own, and what is left is the same where no size is quoted and none could go on with a second digit. -/
namespace RoffDocBook.Inline
open Text

abbrev Digit := { c : Char // c.isDigit = true }

theorem Digit.ne (digit : Digit) {c : Char} (h : c.isDigit = false) : digit.val ≠ c := by
  rintro rfl
  exact absurd digit.property (Bool.eq_false_iff.mp h)

def digitsText (digits : List Digit) : Text :=
  digits.map (·.val)

/-- The argument of a change of size. -/
inductive Size where
  | number (first : Digit) (others : List Digit)
  | pair (first second : Digit)
  | bracketed (digits : List Digit)
  | quoted (digits : List Digit)

/-- What is written between the sign of a size and the text after it. -/
def Size.text : Size → Text
  | number first others => first.val :: digitsText others
  | pair first second => ['(', first.val, second.val]
  | bracketed digits => '[' :: digitsText digits ++ [']']
  | quoted digits => '\'' :: digitsText digits ++ ['\'']

/-- The signs of a size, of which the first is none. -/
def signs : List Text :=
  [[], ['+'], ['-']]

/-- A part of a text in which sizes are the only escapes. -/
inductive Part where
  | char (c : Char) (plain : c ∉ ['\\', '<', '>', '&'])
  | size (sign : Text) (signed : sign ∈ signs) (size : Size)

/-- The text of some parts. -/
def written : List Part → Text
  | [] => []
  | .char c _ :: parts => c :: written parts
  | .size sign _ size :: parts => '\\' :: 's' :: sign ++ size.text ++ written parts

/-- A digit with which a size may have a second one. -/
def mayGoOn (first : Digit) : Bool :=
  first.val != '0' && first.val < '4'

/-- Whether a text begins with a digit. -/
def beginsWithDigit (t : Text) : Bool :=
  t.head?.any Char.isDigit

/-- A size of which both readers drop the same, in front of some text. -/
def Size.Alike (after : Text) : Size → Prop
  | number first others => ¬ (mayGoOn first && beginsWithDigit (digitsText others ++ after)) = true
  | pair _ _ => True
  | bracketed _ => True
  | quoted _ => False

/-- Parts of which both readers leave the same. -/
def Alike : List Part → Prop
  | [] => True
  | .char _ _ :: parts => Alike parts
  | .size _ _ size :: parts => size.Alike (written parts) ∧ Alike parts

/-! What the readers leave of characters and digits. -/

theorem plainText_append {t : Text} (h : '\\' ∉ t) (u : Text) : plainText (t ++ u) = t ++ plainText u := by
  induction t with
  | nil => rfl
  | cons c t ih =>
    rw [List.mem_cons, not_or] at h
    rw [List.cons_append, plainText, ih h.2]
    · rfl
    · exact fun same _ => h.1 same.symm
    · exact fun _ _ same _ => h.1 same.symm

theorem notMem_digitsText {c : Char} (h : c.isDigit = false) (digits : List Digit) : c ∉ digitsText digits := by
  intro mem
  obtain ⟨digit, _, same⟩ := List.mem_map.mp mem
  exact digit.ne h same

theorem Part.backslash_notMem {c : Char} (plain : c ∉ ['\\', '<', '>', '&']) : '\\' ∉ [c] :=
  fun mem => plain (List.mem_singleton.mp mem ▸ List.mem_cons_self)

/-! What they leave of a size. -/

namespace Size

/-- What the reader of plain text leaves of a size: all but the first digit of a number or the first quote. -/
def left : Size → Text
  | number _ others => digitsText others
  | quoted digits => digitsText digits ++ ['\'']
  | pair _ _ | bracketed _ => []

/-- The text that the reader of running text goes on with, where a number takes a second digit if it may. -/
def strippedRest (after : Text) : Size → Text
  | number first others =>
    let rest := digitsText others ++ after
    if mayGoOn first && beginsWithDigit rest then rest.tail else rest
  | pair _ _ | bracketed _ | quoted _ => after

variable (size : Size) (after : Text)

theorem afterSign_text : afterSign (size.text ++ after) = size.text ++ after := by
  cases size with
  | number first others =>
    rw [text, List.cons_append, afterSign]
    · exact fun _ same => first.ne (by decide) (List.cons.inj same).1
    · exact fun _ same => first.ne (by decide) (List.cons.inj same).1
  | pair first second => rfl
  | bracketed digits => rfl
  | quoted digits => rfl

theorem afterSign_append {sign : Text} (signed : sign ∈ signs) :
    afterSign (sign ++ (size.text ++ after)) = size.text ++ after := by
  simp only [signs, List.mem_cons, List.not_mem_nil, or_false] at signed
  rcases signed with rfl | rfl | rfl
  · exact size.afterSign_text after
  · rfl
  · rfl

theorem text_bracketed (digits : List Digit) :
    (bracketed digits).text ++ after = '[' :: (digitsText digits ++ ']' :: after) := by
  rw [text, List.cons_append, List.cons_append, List.append_assoc, List.singleton_append]

theorem text_quoted (digits : List Digit) :
    (quoted digits).text ++ after = '\'' :: (digitsText digits ++ '\'' :: after) := by
  rw [text, List.cons_append, List.cons_append, List.append_assoc, List.singleton_append]

theorem spanUntil_digitsText {close : Char} (h : close.isDigit = false) (digits : List Digit) :
    (spanUntil (· == close) (digitsText digits ++ close :: after)).2.drop 1 = after := by
  rw [Formatter.spanUntil_append (notMem_digitsText h digits)]
  rfl

theorem logicalChar?_digit (digit : Digit) : logicalChar? (digit.val :: after) = some (digit.val, after) := by
  rw [logicalChar?]
  all_goals exact fun _ same _ => digit.ne (by decide) same

theorem afterPlainSize_append {sign : Text} (signed : sign ∈ signs) :
    afterPlainSize (sign ++ (size.text ++ after)) = size.left ++ after := by
  rw [afterPlainSize, size.afterSign_append after signed]
  cases size with
  | number first others => exact if_pos first.property
  | pair first second =>
    have name : readName ('(' :: first.val :: second.val :: after) = ([first.val, second.val], after) := by
      rw [readName, logicalChar?_digit]
      dsimp only
      rw [logicalChar?_digit]
    exact congrArg Prod.snd name
  | bracketed digits =>
    rw [text_bracketed]
    exact spanUntil_digitsText after (by decide) digits
  | quoted digits =>
    rw [text_quoted, left, List.append_assoc]
    rfl

theorem afterSize_append {sign : Text} (signed : sign ∈ signs) :
    afterSize (sign ++ (size.text ++ after)) = size.strippedRest after := by
  rw [afterSize, size.afterSign_append after signed]
  cases size with
  | number first others =>
    rw [text, List.cons_append, strippedRest]
    generalize digitsText others ++ after = rest
    split
    · rename_i same
      exact absurd (List.cons.inj same).1 (first.ne (by decide))
    · rename_i same
      exact absurd (List.cons.inj same).1 (first.ne (by decide))
    · rename_i same
      exact absurd (List.cons.inj same).1 (first.ne (by decide))
    · rename_i same
      obtain ⟨rfl, rfl⟩ := List.cons.inj same
      rw [if_pos first.property]
      cases rest with
      | nil => simp [beginsWithDigit]
      | cons d more =>
        have begins : beginsWithDigit (d :: more) = d.isDigit := rfl
        rw [begins, mayGoOn, Bool.and_right_comm]
        rfl
    · contradiction
  | pair first second => rfl
  | bracketed digits =>
    rw [text_bracketed]
    exact spanUntil_digitsText after (by decide) digits
  | quoted digits =>
    rw [text_quoted]
    exact spanUntil_digitsText after (by decide) digits

theorem backslash_notMem_left : '\\' ∉ size.left := by
  cases size with
  | number first others => exact notMem_digitsText (by decide) others
  | pair first second => exact List.not_mem_nil
  | bracketed digits => exact List.not_mem_nil
  | quoted digits =>
    rw [left, List.mem_append, not_or]
    exact ⟨notMem_digitsText (by decide) digits, by decide⟩

end Size

theorem plainText_size {sign : Text} (signed : sign ∈ signs) (size : Size) (after : Text) :
    plainText ('\\' :: 's' :: sign ++ size.text ++ after) = size.left ++ plainText after := by
  rw [List.cons_append, List.cons_append, List.cons_append, List.cons_append, List.append_assoc, plainText,
    size.afterPlainSize_append after signed]
  exact plainText_append size.backslash_notMem_left after

theorem stripMotions_size {sign : Text} (signed : sign ∈ signs) (size : Size) (after : Text) :
    stripMotions ('\\' :: 's' :: sign ++ size.text ++ after) = stripMotions (size.strippedRest after) := by
  rw [List.cons_append, List.cons_append, List.cons_append, List.cons_append, List.append_assoc, stripMotions,
    size.afterSize_append after signed]

/-- The second digit of a number is not in running text. -/
theorem length_stripMotions_tail {t : Text} (h : beginsWithDigit t = true) :
    (stripMotions t.tail).length < (stripMotions t).length := by
  cases t with
  | nil => contradiction
  | cons d t =>
    have plain : '\\' ∉ [d] := fun mem => Digit.ne ⟨d, h⟩ (by decide) (List.mem_singleton.mp mem).symm
    have kept : stripMotions (d :: t) = d :: stripMotions t := Document.stripMotions_append plain t
    rw [kept]
    exact Nat.lt_succ_self _

/-- What is left of a size in running text is no longer than in plain text, and just as long where the readers do the
same with it. -/
theorem Size.length_stripMotions_le (size : Size) {after : Text}
    (shorter : (stripMotions after).length ≤ (plainText after).length) :
    (stripMotions (size.strippedRest after)).length ≤ (size.left ++ plainText after).length ∧
      (size.left ++ plainText after = stripMotions (size.strippedRest after) ↔
        size.Alike after ∧ plainText after = stripMotions after) := by
  cases size with
  | number first others =>
    have kept := Document.stripMotions_append (notMem_digitsText (by decide) others) after
    rw [left, strippedRest, Alike, List.length_append]
    split
    · rename_i second
      have dropped := length_stripMotions_tail (Bool.and_eq_true_iff.mp second).2
      rw [kept, List.length_append] at dropped
      refine ⟨by omega, iff_of_false ?_ fun alike => alike.1 second⟩
      intro same
      have := congrArg List.length same
      rw [List.length_append] at this
      omega
    · rename_i single
      rw [kept, List.append_cancel_left_eq, List.length_append]
      exact ⟨Nat.add_le_add_left shorter _, (and_iff_right single).symm⟩
  | pair first second => exact ⟨shorter, (and_iff_right trivial).symm⟩
  | bracketed digits => exact ⟨shorter, (and_iff_right trivial).symm⟩
  | quoted digits =>
    have longer : (stripMotions after).length < ((quoted digits).left ++ plainText after).length := by
      rw [left, List.length_append, List.length_append, List.length_singleton]
      omega
    refine ⟨Nat.le_of_lt longer, iff_of_false ?_ fun alike => alike.1⟩
    exact fun same => Nat.ne_of_gt longer (congrArg List.length same)

/-- What the reader of plain text leaves of a part. -/
def Part.left : Part → Text
  | .char c _ => [c]
  | .size _ _ argument => argument.left

theorem plainText_written (parts : List Part) : plainText (written parts) = parts.flatMap Part.left := by
  induction parts with
  | nil => rw [written, plainText, List.flatMap_nil]
  | cons part parts ih =>
    rw [List.flatMap_cons, ← ih]
    cases part with
    | char c plain => exact plainText_append (Part.backslash_notMem plain) (written parts)
    | size sign signed size => exact plainText_size signed size (written parts)

/-- Less is left of a text in running text, where the readers do not do the same. -/
theorem length_stripMotions_written (parts : List Part) :
    (stripMotions (written parts)).length ≤ (plainText (written parts)).length ∧
      (plainText (written parts) = stripMotions (written parts) ↔ Alike parts) := by
  induction parts with
  | nil =>
    rw [written, plainText, stripMotions]
    exact ⟨Nat.le_refl _, iff_of_true rfl trivial⟩
  | cons part parts ih =>
    obtain ⟨shorter, same⟩ := ih
    cases part with
    | char c plain =>
      have free := Part.backslash_notMem plain
      have read : plainText (c :: written parts) = [c] ++ plainText (written parts) := plainText_append free _
      have kept : stripMotions (c :: written parts) = [c] ++ stripMotions (written parts) := Document.stripMotions_append free _
      rw [written, read, kept, List.append_cancel_left_eq, List.length_append, List.length_append]
      exact ⟨Nat.add_le_add_left shorter _, same⟩
    | size sign signed size =>
      rw [written, plainText_size signed, stripMotions_size signed, Alike, ← same]
      exact size.length_stripMotions_le shorter

/-- Of a text whose escapes are changes of size, plain text keeps the characters, the digits of a number from the second
one on, and a size in quotes but for the first quote. Running text is left with the same just where no size is quoted,
and no number that begins with one, two or three goes on with a digit. -/
theorem plainText_eq_stripMotions_iff (parts : List Part) :
    plainText (written parts) = parts.flatMap Part.left ∧
      (plainText (written parts) = stripMotions (written parts) ↔ Alike parts) :=
  ⟨plainText_written parts, (length_stripMotions_written parts).2⟩

end RoffDocBook.Inline
