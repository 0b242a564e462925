import Mathlib.Data.List.TakeWhile
import RoffDocBook.Proofs.Formatter.Expansion

/-! The full expansion of a text: each reference to a string is replaced by the full expansion of the string, each
reference to an argument by the argument, and all else stays in place. -/
namespace RoffDocBook.Formatter
open Text

/-- A name at the start of a text, and the text after it: one character, two after a parenthesis, or any number of them
in brackets. The end of the text may cut a name off. -/
inductive Named : Text → Text → Text → Prop where
  | one {c : Char} {rest : Text} (h : c ≠ '(' ∧ c ≠ '[') : Named (c :: rest) [c] rest
  | two {a b : Char} {rest : Text} : Named ('(' :: a :: b :: rest) [a, b] rest
  | bracketed {name rest : Text} (h : ']' ∉ name) : Named ('[' :: (name ++ ']' :: rest)) name rest
  | missing : Named [] [] []
  | short {name : Text} (h : name.length < 2) : Named ('(' :: name) name []
  | unclosed {name : Text} (h : ']' ∉ name) : Named ('[' :: name) name []

/-- The argument that a reference at the start of a text stands for, and the text after it. -/
inductive Argued (own : Invocation) : Text → Text → Text → Prop where
  | all {rest : Text} : Argued own ('*' :: rest) (join [' '] own.arguments) rest
  | quoted {rest : Text} : Argued own ('@' :: rest) (join [' '] (own.arguments.map fun a => '"' :: a ++ ['"'])) rest
  | name {rest : Text} : Argued own ('0' :: rest) own.name.toList rest
  | digit {c : Char} {rest : Text} (h : c.isDigit = true ∧ c ≠ '0') :
      Argued own (c :: rest) (Piece.nth own.arguments (toNat? [c])) rest
  | numbered {c : Char} {t numeral rest : Text} (hc : c = '(' ∨ c = '[') (h : Named (c :: t) numeral rest) :
      Argued own (c :: t) (Piece.nth own.arguments (toNat? numeral)) rest
  /-- What names no argument stands for nothing and is not part of the reference. -/
  | other {c : Char} {rest : Text} (h : c ≠ '*' ∧ c ≠ '@' ∧ c ≠ '(' ∧ c ≠ '[' ∧ c.isDigit = false) :
      Argued own (c :: rest) [] (c :: rest)
  | missing : Argued own [] [] []

/-- The value of the string that a written name refers to; one that is not defined is empty. -/
def State.stringValue (s : State) (written : Text) : Text :=
  (s.strings.get? (stringName (String.ofList written))).getD []

/-- The full expansion of a text. -/
inductive Expands (s : State) : Text → Text → Prop where
  | nil : Expands s [] []
  | char {c : Char} {t u : Text} (h : c ≠ '\\') (ht : Expands s t u) : Expands s (c :: t) (c :: u)
  /-- A backslash that ends the text. -/
  | backslash : Expands s ['\\'] ['\\']
  /-- An escape that refers to nothing; arguments are referred to inside a macro only. -/
  | escape {c : Char} {t u : Text} (h : c ≠ '*' ∧ (c = '$' → s.invocations = [])) (ht : Expands s t u) :
      Expands s ('\\' :: c :: t) ('\\' :: c :: u)
  | string {t name rest value u : Text} (h : Named t name rest) (hv : Expands s (s.stringValue name) value)
      (hr : Expands s rest u) : Expands s ('\\' :: '*' :: t) (value ++ u)
  | argument {own : Invocation} {outer : List Invocation} {t value rest u : Text} (hi : s.invocations = own :: outer)
      (h : Argued own t value rest) (hr : Expands s rest u) : Expands s ('\\' :: '$' :: t) (value ++ u)

/-- References nest in a text at most a number of times: each leads to a string in which they nest once less. -/
inductive Nests (s : State) : Nat → Text → Prop where
  | nil {n : Nat} : Nests s n []
  | char {n : Nat} {c : Char} {t : Text} (h : c ≠ '\\') (ht : Nests s n t) : Nests s n (c :: t)
  | backslash {n : Nat} : Nests s n ['\\']
  | escape {n : Nat} {c : Char} {t : Text} (h : c ≠ '*' ∧ (c = '$' → s.invocations = [])) (ht : Nests s n t) :
      Nests s n ('\\' :: c :: t)
  | string {n : Nat} {t name rest : Text} (h : Named t name rest) (hv : Nests s n (s.stringValue name))
      (hr : Nests s (n + 1) rest) : Nests s (n + 1) ('\\' :: '*' :: t)
  | argument {n : Nat} {own : Invocation} {outer : List Invocation} {t value rest : Text}
      (hi : s.invocations = own :: outer) (h : Argued own t value rest) (hr : Nests s (n + 1) rest) :
      Nests s (n + 1) ('\\' :: '$' :: t)

/-- A text that ends neither in a single backslash nor within a reference: each reference in it is the same whatever
follows the text. -/
inductive Whole (s : State) : Text → Prop where
  | nil : Whole s []
  | char {c : Char} {t : Text} (h : c ≠ '\\') (ht : Whole s t) : Whole s (c :: t)
  | escape {c : Char} {t : Text} (h : c ≠ '*' ∧ (c = '$' → s.invocations = [])) (ht : Whole s t) :
      Whole s ('\\' :: c :: t)
  | string {t name rest : Text} (h : ∀ more, Named (t ++ more) name (rest ++ more)) (hr : Whole s rest) :
      Whole s ('\\' :: '*' :: t)
  | argument {own : Invocation} {outer : List Invocation} {t value rest : Text} (hi : s.invocations = own :: outer)
      (h : ∀ more, Argued own (t ++ more) value (rest ++ more)) (hr : Whole s rest) : Whole s ('\\' :: '$' :: t)

/-! What the definitions say of a name and of an argument is what is read. -/

theorem spanUntil_of_notMem {t : Text} {c : Char} (h : c ∉ t) : spanUntil (· == c) t = (t, []) := by
  have hpass : ∀ d ∈ t, (!(d == c)) = true := by
    intro d hd
    rw [beq_false_of_ne (ne_of_mem_of_not_mem hd h)]
    rfl
  rw [spanUntil, List.takeWhile_eq_self_iff.mpr hpass, List.dropWhile_eq_nil_iff.mpr hpass]

theorem Named.readName {t name rest : Text} (h : Named t name rest) : readName t = (String.ofList name, rest) := by
  cases h with
  | one h => simp [Formatter.readName, h.1, h.2]
  | two => rfl
  | bracketed h => simp [Formatter.readName, spanUntil_append h]
  | missing => rfl
  | @short name h =>
    rcases name with - | ⟨a, - | ⟨b, name⟩⟩
    · rfl
    · rfl
    · exact absurd h (by simp)
  | unclosed h => simp [Formatter.readName, spanUntil_of_notMem h]

theorem exists_named (t : Text) : ∃ name rest, Named t name rest := by
  cases t with
  | nil => exact ⟨_, _, .missing⟩
  | cons c t =>
    by_cases hpair : c = '('
    · subst hpair
      match t with
      | a :: b :: rest => exact ⟨_, _, .two⟩
      | [a] => exact ⟨_, _, .short (by simp)⟩
      | [] => exact ⟨_, _, .short (by simp)⟩
    · by_cases hbracket : c = '['
      · subst hbracket
        by_cases h : ']' ∈ t
        · obtain ⟨name, rest, rfl, hn⟩ := List.eq_append_cons_of_mem h
          exact ⟨_, _, .bracketed hn⟩
        · exact ⟨_, _, .unclosed h⟩
      · exact ⟨_, _, .one ⟨hpair, hbracket⟩⟩

/-- A name is read in one way. -/
theorem Named.unique {t name rest other after : Text} (h : Named t name rest) (k : Named t other after) :
    name = other ∧ rest = after := by
  have heq := h.readName.symm.trans k.readName
  rw [Prod.mk.injEq, String.ofList_inj] at heq
  exact heq

theorem Named.suffix {t name rest : Text} (h : Named t name rest) : rest <:+ t := by
  cases h with
  | one => exact List.suffix_cons ..
  | @two a b rest => exact List.suffix_append ['(', a, b] rest
  | @bracketed name rest =>
    have hrest : rest <:+ ']' :: rest := List.suffix_cons ..
    exact (hrest.trans (List.suffix_append name _)).trans (List.suffix_cons ..)
  | missing | short | unclosed => exact List.nil_suffix

variable {own : Invocation} {t value rest : Text}

theorem Argued.argumentText (h : Argued own t value rest) : argumentText own t = (value, rest) := by
  cases h with
  | all => rfl
  | quoted => rfl
  | name => simp [Formatter.argumentText]
  | digit h => exact argumentText_digit own h rest
  | numbered hc h => exact argumentText_named own hc h.readName
  | other h =>
    obtain ⟨_, _, hpair, hbracket, hdigit⟩ := h
    have hzero : ∀ c : Char, c.isDigit = false → c ≠ '0' := by
      rintro c hc rfl
      exact absurd hc (by decide)
    simp [Formatter.argumentText, hpair, hbracket, hdigit, hzero _ hdigit]
  | missing => rfl

theorem exists_argued (own : Invocation) (t : Text) : ∃ value rest, Argued own t value rest := by
  cases t with
  | nil => exact ⟨_, _, .missing⟩
  | cons c t =>
    by_cases hnumbered : c = '(' ∨ c = '['
    · obtain ⟨numeral, rest, h⟩ := exists_named (c :: t)
      exact ⟨_, _, .numbered hnumbered h⟩
    · rw [not_or] at hnumbered
      by_cases hall : c = '*'
      · exact hall ▸ ⟨_, _, .all⟩
      · by_cases hquoted : c = '@'
        · exact hquoted ▸ ⟨_, _, .quoted⟩
        · by_cases hdigit : c.isDigit = true
          · by_cases hzero : c = '0'
            · exact hzero ▸ ⟨_, _, .name⟩
            · exact ⟨_, _, .digit ⟨hdigit, hzero⟩⟩
          · exact ⟨_, _, .other ⟨hall, hquoted, hnumbered.1, hnumbered.2, by simpa using hdigit⟩⟩

theorem Argued.unique {other after : Text} (h : Argued own t value rest) (k : Argued own t other after) :
    value = other ∧ rest = after := by
  have heq := h.argumentText.symm.trans k.argumentText
  rw [Prod.mk.injEq] at heq
  exact heq

variable {s : State}

/-! What a text expands to, read off its first characters. -/

theorem Expands.of_char {c : Char} {u : Text} (hc : c ≠ '\\') (h : Expands s (c :: t) u) :
    ∃ v, u = c :: v ∧ Expands s t v := by
  cases h with
  | char _ ht => exact ⟨_, rfl, ht⟩
  | backslash | escape | string | argument => exact absurd rfl hc

theorem Expands.of_escape {c : Char} {u : Text} (hc : c ≠ '*' ∧ (c = '$' → s.invocations = []))
    (h : Expands s ('\\' :: c :: t) u) : ∃ v, u = '\\' :: c :: v ∧ Expands s t v := by
  cases h with
  | char hc => exact absurd rfl hc
  | escape _ ht => exact ⟨_, rfl, ht⟩
  | string => exact absurd rfl hc.1
  | argument hi => cases hi.symm.trans (hc.2 rfl)

theorem Expands.of_string {name u : Text} (hn : Named t name rest) (h : Expands s ('\\' :: '*' :: t) u) :
    ∃ v w, u = v ++ w ∧ Expands s (s.stringValue name) v ∧ Expands s rest w := by
  cases h with
  | char hc => exact absurd rfl hc
  | escape hc => exact absurd rfl hc.1
  | string hn' hv hr =>
    obtain ⟨rfl, rfl⟩ := hn.unique hn'
    exact ⟨_, _, rfl, hv, hr⟩

theorem Expands.of_argument {outer : List Invocation} {u : Text} (hi : s.invocations = own :: outer)
    (ha : Argued own t value rest) (h : Expands s ('\\' :: '$' :: t) u) : ∃ v, u = value ++ v ∧ Expands s rest v := by
  cases h with
  | char hc => exact absurd rfl hc
  | escape hc => cases hi.symm.trans (hc.2 rfl)
  | argument hi' ha' hr =>
    obtain ⟨rfl, rfl⟩ := List.cons.inj (hi.symm.trans hi')
    obtain ⟨rfl, rfl⟩ := ha.unique ha'
    exact ⟨_, rfl, hr⟩

/-- A text has at most one full expansion. -/
theorem Expands.unique {u v : Text} (h : Expands s t u) (k : Expands s t v) : u = v := by
  induction h generalizing v with
  | nil =>
    cases k
    rfl
  | char hc _ ih =>
    obtain ⟨w, rfl, hw⟩ := k.of_char hc
    rw [ih hw]
  | backslash =>
    cases k with
    | char hc => exact absurd rfl hc
    | backslash => rfl
  | escape hc _ ih =>
    obtain ⟨w, rfl, hw⟩ := k.of_escape hc
    rw [ih hw]
  | string hn _ _ ihv ihr =>
    obtain ⟨w, x, rfl, hw, hx⟩ := k.of_string hn
    rw [ihv hw, ihr hx]
  | argument hi ha _ ih =>
    obtain ⟨w, rfl, hw⟩ := k.of_argument hi ha
    rw [ih hw]

/-! Nothing is read over the end of a text that is whole. -/

theorem Named.of_append {name : Text} (h : ∀ more, Named (t ++ more) name (rest ++ more)) : Named t name rest := by
  simpa only [List.append_nil] using h []

theorem Argued.of_append (h : ∀ more, Argued own (t ++ more) value (rest ++ more)) : Argued own t value rest := by
  simpa only [List.append_nil] using h []

theorem Expands.split {a b w : Text} (ha : Whole s a) (h : Expands s (a ++ b) w) :
    ∃ u v, w = u ++ v ∧ Expands s a u ∧ Expands s b v := by
  induction ha generalizing w with
  | nil => exact ⟨[], w, rfl, .nil, h⟩
  | @char c a hc _ ih =>
    obtain ⟨x, rfl, hx⟩ := h.of_char hc
    obtain ⟨u, v, rfl, hu, hv⟩ := ih hx
    exact ⟨c :: u, v, rfl, .char hc hu, hv⟩
  | @escape c a hc _ ih =>
    obtain ⟨x, rfl, hx⟩ := h.of_escape hc
    obtain ⟨u, v, rfl, hu, hv⟩ := ih hx
    exact ⟨'\\' :: c :: u, v, rfl, .escape hc hu, hv⟩
  | @string a name rest hn _ ih =>
    obtain ⟨x, y, rfl, hx, hy⟩ := h.of_string (hn b)
    obtain ⟨u, v, rfl, hu, hv⟩ := ih hy
    exact ⟨x ++ u, v, (List.append_assoc _ _ _).symm, .string (.of_append hn) hx hu, hv⟩
  | @argument own outer a value rest hi ha _ ih =>
    obtain ⟨x, rfl, hx⟩ := h.of_argument hi (ha b)
    obtain ⟨u, v, rfl, hu, hv⟩ := ih hx
    exact ⟨value ++ u, v, (List.append_assoc _ _ _).symm, .argument hi (.of_append ha) hu, hv⟩

theorem Nests.append {n : Nat} {a b : Text} (ha : Whole s a) (h : Nests s n a) (hb : Nests s n b) :
    Nests s n (a ++ b) := by
  induction ha with
  | nil => exact hb
  | char hc _ ih =>
    cases h with
    | char _ h => exact .char hc (ih h)
    | backslash | escape | string | argument => exact absurd rfl hc
  | escape hc _ ih =>
    cases h with
    | char hc' => exact absurd rfl hc'
    | escape _ h => exact .escape hc (ih h)
    | string => exact absurd rfl hc.1
    | argument hi => cases hi.symm.trans (hc.2 rfl)
  | string hn _ ih =>
    cases h with
    | char hc => exact absurd rfl hc
    | escape hc => exact absurd rfl hc.1
    | string hn' hv hr =>
      obtain ⟨rfl, rfl⟩ := (Named.of_append hn).unique hn'
      exact .string (hn b) hv (ih hr)
  | argument hi ha _ ih =>
    cases h with
    | char hc => exact absurd rfl hc
    | escape hc => cases hi.symm.trans (hc.2 rfl)
    | argument hi' ha' hr =>
      obtain ⟨rfl, rfl⟩ := List.cons.inj (hi.symm.trans hi')
      obtain ⟨rfl, rfl⟩ := (Argued.of_append ha).unique ha'
      exact .argument hi (ha b) (ih hr)

theorem Nests.mono {n m : Nat} (h : Nests s n t) (hm : n ≤ m) : Nests s m t := by
  induction h generalizing m with
  | nil => exact .nil
  | char hc _ ih => exact .char hc (ih hm)
  | backslash => exact .backslash
  | escape hc _ ih => exact .escape hc (ih hm)
  | string hn _ _ ihv ihr =>
    obtain ⟨m, rfl⟩ := Nat.exists_eq_add_one_of_ne_zero (Nat.ne_zero_of_lt hm)
    exact .string hn (ihv (Nat.le_of_succ_le_succ hm)) (ihr hm)
  | argument hi ha _ ih =>
    obtain ⟨m, rfl⟩ := Nat.exists_eq_add_one_of_ne_zero (Nat.ne_zero_of_lt hm)
    exact .argument hi ha (ih hm)

/-! A text without a backslash refers to nothing. -/

theorem whole_of_notMem (h : '\\' ∉ t) : Whole s t := by
  induction t with
  | nil => exact .nil
  | cons c t ih =>
    rw [List.mem_cons, not_or] at h
    exact .char (Ne.symm h.1) (ih h.2)

theorem nests_of_notMem (h : '\\' ∉ t) (n : Nat) : Nests s n t := by
  induction t with
  | nil => exact .nil
  | cons c t ih =>
    rw [List.mem_cons, not_or] at h
    exact .char (Ne.symm h.1) (ih h.2)

/-- A text in which nothing nests is its own expansion. -/
theorem Nests.expands (h : Nests s 0 t) : Expands s t t := by
  generalize hn : 0 = n at h
  induction h with
  | nil => exact .nil
  | char hc _ ih => exact .char hc (ih hn)
  | backslash => exact .backslash
  | escape hc _ ih => exact .escape hc (ih hn)
  | string | argument => cases hn

/-- Where every string nests, so does every text, once deeper. -/
theorem nests_of_strings {n : Nat} (h : ∀ name value, s.strings.get? name = some value → Nests s n value) (t : Text) :
    Nests s (n + 1) t := by
  have hvalue (name : Text) : Nests s n (s.stringValue name) := by
    rw [State.stringValue]
    cases hget : s.strings.get? (stringName (String.ofList name)) with
    | none => exact .nil
    | some value => exact h _ value hget
  induction t using State.expandOnce.induct s with
  | case1 => exact .nil
  | case2 t found ih =>
    obtain ⟨name, rest, hn⟩ := exists_named t
    rw [show found.2 = rest from congrArg Prod.snd hn.readName] at ih
    exact .string hn (hvalue name) ih
  | case3 t hi ih => exact .escape ⟨by decide, fun _ => hi⟩ ih
  | case4 t own outer hi ih =>
    obtain ⟨value, rest, ha⟩ := exists_argued own t
    rw [ha.argumentText] at ih
    exact .argument hi ha ih
  | case5 c t hstring hargument ih => exact .escape ⟨hstring, fun hc => (hargument hc).elim⟩ ih
  | case6 c t _ _ hescape ih =>
    by_cases hc : c = '\\'
    · cases t with
      | nil => exact hc ▸ .backslash
      | cons d t => exact (hescape d t hc rfl).elim
    · exact .char hc ih

end RoffDocBook.Formatter
