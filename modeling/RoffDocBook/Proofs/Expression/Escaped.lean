import Mathlib.Data.List.DropRight
import RoffDocBook.Formatter.Expression
import RoffDocBook.Proofs.Formatter.Escaped

/-! An expression has the same value once it is escaped. Its operators are known in their escaped spellings too, and
what is left of the text after each part is the escaped form of what was left before. -/
namespace RoffDocBook.Formatter
open Text Markup

/-- An expression in which no operator is spelled by a reference, no text with a character that is escaped is measured,
and the names of registers are legible. -/
structure Evaluable (t : Text) : Prop where
  operators : ∀ c ∈ marks, ∀ rest, ¬ escapeChar c ++ rest <:+ t
  widths : ∀ rest, '\\' :: 'w' :: rest <:+ t → ∀ c ∈ rest, c ∉ marks
  registers : ∀ rest, '\\' :: 'n' :: rest <:+ t → Legible (unsigned rest)

theorem Evaluable.suffix {t u : Text} (h : Evaluable t) (hu : u <:+ t) : Evaluable u :=
  { operators := fun c hc rest hr => h.operators c hc rest (hr.trans hu)
    widths := fun rest hr => h.widths rest (hr.trans hu)
    registers := fun rest hr => h.registers rest (hr.trans hu) }

theorem evaluable_of_notMem {t : Text} (ha : '&' ∉ t) (hb : '\\' ∉ t) : Evaluable t where
  operators c hc rest hr := by
    obtain ⟨name, hname⟩ := exists_reference hc
    rw [hname] at hr
    exact ha (hr.subset List.mem_cons_self)
  widths rest hr := absurd (hr.subset List.mem_cons_self) hb
  registers rest hr := absurd (hr.subset List.mem_cons_self) hb

namespace Operator

/-- What is read after an angle bracket: one operator by itself, and two others with the character after it. -/
def afterAngle (alone equal asked : Operator) : Text → Option (Operator × Text)
  | '=' :: rest => some (equal, rest)
  | '?' :: rest => some (asked, rest)
  | rest => some (alone, rest)

theorem afterAngle_escape (alone equal asked : Operator) (t : Text) :
    afterAngle alone equal asked (escape t) =
      (afterAngle alone equal asked t).map fun found => (found.1, escape found.2) := by
  cases t with
  | nil => rfl
  | cons c rest =>
    by_cases hmark : c ∈ marks
    · obtain ⟨name, hname⟩ := exists_reference hmark
      have hequal : c ≠ '=' := fun hc => absurd (hc ▸ hmark) (by decide)
      have hasked : c ≠ '?' := fun hc => absurd (hc ▸ hmark) (by decide)
      simp [escape_cons, hname, afterAngle, hequal, hasked]
    · rw [escape_cons_of_notMem hmark]
      unfold afterAngle
      split <;> simp_all [escape_cons_of_notMem hmark]

/-- An angle bracket and its escaped form are the same operator. -/
theorem read?_angle {c : Char} {alone equal asked : Operator}
    (h : (c, alone, equal, asked) ∈ [('<', lt, le, Operator.min), ('>', gt, ge, Operator.max)]) (rest : Text) :
    read? (c :: rest) = afterAngle alone equal asked rest ∧
      read? (escapeChar c ++ rest) = afterAngle alone equal asked rest := by
  simp only [List.mem_cons, List.not_mem_nil, or_false, Prod.mk.injEq] at h
  unfold afterAngle
  split
  · rcases h with ⟨rfl, rfl, rfl, rfl⟩ | ⟨rfl, rfl, rfl, rfl⟩ <;> simp [read?, spellings, dropStart?, escapeChar]
  · rcases h with ⟨rfl, rfl, rfl, rfl⟩ | ⟨rfl, rfl, rfl, rfl⟩ <;> simp [read?, spellings, dropStart?, escapeChar]
  · rename_i hequal hasked
    cases rest with
    | nil => rcases h with ⟨rfl, rfl, rfl, rfl⟩ | ⟨rfl, rfl, rfl, rfl⟩ <;> decide
    | cons d ds =>
      have he : '=' ≠ d := fun he => hequal ds (he ▸ rfl)
      have ha : '?' ≠ d := fun ha => hasked ds (ha ▸ rfl)
      rcases h with ⟨rfl, rfl, rfl, rfl⟩ | ⟨rfl, rfl, rfl, rfl⟩ <;>
        simp [read?, spellings, dropStart?, escapeChar, he, ha]

/-- An ampersand that begins no reference. -/
theorem read?_ampersand {rest : Text} (h : ∀ c ∈ marks, ∀ more, '&' :: rest ≠ escapeChar c ++ more) :
    read? ('&' :: rest) = some (and, rest) := by
  have hnone {c : Char} (hc : c ∈ marks) (more : Text) : dropStart? (escapeChar c ++ more) ('&' :: rest) = none := by
    rw [Option.eq_none_iff_forall_ne_some]
    intro after hafter
    exact h c hc (more ++ after) (by rw [dropStart?_eq_some hafter, List.append_assoc])
  have hle : dropStart? "&lt;=".toList ('&' :: rest) = none := hnone (c := '<') (by decide) ['=']
  have hge : dropStart? "&gt;=".toList ('&' :: rest) = none := hnone (c := '>') (by decide) ['=']
  have hmin : dropStart? "&lt;?".toList ('&' :: rest) = none := hnone (c := '<') (by decide) ['?']
  have hmax : dropStart? "&gt;?".toList ('&' :: rest) = none := hnone (c := '>') (by decide) ['?']
  have hlt : dropStart? "&lt;".toList ('&' :: rest) = none := hnone (c := '<') (by decide) []
  have hgt : dropStart? "&gt;".toList ('&' :: rest) = none := hnone (c := '>') (by decide) []
  have hand : dropStart? "&amp;".toList ('&' :: rest) = none := hnone (c := '&') (by decide) []
  simp only [read?, spellings, List.findSome?_cons, hle, hge, hmin, hmax, hlt, hgt, hand, Option.map_none]
  rfl

/-- Before a character that is not escaped, the spellings of operators are told apart as they are in the text. -/
theorem dropStart?_spelling {c : Char} (hc : c ∉ marks) (rest : Text) {entry : String × Operator}
    (he : entry ∈ spellings) :
    dropStart? entry.1.toList (escape (c :: rest)) = (dropStart? entry.1.toList (c :: rest)).map escape := by
  have hsort : ∀ entry ∈ spellings, entry.1.toList.all (· ∉ marks) = true ∨
      (entry.1.toList.take 1).any (· ∈ marks) = true := by decide
  rcases hsort entry he with hplain | hany
  · exact dropStart?_escape (forall_mem_of_all hplain) _
  · obtain ⟨d, hfirst, hd⟩ := List.any_eq_true.mp hany
    replace hd := of_decide_eq_true hd
    cases hspelling : entry.1.toList with
    | nil =>
      rw [hspelling] at hfirst
      cases hfirst
    | cons e es =>
      rw [hspelling] at hfirst
      obtain rfl := List.mem_singleton.mp hfirst
      have hne : d ≠ c := ne_of_mem_of_not_mem hd hc
      rw [escape_cons_of_notMem hc, dropStart?_of_ne hne, dropStart?_of_ne hne]
      rfl

/-- An operator that begins with no character that is escaped. -/
theorem read?_unmarked {c : Char} (hc : c ∉ marks) (rest : Text) :
    read? (escape (c :: rest)) = (read? (c :: rest)).map fun found => (found.1, escape found.2) := by
  have hfound : ∀ entries ⊆ spellings,
      (entries.findSome? fun entry =>
          (dropStart? entry.1.toList (escape (c :: rest))).map fun rest => (entry.2, rest)) =
        (entries.findSome? fun entry => (dropStart? entry.1.toList (c :: rest)).map fun rest => (entry.2, rest)).map
          fun found => (found.1, escape found.2) := by
    intro entries
    induction entries with
    | nil => exact fun _ => rfl
    | cons entry entries ih =>
      intro hsub
      obtain ⟨he, hrest⟩ := List.cons_subset.mp hsub
      rw [List.findSome?_cons, List.findSome?_cons, dropStart?_spelling hc rest he, ih hrest]
      cases dropStart? entry.1.toList (c :: rest) <;> rfl
  exact hfound spellings (List.Subset.refl _)

/-- An operator is read in its escaped spelling, unless a reference in the text itself spells one. -/
theorem read?_escape {t : Text} (h : ∀ c ∈ marks, ∀ rest, t ≠ escapeChar c ++ rest) :
    read? (escape t) = (read? t).map fun found => (found.1, escape found.2) := by
  cases t with
  | nil => rfl
  | cons c rest =>
    by_cases hmark : c ∈ marks
    · have hangle {alone equal asked : Operator}
          (hc : (c, alone, equal, asked) ∈ [('<', lt, le, Operator.min), ('>', gt, ge, Operator.max)]) :
          read? (escape (c :: rest)) = (read? (c :: rest)).map fun found => (found.1, escape found.2) := by
        rw [escape_cons, (read?_angle hc _).2, (read?_angle hc _).1, afterAngle_escape]
      have hcases : c = '&' ∨ c = '<' ∨ c = '>' := by simpa [marks] using hmark
      rcases hcases with rfl | rfl | rfl
      · rw [read?_ampersand h, escape_cons]
        simp [read?, spellings, dropStart?, escapeChar]
      · exact hangle List.mem_cons_self
      · exact hangle (List.mem_cons_of_mem _ List.mem_cons_self)
    · exact read?_unmarked hmark rest

theorem suffix_of_read? {t rest : Text} {op : Operator} (h : read? t = some (op, rest)) :
    rest <:+ t ∧ rest.length < t.length := by
  obtain ⟨entry, he, hfound⟩ := List.exists_of_findSome?_eq_some h
  obtain ⟨after, hafter, heq⟩ := Option.map_eq_some_iff.mp hfound
  obtain ⟨rfl, rfl⟩ := Prod.mk.inj heq
  have hlong : ∀ entry ∈ spellings, 0 < entry.1.toList.length := by decide
  have hpositive := hlong entry he
  rw [dropStart?_eq_some hafter, List.length_append]
  exact ⟨List.suffix_append _ _, by omega⟩

end Operator

/-- Two readings that end alike: with the same value before the escaped form of what is left, or both with an error. -/
inductive Alike (t : Text) : Reading → Reading → Prop where
  | value {raw escaped : State} {value : Int64} {rest : Text} (h : Escapes raw escaped) (hr : rest <:+ t) :
      Alike t (.ok (value, rest), raw) (.ok (value, escape rest), escaped)
  | error {raw escaped : State} {e e' : ExpressionError} (h : Escapes raw escaped) :
      Alike t (.error e, raw) (.error e', escaped)

variable {raw escaped : State} {t : Text}

theorem Alike.suffix {u : Text} {first second : Reading} (h : Alike u first second) (hu : u <:+ t) :
    Alike t first second := by
  cases h with
  | value h hr => exact .value h (hr.trans hu)
  | error h => exact .error h

theorem readNumber_escape (t : Text) : readNumber (escape t) = ((readNumber t).1, escape (readNumber t).2) := by
  have hdigits : Unmarked isNumeralChar := by decide
  rw [readNumber, takeWhile_escape hdigits, dropWhile_escape hdigits, readNumber]
  refine Prod.ext rfl ?_
  dsimp only
  cases t.dropWhile isNumeralChar with
  | nil => rfl
  | cons c rest =>
    by_cases hmark : c ∈ marks
    · obtain ⟨name, hname⟩ := exists_reference hmark
      have hunit : ∀ c ∈ marks, isUnit c = false := forall_mem_of_all (by decide)
      simp [escape_cons, hname, hunit c hmark, hunit '&' (by decide)]
    · simp only [escape_cons_of_notMem hmark]
      split
      · rfl
      · exact (escape_cons_of_notMem hmark rest).symm

theorem readNumber_suffix (t : Text) : (readNumber t).2 <:+ t := by
  have hrest : t.dropWhile isNumeralChar <:+ t := List.dropWhile_suffix _
  rw [readNumber]
  split
  · rename_i c rest hc
    split
    · exact (List.suffix_cons c rest).trans (hc ▸ hrest)
    · exact hc ▸ hrest
  · exact List.nil_suffix

theorem Alike.expression {fuel fuel' : Nat} (h : Alike t (readTerm fuel raw t) (readTerm fuel' escaped (escape t)))
    (hrest : ∀ raw escaped value rest, Escapes raw escaped → rest <:+ t →
      Alike rest (readOperations fuel raw value rest) (readOperations fuel' escaped value (escape rest))) :
    Alike t (readExpression (fuel + 1) raw t) (readExpression (fuel' + 1) escaped (escape t)) := by
  rw [readExpression, readExpression]
  generalize readTerm fuel raw t = first at h
  generalize readTerm fuel' escaped (escape t) = second at h
  cases h with
  | value h hr => exact (hrest _ _ _ _ h hr).suffix hr
  | error h => exact .error h

theorem Alike.operations {fuel fuel' : Nat} (hs : Escapes raw escaped) (ht : Evaluable t) (value : Int64)
    (hterm : ∀ op rest, Operator.read? (t.dropWhile isSpaceOrTab) = some (op, rest) →
      Alike rest (readTerm fuel raw rest) (readTerm fuel' escaped (escape rest)))
    (hrest : ∀ op rest, Operator.read? (t.dropWhile isSpaceOrTab) = some (op, rest) →
      ∀ raw escaped value after, Escapes raw escaped → after <:+ rest →
        Alike after (readOperations fuel raw value after) (readOperations fuel' escaped value (escape after))) :
    Alike t (readOperations (fuel + 1) raw value t) (readOperations (fuel' + 1) escaped value (escape t)) := by
  have hspaced : t.dropWhile isSpaceOrTab <:+ t := List.dropWhile_suffix _
  have hread := Operator.read?_escape (t := t.dropWhile isSpaceOrTab) fun c hc rest he =>
    ht.operators c hc rest (he ▸ hspaced)
  rw [readOperations, readOperations, dropWhile_escape (by decide), hread]
  cases hop : Operator.read? (t.dropWhile isSpaceOrTab) with
  | none => exact .value hs hspaced
  | some found =>
    obtain ⟨op, rest⟩ := found
    have hsuffix : rest <:+ t := (Operator.suffix_of_read? hop).1.trans hspaced
    have halike := hterm op rest hop
    dsimp only [Option.map_some]
    generalize readTerm fuel raw rest = first at halike
    generalize readTerm fuel' escaped (escape rest) = second at halike
    cases halike with
    | error h => exact .error h
    | @value _ _ operand after h hr =>
      dsimp only
      cases op.apply value operand with
      | error e => exact .error h
      | ok value => exact (hrest op rest hop _ _ _ _ h hr).suffix (hr.trans hsuffix)

/-! What a term is by its first characters. -/

/-- A reading with another value. -/
def Reading.map (f : Int64 → Int64) : Reading → Reading
  | (.ok (value, rest), s) => (.ok (f value, rest), s)
  | (.error e, s) => (.error e, s)

/-- A reading up to the parenthesis that closes it. -/
def Reading.close : Reading → Reading
  | (.ok (value, rest), s) =>
    match rest.dropWhile isSpaceOrTab with
    | ')' :: rest => (.ok (value, rest), s)
    | _ => (.error .unbalanced, s)
  | (.error e, s) => (.error e, s)

section
variable (fuel : Nat) (s : State) (t : Text)

theorem readTerm_dropWhile : readTerm (fuel + 1) s (t.dropWhile isSpaceOrTab) = readTerm (fuel + 1) s t := by
  rw [readTerm, readTerm, List.dropWhile_idempotent]

theorem readTerm_not :
    readTerm (fuel + 1) s ('!' :: t) = (readTerm fuel s t).map fun value => Word.ofBool (value ≤ 0) :=
  rfl

theorem readTerm_negative : readTerm (fuel + 1) s ('-' :: t) = (readTerm fuel s t).map fun value => -value :=
  rfl

theorem readTerm_positive : readTerm (fuel + 1) s ('+' :: t) = readTerm fuel s t :=
  rfl

theorem readTerm_group : readTerm (fuel + 1) s ('(' :: t) = (readExpression fuel s t).close :=
  rfl

theorem readTerm_register :
    readTerm (fuel + 1) s ('\\' :: 'n' :: t) =
      (.ok ((s.readRegister t).1, (s.readRegister t).2.1), (s.readRegister t).2.2) :=
  rfl

theorem readTerm_width (delimiter : Char) :
    readTerm (fuel + 1) s ('\\' :: 'w' :: delimiter :: t) =
      (.ok (Int64.ofNat (width (spanUntil (· == delimiter) t).1), (spanUntil (· == delimiter) t).2.drop 1), s) :=
  rfl

/-- A number or a guard about the output device. -/
theorem readTerm_other {c : Char} (hc : c ∉ ['!', '-', '+', '(', ' ', '\t'])
    (hescape : c = '\\' → (∀ rest, t ≠ 'n' :: rest) ∧ ∀ d rest, t ≠ 'w' :: d :: rest) :
    readTerm (fuel + 1) s (c :: t) =
      if c.isDigit || c == '.' then (.ok (readNumber (c :: t)), s)
      else if isDeviceLetter c then (.ok (Word.ofBool (deviceHolds c), t), s)
      else (.error (.badTerm (c :: t)), s) := by
  have hkept : (c :: t).dropWhile isSpaceOrTab = c :: t := by
    apply List.dropWhile_cons_of_neg
    simp_all [isSpaceOrTab]
  rw [readTerm, hkept]
  split <;> simp_all

end

/-! Alike readings of the parts make alike readings of the whole. -/

theorem Alike.map {first second : Reading} (h : Alike t first second) (f : Int64 → Int64) :
    Alike t (first.map f) (second.map f) := by
  cases h with
  | value h hr => exact .value h hr
  | error h => exact .error h

theorem Alike.close {first second : Reading} (h : Alike t first second) : Alike t first.close second.close := by
  cases h with
  | @value raw escaped value rest h hr =>
    have hspaced : rest.dropWhile isSpaceOrTab <:+ t := (List.dropWhile_suffix _).trans hr
    rw [Reading.close, Reading.close, dropWhile_escape (by decide)]
    split
    · rename_i after hafter
      rw [hafter, escape_cons_of_notMem (by decide)]
      exact .value h ((List.suffix_cons ')' after).trans (hafter ▸ hspaced))
    · rename_i hopen
      split
      · rename_i after hafter
        obtain ⟨u, hu, _⟩ := exists_of_escape_eq_cons (by decide) hafter
        exact (hopen u hu).elim
      · exact .error h
  | error h => exact .error h

/-- A number or a guard about the output device, or neither. -/
theorem alike_readTerm_other (fuel fuel' : Nat) (hs : Escapes raw escaped) {c : Char} {rest : Text}
    (hc : c ∉ ['!', '-', '+', '(', ' ', '\t'])
    (hescape : c = '\\' → (∀ after, rest ≠ 'n' :: after) ∧ ∀ d after, rest ≠ 'w' :: d :: after) :
    Alike (c :: rest) (readTerm (fuel + 1) raw (c :: rest)) (readTerm (fuel' + 1) escaped (escape (c :: rest))) := by
  rw [readTerm_other fuel raw rest hc hescape]
  by_cases hmark : c ∈ marks
  · obtain ⟨name, hname⟩ := exists_reference hmark
    have hnone : ∀ c ∈ marks, (c.isDigit || c == '.') = false ∧ isDeviceLetter c = false :=
      forall_mem_of_all (by decide)
    have hamp := hnone '&' (by decide)
    rw [escape_cons, hname, List.cons_append, readTerm_other fuel' escaped _ (by decide) fun h => absurd h (by decide),
      (hnone c hmark).1, (hnone c hmark).2, hamp.1, hamp.2]
    exact .error hs
  · have hescaped : c = '\\' → (∀ after, escape rest ≠ 'n' :: after) ∧ ∀ d after, escape rest ≠ 'w' :: d :: after := by
      intro hc
      refine ⟨fun after h => ?_, fun d after h => ?_⟩
      · obtain ⟨u, hu, _⟩ := exists_of_escape_eq_cons (by decide) h
        exact (hescape hc).1 u hu
      · obtain ⟨u, hu, hrest⟩ := exists_of_escape_eq_cons (by decide) h
        cases u with
        | nil => cases hrest
        | cons e u => exact (hescape hc).2 e u hu
    rw [escape_cons_of_notMem hmark, readTerm_other fuel' escaped _ hc hescaped]
    split
    · rw [← escape_cons_of_notMem hmark, readNumber_escape]
      exact .value hs (readNumber_suffix _)
    · split
      · exact .value hs (List.suffix_cons c rest)
      · exact .error hs

/-- The value of a register. -/
theorem alike_readTerm_register (fuel fuel' : Nat) (hs : Escapes raw escaped) {after : Text}
    (hlegible : Legible (unsigned after)) :
    Alike ('\\' :: 'n' :: after) (readTerm (fuel + 1) raw ('\\' :: 'n' :: after))
      (readTerm (fuel' + 1) escaped (escape ('\\' :: 'n' :: after))) := by
  obtain ⟨hvalue, hrest, hstate⟩ := hs.readRegister hlegible
  rw [escape_cons_of_notMem (by decide), escape_cons_of_notMem (by decide), readTerm_register, readTerm_register,
    hvalue, hrest]
  obtain ⟨name, following, hname⟩ := exists_named (unsigned after)
  have hfollowing : (raw.readRegister after).2.1 <:+ after := by
    rw [Escapes.readRegister_rest, hname.readName]
    exact hname.suffix.trans (Escapes.suffix_unsigned after)
  exact .value hstate (hfollowing.trans ((List.suffix_cons 'n' after).trans (List.suffix_cons '\\' _)))

/-- The width of a text without a character that is escaped, which is as wide once it is escaped. -/
theorem alike_readTerm_width (fuel fuel' : Nat) (hs : Escapes raw escaped) {d : Char} {after : Text}
    (hplain : ∀ c ∈ d :: after, c ∉ marks) :
    Alike ('\\' :: 'w' :: d :: after) (readTerm (fuel + 1) raw ('\\' :: 'w' :: d :: after))
      (readTerm (fuel' + 1) escaped (escape ('\\' :: 'w' :: d :: after))) := by
  have hsame : escape ('\\' :: 'w' :: d :: after) = '\\' :: 'w' :: d :: after := by
    rw [escape_cons_of_notMem (by decide), escape_cons_of_notMem (by decide), escape_of_forall hplain]
  have hrest : (spanUntil (· == d) after).2.drop 1 <:+ d :: after :=
    ((List.drop_suffix 1 _).trans (List.dropWhile_suffix _)).trans (List.suffix_cons d after)
  have hkept : escape ((spanUntil (· == d) after).2.drop 1) = (spanUntil (· == d) after).2.drop 1 :=
    escape_of_forall fun c hc => hplain c (hrest.subset hc)
  have halike (value : Int64) : Alike ('\\' :: 'w' :: d :: after)
      (.ok (value, (spanUntil (· == d) after).2.drop 1), raw)
      (.ok (value, escape ((spanUntil (· == d) after).2.drop 1)), escaped) :=
    .value hs (hrest.trans ((List.suffix_cons 'w' _).trans (List.suffix_cons '\\' _)))
  rw [hkept] at halike
  rw [hsame, readTerm_width, readTerm_width]
  exact halike _

theorem alike_readTerm {fuel fuel' : Nat} (hs : Escapes raw escaped) (ht : Evaluable t)
    (hterm : ∀ rest, rest <:+ t → rest.length < t.length →
      Alike rest (readTerm fuel raw rest) (readTerm fuel' escaped (escape rest)))
    (hexpression : ∀ rest, rest <:+ t → rest.length < t.length →
      Alike rest (readExpression fuel raw rest) (readExpression fuel' escaped (escape rest))) :
    Alike t (readTerm (fuel + 1) raw t) (readTerm (fuel' + 1) escaped (escape t)) := by
  have hspaced : t.dropWhile isSpaceOrTab <:+ t := List.dropWhile_suffix _
  rw [← readTerm_dropWhile fuel raw t, ← readTerm_dropWhile fuel' escaped (escape t), dropWhile_escape (by decide)]
  cases hu : t.dropWhile isSpaceOrTab with
  | nil => exact .error hs
  | cons c rest =>
    rw [hu] at hspaced
    have hlength := hspaced.length_le
    rw [List.length_cons] at hlength
    have hsuffix : rest <:+ t := (List.suffix_cons c rest).trans hspaced
    have hless : rest.length < t.length := hlength
    by_cases hnot : c = '!'
    · subst hnot
      rw [escape_cons_of_notMem (by decide), readTerm_not, readTerm_not]
      exact ((hterm rest hsuffix hless).suffix hsuffix).map _
    by_cases hnegative : c = '-'
    · subst hnegative
      rw [escape_cons_of_notMem (by decide), readTerm_negative, readTerm_negative]
      exact ((hterm rest hsuffix hless).suffix hsuffix).map _
    by_cases hpositive : c = '+'
    · subst hpositive
      rw [escape_cons_of_notMem (by decide), readTerm_positive, readTerm_positive]
      exact (hterm rest hsuffix hless).suffix hsuffix
    by_cases hgroup : c = '('
    · subst hgroup
      rw [escape_cons_of_notMem (by decide), readTerm_group, readTerm_group]
      exact ((hexpression rest hsuffix hless).suffix hsuffix).close
    by_cases hregister : c = '\\' ∧ ∃ after, rest = 'n' :: after
    · obtain ⟨rfl, after, rfl⟩ := hregister
      exact (alike_readTerm_register fuel fuel' hs (ht.registers after hspaced)).suffix hspaced
    by_cases hwidth : c = '\\' ∧ ∃ d after, rest = 'w' :: d :: after
    · obtain ⟨rfl, d, after, rfl⟩ := hwidth
      exact (alike_readTerm_width fuel fuel' hs (ht.widths (d :: after) hspaced)).suffix hspaced
    · have hblank := List.head?_dropWhile_not isSpaceOrTab t
      rw [hu, List.head?_cons] at hblank
      refine (alike_readTerm_other fuel fuel' hs ?_ fun hc => ⟨?_, ?_⟩).suffix hspaced
      · simp only [isSpaceOrTab] at hblank
        simp_all
      · exact fun after h => hregister ⟨hc, after, h⟩
      · exact fun d after h => hwidth ⟨hc, d, after, h⟩

/-- Readings with enough steps for the text and for its escaped form. -/
theorem alike_reading (fuel : Nat) :
    (∀ {fuel' : Nat} {raw escaped : State} {t : Text}, Escapes raw escaped → Evaluable t → 2 * t.length + 1 < fuel →
        2 * (escape t).length + 1 < fuel' →
        Alike t (readExpression fuel raw t) (readExpression fuel' escaped (escape t))) ∧
      (∀ {fuel' : Nat} {raw escaped : State} {t : Text} (value : Int64), Escapes raw escaped → Evaluable t →
        2 * t.length < fuel → 2 * (escape t).length < fuel' →
        Alike t (readOperations fuel raw value t) (readOperations fuel' escaped value (escape t))) ∧
      ∀ {fuel' : Nat} {raw escaped : State} {t : Text}, Escapes raw escaped → Evaluable t → 2 * t.length < fuel →
        2 * (escape t).length < fuel' → Alike t (readTerm fuel raw t) (readTerm fuel' escaped (escape t)) := by
  induction fuel with
  | zero =>
    exact ⟨fun _ _ h => absurd h (by omega), fun _ _ _ h => absurd h (by omega), fun _ _ h => absurd h (by omega)⟩
  | succ fuel ih =>
    obtain ⟨hexpression, hoperations, hterm⟩ := ih
    refine ⟨?_, ?_, ?_⟩
    · intro fuel' raw escaped t hs ht hfuel hfuel'
      obtain ⟨fuel', rfl⟩ := Nat.exists_eq_succ_of_ne_zero (Nat.ne_zero_of_lt hfuel')
      refine Alike.expression (hterm hs ht (by omega) (by omega)) fun raw escaped value rest hs hr => ?_
      have hlength := hr.length_le
      have hlength' := length_escape_le hr
      exact hoperations value hs (ht.suffix hr) (by omega) (by omega)
    · intro fuel' raw escaped t value hs ht hfuel hfuel'
      obtain ⟨fuel', rfl⟩ := Nat.exists_eq_succ_of_ne_zero (Nat.ne_zero_of_lt hfuel')
      have hspaced : t.dropWhile isSpaceOrTab <:+ t := List.dropWhile_suffix _
      have hbounds {op : Operator} {rest : Text} (hop : Operator.read? (t.dropWhile isSpaceOrTab) = some (op, rest)) :
          rest <:+ t ∧ 2 * rest.length < fuel ∧ 2 * (escape rest).length < fuel' := by
        obtain ⟨hr, hlength⟩ := Operator.suffix_of_read? hop
        have hlong := hspaced.length_le
        have hlength' := length_escape_lt (hr.trans hspaced) (by omega)
        exact ⟨hr.trans hspaced, by omega, by omega⟩
      refine Alike.operations hs ht value (fun op rest hop => ?_)
        fun op rest hop raw escaped value after hs hafter => ?_
      · obtain ⟨hr, hrest, hrest'⟩ := hbounds hop
        exact hterm hs (ht.suffix hr) hrest hrest'
      · obtain ⟨hr, hrest, hrest'⟩ := hbounds hop
        have hlength := hafter.length_le
        have hlength' := length_escape_le hafter
        exact hoperations value hs (ht.suffix (hafter.trans hr)) (by omega) (by omega)
    · intro fuel' raw escaped t hs ht hfuel hfuel'
      obtain ⟨fuel', rfl⟩ := Nat.exists_eq_succ_of_ne_zero (Nat.ne_zero_of_lt hfuel')
      refine alike_readTerm hs ht (fun rest hr hlength => ?_) fun rest hr hlength => ?_
      · have hlength' := length_escape_lt hr hlength
        exact hterm hs (ht.suffix hr) (by omega) (by omega)
      · have hlength' := length_escape_lt hr hlength
        exact hexpression hs (ht.suffix hr) (by omega) (by omega)

/-- An expression is worth the same once it is escaped, or is in error in both forms. -/
theorem Escapes.evaluate (hs : Escapes raw escaped) (ht : Evaluable t) :
    (escaped.evaluate (escape t)).1.toOption = (raw.evaluate t).1.toOption ∧
      Escapes (raw.evaluate t).2 (escaped.evaluate (escape t)).2 := by
  have hfuel : 2 * (escape t).length + 1 < 2 * (escape t).length + 2 := Nat.lt_succ_self _
  have halike := (alike_reading (2 * t.length + 2)).1 hs ht (Nat.lt_succ_self _) hfuel
  unfold State.evaluate
  generalize readExpression (2 * t.length + 2) raw t = first at halike
  generalize readExpression (2 * (escape t).length + 2) escaped (escape t) = second at halike
  cases halike with
  | @value raw escaped value rest h hr =>
    cases rest with
    | nil => exact ⟨rfl, h⟩
    | cons c rest =>
      obtain ⟨d, ds, hd⟩ := List.exists_cons_of_ne_nil (escapeChar_ne_nil c)
      rw [escape_cons, hd, List.cons_append]
      exact ⟨rfl, h⟩
  | error h => exact ⟨rfl, h⟩

end RoffDocBook.Formatter
