import RoffDocBook.Text.Basic

/-! The search for a piece of text. A piece is not found where its first character does not occur. -/
namespace RoffDocBook.Text

/-- What holds of all characters of a text is found out from these alone. -/
theorem forall_mem_of_all {p : Char → Prop} [DecidablePred p] {t : Text}
    (h : (t.all fun c => decide (p c)) = true) : ∀ c ∈ t, p c :=
  fun c hc => of_decide_eq_true (List.all_eq_true.mp h c hc)

theorem dropStart?_isSome_iff (piece t : Text) : (dropStart? piece t).isSome = true ↔ piece <+: t := by
  induction piece generalizing t with
  | nil => simp [dropStart?]
  | cons p ps ih =>
    cases t with
    | nil => simp [dropStart?]
    | cons c cs =>
      rw [dropStart?, List.cons_prefix_cons]
      split
      · rename_i h
        simp [ih, beq_iff_eq.mp h]
      · rename_i h
        simp [beq_iff_eq] at h
        simp [h]

theorem dropStart?_eq_some {piece t rest : Text} (h : dropStart? piece t = some rest) : t = piece ++ rest := by
  induction piece generalizing t with
  | nil => exact Option.some.inj h
  | cons p ps ih =>
    cases t with
    | nil => cases h
    | cons c cs =>
      rw [dropStart?] at h
      split at h
      · rename_i hp
        rw [beq_iff_eq.mp hp, ih h, List.cons_append]
      · cases h

theorem breakOn?_eq_some {piece t before after : Text} (h : breakOn? piece t = some (before, after)) :
    t = before ++ piece ++ after := by
  induction t generalizing before with
  | nil =>
    rw [breakOn?] at h
    split at h
    · rename_i hp
      cases h
      simpa using hp
    · cases h
  | cons c cs ih =>
    rw [breakOn?] at h
    split at h
    · rename_i hd
      cases h
      exact dropStart?_eq_some hd
    · obtain ⟨⟨front, rest⟩, hf, he⟩ := Option.map_eq_some_iff.mp h
      cases he
      rw [ih hf]
      rfl

theorem mem_of_contains {t piece : Text} (h : contains t piece = true) {c : Char} (hc : c ∈ piece) : c ∈ t := by
  obtain ⟨⟨before, after⟩, hfound⟩ := Option.isSome_iff_exists.mp h
  rw [breakOn?_eq_some hfound]
  exact List.mem_append_left after (List.mem_append_right before hc)

theorem dropEnd?_eq_some {piece t before : Text} (h : dropEnd? piece t = some before) : t = before ++ piece := by
  obtain ⟨rest, hr, rfl⟩ := Option.map_eq_some_iff.mp h
  rw [← List.reverse_reverse t, dropStart?_eq_some hr, List.reverse_append, List.reverse_reverse]

theorem dropStart?_of_ne {p c : Char} (h : p ≠ c) (ps cs : Text) : dropStart? (p :: ps) (c :: cs) = none := by
  simp [dropStart?, h]

theorem startsWith_of_ne {p c : Char} (h : p ≠ c) (ps cs : Text) : startsWith (c :: cs) (p :: ps) = false := by
  simp [startsWith, dropStart?_of_ne h]

variable {p : Char} {ps new before t : Text}

theorem breakOn?_append (h : p ∉ before) :
    breakOn? (p :: ps) (before ++ t) = (breakOn? (p :: ps) t).map fun found => (before ++ found.1, found.2) := by
  induction before with
  | nil => simp
  | cons c cs ih =>
    rw [List.mem_cons, not_or] at h
    rw [List.cons_append, breakOn?, dropStart?_of_ne h.1]
    dsimp only
    rw [ih h.2, Option.map_map]
    rfl

theorem breakOn?_of_notMem (h : p ∉ t) : breakOn? (p :: ps) t = none := by
  rw [← List.append_nil t, breakOn?_append h]
  rfl

theorem contains_append (h : p ∉ before) : contains (before ++ t) (p :: ps) = contains t (p :: ps) := by
  rw [contains, contains, breakOn?_append h, Option.isSome_map]

theorem dropStart?_append (piece after : Text) : dropStart? piece (piece ++ after) = some after := by
  induction piece with
  | nil => rfl
  | cons p ps ih => simpa [dropStart?] using ih

theorem dropEnd?_append (before piece : Text) : dropEnd? piece (before ++ piece) = some before := by
  rw [dropEnd?, List.reverse_append, dropStart?_append, Option.map_some, List.reverse_reverse]

/-- The first occurrence of a piece stays where it is with more text behind it. -/
theorem breakOn?_append_of_some {piece t before after : Text} (h : breakOn? piece t = some (before, after))
    (rest : Text) : breakOn? piece (t ++ rest) = some (before, after ++ rest) := by
  induction t generalizing before with
  | nil =>
    rw [breakOn?] at h
    split at h
    · rename_i hp
      cases h
      rw [List.isEmpty_iff.mp hp]
      cases rest <;> rfl
    · cases h
  | cons c cs ih =>
    rw [breakOn?] at h
    rw [List.cons_append, breakOn?]
    split at h
    · rename_i found hd
      cases h
      rw [← List.cons_append, dropStart?_eq_some hd, List.append_assoc, dropStart?_append]
    · rename_i hd
      obtain ⟨⟨front, last⟩, hf, he⟩ := Option.map_eq_some_iff.mp h
      cases he
      have hlong : piece.length ≤ (c :: cs).length := by
        rw [breakOn?_eq_some hf]
        simp only [List.length_cons, List.length_append]
        omega
      have hnone : dropStart? piece (c :: (cs ++ rest)) = none := by
        cases hs : dropStart? piece (c :: (cs ++ rest)) with
        | none => rfl
        | some found =>
          have hprefix : piece <+: (c :: cs) ++ rest := ⟨found, (dropStart?_eq_some hs).symm⟩
          have hshort := List.prefix_of_prefix_length_le hprefix (List.prefix_append (c :: cs) rest) hlong
          rw [← dropStart?_isSome_iff, hd] at hshort
          cases hshort
      rw [hnone, ih hf]
      rfl

/-- The first occurrence of a piece stays where it is with less text behind it. -/
theorem breakOn?_of_append {piece before rest : Text}
    (h : breakOn? piece (before ++ piece ++ rest) = some (before, rest)) :
    breakOn? piece (before ++ piece) = some (before, []) := by
  induction before with
  | nil =>
    have hd := dropStart?_append piece []
    rw [List.append_nil] at hd
    cases piece with
    | nil => rfl
    | cons p ps =>
      rw [List.nil_append, breakOn?, hd]
  | cons c cs ih =>
    rw [List.cons_append, List.cons_append, breakOn?] at h
    split at h
    · cases h
    · rename_i hd
      have hf : breakOn? piece (cs ++ piece ++ rest) = some (cs, rest) := by
        obtain ⟨found, hf, he⟩ := Option.map_eq_some_iff.mp h
        obtain ⟨hfront, hlast⟩ := Prod.mk.inj he
        rw [hf, ← (List.cons.inj hfront).2, ← hlast]
      have hnone : dropStart? piece (c :: (cs ++ piece)) = none := by
        cases hs : dropStart? piece (c :: (cs ++ piece)) with
        | none => rfl
        | some found =>
          have hlong : piece <+: c :: (cs ++ piece ++ rest) := ⟨found ++ rest, by
            rw [← List.append_assoc, ← dropStart?_eq_some hs]
            rfl⟩
          rw [← dropStart?_isSome_iff, hd] at hlong
          cases hlong
      rw [List.cons_append, breakOn?, hnone, ih hf]
      rfl

/-- A piece that stands somewhere in a text is found. -/
theorem contains_middle (before piece after : Text) : contains (before ++ (piece ++ after)) piece = true := by
  unfold contains
  induction before with
  | nil =>
    have hstart := dropStart?_append piece after
    rw [List.nil_append]
    cases ht : piece ++ after with
    | nil =>
      obtain ⟨rfl, rfl⟩ := List.append_eq_nil_iff.mp ht
      rfl
    | cons c cs =>
      rw [ht] at hstart
      rw [breakOn?, hstart]
      rfl
  | cons c cs ih =>
    rw [List.cons_append, breakOn?]
    split
    · rfl
    · rw [Option.isSome_map]
      exact ih

theorem occurrences_append (h : p ∉ before) : occurrences (before ++ t) (p :: ps) = occurrences t (p :: ps) := by
  unfold occurrences
  induction before with
  | nil => rfl
  | cons c cs ih =>
    rw [List.mem_cons, not_or] at h
    rw [List.cons_append, occurrencesFrom, startsWith_of_ne h.1, if_neg Bool.false_ne_true]
    exact ih h.2

theorem occurrences_of_notMem (h : p ∉ t) : occurrences t (p :: ps) = 0 := by
  rw [← List.append_nil t, occurrences_append h]
  rfl

/-- No occurrence starts within the rest of another one if its first character is not found there. -/
theorem occurrencesFrom_skip {piece : Text} (n : Nat) (t : Text) :
    occurrencesFrom piece n t = occurrences (t.drop n) piece := by
  induction n generalizing t with
  | zero => rfl
  | succ n ih =>
    cases t with
    | nil => rfl
    | cons c cs => exact ih cs

/-- An occurrence that ends does so before a character that is not in the rest of the piece. -/
theorem startsWith_append_of_notMem {x : Char} {piece : Text} (hx : x ∉ piece) (a b : Text) :
    startsWith (a ++ x :: b) piece = startsWith a piece := by
  rw [Bool.eq_iff_iff, startsWith, startsWith, dropStart?_isSome_iff, dropStart?_isSome_iff]
  induction piece generalizing a with
  | nil => simp
  | cons q qs ih =>
    rw [List.mem_cons, not_or] at hx
    cases a with
    | nil => simp [List.cons_prefix_cons, Ne.symm hx.1]
    | cons c cs => rw [List.cons_append, List.cons_prefix_cons, List.cons_prefix_cons, ih hx.2]

theorem startsWith_cons (c : Char) (cs : Text) : startsWith (c :: cs) (p :: ps) = (p == c && startsWith cs ps) := by
  unfold startsWith
  rw [dropStart?]
  cases p == c <;> rfl

theorem occurrences_cons (c : Char) (cs : Text) :
    occurrences (c :: cs) (p :: ps) =
      if startsWith (c :: cs) (p :: ps) then occurrences (cs.drop ps.length) (p :: ps) + 1
      else occurrences cs (p :: ps) := by
  rw [occurrences, occurrencesFrom, occurrencesFrom_skip]
  rfl

/-- Occurrences before and after a character that can only be the first of one. -/
theorem occurrences_split {x : Char} (hx : x ∉ ps) (a b : Text) :
    occurrences (a ++ x :: b) (p :: ps) = occurrences a (p :: ps) + occurrences (x :: b) (p :: ps) := by
  induction hn : a.length using Nat.strongRecOn generalizing a with
  | ind n ih =>
    cases a with
    | nil => exact (Nat.zero_add _).symm
    | cons c cs =>
      subst hn
      have hs : startsWith (c :: (cs ++ x :: b)) (p :: ps) = startsWith (c :: cs) (p :: ps) := by
        rw [startsWith_cons, startsWith_cons, startsWith_append_of_notMem hx]
      rw [List.cons_append, occurrences_cons, occurrences_cons c cs, hs]
      split
      · rename_i hstart
        have hle : ps.length ≤ cs.length := by
          rw [startsWith_cons, Bool.and_eq_true, startsWith, dropStart?_isSome_iff] at hstart
          exact hstart.2.length_le
        have hless : (cs.drop ps.length).length < (c :: cs).length := by
          rw [List.length_drop, List.length_cons]
          omega
        rw [List.drop_append_of_le_length hle, ih _ hless (cs.drop ps.length) rfl]
        omega
      · exact ih _ (by simp) cs rfl

theorem replace_append (h : p ∉ before) : replace (before ++ t) (p :: ps) new = before ++ replace t (p :: ps) new := by
  unfold replace
  induction before with
  | nil => rfl
  | cons c cs ih =>
    rw [List.mem_cons, not_or] at h
    rw [List.cons_append, replaceFrom, startsWith_of_ne h.1, if_neg Bool.false_ne_true, ih h.2]
    rfl

end RoffDocBook.Text
