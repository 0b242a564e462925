import RoffDocBook.Proofs.Document.Tags
import RoffDocBook.Proofs.Formatter.Escaped
import RoffDocBook.Proofs.Markup.FontTags

/-! Where references and motions end in a text, and what is left of its font tags without them. -/
namespace RoffDocBook
open Text Markup Document

/-- What is cut off at a character does not depend on what comes after the character. -/
theorem Text.spanUntil_append_of_mem {t : Text} {c : Char} (h : c ∈ t) (rest : Text) :
    spanUntil (· == c) (t ++ rest) =
      ((spanUntil (· == c) t).1, (spanUntil (· == c) t).2 ++ rest) := by
  induction t with
  | nil => cases h
  | cons d t ih =>
    by_cases hd : d = c
    · subst hd
      simp [spanUntil]
    · have hm : c ∈ t := (List.mem_cons.mp h).resolve_left (Ne.symm hd)
      have hrest := ih hm
      simp only [spanUntil, Prod.mk.injEq] at hrest ⊢
      have hkept (t : Text) : (d :: t).takeWhile (fun d => !(d == c)) = d :: t.takeWhile (fun d => !(d == c)) ∧
          (d :: t).dropWhile (fun d => !(d == c)) = t.dropWhile (fun d => !(d == c)) :=
        ⟨List.takeWhile_cons_of_pos (by simpa using hd), List.dropWhile_cons_of_pos (by simpa using hd)⟩
      rw [List.cons_append, (hkept _).1, (hkept _).2, (hkept _).1, (hkept _).2, hrest.1, hrest.2]
      exact ⟨rfl, rfl⟩

theorem Text.spanUntil_ne_nil {t : Text} {c : Char} (h : c ∈ t) : (spanUntil (· == c) t).2 ≠ [] := by
  intro he
  have hall := List.dropWhile_eq_nil_iff.mp he c h
  simp at hall

namespace Formatter

/-- Whether the name at the start of a text ends in it. -/
def nameEnds : Text → Bool
  | [] => false
  | '(' :: rest => 2 ≤ rest.length
  | '[' :: rest => rest.elem ']'
  | _ :: _ => true

/-- Whether every reference to a register ends in the text. -/
def referencesEnd : Text → Bool
  | [] => true
  | '\\' :: 'n' :: rest => nameEnds (unsigned rest) && referencesEnd (readName (unsigned rest)).2
  | '\\' :: _ :: rest => referencesEnd rest
  | _ :: rest => referencesEnd rest
termination_by t => t.length
decreasing_by
  all_goals simp only [List.length_cons]
  · have := length_readName_le (unsigned rest)
    have := (Escapes.suffix_unsigned rest).length_le
    omega
  · omega
  · omega

theorem referencesEnd_of_notMem {t : Text} (h : '\\' ∉ t) : referencesEnd t = true := by
  induction t with
  | nil => rw [referencesEnd]
  | cons c t ih =>
    rw [List.mem_cons, not_or] at h
    rw [referencesEnd]
    · exact ih h.2
    · exact fun _ he => absurd he.symm h.1
    · exact fun _ _ he => absurd he.symm h.1

theorem readName_append {t : Text} (h : nameEnds t = true) (u : Text) :
    readName (t ++ u) = ((readName t).1, (readName t).2 ++ u) := by
  unfold nameEnds at h
  split at h
  · cases h
  · rename_i rest
    have hlength : 2 ≤ rest.length := of_decide_eq_true h
    simp only [List.cons_append, readName]
    rw [List.take_append_of_le_length hlength, List.drop_append_of_le_length hlength]
  · rename_i rest
    have hm : ']' ∈ rest := List.contains_iff_mem.mp h
    simp only [List.cons_append, readName]
    rw [spanUntil_append_of_mem hm]
    dsimp only
    rw [List.drop_append_of_le_length (List.length_pos_iff.mpr (spanUntil_ne_nil hm))]
  · rename_i c rest hparen hbracket
    have hother (u : Text) : readName (c :: u) = (String.ofList [c], u) := by
      unfold readName
      split
      · rename_i he
        cases he
      · rename_i he
        exact (hparen (List.cons.inj he).1).elim
      · rename_i he
        exact (hbracket (List.cons.inj he).1).elim
      · rename_i he
        obtain ⟨rfl, rfl⟩ := List.cons.inj he
        rfl
    rw [List.cons_append, hother, hother]

theorem unsigned_append {t : Text} (h : t ≠ []) (u : Text) : unsigned (t ++ u) = unsigned t ++ u := by
  cases t with
  | nil => exact absurd rfl h
  | cons c t =>
    by_cases hplus : c = '+'
    · subst hplus
      rfl
    · by_cases hminus : c = '-'
      · subst hminus
        rfl
      · have hother (v : Text) : unsigned (c :: v) = c :: v :=
          unsigned_of_ne (fun _ he => hplus (List.cons.inj he).1) fun _ he => hminus (List.cons.inj he).1
        rw [List.cons_append, hother, hother]
        rfl

/-- Values of registers take the place of references that have come to their end before a font tag. -/
theorem State.keepsTags_interpolate (s : State) {t : Text} (h : uncut t = true)
    (he : EndsBeforeTags referencesEnd t) : KeepsTags t (s.interpolate t).1 := by
  fun_induction State.interpolate s t with
  | case1 s => exact .refl rfl
  | case2 s rest found result ih =>
    have hrest : found.2.1 = (readName (unsigned rest)).2 := Escapes.readRegister_rest s rest
    obtain ⟨htags, hends⟩ := he.skip (fun t => (readName (unsigned t)).2) (by decide)
      (hrest ▸ readRegister_suffix s rest) (by
        intro before rest hended
        rw [referencesEnd, Bool.and_eq_true] at hended
        have hne : before ≠ [] := by
          rintro rfl
          cases hended.1
        rw [unsigned_append hne, readName_append hended.1]
        exact ⟨rfl, hended.2⟩)
    rw [← hrest] at htags hends
    have hsuffix : found.2.1 <:+ '\\' :: 'n' :: rest :=
      (readRegister_suffix s rest).trans ((List.suffix_cons _ _).trans (List.suffix_cons _ _))
    exact (ih (uncut_suffix h hsuffix) hends).replace htags _ (notMem_ofInt _)
  | case3 s c rest hn result ih =>
    have hrest := uncut_cons.mp h
    have hends : EndsBeforeTags referencesEnd rest := by
      refine EndsBeforeTags.drop ['\\', c] he fun before => ?_
      rw [List.cons_append, List.singleton_append, referencesEnd]
      exact hn
    exact ((ih (uncut_cons.mp hrest.2).2 hends).cons hrest.2).cons h
  | case4 s c rest _ hc result ih =>
    have hends : EndsBeforeTags referencesEnd rest := by
      refine he.tail hc fun hb before => ?_
      rw [referencesEnd]
      · exact fun _ h => absurd h hb
      · exact fun _ _ h => absurd h hb
    exact (ih (uncut_cons.mp h).2 hends).cons h

end Formatter

namespace Inline

/-- Whether the argument in delimiters at the start of a text ends in it. -/
def delimitedEnds : Text → Bool
  | [] => false
  | delimiter :: rest => rest.elem delimiter

/-- Whether the change of size at the start of a text ends in it. -/
def sizeEnds (t : Text) : Bool :=
  match afterSign t with
  | '(' :: rest => 2 ≤ rest.length
  | '[' :: rest => rest.elem ']'
  | '\'' :: rest => rest.elem '\''
  | _ => true

/-- Whether every change of size and every motion ends in the text. -/
def motionsEnd : Text → Bool
  | [] => true
  | '\\' :: 's' :: rest => sizeEnds rest && motionsEnd (afterSize rest)
  | '\\' :: 'v' :: rest => delimitedEnds rest && motionsEnd (readDelimited rest).2
  | '\\' :: 'h' :: rest => delimitedEnds rest && motionsEnd (readDelimited rest).2
  | '\\' :: _ :: rest => motionsEnd rest
  | _ :: rest => motionsEnd rest
termination_by t => t.length
decreasing_by
  all_goals simp only [List.length_cons]
  all_goals try omega
  · have := length_afterSize_le rest; omega
  · have := length_readDelimited_le rest; omega
  · have := length_readDelimited_le rest; omega

theorem motionsEnd_of_notMem {t : Text} (h : '\\' ∉ t) : motionsEnd t = true := by
  induction t with
  | nil => rw [motionsEnd]
  | cons c t ih =>
    rw [List.mem_cons, not_or] at h
    rw [motionsEnd]
    · exact ih h.2
    · exact fun _ he => absurd he.symm h.1
    · exact fun _ he => absurd he.symm h.1
    · exact fun _ he => absurd he.symm h.1
    · exact fun _ _ he => absurd he.symm h.1

/-- What comes after the closing delimiter goes on when the text does. -/
theorem afterDelimiter_append {t : Text} {c : Char} (h : c ∈ t) (u : Text) :
    (spanUntil (· == c) (t ++ u)).2.drop 1 = (spanUntil (· == c) t).2.drop 1 ++ u := by
  rw [spanUntil_append_of_mem h, List.drop_append_of_le_length (List.length_pos_iff.mpr (spanUntil_ne_nil h))]

theorem readDelimited_append {t : Text} (h : delimitedEnds t = true) (u : Text) :
    (readDelimited (t ++ u)).2 = (readDelimited t).2 ++ u := by
  cases t with
  | nil => cases h
  | cons d rest => exact afterDelimiter_append (List.contains_iff_mem.mp h) u

theorem afterSign_append (t : Text) {c : Char} (h : c ≠ '+' ∧ c ≠ '-') (u : Text) :
    afterSign (t ++ c :: u) = afterSign t ++ c :: u := by
  have hother {d : Char} (hd : d ≠ '+' ∧ d ≠ '-') (v : Text) : afterSign (d :: v) = d :: v := by
    unfold afterSign
    split
    · rename_i he
      exact (hd.1 (List.cons.inj he).1).elim
    · rename_i he
      exact (hd.2 (List.cons.inj he).1).elim
    · rfl
  cases t with
  | nil => exact hother h u
  | cons d t =>
    by_cases hplus : d = '+'
    · subst hplus
      rfl
    · by_cases hminus : d = '-'
      · subst hminus
        rfl
      · rw [List.cons_append, hother ⟨hplus, hminus⟩, hother ⟨hplus, hminus⟩]
        rfl

theorem afterSize_append {t : Text} (h : sizeEnds t = true) (u : Text) :
    afterSize (t ++ '<' :: u) = afterSize t ++ '<' :: u := by
  unfold sizeEnds at h
  unfold afterSize
  rw [afterSign_append t (by decide)]
  generalize afterSign t = signed at h ⊢
  cases signed with
  | nil => rfl
  | cons c rest =>
    split at h
    · rename_i he
      obtain ⟨rfl, rfl⟩ := List.cons.inj he
      exact List.drop_append_of_le_length (of_decide_eq_true h)
    · rename_i he
      obtain ⟨rfl, rfl⟩ := List.cons.inj he
      exact afterDelimiter_append (List.contains_iff_mem.mp h) _
    · rename_i he
      obtain ⟨rfl, rfl⟩ := List.cons.inj he
      exact afterDelimiter_append (List.contains_iff_mem.mp h) _
    · rename_i hparen hbracket hquote
      have hp : c ≠ '(' := fun hc => hparen rest (congrArg (· :: rest) hc)
      have hb : c ≠ '[' := fun hc => hbracket rest (congrArg (· :: rest) hc)
      have hq : c ≠ '\'' := fun hc => hquote rest (congrArg (· :: rest) hc)
      have hangle : Char.isDigit '<' = false := by decide
      cases hd : c.isDigit with
      | false => simp [hd]
      | true =>
        cases rest with
        | nil => simp [hd, hangle]
        | cons d rest => by_cases htwo : (c ≠ '0' ∧ d.isDigit = true) ∧ c < '4' <;> simp [hd, htwo]

theorem keepsTags_stripMotions {t : Text} (h : uncut t = true) (he : EndsBeforeTags motionsEnd t) :
    KeepsTags t (stripMotions t) := by
  have argument (e : Char) (rest : Text) : (readDelimited rest).2 <:+ '\\' :: e :: rest :=
    (readDelimited_suffix rest).trans ((List.suffix_cons _ _).trans (List.suffix_cons _ _))
  have delimited {e : Char} {rest : Text} (hne : e ≠ '<') (he : EndsBeforeTags motionsEnd ('\\' :: e :: rest))
      (hstep : ∀ before, motionsEnd ('\\' :: e :: before) =
        (delimitedEnds before && motionsEnd (readDelimited before).2)) :
      fontTags ('\\' :: e :: rest) = fontTags (readDelimited rest).2 ∧
        EndsBeforeTags motionsEnd (readDelimited rest).2 :=
    he.skip (fun t => (readDelimited t).2) hne (readDelimited_suffix rest) fun before more hended => by
      rw [hstep, Bool.and_eq_true] at hended
      exact ⟨readDelimited_append hended.1 _, hended.2⟩
  fun_induction stripMotions t with
  | case1 => exact .refl rfl
  | case2 rest ih =>
    obtain ⟨htags, hends⟩ := he.skip afterSize (by decide) (afterSize_suffix rest) (by
      intro before rest hended
      rw [motionsEnd, Bool.and_eq_true] at hended
      exact ⟨afterSize_append hended.1 rest, hended.2⟩)
    have hsuffix : afterSize rest <:+ '\\' :: 's' :: rest :=
      (afterSize_suffix rest).trans ((List.suffix_cons _ _).trans (List.suffix_cons _ _))
    exact (ih (uncut_suffix h hsuffix) hends).replace htags [] List.not_mem_nil
  | case3 rest ih =>
    obtain ⟨htags, hends⟩ := delimited (by decide) he (by intro before; rw [motionsEnd])
    exact (ih (uncut_suffix h (argument 'v' rest)) hends).replace htags [] List.not_mem_nil
  | case4 rest ih =>
    obtain ⟨htags, hends⟩ := delimited (by decide) he (by intro before; rw [motionsEnd])
    exact (ih (uncut_suffix h (argument 'h' rest)) hends).replace htags [' '] (by decide)
  | case5 c rest hs hv hh ih =>
    have hrest := uncut_cons.mp h
    have hends : EndsBeforeTags motionsEnd rest := by
      refine EndsBeforeTags.drop ['\\', c] he fun before => ?_
      rw [List.cons_append, List.singleton_append, motionsEnd]
      · exact hs
      · exact hv
      · exact hh
    exact ((ih (uncut_cons.mp hrest.2).2 hends).cons hrest.2).cons h
  | case6 c rest _ _ _ hc ih =>
    have hends : EndsBeforeTags motionsEnd rest := by
      refine he.tail hc fun hb before => ?_
      rw [motionsEnd]
      · exact fun _ h => absurd h hb
      · exact fun _ h => absurd h hb
      · exact fun _ h => absurd h hb
      · exact fun _ _ h => absurd h hb
    exact (ih (uncut_cons.mp h).2 hends).cons h

end Inline

end RoffDocBook
