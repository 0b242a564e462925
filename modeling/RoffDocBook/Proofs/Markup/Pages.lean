import RoffDocBook.Markup.Links
import RoffDocBook.Proofs.Markup.Elements

/-! References in markup, to entities by their names and to characters by their numbers. A reference ends at its
semicolon, so that no tag begins or ends within it. -/
namespace RoffDocBook.Markup
open Text

def isHexDigit (c : Char) : Bool :=
  "0123456789ABCDEFabcdef".toList.elem c

/-- Whether a text can stand between the ampersand and the semicolon of a reference. -/
def isReferenceName : Text → Bool
  | '#' :: 'x' :: digits => !digits.isEmpty && digits.all isHexDigit
  | '#' :: digits => !digits.isEmpty && digits.all Char.isDigit
  | c :: cs => c.isAlpha && cs.all isTagNameChar
  | [] => false

/-- A character that can stand in the name of a reference. -/
def isReferenceChar (c : Char) : Bool :=
  isTagNameChar c || c == '#'

def BeginsReference (t : Text) : Prop :=
  ∃ name rest, isReferenceName name = true ∧ t = '&' :: (name ++ ';' :: rest)

/-- Text in which every ampersand begins a complete reference. -/
def Referenced : Text → Prop
  | [] => True
  | c :: cs => (c = '&' → BeginsReference (c :: cs)) ∧ Referenced cs

theorem isTagNameChar_of_isAlphanum {c : Char} (h : c.isAlphanum = true) : isTagNameChar c = true := by
  have hlt : c.toNat < 128 := Nat.lt_trans (toNat_lt_of_isAlphanum h) (by decide)
  simp [isTagNameChar, isWordChar, hlt, h]

theorem isTagNameChar_of_isHexDigit {c : Char} (h : isHexDigit c = true) : isTagNameChar c = true := by
  have hall : ∀ d ∈ "0123456789ABCDEFabcdef".toList, isTagNameChar d = true := List.all_eq_true.mp (by decide)
  exact hall c (List.elem_iff.mp h)

theorem isReferenceChar_of_isTagNameChar {c : Char} (h : isTagNameChar c = true) : isReferenceChar c = true := by
  rw [isReferenceChar, h, Bool.true_or]

theorem isReferenceChar_of_mem {name : Text} (h : isReferenceName name = true) :
    ∀ c ∈ name, isReferenceChar c = true := by
  unfold isReferenceName at h
  split at h
  · rename_i digits
    have hdigits := List.all_eq_true.mp (Bool.and_eq_true_iff.mp h).2
    refine List.forall_mem_cons.mpr ⟨by decide, List.forall_mem_cons.mpr ⟨by decide, ?_⟩⟩
    exact fun c hc => isReferenceChar_of_isTagNameChar (isTagNameChar_of_isHexDigit (hdigits c hc))
  · rename_i digits _
    have hdigits := List.all_eq_true.mp (Bool.and_eq_true_iff.mp h).2
    refine List.forall_mem_cons.mpr ⟨by decide, ?_⟩
    intro c hc
    have halphanum : c.isAlphanum = true := by rw [Char.isAlphanum, hdigits c hc, Bool.or_true]
    exact isReferenceChar_of_isTagNameChar (isTagNameChar_of_isAlphanum halphanum)
  · rename_i c cs _ _
    obtain ⟨hc, hcs⟩ := Bool.and_eq_true_iff.mp h
    refine List.forall_mem_cons.mpr ⟨isReferenceChar_of_isTagNameChar (Tag.isTagNameChar_of_isAlpha hc), ?_⟩
    exact fun d hd => isReferenceChar_of_isTagNameChar (List.all_eq_true.mp hcs d hd)
  · cases h

/-- A character that cannot stand in a name is not in one. -/
theorem notMem_of_isReferenceName {name : Text} (h : isReferenceName name = true) {c : Char}
    (hc : isReferenceChar c = false) : c ∉ name := by
  intro hm
  rw [isReferenceChar_of_mem h c hm] at hc
  cases hc

theorem BeginsReference.append {t : Text} (h : BeginsReference t) (rest : Text) : BeginsReference (t ++ rest) := by
  obtain ⟨name, after, hn, rfl⟩ := h
  exact ⟨name, after ++ rest, hn, by simp⟩

/-- A reference ends before an angle bracket. -/
theorem BeginsReference.of_append {t rest : Text} {b : Char} (hb : b = '<' ∨ b = '>') (ht : t ≠ [])
    (h : BeginsReference (t ++ b :: rest)) : BeginsReference t := by
  obtain ⟨name, after, hn, he⟩ := h
  obtain ⟨c, cs, rfl⟩ := List.exists_cons_of_ne_nil ht
  obtain ⟨rfl, he⟩ := List.cons.inj he
  have hapart : b ∉ name ++ [';'] := by
    have hname : b ∉ name := notMem_of_isReferenceName hn (by rcases hb with rfl | rfl <;> decide)
    rcases hb with rfl | rfl <;> simp [hname]
  have hshape : cs ++ b :: rest = (name ++ [';']) ++ after := by simpa using he
  rcases List.append_eq_append_iff.mp hshape with ⟨a, hname, hrest⟩ | ⟨a, hcs, _⟩
  · cases a with
    | nil =>
      rw [List.append_nil] at hname
      exact ⟨name, [], hn, by rw [← hname]⟩
    | cons d ds =>
      obtain ⟨rfl, _⟩ := List.cons.inj hrest
      rw [hname] at hapart
      simp at hapart
  · exact ⟨name, a, hn, by rw [hcs]; simp⟩

instance (t : Text) : Decidable (BeginsReference t) :=
  match t with
  | [] => isFalse fun ⟨_, _, _, he⟩ => by cases he
  | c :: cs =>
    decidable_of_iff (c = '&' ∧ isReferenceName (cs.takeWhile (· != ';')) = true ∧ ';' ∈ cs) <| by
      constructor
      · rintro ⟨rfl, hn, hm⟩
        have hsplit := List.takeWhile_append_dropWhile (p := (· != ';')) (l := cs)
        have hhead := List.head?_dropWhile_not (· != ';') cs
        cases hd : cs.dropWhile (· != ';') with
        | nil =>
          rw [hd, List.append_nil] at hsplit
          rw [← hsplit] at hm
          exact absurd (List.mem_takeWhile_imp hm) (by decide)
        | cons d rest =>
          rw [hd] at hsplit hhead
          obtain rfl : d = ';' := by simpa using hhead
          exact ⟨_, rest, hn, by rw [hsplit]⟩
      · rintro ⟨name, rest, hn, he⟩
        obtain ⟨rfl, rfl⟩ := List.cons.inj he
        have hname : ∀ d ∈ name, (d != ';') = true := by
          intro d hd
          apply bne_iff_ne.mpr
          rintro rfl
          exact notMem_of_isReferenceName hn (by decide) hd
        rw [List.takeWhile_append_of_pos hname, List.takeWhile_cons_of_neg (by decide), List.append_nil]
        exact ⟨rfl, hn, by simp⟩

instance decidableReferenced : (t : Text) → Decidable (Referenced t)
  | [] => isTrue trivial
  | c :: cs =>
    have := decidableReferenced cs
    inferInstanceAs (Decidable ((c = '&' → BeginsReference (c :: cs)) ∧ Referenced cs))

theorem referenced_of_notMem {t : Text} (h : '&' ∉ t) : Referenced t := by
  induction t with
  | nil => trivial
  | cons c t ih =>
    rw [List.mem_cons, not_or] at h
    exact ⟨fun hc => absurd hc.symm h.1, ih h.2⟩

theorem Referenced.suffix {t rest : Text} (h : Referenced (t ++ rest)) : Referenced rest := by
  induction t with
  | nil => exact h
  | cons c t ih => exact ih h.2

theorem Referenced.append {t u : Text} (ht : Referenced t) (hu : Referenced u) : Referenced (t ++ u) := by
  induction t with
  | nil => exact hu
  | cons c t ih => exact ⟨fun hc => (ht.1 hc).append u, ih ht.2⟩

/-- The references before an angle bracket are complete without what follows. -/
theorem Referenced.before {t rest : Text} {b : Char} (hb : b = '<' ∨ b = '>') (h : Referenced (t ++ b :: rest)) :
    Referenced t := by
  induction t with
  | nil => trivial
  | cons c t ih => exact ⟨fun hc => (h.1 hc).of_append hb (by simp), ih h.2⟩

/-- The references in a tag or comment and before it are complete without what follows. -/
theorem Referenced.before_mark {t m rest : Text} (hm : Mark m) (h : Referenced (t ++ (m ++ rest))) :
    Referenced t ∧ Referenced m := by
  obtain ⟨tail, hcons, _⟩ := hm.eq_cons
  obtain ⟨init, hconcat⟩ := hm.eq_concat
  refine ⟨?_, ?_⟩
  · rw [hcons] at h
    exact h.before (Or.inl rfl)
  · have hrest := h.suffix
    rw [hconcat, List.append_assoc] at hrest
    rw [hconcat]
    exact (hrest.before (Or.inr rfl)).append (referenced_of_notMem (by decide))

/-! References to manual pages whose names are in a font of their own. They are found in markup only where the tags of
the font stand around nothing but the name. -/

def isPageNameChar (c : Char) : Bool :=
  isWordChar c || ".:+-".toList.elem c

/-- The section of the manual that a page is in. -/
def IsVolume (volume : Text) : Prop :=
  volume = ['n'] ∨
    ∃ c letters, volume = c :: letters ∧ ('1' ≤ c ∧ c ≤ '9') ∧ ∀ d ∈ letters, (d.isAlpha || d == '+') = true

theorem readVolume?_eq_some {t volume : Text} (h : readVolume? t = some volume) :
    IsVolume volume ∧ ∃ rest, t = '(' :: (volume ++ ')' :: rest) := by
  unfold readVolume? at h
  split at h
  · rename_i rest
    cases h
    exact ⟨Or.inl rfl, rest, rfl⟩
  · rename_i c rest _
    generalize hl : rest.takeWhile (fun c => c.isAlpha || c == '+') = letters at h
    dsimp only at h
    split at h
    · rename_i hc
      cases h
      simp only [Bool.and_eq_true, decide_eq_true_eq, beq_iff_eq] at hc
      obtain ⟨hdigit, hclose⟩ := hc
      have hletters : ∀ d ∈ letters, (d.isAlpha || d == '+') = true := by
        rw [← hl]
        exact fun d hd => List.mem_takeWhile_imp (p := fun c => c.isAlpha || c == '+') hd
      have hsplit := List.takeWhile_append_dropWhile (p := fun c => c.isAlpha || c == '+') (l := rest)
      rw [hl] at hsplit
      obtain ⟨after, hafter⟩ : ∃ after, rest = letters ++ ')' :: after := by
        rw [← hsplit, List.getElem?_append_right (Nat.le_refl _), Nat.sub_self] at hclose
        cases hd : rest.dropWhile (fun c => c.isAlpha || c == '+') with
        | nil =>
          rw [hd] at hclose
          cases hclose
        | cons d after =>
          rw [hd] at hclose hsplit
          obtain rfl : d = ')' := by simpa using hclose
          exact ⟨after, hsplit.symm⟩
      exact ⟨Or.inr ⟨c, letters, rfl, hdigit, hletters⟩, after, by rw [hafter]; rfl⟩
    · cases h
  · cases h

theorem readVolume?_volume {volume : Text} (h : IsVolume volume) (rest : Text) :
    readVolume? ('(' :: (volume ++ ')' :: rest)) = some volume := by
  rcases h with rfl | ⟨c, letters, rfl, hdigit, hletters⟩
  · rfl
  · have hn : c ≠ 'n' := by
      rintro rfl
      exact absurd hdigit.2 (by decide)
    have htake : (letters ++ ')' :: rest).takeWhile (fun c => c.isAlpha || c == '+') = letters := by
      rw [List.takeWhile_append_of_pos hletters, List.takeWhile_cons_of_neg (by decide), List.append_nil]
    rw [List.cons_append]
    unfold readVolume?
    split
    · rename_i heq
      exact absurd (List.cons.inj (List.cons.inj heq).2).1 hn
    · rename_i d after _ heq
      obtain ⟨rfl, rfl⟩ := List.cons.inj (List.cons.inj heq).2
      dsimp only
      rw [htake, List.getElem?_append_right (Nat.le_refl _), Nat.sub_self]
      simp [hdigit]
    · rename_i hne
      exact absurd rfl (hne c (letters ++ ')' :: rest))

/-- A reference to a page whose name is in a font of its own, where the tag of the font has `inside` after its name. -/
def emphasizedPage (inside name volume : Text) : Text :=
  "<emphasis".toList ++ (inside ++ (['>'] ++ (name ++ ("</emphasis>".toList ++ (['('] ++ (volume ++ [')']))))))

theorem readEmphasizedPage?_eq (previous : Option Char) (t : Text) :
    readEmphasizedPage? previous t = (dropStart? "<emphasis" t).bind fun tag =>
      let inside := tag.takeWhile (· != '>')
      let after := tag.drop (inside.length + 1)
      let name := after.takeWhile isPageNameChar
      (dropStart? "</emphasis>" (after.drop name.length)).bind fun rest =>
        (readVolume? rest).bind fun volume =>
          if name.isEmpty then none
          else some (pageReference name volume, 9 + inside.length + 1 + name.length + 11 + volume.length + 2) :=
  rfl

theorem length_emphasizedPage (inside name volume : Text) :
    (emphasizedPage inside name volume).length = 9 + inside.length + 1 + name.length + 11 + volume.length + 2 := by
  have hstart : "<emphasis".toList.length = 9 := rfl
  have hend : "</emphasis>".toList.length = 11 := rfl
  unfold emphasizedPage
  simp only [List.length_append, hstart, hend, List.length_singleton]
  omega

/-- What is found is such a reference. -/
theorem readEmphasizedPage?_eq_some {previous : Option Char} {t new : Text} {length : Nat}
    (h : readEmphasizedPage? previous t = some (new, length)) :
    ∃ inside name volume rest, t = emphasizedPage inside name volume ++ rest ∧ '>' ∉ inside ∧ name ≠ [] ∧
      (∀ c ∈ name, isPageNameChar c = true) ∧ IsVolume volume ∧ new = pageReference name volume ∧
      length = (emphasizedPage inside name volume).length := by
  rw [readEmphasizedPage?_eq] at h
  simp only [Option.bind_eq_some_iff] at h
  obtain ⟨tag, htag, after, hafter, volume, hvolume, hfound⟩ := h
  obtain ⟨hv, last, rfl⟩ := readVolume?_eq_some hvolume
  generalize hi : tag.takeWhile (· != '>') = inside at hafter hfound
  generalize hn : (tag.drop (inside.length + 1)).takeWhile isPageNameChar = name at hafter hfound
  split at hfound
  · cases hfound
  · rename_i hne
    obtain ⟨rfl, rfl⟩ := Prod.mk.inj (Option.some.inj hfound)
    have hlong : (tag.takeWhile (· != '>')).length < tag.length := by
      rw [hi]
      by_contra hshort
      rw [List.drop_eq_nil_of_le (by omega)] at hn
      rw [← hn] at hne
      exact hne rfl
    obtain ⟨more, hmore⟩ := Tag.exists_inside hlong
    rw [hi] at hmore
    have hdrop : tag.drop (inside.length + 1) = more := by
      rw [hmore, List.drop_length_add_append, List.drop_one, List.tail_cons]
    rw [hdrop] at hn hafter
    have hsplit := List.takeWhile_append_dropWhile (p := isPageNameChar) (l := more)
    have hname : ∀ c ∈ name, isPageNameChar c = true := by
      rw [← hn]
      exact fun c hc => List.mem_takeWhile_imp hc
    rw [hn] at hsplit
    rw [← hsplit, List.drop_left] at hafter
    refine ⟨inside, name, volume, last, ?_, ?_, ?_, hname, hv, rfl, (length_emphasizedPage _ _ _).symm⟩
    · rw [dropStart?_eq_some htag, hmore, ← hsplit, dropStart?_eq_some hafter]
      unfold emphasizedPage
      simp only [List.append_assoc]
      rfl
    · rw [← hi]
      exact Tag.notMem_inside tag
    · exact fun he => hne (List.isEmpty_iff.mpr he)

/-- Such a reference is found wherever it stands. -/
theorem readEmphasizedPage?_page {inside name volume : Text} (hi : '>' ∉ inside) (hne : name ≠ [])
    (hn : ∀ c ∈ name, isPageNameChar c = true) (hv : IsVolume volume) (previous : Option Char) (rest : Text) :
    readEmphasizedPage? previous (emphasizedPage inside name volume ++ rest) =
      some (pageReference name volume, (emphasizedPage inside name volume).length) := by
  have hshape : emphasizedPage inside name volume ++ rest =
      "<emphasis".toList ++ (inside ++ '>' :: (name ++ ("</emphasis>".toList ++ '(' :: (volume ++ ')' :: rest)))) := by
    unfold emphasizedPage
    simp only [List.append_assoc]
    rfl
  have hdrop (x : Text) : (inside ++ '>' :: x).drop (inside.length + 1) = x := by
    rw [List.drop_length_add_append, List.drop_one, List.tail_cons]
  have htake (x : Text) : (name ++ ("</emphasis>".toList ++ x)).takeWhile isPageNameChar = name := by
    rw [List.takeWhile_append_of_pos hn]
    exact (congrArg (name ++ ·) (List.takeWhile_cons_of_neg (by decide))).trans (List.append_nil name)
  rw [hshape, readEmphasizedPage?_eq, dropStart?_append, Option.bind_some]
  dsimp only
  rw [Tag.takeWhile_inside hi, hdrop, htake, List.drop_left, dropStart?_append, Option.bind_some,
    readVolume?_volume hv, Option.bind_some, if_neg (fun he => hne (List.isEmpty_iff.mp he)), length_emphasizedPage]

end RoffDocBook.Markup
