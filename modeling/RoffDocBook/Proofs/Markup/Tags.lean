import Mathlib.Data.List.TakeWhile
import RoffDocBook.Markup.Scan
import RoffDocBook.Proofs.Slug

/-! Markup as a sequence of characters and tags. How a tag is written decides how it is read, whatever comes after it,
so that reading markup gives back the parts that it was put together from. -/
namespace RoffDocBook.Markup
open Text

namespace Tag

/-- A tag with what stands in it after the name. -/
def make (isEnd : Bool) (name ending : Text) (isEmpty : Bool) : Tag :=
  { written := '<' :: ((if isEnd then ['/'] else []) ++ name ++ ending ++ ['>']), name, isEnd, isEmpty }

/-- The rest of a tag from its name on. -/
def readNamed? (isEnd : Bool) (rest : Text) : Option (Tag × Nat) :=
  match rest with
  | [] => none
  | c :: _ =>
    let found (ending : Text) (isEmpty : Bool) : Option (Tag × Nat) :=
      let tag := make isEnd (rest.takeWhile isTagNameChar) ending isEmpty
      some (tag, tag.written.length)
    if !c.isAlpha then none
    else
      match rest.dropWhile isTagNameChar with
      | '>' :: _ => found [] false
      | '/' :: '>' :: _ => found ['/'] true
      | b :: more =>
        let inside := more.takeWhile (· != '>')
        if isBlank b && inside.length < more.length then found (b :: inside) (inside.getLast? == some '/') else none
      | [] => none

/-- The slash of an end tag, and what comes after it. -/
def slash : Text → Bool × Text
  | '/' :: rest => (true, rest)
  | rest => (false, rest)

theorem slash_of_ne {c : Char} (hc : c ≠ '/') (cs : Text) : slash (c :: cs) = (false, c :: cs) := by
  unfold slash
  split
  · rename_i h
    exact absurd (List.cons.inj h).1 hc
  · rfl

theorem read?_open (rest : Text) : read? ('<' :: rest) = readNamed? (slash rest).1 (slash rest).2 := by
  rfl

/-- What may stand in a tag after the name, and whether the tag is then one of an empty element. -/
inductive Ending : Text → Bool → Prop where
  | bare : Ending [] false
  | slash : Ending ['/'] true
  | spaced {b : Char} {inside : Text} (hn : isTagNameChar b = false) (hb : isBlank b = true) (hi : '>' ∉ inside) :
      Ending (b :: inside) (inside.getLast? == some '/')

/-- A tag that is named as it is written. -/
inductive WellFormed : Tag → Prop where
  | intro {c : Char} {name ending : Text} {isEmpty : Bool} (isEnd : Bool) (hc : c.isAlpha = true)
      (hn : ∀ d ∈ c :: name, isTagNameChar d = true) (he : Ending ending isEmpty) :
      WellFormed (make isEnd (c :: name) ending isEmpty)

theorem span_name {name after : Text} (hn : ∀ c ∈ name, isTagNameChar c = true)
    (ha : ∀ c cs, after = c :: cs → isTagNameChar c = false) :
    (name ++ after).takeWhile isTagNameChar = name ∧ (name ++ after).dropWhile isTagNameChar = after := by
  rw [List.takeWhile_append_of_pos hn, List.dropWhile_append_of_pos hn]
  cases after with
  | nil => simp
  | cons c cs =>
    have hc : ¬isTagNameChar c = true := by
      rw [ha c cs rfl]
      exact Bool.false_ne_true
    rw [List.takeWhile_cons_of_neg hc, List.dropWhile_cons_of_neg hc, List.append_nil]
    exact ⟨rfl, rfl⟩

theorem takeWhile_inside {inside : Text} (h : '>' ∉ inside) (rest : Text) :
    (inside ++ '>' :: rest).takeWhile (· != '>') = inside := by
  have hne : ∀ c ∈ inside, (c != '>') = true := by
    intro c hc
    apply bne_iff_ne.mpr
    rintro rfl
    exact h hc
  rw [List.takeWhile_append_of_pos hne, List.takeWhile_cons_of_neg (by decide), List.append_nil]

theorem notMem_inside (t : Text) : '>' ∉ t.takeWhile (· != '>') := by
  intro h
  have hne := List.mem_takeWhile_imp h
  exact absurd hne (by decide)

theorem exists_inside {t : Text} (h : (t.takeWhile (· != '>')).length < t.length) :
    ∃ rest, t = t.takeWhile (· != '>') ++ '>' :: rest := by
  have hsplit := List.takeWhile_append_dropWhile (p := (· != '>')) (l := t)
  have hhead := List.head?_dropWhile_not (· != '>') t
  cases hd : t.dropWhile (· != '>') with
  | nil =>
    rw [hd, List.append_nil] at hsplit
    rw [hsplit] at h
    omega
  | cons c rest =>
    rw [hd] at hsplit hhead
    obtain rfl : c = '>' := by simpa using hhead
    exact ⟨rest, hsplit.symm⟩

theorem Ending.notName {ending : Text} {isEmpty : Bool} (h : Ending ending isEmpty) (rest : Text) :
    ∀ c cs, ending ++ '>' :: rest = c :: cs → isTagNameChar c = false := by
  intro c cs he
  cases h with
  | bare =>
    rw [← (List.cons.inj he).1]
    decide
  | slash =>
    rw [← (List.cons.inj he).1]
    decide
  | spaced hn _ _ =>
    rw [← (List.cons.inj he).1]
    exact hn

theorem ne_slash_of_isAlpha {c : Char} (h : c.isAlpha = true) : c ≠ '/' := by
  rintro rfl
  exact absurd h (by decide)

theorem slash_name (isEnd : Bool) {c : Char} (hc : c.isAlpha = true) (rest : Text) :
    slash ((if isEnd then ['/'] else []) ++ c :: rest) = (isEnd, c :: rest) := by
  cases isEnd with
  | true => rfl
  | false => exact slash_of_ne (ne_slash_of_isAlpha hc) rest

/-- A tag is read as it is written, whatever comes after it. -/
theorem WellFormed.read {tag : Tag} (h : tag.WellFormed) (rest : Text) :
    read? (tag.written ++ rest) = some (tag, tag.written.length) := by
  cases h with
  | @intro c name ending isEmpty isEnd hc hn he =>
    obtain ⟨htake, hdrop⟩ := span_name hn (he.notName rest)
    have hshape : (make isEnd (c :: name) ending isEmpty).written ++ rest =
        '<' :: ((if isEnd then ['/'] else []) ++ c :: (name ++ (ending ++ '>' :: rest))) := by
      simp [make]
    rw [hshape, read?_open, slash_name isEnd hc, readNamed?]
    rw [List.cons_append] at htake hdrop
    dsimp only
    rw [hc, htake, hdrop]
    cases he with
    | bare => rfl
    | slash => rfl
    | @spaced b inside _ hb hi =>
      have hgt : b ≠ '>' := by
        rintro rfl
        exact absurd hb (by decide)
      have hslash : b ≠ '/' := by
        rintro rfl
        exact absurd hb (by decide)
      simp [hslash, hb, takeWhile_inside hi]

theorem isTagNameChar_of_isAlpha {c : Char} (h : c.isAlpha = true) : isTagNameChar c = true := by
  have hword : c.isAlphanum = true := by rw [Char.isAlphanum, h, Bool.true_or]
  have hlt : c.toNat < 128 := Nat.lt_trans (toNat_lt_of_isAlphanum hword) (by decide)
  simp [isTagNameChar, isWordChar, hlt, hword]

/-- What is read as the rest of a tag is written so. -/
theorem wellFormed_of_readNamed {isEnd : Bool} {t : Text} {tag : Tag} {length : Nat}
    (h : readNamed? isEnd t = some (tag, length)) :
    tag.WellFormed ∧ length = tag.written.length ∧
      ∃ rest, '<' :: ((if isEnd then ['/'] else []) ++ t) = tag.written ++ rest := by
  cases t with
  | nil => cases h
  | cons c cs =>
    cases hc : c.isAlpha with
    | false => simp [readNamed?, hc] at h
    | true =>
      obtain ⟨name, hn⟩ : ∃ name, (c :: cs).takeWhile isTagNameChar = c :: name :=
        ⟨_, List.takeWhile_cons_of_pos (isTagNameChar_of_isAlpha hc)⟩
      have hall : ∀ d ∈ c :: name, isTagNameChar d = true := by
        intro d hd
        rw [← hn] at hd
        exact List.mem_takeWhile_imp hd
      have hsplit := List.takeWhile_append_dropWhile (p := isTagNameChar) (l := c :: cs)
      have hafter := List.head?_dropWhile_not isTagNameChar (c :: cs)
      have read {ending rest : Text} {isEmpty : Bool} (he : Ending ending isEmpty)
          (hd : (c :: cs).dropWhile isTagNameChar = ending ++ '>' :: rest)
          (ht : some (make isEnd (c :: name) ending isEmpty, (make isEnd (c :: name) ending isEmpty).written.length) =
            some (tag, length)) :
          tag.WellFormed ∧ length = tag.written.length ∧
            ∃ rest, '<' :: ((if isEnd then ['/'] else []) ++ c :: cs) = tag.written ++ rest := by
        obtain ⟨rfl, rfl⟩ := Prod.mk.inj (Option.some.inj ht)
        refine ⟨.intro isEnd hc hall he, rfl, rest, ?_⟩
        rw [← hsplit, hn, hd]
        simp [make]
      simp only [readNamed?, hc, hn, Bool.not_true, Bool.false_eq_true, if_false] at h
      split at h
      · rename_i hd
        exact read .bare hd h
      · rename_i hd
        exact read .slash hd h
      · rename_i b more _ _ hd
        split at h
        · rename_i hb
          rw [Bool.and_eq_true, decide_eq_true_eq] at hb
          rw [hd] at hafter
          obtain ⟨rest, hrest⟩ := exists_inside hb.2
          exact read (.spaced hafter hb.1 (notMem_inside more)) (hd.trans (congrArg (b :: ·) hrest)) h
        · cases h
      · cases h

/-- What is read as a tag is written so. -/
theorem wellFormed_of_read {t : Text} {tag : Tag} {length : Nat} (h : read? t = some (tag, length)) :
    tag.WellFormed ∧ length = tag.written.length ∧ ∃ rest, t = tag.written ++ rest := by
  cases t with
  | nil => cases h
  | cons first t =>
    by_cases hf : first = '<'
    · subst hf
      have ht : t = (if (slash t).1 then ['/'] else []) ++ (slash t).2 := by
        unfold slash
        split <;> rfl
      rw [read?_open] at h
      rw [ht]
      exact wellFormed_of_readNamed h
    · simp [read?, hf] at h

end Tag

/-- The text of a part of markup. -/
def Item.written : Item Tag → Text
  | .char c => [c]
  | .found tag => tag.written

def Item.tag? : Item Tag → Option Tag
  | .char _ => none
  | .found tag => some tag

/-- The text that parts of markup make up. -/
def written (parts : List (Item Tag)) : Text :=
  parts.flatMap Item.written

/-- The tags of markup, in order. -/
def tags (markup : Text) : List Tag :=
  (items Tag.read? markup).filterMap Item.tag?

theorem written_append (a b : List (Item Tag)) : written (a ++ b) = written a ++ written b :=
  List.flatMap_append

/-- A part that is read as it is written. -/
def Item.Readable : Item Tag → Prop
  | .char c => c ≠ '<'
  | .found tag => tag.WellFormed

/-- Markup in which every angle bracket begins a complete tag without a further one in it. -/
def Tagged : Text → Prop
  | [] => True
  | c :: cs =>
    (c = '<' → ∃ found, Tag.read? (c :: cs) = some found ∧ '<' ∉ found.1.written.tail) ∧ Tagged cs

instance decidableTagged : (t : Text) → Decidable (Tagged t)
  | [] => isTrue trivial
  | c :: cs =>
    have := decidableTagged cs
    have : Decidable (∃ found, Tag.read? (c :: cs) = some found ∧ '<' ∉ found.1.written.tail) :=
      match h : Tag.read? (c :: cs) with
      | none => isFalse fun hf => by simp at hf
      | some found =>
        decidable_of_iff ('<' ∉ found.1.written.tail)
          ⟨fun hn => ⟨found, rfl, hn⟩, fun ⟨_, hf, hn⟩ => Option.some.inj hf ▸ hn⟩
    inferInstanceAs (Decidable (_ ∧ _))

theorem itemsFrom_skip {α : Type} (recognise : Text → Option (α × Nat)) (passed rest : Text) :
    itemsFrom recognise passed.length (passed ++ rest) = items recognise rest := by
  induction passed with
  | nil => rfl
  | cons c passed ih => exact ih

theorem items_of_none {α : Type} {recognise : Text → Option (α × Nat)} {c : Char} {rest : Text}
    (h : recognise (c :: rest) = none) : items recognise (c :: rest) = .char c :: items recognise rest := by
  rw [items, itemsFrom, h]
  rfl

theorem items_found {α : Type} {recognise : Text → Option (α × Nat)} {found rest : Text} {thing : α} (hne : found ≠ [])
    (h : recognise (found ++ rest) = some (thing, found.length)) :
    items recognise (found ++ rest) = .found thing :: items recognise rest := by
  cases found with
  | nil => exact absurd rfl hne
  | cons c cs =>
    rw [items, List.cons_append, itemsFrom, ← List.cons_append, h]
    exact congrArg _ (itemsFrom_skip recognise cs rest)

theorem items_char {c : Char} (hc : c ≠ '<') (rest : Text) :
    items Tag.read? (c :: rest) = .char c :: items Tag.read? rest :=
  items_of_none (by simp [Tag.read?, hc])

theorem items_tag {tag : Tag} (h : tag.WellFormed) (rest : Text) :
    items Tag.read? (tag.written ++ rest) = .found tag :: items Tag.read? rest :=
  items_found (by cases h; exact List.cons_ne_nil _ _) (h.read rest)

/-- Reading gives back the parts that a text was put together from, whatever comes after them. -/
theorem items_written_append {parts : List (Item Tag)} (h : ∀ part ∈ parts, part.Readable) (rest : Text) :
    items Tag.read? (written parts ++ rest) = parts ++ items Tag.read? rest := by
  induction parts with
  | nil => rfl
  | cons part parts ih =>
    have hpart := h part List.mem_cons_self
    have hrest := ih fun other hm => h other (List.mem_cons_of_mem part hm)
    rw [written, List.flatMap_cons, ← written, List.append_assoc]
    cases part with
    | char c => exact (items_char hpart _).trans (congrArg _ hrest)
    | found tag => exact (items_tag hpart _).trans (congrArg _ hrest)

theorem items_written {parts : List (Item Tag)} (h : ∀ part ∈ parts, part.Readable) :
    items Tag.read? (written parts) = parts := by
  have hall := items_written_append h []
  rwa [List.append_nil, items, items, itemsFrom, List.append_nil] at hall

/-- Markup that is put together of two parts has the tags of both. -/
theorem Tagged.append {t u : Text} (ht : Tagged t) (hu : Tagged u) : Tagged (t ++ u) := by
  induction t with
  | nil => exact hu
  | cons c t ih =>
    refine ⟨?_, ih ht.2⟩
    intro hc
    obtain ⟨⟨tag, length⟩, hread, hinner⟩ := ht.1 hc
    obtain ⟨hformed, rfl, rest, hrest⟩ := Tag.wellFormed_of_read hread
    refine ⟨(tag, tag.written.length), ?_, hinner⟩
    change Tag.read? ((c :: t) ++ u) = _
    rw [hrest, List.append_assoc]
    exact hformed.read (rest ++ u)

theorem tagged_of_notMem {t : Text} (h : '<' ∉ t) : Tagged t := by
  induction t with
  | nil => trivial
  | cons c t ih =>
    rw [List.mem_cons, not_or] at h
    exact ⟨fun hc => absurd hc.symm h.1, ih h.2⟩

theorem Tag.WellFormed.tagged {tag : Tag} (h : tag.WellFormed) (hi : '<' ∉ tag.written.tail) :
    Tagged tag.written := by
  have hread := h.read []
  rw [List.append_nil] at hread
  cases hw : tag.written with
  | nil => trivial
  | cons c rest =>
    rw [hw] at hi hread
    exact ⟨fun _ => ⟨_, hread, by rwa [hw]⟩, tagged_of_notMem hi⟩

theorem Tagged.suffix {t rest : Text} (h : Tagged (t ++ rest)) : Tagged rest := by
  induction t with
  | nil => exact h
  | cons c t ih => exact ih h.2

/-- Such markup is read character by character and tag by tag. -/
@[elab_as_elim]
theorem Tagged.reading {motive : (t : Text) → Tagged t → Prop} (nil : motive [] trivial)
    (char : ∀ {c : Char} {rest : Text} (_ : c ≠ '<') (h : Tagged rest) (hc : Tagged (c :: rest)),
      motive rest h → motive (c :: rest) hc)
    (tag : ∀ {tag : Tag} {rest : Text} (_ : tag.WellFormed) (_ : '<' ∉ tag.written.tail) (h : Tagged rest)
      (ht : Tagged (tag.written ++ rest)), motive rest h → motive (tag.written ++ rest) ht)
    (t : Text) (h : Tagged t) : motive t h := by
  induction hn : t.length using Nat.strong_induction_on generalizing t with
  | _ n ih =>
    cases t with
    | nil => exact nil
    | cons c cs =>
      by_cases hc : c = '<'
      · obtain ⟨⟨first, length⟩, hread, hinner⟩ := h.1 hc
        obtain ⟨hformed, _, rest, hrest⟩ := Tag.wellFormed_of_read hread
        have hlt : rest.length < n := by
          have hpos : 0 < first.written.length := by cases hformed; exact Nat.succ_pos _
          rw [← hn, hrest, List.length_append]
          omega
        revert h
        rw [hrest]
        intro h
        exact tag hformed hinner h.suffix h (ih rest.length hlt rest h.suffix rfl)
      · have hlt : cs.length < n := by
          rw [← hn]
          exact Nat.lt_succ_self _
        exact char hc h.2 h (ih cs.length hlt cs h.2 rfl)

/-- Such markup is made of the parts that are read from it. -/
theorem Tagged.parts {t : Text} (h : Tagged t) :
    (∀ part ∈ items Tag.read? t, part.Readable) ∧ written (items Tag.read? t) = t := by
  induction t, h using Tagged.reading with
  | nil => exact ⟨fun _ hm => (by cases hm), rfl⟩
  | @char c rest hc _ _ ih =>
    rw [items_char hc, written, List.flatMap_cons, ← written, ih.2]
    exact ⟨List.forall_mem_cons.mpr ⟨hc, ih.1⟩, rfl⟩
  | @tag tag rest hformed _ _ _ ih =>
    rw [items_tag hformed, written, List.flatMap_cons, ← written, ih.2]
    exact ⟨List.forall_mem_cons.mpr ⟨hformed, ih.1⟩, rfl⟩

/-- Reading markup that is put together of parts gives what is read from them, one after the other. -/
theorem items_append {t : Text} (h : Tagged t) (rest : Text) :
    items Tag.read? (t ++ rest) = items Tag.read? t ++ items Tag.read? rest := by
  obtain ⟨hreadable, hwritten⟩ := h.parts
  have hall := items_written_append hreadable rest
  rwa [hwritten] at hall

end RoffDocBook.Markup
