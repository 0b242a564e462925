import Mathlib.Data.List.Basic
import RoffDocBook.Markup.Escape
import RoffDocBook.Text.Basic

/-! Properly nested markup: as a grammar, and as what the tags of a text leave open from left to right. -/
namespace RoffDocBook.Markup
open Text

/-- The name of an element. -/
def IsName (name : Text) : Prop :=
  name ≠ [] ∧ ∀ c ∈ name, c.isAlphanum = true

instance (name : Text) : Decidable (IsName name) :=
  have : Decidable (∀ c ∈ name, c.isAlphanum = true) := List.decidableBAll _ name
  inferInstanceAs (Decidable (_ ∧ _))

/-- A text in which no tag begins or ends. -/
def Tagless (t : Text) : Prop :=
  '<' ∉ t ∧ '>' ∉ t

instance (t : Text) : Decidable (Tagless t) :=
  inferInstanceAs (Decidable (_ ∧ _))

/-- What may follow the name in a start tag. -/
structure IsAttributes (t : Text) : Prop where
  apart : t = [] ∨ ∃ rest, t = ' ' :: rest
  tagless : Tagless t
  started : t.getLast? ≠ some '/'

def tag (inner : Text) : Text :=
  '<' :: (inner ++ ['>'])

/-- A sequence of elements and text, in which every element is closed by its own end tag after all elements in it. -/
inductive Nested : Text → Prop where
  | text {t : Text} (h : Tagless t) : Nested t
  | empty {name : Text} (h : IsName name) : Nested (tag (name ++ ['/']))
  | element {name attributes body : Text} (hn : IsName name) (ha : IsAttributes attributes) (hb : Nested body) :
      Nested (tag (name ++ attributes) ++ body ++ tag ('/' :: name))
  | append {t u : Text} (ht : Nested t) (hu : Nested u) : Nested (t ++ u)

/-- Terms stand only in the entries of lists of terms. -/
def Fits (outer : List Text) (name : Text) : Prop :=
  name = "term" → outer.head? = some "varlistentry"

/-- What a tag does to the elements that are open, the innermost first. -/
inductive TagStep : List Text → Text → List Text → Prop where
  | start {outer : List Text} {name attributes : Text} (hn : IsName name) (ha : IsAttributes attributes)
      (hf : Fits outer name) : TagStep outer (name ++ attributes) (name :: outer)
  | close {outer : List Text} {name : Text} (hn : IsName name) : TagStep (name :: outer) ('/' :: name) outer
  | empty {outer : List Text} {name : Text} (hn : IsName name) : TagStep outer (name ++ ['/']) outer

/-- The elements that the tags of a text leave open, the innermost first. -/
inductive Leaves : List Text → Text → Prop where
  | nil : Leaves [] []
  | text {s : List Text} {t u : Text} (h : Leaves s t) (hu : Tagless u) : Leaves s (t ++ u)
  | tag {s next : List Text} {t inner : Text} (h : Leaves s t) (hs : TagStep s inner next) :
      Leaves next (t ++ tag inner)

namespace IsName
variable {name : Text}

theorem notMem (h : IsName name) {c : Char} (hc : c.isAlphanum = false) : c ∉ name := by
  intro hm
  rw [h.2 c hm] at hc
  cases hc

theorem tagless (h : IsName name) : Tagless name :=
  ⟨h.notMem (by decide), h.notMem (by decide)⟩

end IsName

theorem tagless_append {t u : Text} (ht : Tagless t) (hu : Tagless u) : Tagless (t ++ u) := by
  unfold Tagless
  rw [List.mem_append, List.mem_append, not_or, not_or]
  exact ⟨⟨ht.1, hu.1⟩, ht.2, hu.2⟩

theorem isAttributes_nil : IsAttributes [] :=
  ⟨Or.inl rfl, by decide, by simp⟩

theorem TagStep.tagless {s next : List Text} {inner : Text} (h : TagStep s inner next) : Tagless inner := by
  cases h with
  | start hn ha _ => exact tagless_append hn.tagless ha.tagless
  | close hn => exact tagless_append (t := ['/']) (by decide) hn.tagless
  | empty hn => exact tagless_append hn.tagless (by decide)

theorem tagStep_cases {s next : List Text} {inner : Text} (h : TagStep s inner next) :
    (∃ name attributes, inner = name ++ attributes ∧ IsName name ∧ IsAttributes attributes ∧ next = name :: s) ∨
      (∃ name, inner = '/' :: name ∧ s = name :: next) ∨
      ∃ name, inner = name ++ ['/'] ∧ IsName name ∧ s = next := by
  cases h with
  | @start _ name attributes hn ha _ => exact Or.inl ⟨name, attributes, rfl, hn, ha, rfl⟩
  | @close _ name _ => exact Or.inr (Or.inl ⟨name, rfl, rfl⟩)
  | @empty _ name hn => exact Or.inr (Or.inr ⟨name, rfl, hn, rfl⟩)

/-- The elements that are open in a text, each with the nested text since it was opened. -/
inductive Opened : List Text → Text → Prop where
  | nested {t : Text} (h : Nested t) : Opened [] t
  | within {outer : List Text} {name attributes t u : Text} (h : Opened outer t) (hn : IsName name)
      (ha : IsAttributes attributes) (hu : Nested u) :
      Opened (name :: outer) (t ++ (Markup.tag (name ++ attributes) ++ u))

theorem Opened.append {s : List Text} {t u : Text} (h : Opened s t) (hu : Nested u) : Opened s (t ++ u) := by
  cases h with
  | nested h => exact .nested (h.append hu)
  | within h hn ha hv =>
    rw [List.append_assoc, List.append_assoc]
    exact .within h hn ha (hv.append hu)

theorem Leaves.opened {s : List Text} {t : Text} (h : Leaves s t) : Opened s t := by
  induction h with
  | nil => exact .nested (.text (by decide))
  | text _ hu ih => exact ih.append (.text hu)
  | @tag s next t inner _ hs ih =>
    cases hs with
    | start hn ha _ =>
      have hopened := Opened.within ih hn ha (.text (t := []) (by decide))
      rwa [List.append_nil] at hopened
    | close hn =>
      cases ih with
      | within h hn ha hu =>
        rw [List.append_assoc]
        exact h.append (.element hn ha hu)
    | empty hn => exact ih.append (.empty hn)

/-- A text that leaves nothing open is nested. -/
theorem Leaves.nested {t : Text} (h : Leaves [] t) : Nested t := by
  cases h.opened with
  | nested h => exact h

/-- The last tag of a text is the one that begins at its last angle bracket. -/
theorem tag_injective {t u inner other : Text} (hi : '<' ∉ inner) (ho : '<' ∉ other)
    (h : t ++ tag inner = u ++ tag other) : t = u ∧ inner = other := by
  have hi' : '<' ∉ inner ++ ['>'] := by simp [hi]
  have ho' : '<' ∉ other ++ ['>'] := by simp [ho]
  rcases List.append_eq_append_iff.mp h with ⟨_ | ⟨c, rest⟩, hu, ht⟩ | ⟨_ | ⟨c, rest⟩, ht, hu⟩
  · rw [List.append_nil] at hu
    exact ⟨hu.symm, List.append_cancel_right (List.cons.inj ht).2⟩
  · rw [tag, List.cons_append] at ht
    rw [(List.cons.inj ht).2] at hi'
    simp [tag] at hi'
  · rw [List.append_nil] at ht
    exact ⟨ht, List.append_cancel_right (List.cons.inj hu).2.symm⟩
  · rw [tag, List.cons_append] at hu
    rw [(List.cons.inj hu).2] at ho'
    simp [tag] at ho'

namespace Leaves
variable {s : List Text} {t : Text}

/-- What the last tag of a text has done. -/
theorem tag_inv {inner : Text} (hi : Tagless inner) (h : Leaves s (t ++ Markup.tag inner)) :
    ∃ outer, Leaves outer t ∧ TagStep outer inner s := by
  generalize hall : t ++ Markup.tag inner = all at h
  induction h with
  | nil => simp [Markup.tag] at hall
  | @text s v u h hu ih =>
    rcases List.eq_nil_or_concat' u with rfl | ⟨before, c, rfl⟩
    · rw [List.append_nil] at hall
      exact ih hall
    · have hend : (t ++ '<' :: inner) ++ ['>'] = (v ++ before) ++ [c] := by
        simpa [Markup.tag] using hall
      obtain ⟨_, hc⟩ := List.append_inj' hend rfl
      have hmem : '>' ∈ before ++ [c] := by
        rw [← (List.cons.inj hc).1]
        simp
      exact absurd hmem hu.2
  | @tag outer s v other h hs ih =>
    obtain ⟨rfl, rfl⟩ := tag_injective hi.1 hs.tagless.1 hall
    exact ⟨outer, h, hs⟩

/-- Every open element stands where it fits. -/
theorem fits (h : Leaves s t) {inner outer : List Text} {name : Text} (hs : s = inner ++ name :: outer) :
    Fits outer name := by
  induction h generalizing inner with
  | nil => simp at hs
  | text _ _ ih => exact ih hs
  | tag _ hstep ih =>
    cases hstep with
    | start _ _ hf =>
      cases inner with
      | nil =>
        obtain ⟨rfl, rfl⟩ := List.cons.inj hs
        exact hf
      | cons first inner => exact ih (List.cons.inj hs).2
    | @close _ closed _ => exact ih (show closed :: _ = (closed :: inner) ++ name :: outer by rw [hs]; rfl)
    | empty _ => exact ih hs

/-- A start tag without attributes at the end of a text has opened the innermost element. -/
theorem start_inv {name : Text} (hn : IsName name) (h : Leaves s (t ++ Markup.tag name)) :
    ∃ outer, s = name :: outer ∧ Leaves outer t := by
  obtain ⟨outer, ho, hs⟩ := tag_inv hn.tagless h
  rcases tagStep_cases hs with ⟨first, attributes, hi, _, ha, rfl⟩ | ⟨closed, hi, _⟩ | ⟨first, hi, _⟩
  · rcases ha.apart with rfl | ⟨rest, rfl⟩
    · rw [List.append_nil] at hi
      exact ⟨outer, by rw [hi], ho⟩
    · have hmem : ' ' ∈ name := by rw [hi]; simp
      exact absurd hmem (hn.notMem (by decide))
  · have hmem : '/' ∈ name := by rw [hi]; simp
    exact absurd hmem (hn.notMem (by decide))
  · have hmem : '/' ∈ name := by rw [hi]; simp
    exact absurd hmem (hn.notMem (by decide))

/-- An end tag at the end of a text has closed an element that was the innermost one. -/
theorem close_inv {name : Text} (hn : IsName name) (h : Leaves s (t ++ Markup.tag ('/' :: name))) :
    Leaves (name :: s) t := by
  have notName {first rest : Text} (hf : IsName first) (hi : '/' :: name = first ++ rest) : False := by
    obtain ⟨c, cs, rfl⟩ := List.exists_cons_of_ne_nil hf.1
    have hmem : '/' ∈ c :: cs := by rw [(List.cons.inj hi).1]; simp
    exact hf.notMem (by decide) hmem
  obtain ⟨outer, ho, hs⟩ := tag_inv (tagless_append (t := ['/']) (by decide) hn.tagless) h
  rcases tagStep_cases hs with ⟨first, attributes, hi, hf, _, _⟩ | ⟨closed, hi, rfl⟩ | ⟨first, hi, hf, _⟩
  · exact absurd hi (notName hf)
  · have hname : name = closed := (List.cons.inj hi).2
    rw [hname]
    exact ho
  · exact absurd hi (notName hf)

end Leaves

end RoffDocBook.Markup

/-! The text that markup holds, without its tags and white space. Pieces of markup that are put together hold their
texts one after the other. -/
namespace RoffDocBook.Markup
open Text

/-- The characters of markup that are neither in a tag nor white space. -/
def content (markup : Text) : Text :=
  (stripTags markup).filter (!isBlank ·)

/-- A piece of markup that holds a text, whatever comes after it. -/
def Yields (piece text : Text) : Prop :=
  ∀ rest, content (piece ++ rest) = text ++ content rest

theorem stripTagsFrom_inside {inner : Text} (h : '>' ∉ inner) (rest : Text) :
    stripTagsFrom true (inner ++ '>' :: rest) = stripTagsFrom false rest := by
  induction inner with
  | nil => rfl
  | cons c cs ih =>
    rw [List.mem_cons, not_or] at h
    have hc : (c != '>') = true := bne_iff_ne.mpr (Ne.symm h.1)
    rw [List.cons_append, stripTagsFrom, hc]
    exact ih h.2

theorem stripTags_tag {inner : Text} (h : '>' ∉ inner) (rest : Text) :
    stripTags (tag inner ++ rest) = stripTags rest := by
  have hshape : tag inner ++ rest = '<' :: (inner ++ '>' :: rest) := by simp [tag]
  rw [hshape, stripTags, stripTagsFrom, if_pos (by simp), stripTagsFrom_inside h]
  rfl

theorem stripTags_append {t : Text} (h : '<' ∉ t) (rest : Text) : stripTags (t ++ rest) = t ++ stripTags rest := by
  unfold stripTags
  induction t with
  | nil => rfl
  | cons c cs ih =>
    rw [List.mem_cons, not_or] at h
    have hc : (c == '<') = false := beq_eq_false_iff_ne.mpr (Ne.symm h.1)
    rw [List.cons_append, stripTagsFrom, hc, Bool.false_and, if_neg Bool.false_ne_true, ih h.2]
    rfl

theorem yields_nil : Yields [] [] :=
  fun _ => rfl

theorem yields_tag {inner : Text} (h : '>' ∉ inner) : Yields (tag inner) [] := by
  intro rest
  rw [content, stripTags_tag h]
  rfl

theorem yields_text {t : Text} (h : '<' ∉ t) : Yields t (t.filter (!isBlank ·)) := by
  intro rest
  rw [content, stripTags_append h, List.filter_append]
  rfl

namespace Yields
variable {a b t u : Text}

theorem append (ha : Yields a t) (hb : Yields b u) : Yields (a ++ b) (t ++ u) := by
  intro rest
  rw [List.append_assoc, ha, hb, List.append_assoc]

/-- A piece that holds nothing adds nothing before another one. -/
theorem behind (ha : Yields a []) (hb : Yields b u) : Yields (a ++ b) u :=
  ha.append hb

/-- A piece that holds nothing adds nothing after another one. -/
theorem before (ha : Yields a t) (hb : Yields b []) : Yields (a ++ b) t := by
  have h := ha.append hb
  rwa [List.append_nil] at h

theorem content_eq (h : Yields a t) : content a = t := by
  have hall := h []
  rw [List.append_nil] at hall
  exact hall.trans (List.append_nil t)

/-- Nothing is held by no markup. -/
theorem eq_nil (h : Yields [] t) : t = [] :=
  h.content_eq.symm

end Yields

/-- Pieces with spaces between them, of which the empty ones are left out. -/
theorem yields_join_cons {piece t u : Text} {pieces : List Text} (hp : Yields piece t)
    (hr : Yields (join " " (pieces.filter fun piece => !piece.isEmpty)) u) :
    Yields (join " " ((piece :: pieces).filter fun piece => !piece.isEmpty)) (t ++ u) := by
  cases piece with
  | nil =>
    rw [hp.eq_nil]
    exact hr
  | cons c cs =>
    rw [List.filter_cons_of_pos (by rfl)]
    generalize (pieces.filter fun piece => !piece.isEmpty) = others at hr
    cases others with
    | nil =>
      rw [hr.eq_nil, List.append_nil]
      exact hp.before yields_nil
    | cons next others =>
      have hspace : Yields " ".toList [] := yields_text (by decide)
      exact hp.append (hspace.behind hr)

end RoffDocBook.Markup
