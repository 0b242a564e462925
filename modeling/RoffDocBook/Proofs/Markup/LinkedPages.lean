import Mathlib.Data.List.Infix
import RoffDocBook.Proofs.Markup.Pages
import RoffDocBook.Proofs.Markup.Replacement

/-! Markup in which the pages in a font of their own have become references. Each of them begins with a tag, so that
text is kept, and so is every tag or comment that no such page begins with. -/
namespace RoffDocBook.Markup
open Text

/-- The end of the font that the name of a page is in. -/
def emphasisEnd : Tag :=
  Tag.make true "emphasis".toList [] false

/-- A page in a font of its own, after a tag that may be one of the font. -/
structure IsPage (start : Tag) (inside name volume : Text) : Prop where
  formed : start.WellFormed
  inner : '<' ∉ start.written.tail
  written : start.written = "<emphasis".toList ++ (inside ++ ['>'])
  named : ∀ c ∈ name, isPageNameChar c = true
  nonempty : name ≠ []
  volume : IsVolume volume

theorem notMem_of_isPageNameChar {name : Text} (hn : ∀ c ∈ name, isPageNameChar c = true) {d : Char}
    (hd : isPageNameChar d = false) : d ∉ name := by
  intro hm
  rw [hn d hm] at hd
  cases hd

/-- A section is a letter or a digit with letters and plus signs. -/
theorem IsVolume.notMem {volume : Text} (h : IsVolume volume) {c : Char} (hc : c = '<' ∨ c = '&') : c ∉ volume := by
  rcases h with rfl | ⟨d, letters, rfl, hd, hl⟩
  · rcases hc with rfl | rfl <;> decide
  · rw [List.mem_cons, not_or]
    refine ⟨?_, fun hm => ?_⟩
    · rcases hc with rfl | rfl
      · rintro rfl
        exact absurd hd (by decide)
      · rintro rfl
        exact absurd hd (by decide)
    · have hletter := hl c hm
      rcases hc with rfl | rfl <;> exact absurd hletter (by decide)

section Reference
variable {name volume : Text}

theorem pageReference_eq (name volume : Text) :
    pageReference name volume =
      (Tag.make false "citerefentry".toList [] false).written ++
        (((Tag.make false "refentrytitle".toList [] false).written ++
            (name ++ (Tag.make true "refentrytitle".toList [] false).written)) ++
          ((Tag.make false "manvolnum".toList [] false).written ++
            (volume ++ (Tag.make true "manvolnum".toList [] false).written)) ++
        (Tag.make true "citerefentry".toList [] false).written) := by
  unfold pageReference
  simp only [List.append_assoc]
  rfl

theorem closed_pageReference (hn : '<' ∉ name) (hv : '<' ∉ volume) : Closed (pageReference name volume) := by
  have htitle := Closed.element 'r' "efentrytitle".toList rfl (forall_mem_of_all (by decide)) .bare (by decide)
    (Closed.text hn)
  have hvolume := Closed.element 'm' "anvolnum".toList rfl (forall_mem_of_all (by decide)) .bare (by decide)
    (Closed.text hv)
  rw [pageReference_eq]
  exact Closed.element 'c' "iterefentry".toList rfl (forall_mem_of_all (by decide)) .bare (by decide)
    (htitle.append hvolume)

theorem referenced_pageReference (hn : '&' ∉ name) (hv : '&' ∉ volume) : Referenced (pageReference name volume) := by
  apply referenced_of_notMem
  rw [pageReference_eq]
  simp only [List.mem_append, not_or]
  exact ⟨by decide, ⟨⟨by decide, hn, by decide⟩, by decide, hv, by decide⟩, by decide⟩

end Reference

theorem wellFormed_emphasisEnd : emphasisEnd.WellFormed :=
  .intro (c := 'e') true rfl (forall_mem_of_all (by decide)) .bare

theorem mark_emphasisEnd : Mark emphasisEnd.written :=
  .tag wellFormed_emphasisEnd (by decide)

/-- A tag ends where it is closed for the first time, and does not begin as a comment does. -/
theorem Tag.WellFormed.exists_inside {tag : Tag} (h : tag.WellFormed) :
    ∃ b inside, b ≠ '!' ∧ '>' ∉ b :: inside ∧ tag.written = '<' :: (b :: inside ++ ['>']) := by
  cases h with
  | @intro c name ending isEmpty isEnd hc hn he =>
    have hname : '>' ∉ c :: name := notMem_of_isTagNameChar hn (by decide)
    have hending : '>' ∉ ending := by
      cases he with
      | bare => decide
      | slash => decide
      | spaced hn hb hi =>
        rw [List.mem_cons, not_or]
        refine ⟨?_, hi⟩
        rintro rfl
        exact absurd hb (by decide)
    have hboth : '>' ∉ c :: (name ++ ending) := by
      rw [← List.cons_append, List.mem_append, not_or]
      exact ⟨hname, hending⟩
    cases isEnd with
    | false =>
      refine ⟨c, name ++ ending, ?_, hboth, by simp [Tag.make]⟩
      rintro rfl
      exact absurd hc (by decide)
    | true =>
      refine ⟨'/', c :: (name ++ ending), by decide, ?_, by simp [Tag.make]⟩
      rw [List.mem_cons, not_or]
      exact ⟨by decide, hboth⟩

theorem Tag.WellFormed.exists_init {tag : Tag} (h : tag.WellFormed) :
    ∃ init, '>' ∉ init ∧ tag.written = init ++ ['>'] := by
  obtain ⟨b, inside, _, hi, hw⟩ := h.exists_inside
  refine ⟨'<' :: b :: inside, ?_, by rw [hw]; rfl⟩
  rw [List.mem_cons, not_or]
  exact ⟨by decide, hi⟩

/-- What a text begins with is one tag only. -/
theorem Tag.WellFormed.eq_of_append {a b : Tag} (ha : a.WellFormed) (hb : b.WellFormed) {x y : Text}
    (h : a.written ++ x = b.written ++ y) : a = b := by
  have hread := ha.read x
  rw [h, hb.read] at hread
  exact (Prod.mk.inj (Option.some.inj hread)).1.symm

theorem eq_of_append_close {a b x y : Text} (ha : '>' ∉ a) (hb : '>' ∉ b) (h : a ++ '>' :: x = b ++ '>' :: y) :
    a = b := by
  rw [← Tag.takeWhile_inside ha x, h, Tag.takeWhile_inside hb]

/-- What begins as such a page does begins with a tag. -/
theorem IsPage.of_mark {m rest inside name volume after : Text} (hm : Mark m) (hi : '>' ∉ inside)
    (h : m ++ rest = emphasizedPage inside name volume ++ after) (hnamed : ∀ c ∈ name, isPageNameChar c = true)
    (hne : name ≠ []) (hv : IsVolume volume) : ∃ start, m = start.written ∧ IsPage start inside name volume := by
  cases hm with
  | comment => cases h
  | @tag tag hf hinner =>
    obtain ⟨init, hinit, hw⟩ := hf.exists_init
    have hopen : '>' ∉ "<emphasis".toList ++ inside := by
      rw [List.mem_append, not_or]
      exact ⟨by decide, hi⟩
    have hshape : init ++ '>' :: rest = ("<emphasis".toList ++ inside) ++
        '>' :: (name ++ ("</emphasis>".toList ++ (['('] ++ (volume ++ [')']))) ++ after) := by
      rw [hw] at h
      unfold emphasizedPage at h
      simp only [List.append_assoc] at h ⊢
      exact h
    refine ⟨tag, rfl, hf, hinner, ?_, hnamed, hne, hv⟩
    rw [hw, eq_of_append_close hinit hopen hshape, List.append_assoc]

namespace IsPage
variable {start : Tag} {inside name volume : Text} (h : IsPage start inside name volume)
include h

theorem mark : Mark start.written :=
  .tag h.formed h.inner

theorem notMem_inside : '>' ∉ inside := by
  obtain ⟨init, hinit, hw⟩ := h.formed.exists_init
  have hshape : init ++ '>' :: [] = ("<emphasis".toList ++ inside) ++ ['>'] := by
    rw [← hw, h.written, List.append_assoc]
  obtain rfl := List.append_cancel_right hshape
  exact fun hm => hinit (List.mem_append_right _ hm)

theorem lt_notMem_name : '<' ∉ name :=
  notMem_of_isPageNameChar h.named (by decide)

theorem eq_append : emphasizedPage inside name volume =
    start.written ++ (name ++ (emphasisEnd.written ++ ('(' :: volume ++ [')']))) := by
  rw [h.written]
  unfold emphasizedPage
  simp only [List.append_assoc]
  rfl

theorem isStart : start.isEnd = false := by
  have hw := h.written
  have hf := h.formed
  cases hf with
  | intro isEnd => cases isEnd with
    | false => rfl
    | true => exact absurd (List.cons.inj (List.cons.inj hw).2).1 (by decide)

/-- The tag before the name has a name that begins as that of the font. -/
theorem named_prefix : "emphasis".toList <+: start.name := by
  have hw := h.written
  have hf := h.formed
  have hstart := h.isStart
  cases hf with
  | @intro c first ending isEmpty isEnd hc hn he =>
    obtain rfl : isEnd = false := hstart
    have hletters : ∀ d ∈ "emphasis".toList, isTagNameChar d = true := forall_mem_of_all (by decide)
    have hspan := (Tag.span_name hn (he.notName [])).1
    have hshape : (c :: first) ++ (ending ++ '>' :: []) = "emphasis".toList ++ (inside ++ ['>']) := by
      have hcons : '<' :: ((c :: first) ++ ending ++ ['>']) = '<' :: ("emphasis".toList ++ (inside ++ ['>'])) := hw
      rw [← List.append_assoc]
      exact (List.cons.inj hcons).2
    change "emphasis".toList <+: c :: first
    rw [← hspan, hshape, List.takeWhile_append_of_pos hletters]
    exact List.prefix_append _ _

theorem closed_reference : Closed (pageReference name volume) :=
  closed_pageReference h.lt_notMem_name (h.volume.notMem (Or.inl rfl))

theorem marked : Marked (emphasizedPage inside name volume) := by
  have hvolume : '<' ∉ '(' :: volume ++ [')'] := by simp [h.volume.notMem (Or.inl rfl)]
  rw [h.eq_append]
  exact h.mark.marked.append ((marked_of_notMem h.lt_notMem_name).append
    (mark_emphasisEnd.marked.append (marked_of_notMem hvolume)))

/-- The tags of such a page are those of the font. -/
theorem tags_append (rest : Text) :
    tags (emphasizedPage inside name volume ++ rest) = start :: emphasisEnd :: tags rest := by
  have hvolume : '<' ∉ '(' :: volume ++ [')'] := by simp [h.volume.notMem (Or.inl rfl)]
  rw [h.eq_append, List.append_assoc, List.append_assoc, List.append_assoc, tags_tag h.formed,
    tags_text h.lt_notMem_name, tags_tag wellFormed_emphasisEnd, tags_text hvolume]

theorem found (rest : Text) :
    readEmphasizedPage? none (emphasizedPage inside name volume ++ rest) =
      some (pageReference name volume, (emphasizedPage inside name volume).length) :=
  readEmphasizedPage?_page h.notMem_inside h.nonempty h.named h.volume none rest

end IsPage

/-- Markup with references to the pages whose names are in a font of their own. -/
def linkPages (t : Text) : Text :=
  replaceFound readEmphasizedPage? t

theorem memoryless_readEmphasizedPage? : Memoryless readEmphasizedPage? :=
  fun _ _ _ => rfl

theorem readEmphasizedPage?_of_ne {c : Char} (hc : c ≠ '<') (rest : Text) :
    readEmphasizedPage? none (c :: rest) = none := by
  rw [readEmphasizedPage?_eq, show dropStart? "<emphasis" (c :: rest) = none from dropStart?_of_ne (Ne.symm hc) _ _]
  rfl

theorem linkPages_text {t : Text} (h : '<' ∉ t) (rest : Text) : linkPages (t ++ rest) = t ++ linkPages rest := by
  refine memoryless_readEmphasizedPage?.replaceFound_text ?_ rest
  intro c hc rest
  apply readEmphasizedPage?_of_ne
  rintro rfl
  exact h hc

theorem linkPages_mark {m rest : Text} (hm : Mark m) (hn : readEmphasizedPage? none (m ++ rest) = none) :
    linkPages (m ++ rest) = m ++ linkPages rest := by
  obtain ⟨tail, rfl, ht⟩ := hm.eq_cons
  rw [List.cons_append] at hn
  rw [linkPages, List.cons_append, memoryless_readEmphasizedPage?.replaceFound_of_none hn]
  exact congrArg ('<' :: ·) (linkPages_text ht rest)

theorem linkPages_page {start : Tag} {inside name volume : Text} (hp : IsPage start inside name volume) (rest : Text) :
    linkPages (emphasizedPage inside name volume ++ rest) = pageReference name volume ++ linkPages rest := by
  refine memoryless_readEmphasizedPage?.replaceFound_found ?_ (hp.found rest)
  rw [hp.eq_append]
  exact List.append_ne_nil_of_left_ne_nil hp.mark.ne_nil _

/-- Markup and what becomes of it when its pages are linked, part by part. -/
inductive PagesLinked : Text → Text → Prop where
  | text {t : Text} (h : '<' ∉ t) : PagesLinked t t
  | mark {before m rest out : Text} (hb : '<' ∉ before) (hm : Mark m)
      (hn : readEmphasizedPage? none (m ++ rest) = none) (hr : PagesLinked rest out) :
      PagesLinked (before ++ (m ++ rest)) (before ++ (m ++ out))
  | page {before inside name volume rest out : Text} {start : Tag} (hb : '<' ∉ before)
      (hp : IsPage start inside name volume) (hr : PagesLinked rest out) :
      PagesLinked (before ++ (emphasizedPage inside name volume ++ rest)) (before ++ (pageReference name volume ++ out))

theorem pagesLinked {t : Text} (h : Marked t) : PagesLinked t (linkPages t) := by
  induction hn : t.length using Nat.strongRecOn generalizing t with
  | ind n ih =>
    rcases h.cases_mark with ht | ⟨before, m, rest, hb, hm, hr, rfl⟩
    · have hself := linkPages_text ht []
      rw [List.append_nil] at hself
      rw [hself]
      exact (List.append_nil t).symm ▸ .text ht
    · rw [linkPages_text hb]
      cases hp : readEmphasizedPage? none (m ++ rest) with
      | none =>
        have hlt : rest.length < n := by
          obtain ⟨tail, rfl, _⟩ := hm.eq_cons
          rw [← hn]
          simp only [List.length_append, List.length_cons]
          omega
        rw [linkPages_mark hm hp]
        exact .mark hb hm hp (ih rest.length hlt hr rfl)
      | some answer =>
        obtain ⟨new, length⟩ := answer
        obtain ⟨inside, name, volume, after, hshape, hi, hne, hnamed, hv, rfl, rfl⟩ := readEmphasizedPage?_eq_some hp
        obtain ⟨start, _, hpage⟩ := IsPage.of_mark hm hi hshape hnamed hne hv
        have hlt : after.length < n := by
          rw [← hn, hshape, List.length_append, List.length_append, length_emphasizedPage]
          omega
        rw [hshape] at h ⊢
        rw [linkPages_page hpage]
        exact .page hb hpage (ih after.length hlt h.suffix.suffix rfl)

/-- No page in a font of its own begins with the tag of an empty element. -/
def PagesOpened (t : Text) : Prop :=
  ∀ s ∈ t.tails, readEmphasizedPage? none s ≠ none → ∀ found ∈ Tag.read? s, found.1.isEmpty = false

instance (t : Text) : Decidable (PagesOpened t) :=
  inferInstanceAs (Decidable (∀ s ∈ t.tails, _ → ∀ found ∈ Tag.read? s, found.1.isEmpty = false))

theorem PagesOpened.suffix {t rest : Text} (h : PagesOpened (t ++ rest)) : PagesOpened rest :=
  fun s hs => h s ((List.mem_tails s _).mpr (((List.mem_tails s rest).mp hs).trans (List.suffix_append t rest)))

theorem PagesOpened.isEmpty {before rest inside name volume : Text} {start : Tag} (hp : IsPage start inside name volume)
    (h : PagesOpened (before ++ (emphasizedPage inside name volume ++ rest))) : start.isEmpty = false := by
  have hread : Tag.read? (emphasizedPage inside name volume ++ rest) = some (start, start.written.length) := by
    rw [hp.eq_append, List.append_assoc]
    exact hp.formed.read _
  refine h _ ((List.mem_tails _ _).mpr (List.suffix_append _ _)) ?_ _ hread
  rw [hp.found rest]
  exact Option.some_ne_none _

/-- No page in a font of its own begins anywhere. -/
def Pageless (t : Text) : Prop :=
  ∀ s ∈ t.tails, readEmphasizedPage? none s = none

instance (t : Text) : Decidable (Pageless t) :=
  inferInstanceAs (Decidable (∀ s ∈ t.tails, readEmphasizedPage? none s = none))

namespace Pageless

theorem cons_iff {c : Char} {t : Text} :
    Pageless (c :: t) ↔ readEmphasizedPage? none (c :: t) = none ∧ Pageless t := by
  rw [Pageless, List.tails_cons, List.forall_mem_cons, ← Pageless]

theorem text_append_iff {t rest : Text} (h : '<' ∉ t) : Pageless (t ++ rest) ↔ Pageless rest := by
  induction t with
  | nil => rfl
  | cons c t ih =>
    rw [List.mem_cons, not_or] at h
    rw [List.cons_append, cons_iff, ih h.2]
    exact and_iff_right (readEmphasizedPage?_of_ne (Ne.symm h.1) _)

theorem mark_append_iff {m rest : Text} (hm : Mark m) :
    Pageless (m ++ rest) ↔ readEmphasizedPage? none (m ++ rest) = none ∧ Pageless rest := by
  obtain ⟨tail, rfl, ht⟩ := hm.eq_cons
  rw [List.cons_append, cons_iff, text_append_iff ht]

end Pageless

namespace PagesLinked
variable {t out : Text} (h : PagesLinked t out)
include h

/-- Linking pages leaves markup as it is exactly where there are none. -/
theorem eq_iff : out = t ↔ Pageless t := by
  induction h with
  | @text t ht =>
    have hpageless : Pageless t := by
      rw [← List.append_nil t, Pageless.text_append_iff ht]
      decide
    exact iff_of_true rfl hpageless
  | @mark before m rest out hb hm hn _ ih =>
    rw [Pageless.text_append_iff hb, Pageless.mark_append_iff hm, List.append_cancel_left_eq,
      List.append_cancel_left_eq, ih]
    exact (and_iff_right hn).symm
  | @page before inside name volume rest out start hb hp _ _ =>
    rw [Pageless.text_append_iff hb, List.append_cancel_left_eq]
    refine iff_of_false ?_ ?_
    · intro he
      have hsecond : some 'c' = some 'e' := congrArg (fun t : Text => t[1]?) he
      exact absurd hsecond (by decide)
    · intro hn
      have hnone := hn _ ((List.mem_tails _ _).mpr List.suffix_rfl)
      rw [hp.found] at hnone
      cases hnone

theorem marked : Marked out := by
  induction h with
  | text h => exact marked_of_notMem h
  | mark hb hm _ _ ih => exact (marked_of_notMem hb).append (hm.marked.append ih)
  | page hb hp _ ih => exact (marked_of_notMem hb).append (hp.closed_reference.marked.append ih)

theorem referenced (hr : Referenced t) : Referenced out := by
  induction h with
  | text => exact hr
  | mark _ hm _ _ ih =>
    obtain ⟨hbefore, hself⟩ := hr.before_mark hm
    exact hbefore.append (hself.append (ih hr.suffix.suffix))
  | @page before inside name volume rest out start _ hp _ ih =>
    have hrest := hr.suffix.suffix
    rw [hp.eq_append, List.append_assoc] at hr
    have hname : '&' ∉ name := notMem_of_isPageNameChar hp.named (by decide)
    have hreference := referenced_pageReference hname (hp.volume.notMem (Or.inr rfl))
    exact (hr.before_mark hp.mark).1.append (hreference.append (ih hrest))

/-- What is open at the end is the same where every tag of the font opens something. -/
theorem openAfter (ho : PagesOpened t) {opened last : List Text} (hl : openAfter opened (tags t) = some last) :
    openAfter opened (tags out) = some last := by
  induction h generalizing opened with
  | text => exact hl
  | @mark before m rest out hb hm _ _ ih =>
    rw [tags_text hb, hm.tags_append, openAfter_append] at hl ⊢
    obtain ⟨next, hnext, hl⟩ := Option.bind_eq_some_iff.mp hl
    rw [hnext]
    exact ih ho.suffix.suffix hl
  | @page before inside name volume rest out start hb hp _ ih =>
    rw [tags_text hb, hp.tags_append] at hl
    rw [tags_text hb, hp.closed_reference.openAfter_append]
    have hstart : Markup.openAfter opened (start :: emphasisEnd :: tags rest) =
        if some start.name = some emphasisEnd.name then Markup.openAfter opened (tags rest) else none := by
      rw [Markup.openAfter, if_neg (by rw [ho.isEmpty hp]; exact Bool.false_ne_true),
        if_neg (by rw [hp.isStart]; exact Bool.false_ne_true)]
      rfl
    rw [hstart] at hl
    split at hl
    · exact ih ho.suffix.suffix hl
    · cases hl

end PagesLinked
section Locality
variable {t rest more : Text} {tag : Tag}

/-- No page in a font of its own begins with a tag of another name. -/
theorem readEmphasizedPage?_tag (hf : tag.WellFormed) (hi : '<' ∉ tag.written.tail)
    (hn : ¬"emphasis".toList <+: tag.name) (rest : Text) : readEmphasizedPage? none (tag.written ++ rest) = none := by
  cases hfound : readEmphasizedPage? none (tag.written ++ rest) with
  | none => rfl
  | some answer =>
    obtain ⟨new, length⟩ := answer
    obtain ⟨inside, name, volume, after, hshape, hinside, hne, hnamed, hv, _, _⟩ := readEmphasizedPage?_eq_some hfound
    obtain ⟨start, hw, hpage⟩ := IsPage.of_mark (.tag hf hi) hinside hshape hnamed hne hv
    have hsame : tag = start := hf.eq_of_append hpage.formed (congrArg (· ++ rest) hw)
    exact absurd (hsame ▸ hpage.named_prefix) hn

/-- Text with one angle bracket is cut there in one way. -/
theorem eq_of_append_open {a b x y : Text} (hb : '<' ∉ b) (hy : '<' ∉ y) (h : x ++ '<' :: a = b ++ '<' :: y) :
    x = b := by
  rcases List.append_eq_append_iff.mp h with ⟨c, rfl, hc⟩ | ⟨c, rfl, hc⟩
  · cases c with
    | nil => exact (List.append_nil x).symm
    | cons d c =>
      obtain ⟨rfl, _⟩ := List.cons.inj hc
      simp at hb
  · cases c with
    | nil => exact List.append_nil b
    | cons d c =>
      obtain ⟨_, rfl⟩ := List.cons.inj hc
      simp at hy

/-- Whether such a page begins at a tag or comment is decided before the next tag of another name. -/
theorem readEmphasizedPage?_append {m : Text} (hm : Mark m) (hn : readEmphasizedPage? none (m ++ rest) = none)
    (hf : tag.WellFormed) (hi : '<' ∉ tag.written.tail) (ho : ¬"emphasis".toList <+: tag.name) :
    readEmphasizedPage? none (m ++ (rest ++ (tag.written ++ more))) = none := by
  cases hfound : readEmphasizedPage? none (m ++ (rest ++ (tag.written ++ more))) with
  | none => rfl
  | some answer =>
    obtain ⟨new, length⟩ := answer
    obtain ⟨inside, name, volume, after, hshape, hinside, hne, hnamed, hv, _, _⟩ := readEmphasizedPage?_eq_some hfound
    obtain ⟨start, rfl, hpage⟩ := IsPage.of_mark hm hinside hshape hnamed hne hv
    have hnone {x : Text} (hx : rest = name ++ (emphasisEnd.written ++ ('(' :: volume ++ [')'])) ++ x) : False := by
      have hpagehere := hpage.found x
      rw [hpage.eq_append, List.append_assoc, ← hx, hn] at hpagehere
      cases hpagehere
    have hy : '<' ∉ "/emphasis>".toList ++ ('(' :: volume ++ [')']) := by
      simp [hpage.volume.notMem (Or.inl rfl)]
    obtain ⟨tail, hcons, _⟩ := (Mark.tag hf hi).eq_cons
    rw [hpage.eq_append, List.append_assoc] at hshape
    rcases List.append_eq_append_iff.mp (List.append_cancel_left hshape) with ⟨a, hpart, ha⟩ | ⟨x, hx, _⟩
    · cases a with
      | nil =>
        rw [List.append_nil] at hpart
        exact (hnone (x := []) (by rw [List.append_nil, hpart])).elim
      | cons d a =>
        rw [hcons] at ha
        obtain ⟨rfl, _⟩ := List.cons.inj ha
        rw [← hcons] at ha
        obtain rfl := eq_of_append_open hpage.lt_notMem_name hy hpart.symm
        have hend := List.append_cancel_left hpart
        rw [← hend, List.append_assoc] at ha
        have hsame : tag = emphasisEnd := hf.eq_of_append wellFormed_emphasisEnd ha
        exact absurd (by rw [hsame]; exact List.prefix_rfl) ho
    · exact (hnone hx).elim

/-- Pages are linked apart before a tag that is none of the font and from there on. -/
theorem linkPages_append (h : Marked t) (hf : tag.WellFormed) (hi : '<' ∉ tag.written.tail)
    (ho : ¬"emphasis".toList <+: tag.name) (rest : Text) :
    linkPages (t ++ (tag.written ++ rest)) = linkPages t ++ (tag.written ++ linkPages rest) := by
  have hrest := linkPages_mark (.tag hf hi) (readEmphasizedPage?_tag hf hi ho rest)
  have hall : ∀ {t out}, PagesLinked t out →
      linkPages (t ++ (tag.written ++ rest)) = out ++ (tag.written ++ linkPages rest) := by
    intro t out hlinked
    induction hlinked with
    | text ht => rw [linkPages_text ht, hrest]
    | mark hb hm hn _ ih =>
      rw [List.append_assoc, List.append_assoc, linkPages_text hb,
        linkPages_mark hm (readEmphasizedPage?_append hm hn hf hi ho), ih]
      simp only [List.append_assoc]
    | page hb hp _ ih =>
      rw [List.append_assoc, List.append_assoc, linkPages_text hb, linkPages_page hp, ih]
      simp only [List.append_assoc]
  exact hall (pagesLinked h)

end Locality
end RoffDocBook.Markup
