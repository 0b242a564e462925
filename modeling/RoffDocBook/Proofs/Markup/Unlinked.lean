import RoffDocBook.Proofs.Markup.LinkedText

/-! Markup with its links. Tags and comments stay as they are, and so does the text in elements without links, so that
the markup is as well formed as before wherever no address is cut within a reference. -/
namespace RoffDocBook.Markup
open Text

/-- Markup with links in its text, at some depth inside elements without links. -/
def liftFrom (fifth : Bool) (depth : Nat) (t : Text) : Text :=
  linkItems fifth depth [] (items readMarkup? t)

/-- A text between tags with its links, at some depth. -/
def linkAt (fifth : Bool) (depth : Nat) (t : Text) : Text :=
  if depth == 0 then linkText fifth t else t

/-- The texts in which links are looked for; `text` is the text before the items, read backwards. -/
def searchedFrom : Nat → Text → List (Item Text) → List Text
  | depth, text, [] => if depth == 0 then [text.reverse] else []
  | depth, text, .char c :: rest => searchedFrom depth (c :: text) rest
  | depth, text, .found markup :: rest =>
    (if depth == 0 then [text.reverse] else []) ++ searchedFrom (unlinkedDepth depth markup) [] rest

/-- The texts of markup in which links are looked for, once the pages in fonts of their own are linked. -/
def searched (markup : Text) : List Text :=
  searchedFrom 0 [] (items readMarkup? (linkPages markup))

theorem liftLinks_eq (body : Text) (fifth : Bool) : liftLinks body fifth = liftFrom fifth 0 (linkPages body) :=
  rfl

section Reading
variable {fifth : Bool} {before m : Text}

theorem readMarkup?_of_ne {c : Char} (hc : c ≠ '<') (rest : Text) : readMarkup? (c :: rest) = none := by
  have hdrop : dropStart? "<!--" (c :: rest) = none := dropStart?_of_ne (Ne.symm hc) _ _
  unfold readMarkup?
  rw [hdrop]
  split
  · rename_i heq
    exact absurd (List.cons.inj heq).1 hc
  · rfl

/-- A tag or comment is found as it is written, whatever comes after it. -/
theorem Mark.readMarkup? (hm : Mark m) (rest : Text) : readMarkup? (m ++ rest) = some (m, m.length) := by
  cases hm with
  | @tag tag hf _ =>
    obtain ⟨b, inside, hb, hi, hw⟩ := hf.exists_inside
    have hshape : tag.written ++ rest = '<' :: (b :: inside ++ '>' :: rest) := by
      rw [hw]
      simp
    have hdrop : dropStart? "<!--" ('<' :: (b :: inside ++ '>' :: rest)) = none := by
      change dropStart? "!--".toList (b :: (inside ++ '>' :: rest)) = none
      exact dropStart?_of_ne (Ne.symm hb) _ _
    have hlong : ¬(b :: inside ++ '>' :: rest).length ≤ (b :: inside).length := by simp
    rw [hshape, hw]
    unfold Markup.readMarkup?
    rw [hdrop]
    generalize hr : b :: inside ++ '>' :: rest = after at hlong ⊢
    have htake : after.takeWhile (· != '>') = b :: inside := by rw [← hr, Tag.takeWhile_inside hi]
    split
    · rename_i heq
      obtain rfl := (List.cons.inj heq).2
      dsimp only
      rw [htake, List.isEmpty_cons, decide_eq_false hlong]
      rfl
    · rename_i hne
      exact absurd rfl (hne after)
  | @comment inside he _ =>
    have hdrop : dropStart? "<!--" ("<!--".toList ++ (inside ++ "-->".toList) ++ rest) =
        some (inside ++ "-->".toList ++ rest) := by
      rw [List.append_assoc]
      exact dropStart?_append _ _
    unfold Markup.readMarkup?
    rw [hdrop, Option.bind_some, breakOn?_append_of_some he rest]
    dsimp only [Option.map_some]
    rw [List.append_assoc]
    rfl

theorem items_text (h : '<' ∉ before) (rest : Text) :
    items Markup.readMarkup? (before ++ rest) = before.map Item.char ++ items Markup.readMarkup? rest := by
  induction before with
  | nil => rfl
  | cons c before ih =>
    rw [List.mem_cons, not_or] at h
    rw [List.cons_append, items_of_none (readMarkup?_of_ne (Ne.symm h.1) _), ih h.2]
    rfl

theorem Mark.items (hm : Mark m) (rest : Text) :
    items Markup.readMarkup? (m ++ rest) = .found m :: items Markup.readMarkup? rest := by
  obtain ⟨tail, hcons, _⟩ := hm.eq_cons
  exact items_found (by rw [hcons]; exact List.cons_ne_nil _ _) (hm.readMarkup? rest)

theorem linkItems_text (depth : Nat) (text before : Text) (rest : List (Item Text)) :
    linkItems fifth depth text (before.map Item.char ++ rest) = linkItems fifth depth (before.reverse ++ text) rest := by
  induction before generalizing text with
  | nil => rfl
  | cons c before ih =>
    rw [List.map_cons, List.cons_append, linkItems, ih]
    simp

theorem searchedFrom_text (depth : Nat) (text before : Text) (rest : List (Item Text)) :
    searchedFrom depth text (before.map Item.char ++ rest) = searchedFrom depth (before.reverse ++ text) rest := by
  induction before generalizing text with
  | nil => rfl
  | cons c before ih =>
    rw [List.map_cons, List.cons_append, searchedFrom, ih]
    simp

theorem liftFrom_text (h : '<' ∉ before) (depth : Nat) : liftFrom fifth depth before = linkAt fifth depth before := by
  have hitems := items_text h []
  rw [List.append_nil] at hitems
  rw [liftFrom, hitems, linkItems_text]
  change (if depth == 0 then _ else _) = _
  rw [List.append_nil, List.reverse_reverse, linkAt]

theorem liftFrom_mark (h : '<' ∉ before) (hm : Mark m) (depth : Nat) (rest : Text) :
    liftFrom fifth depth (before ++ (m ++ rest)) =
      linkAt fifth depth before ++ (m ++ liftFrom fifth (unlinkedDepth depth m) rest) := by
  rw [liftFrom, items_text h, hm.items, linkItems_text, linkItems, List.append_nil, List.reverse_reverse,
    List.append_assoc]
  rfl

theorem searchedFrom_of_notMem (h : '<' ∉ before) (depth : Nat) :
    searchedFrom depth [] (items Markup.readMarkup? before) = if depth == 0 then [before] else [] := by
  have hitems := items_text h []
  rw [List.append_nil] at hitems
  rw [hitems, searchedFrom_text]
  change (if depth == 0 then _ else _) = _
  rw [List.append_nil, List.reverse_reverse]

theorem searchedFrom_mark (h : '<' ∉ before) (hm : Mark m) (depth : Nat) (rest : Text) :
    searchedFrom depth [] (items Markup.readMarkup? (before ++ (m ++ rest))) =
      (if depth == 0 then [before] else []) ++
        searchedFrom (unlinkedDepth depth m) [] (items Markup.readMarkup? rest) := by
  rw [items_text h, hm.items, searchedFrom_text, searchedFrom, List.append_nil, List.reverse_reverse]

/-- The text between tags stays closed with its links. -/
theorem closed_linkAt (fifth : Bool) (depth : Nat) (h : '<' ∉ before) : Closed (linkAt fifth depth before) := by
  rw [linkAt]
  split
  · exact closed_of_rewrites (rewrites_linkText fifth before) h
  · exact .text h

theorem referenced_linkAt (fifth : Bool) (depth : Nat) (hr : Referenced before)
    (hw : ∀ t ∈ (if depth == 0 then [before] else []), AddressesWhole t) : Referenced (linkAt fifth depth before) := by
  rw [linkAt]
  split
  · rename_i hdepth
    rw [if_pos hdepth] at hw
    exact referenced_of_rewrites (rewrites_linkText fifth before) hr (hw before List.mem_cons_self)
  · exact hr

end Reading

section Lifted
variable {t : Text} (fifth : Bool)

theorem marked_liftFrom (h : Marked t) (depth : Nat) : Marked (liftFrom fifth depth t) := by
  induction t, h using Marked.reading generalizing depth with
  | text t ht _ =>
    rw [liftFrom_text ht]
    exact (closed_linkAt fifth depth ht).marked
  | mark before m rest hb hm _ _ ih =>
    rw [liftFrom_mark hb hm]
    exact (closed_linkAt fifth depth hb).marked.append (hm.marked.append (ih _))

/-- Links leave open what was open without them. -/
theorem openAfter_liftFrom (h : Marked t) (depth : Nat) (opened : List Text) :
    openAfter opened (tags (liftFrom fifth depth t)) = openAfter opened (tags t) := by
  induction t, h using Marked.reading generalizing depth opened with
  | text t ht _ =>
    rw [liftFrom_text ht, (closed_linkAt fifth depth ht).openAfter_tags, tags_of_notMem ht]
    rfl
  | mark before m rest hb hm _ _ ih =>
    rw [liftFrom_mark hb hm, (closed_linkAt fifth depth hb).openAfter_append, tags_text hb, hm.tags_append,
      hm.tags_append, openAfter_append, openAfter_append]
    simp only [ih]

theorem referenced_liftFrom (h : Marked t) (hr : Referenced t) (depth : Nat)
    (hw : ∀ s ∈ searchedFrom depth [] (items readMarkup? t), AddressesWhole s) :
    Referenced (liftFrom fifth depth t) := by
  induction t, h using Marked.reading generalizing depth with
  | text t ht _ =>
    rw [searchedFrom_of_notMem ht] at hw
    rw [liftFrom_text ht]
    exact referenced_linkAt fifth depth hr hw
  | mark before m rest hb hm _ _ ih =>
    rw [searchedFrom_mark hb hm, List.forall_mem_append] at hw
    rw [liftFrom_mark hb hm]
    obtain ⟨hbefore, hself⟩ := hr.before_mark hm
    exact (referenced_linkAt fifth depth hbefore hw.1).append
      (hself.append (ih hr.suffix.suffix _ hw.2))

end Lifted

/-- Markup with links is as well formed as the markup without them. Its references stay complete where no address is
cut within one, and its tags properly nested where no page in a font of its own begins with the tag of an empty
element. -/
theorem liftLinks_wellFormed {body : Text} (h : Marked body) (fifth : Bool) :
    Marked (liftLinks body fifth) ∧
      (Referenced body → (∀ t ∈ searched body, AddressesWhole t) → Referenced (liftLinks body fifth)) ∧
      (TagsNest body → PagesOpened body → TagsNest (liftLinks body fifth)) := by
  have hlinked := pagesLinked h
  rw [liftLinks_eq]
  refine ⟨marked_liftFrom fifth hlinked.marked 0, ?_, ?_⟩
  · intro hr hw
    exact referenced_liftFrom fifth hlinked.marked (hlinked.referenced hr) 0 hw
  · intro hn ho
    rw [TagsNest, openAfter_liftFrom fifth hlinked.marked]
    exact hlinked.openAfter ho hn

/-- A page in a font of its own, and an address with punctuation after it. -/
def linkedParagraph : Text :=
  "<para><emphasis>ls</emphasis>(1), http://x.org/?a&amp;b.</para>"

set_option maxRecDepth 4096 in
theorem liftLinks_wellFormed_paragraph :
    Marked linkedParagraph ∧ Referenced linkedParagraph ∧ (∀ t ∈ searched linkedParagraph, AddressesWhole t) ∧
      TagsNest linkedParagraph ∧ PagesOpened linkedParagraph ∧ Marked (liftLinks linkedParagraph true) ∧
      Referenced (liftLinks linkedParagraph true) ∧ TagsNest (liftLinks linkedParagraph true) := by
  have hm : Marked linkedParagraph := by decide +kernel
  have hr : Referenced linkedParagraph := by decide +kernel
  have hw : ∀ t ∈ searched linkedParagraph, AddressesWhole t := by decide +kernel
  have hn : TagsNest linkedParagraph := by decide +kernel
  have ho : PagesOpened linkedParagraph := by decide +kernel
  have hlinked := liftLinks_wellFormed hm true
  exact ⟨hm, hr, hw, hn, ho, hlinked.1, hlinked.2.1 hr hw, hlinked.2.2 hn ho⟩

end RoffDocBook.Markup

/-! Elements whose content gets no links. The depth that is counted inside them is the number of them among the open
elements, wherever tags are properly nested. -/
namespace RoffDocBook.Markup
open Text

/-- How deep text is inside elements without links after one more tag. -/
def unlinkedStep (depth : Nat) (tag : Tag) : Nat :=
  if unlinkedElements.contains tag.name && !tag.isEmpty then if tag.isEnd then depth - 1 else depth + 1 else depth

def unlinkedAfter (depth : Nat) (tags : List Tag) : Nat :=
  tags.foldl unlinkedStep depth

/-- All text between tags is inside an element without links. -/
def StaysUnlinked : Nat → List Tag → Prop
  | depth, [] => 0 < depth
  | depth, tag :: rest => 0 < depth ∧ StaysUnlinked (unlinkedStep depth tag) rest

/-- The number of elements without links among open ones. -/
def unlinkedCount (opened : List Text) : Nat :=
  opened.countP unlinkedElements.contains

theorem unlinkedAfter_append (depth : Nat) (a b : List Tag) :
    unlinkedAfter depth (a ++ b) = unlinkedAfter (unlinkedAfter depth a) b :=
  List.foldl_append

namespace StaysUnlinked
variable {depth : Nat} {a b : List Tag}

theorem pos (h : StaysUnlinked depth a) : 0 < depth := by
  cases a with
  | nil => exact h
  | cons => exact h.1

theorem append_iff : StaysUnlinked depth (a ++ b) ↔ StaysUnlinked depth a ∧ StaysUnlinked (unlinkedAfter depth a) b := by
  induction a generalizing depth with
  | nil => exact ⟨fun h => ⟨h.pos, h⟩, fun h => h.2⟩
  | cons tag a ih =>
    change _ ∧ StaysUnlinked _ (a ++ b) ↔ (_ ∧ StaysUnlinked _ a) ∧ StaysUnlinked (unlinkedAfter _ a) b
    rw [ih, and_assoc]

end StaysUnlinked

/-- Tags change the depth as they change the open elements, and do not take it below where it was. -/
theorem unlinkedAfter_of_openAfter (depth : Nat) {opened last : List Text} {tags : List Tag}
    (h : openAfter opened tags = some last) :
    unlinkedAfter (depth + unlinkedCount opened) tags = depth + unlinkedCount last ∧
      (0 < depth → StaysUnlinked (depth + unlinkedCount opened) tags) := by
  induction tags generalizing opened with
  | nil =>
    obtain rfl := Option.some.inj h
    exact ⟨rfl, fun hd => Nat.lt_of_lt_of_le hd (Nat.le_add_right _ _)⟩
  | cons tag tags ih =>
    have hstep : ∃ next, openAfter next tags = some last ∧
        unlinkedStep (depth + unlinkedCount opened) tag = depth + unlinkedCount next := by
      rw [openAfter] at h
      unfold unlinkedStep
      split at h
      · rename_i he
        exact ⟨opened, h, by rw [he, Bool.not_true, Bool.and_false, if_neg Bool.false_ne_true]⟩
      · rename_i he
        rw [Bool.not_eq_true] at he
        rw [he, Bool.not_false, Bool.and_true]
        split at h
        · rename_i hend
          split at h
          · rename_i hhead
            obtain ⟨rest, rfl⟩ := List.head?_eq_some_iff.mp hhead
            refine ⟨rest, h, ?_⟩
            rw [hend, if_pos rfl, unlinkedCount, List.countP_cons, ← unlinkedCount]
            split <;> omega
          · cases h
        · rename_i hend
          refine ⟨tag.name :: opened, h, ?_⟩
          rw [if_neg hend, unlinkedCount, unlinkedCount, List.countP_cons]
          split <;> omega
    obtain ⟨next, hnext, hdepth⟩ := hstep
    obtain ⟨hafter, hstays⟩ := ih hnext
    refine ⟨?_, fun hd => ⟨by omega, ?_⟩⟩
    · change unlinkedAfter (unlinkedStep _ tag) tags = _
      rw [hdepth, hafter]
    · rw [hdepth]
      exact hstays hd

/-- Tags that close what they open leave the depth as it was. -/
theorem unlinkedAfter_of_closed {tags : List Tag} (h : openAfter [] tags = some []) (depth : Nat) :
    unlinkedAfter depth tags = depth ∧ (0 < depth → StaysUnlinked depth tags) :=
  unlinkedAfter_of_openAfter depth h

section Depth
variable {m : Text}

theorem Tag.first?_of_none {c : Char} {t : Text} (h : Tag.read? (c :: t) = none) : first? (c :: t) = first? t := by
  rw [first?, h]

theorem Tag.first?_of_notMem {t : Text} (h : '<' ∉ t) : first? t = none := by
  induction t with
  | nil => rfl
  | cons c t ih =>
    rw [List.mem_cons, not_or] at h
    rw [first?_of_none (by simp [read?, Ne.symm h.1]), ih h.2]

/-- A comment leaves the depth as it is, and a tag changes it by itself. -/
theorem Mark.unlinkedDepth (hm : Mark m) (depth : Nat) : unlinkedDepth depth m = unlinkedAfter depth (tags m) := by
  cases hm with
  | @tag tag hf _ =>
    have htags := tags_tag hf []
    have hread := hf.read []
    rw [List.append_nil] at htags hread
    have hfirst : Tag.first? tag.written = some tag := by
      obtain ⟨b, inside, _, _, hw⟩ := hf.exists_inside
      rw [hw] at hread ⊢
      rw [Tag.first?, hread]
    rw [Markup.unlinkedDepth, hfirst, htags]
    rfl
  | @comment inside _ hi =>
    have htags := tags_comment hi []
    rw [List.append_nil] at htags
    have hinner : '<' ∉ "!--".toList ++ (inside ++ "-->".toList) := by simp [hi]
    have hfirst : Tag.first? ("<!--".toList ++ (inside ++ "-->".toList)) = none :=
      (Tag.first?_of_none rfl).trans (Tag.first?_of_notMem hinner)
    rw [Markup.unlinkedDepth, hfirst, htags]
    rfl

end Depth

section Lifted
variable {fifth : Bool} {t m : Text} {depth : Nat}

theorem liftFrom_of_stays (h : Marked t) (hs : StaysUnlinked depth (tags t)) : liftFrom fifth depth t = t := by
  have hat {depth : Nat} (hd : 0 < depth) (t : Text) : linkAt fifth depth t = t :=
    if_neg (by rw [beq_iff_eq]; omega)
  induction t, h using Marked.reading generalizing depth with
  | text t ht _ => rw [liftFrom_text ht, hat hs.pos]
  | mark before m rest hb hm _ _ ih =>
    rw [tags_text hb, hm.tags_append, StaysUnlinked.append_iff] at hs
    rw [liftFrom_mark hb hm, hat hs.1.pos, hm.unlinkedDepth, ih hs.2]

/-- The links before a tag or comment do not depend on what comes from there on. -/
theorem liftFrom_append (h : Marked t) (hm : Mark m) (rest : Text) :
    liftFrom fifth depth (t ++ (m ++ rest)) =
      liftFrom fifth depth t ++ (m ++ liftFrom fifth (unlinkedAfter depth (tags t ++ tags m)) rest) := by
  induction t, h using Marked.reading generalizing depth with
  | text t ht _ => rw [liftFrom_mark ht hm, liftFrom_text ht, tags_of_notMem ht, List.nil_append, hm.unlinkedDepth]
  | mark before other more hb ho _ _ ih =>
    rw [List.append_assoc, List.append_assoc, liftFrom_mark hb ho, liftFrom_mark hb ho, ih, tags_text hb,
      ho.tags_append, ho.unlinkedDepth, List.append_assoc (tags other), unlinkedAfter_append _ (tags other)]
    simp only [List.append_assoc]

end Lifted

/-- The name of an element without links does not begin as that of a font. -/
theorem not_prefix_of_unlinked {name : Text} (h : name ∈ unlinkedElements) : ¬"emphasis".toList <+: name := by
  have hall : ∀ n ∈ unlinkedElements, ¬"emphasis".toList <+: n := by decide
  exact hall name h

section Pages
variable {t out : Text} {depth : Nat}

theorem unlinkedStep_of_notMem {tag : Tag} (h : tag.name ∉ unlinkedElements) (depth : Nat) :
    unlinkedStep depth tag = depth := by
  rw [unlinkedStep, if_neg]
  rw [Bool.and_eq_true, List.contains_iff_mem]
  exact fun hc => h hc.1

/-- The tags of the font around a page have no part in the depth. -/
theorem IsPage.unlinkedStep {inside name volume : Text} {start : Tag} (hp : IsPage start inside name volume)
    (depth : Nat) : unlinkedStep (unlinkedStep depth start) emphasisEnd = depth := by
  have hend : emphasisEnd.name ∉ unlinkedElements := by decide
  rw [unlinkedStep_of_notMem hend, unlinkedStep_of_notMem fun hm => not_prefix_of_unlinked hm hp.named_prefix]

/-- Linking pages does not change how deep the text is. -/
theorem PagesLinked.unlinkedAfter (h : PagesLinked t out) (depth : Nat) :
    unlinkedAfter depth (tags out) = unlinkedAfter depth (tags t) ∧
      (StaysUnlinked depth (tags t) → StaysUnlinked depth (tags out)) := by
  induction h generalizing depth with
  | text => exact ⟨rfl, id⟩
  | @mark before m rest out hb hm _ _ ih =>
    rw [tags_text hb, tags_text hb, hm.tags_append, hm.tags_append, unlinkedAfter_append, unlinkedAfter_append,
      StaysUnlinked.append_iff, StaysUnlinked.append_iff]
    exact ⟨(ih _).1, fun h => ⟨h.1, (ih _).2 h.2⟩⟩
  | @page before inside name volume rest out start hb hp _ ih =>
    have hreference := unlinkedAfter_of_closed (hp.closed_reference.openAfter_tags []) depth
    rw [tags_text hb, tags_text hb, hp.tags_append, tags_append hp.closed_reference.marked, unlinkedAfter_append,
      StaysUnlinked.append_iff, hreference.1]
    refine ⟨?_, fun hs => ⟨hreference.2 hs.pos, (ih depth).2 ?_⟩⟩
    · change _ = Markup.unlinkedAfter (Markup.unlinkedStep (Markup.unlinkedStep depth start) emphasisEnd) (tags rest)
      rw [hp.unlinkedStep, (ih depth).1]
    · have hrest := hs.2.2
      rwa [hp.unlinkedStep] at hrest

end Pages
/-- A start tag or an end tag of an element that is not empty. -/
structure Bounds (isEnd : Bool) (tag : Tag) : Prop where
  formed : tag.WellFormed
  inner : '<' ∉ tag.written.tail
  isEnd : tag.isEnd = isEnd
  isEmpty : tag.isEmpty = false

/-- Such a tag of an element without links makes text one deeper or less deep. -/
theorem Bounds.unlinkedAfter {isEnd : Bool} {tag : Tag} (h : Bounds isEnd tag) (hu : tag.name ∈ unlinkedElements)
    (depth : Nat) : unlinkedAfter depth (tags tag.written) = if isEnd then depth - 1 else depth + 1 := by
  have htags := tags_tag h.formed []
  rw [List.append_nil] at htags
  rw [htags]
  change unlinkedStep depth tag = _
  rw [unlinkedStep, if_pos (by rw [h.isEmpty, List.contains_iff_mem.mpr hu]; rfl), h.isEnd]

/-- An element without links, outside all others of them, by what stands before it, its tags, its content and what
stands after it. -/
structure Outermost (before : Text) (start : Tag) (content : Text) (finish : Tag) (after : Text) : Prop where
  marked_before : Marked before
  marked_content : Marked content
  marked_after : Marked after
  bounds_start : Bounds false start
  bounds_finish : Bounds true finish
  unlinked : start.name ∈ unlinkedElements
  same : finish.name = start.name
  outside : ∃ opened, openAfter [] (tags before) = some opened ∧ ∀ name ∈ opened, name ∉ unlinkedElements
  nested : TagsNest content

namespace Outermost
variable {before content after : Text} {start finish : Tag} (h : Outermost before start content finish after)
include h

theorem unlinked_finish : finish.name ∈ unlinkedElements := by
  rw [h.same]
  exact h.unlinked

theorem linkPages_append : linkPages (before ++ (start.written ++ (content ++ (finish.written ++ after)))) =
    linkPages before ++ (start.written ++ (linkPages content ++ (finish.written ++ linkPages after))) := by
  rw [Markup.linkPages_append h.marked_before h.bounds_start.formed h.bounds_start.inner
      (not_prefix_of_unlinked h.unlinked),
    Markup.linkPages_append h.marked_content h.bounds_finish.formed h.bounds_finish.inner
      (not_prefix_of_unlinked h.unlinked_finish)]

theorem depth_before : unlinkedAfter 0 (tags (linkPages before)) = 0 := by
  obtain ⟨opened, hopened, hnone⟩ := h.outside
  have hcount : unlinkedCount opened = 0 := by
    rw [unlinkedCount, List.countP_eq_zero]
    exact fun name hm hc => hnone name hm (List.contains_iff_mem.mp hc)
  have hdepth := (unlinkedAfter_of_openAfter 0 hopened).1
  rw [hcount] at hdepth
  rw [((pagesLinked h.marked_before).unlinkedAfter 0).1]
  exact hdepth

/-- All text of the content is one deep or deeper, with its pages linked too. -/
theorem depth_content : unlinkedAfter 1 (tags (linkPages content)) = 1 ∧ StaysUnlinked 1 (tags (linkPages content)) := by
  have hcontent := unlinkedAfter_of_closed h.nested 1
  have hlinked := (pagesLinked h.marked_content).unlinkedAfter 1
  exact ⟨hlinked.1.trans hcontent.1, hlinked.2 (hcontent.2 Nat.one_pos)⟩

end Outermost

/-- What is outside an element without links gets its links as if the element was not there, and the content gets only
references to pages in a font of their own. So it stays as it is exactly where it has no such page. -/
theorem liftLinks_unlinked {before content after : Text} {start finish : Tag}
    (h : Outermost before start content finish after) (fifth : Bool) :
    liftLinks (before ++ (start.written ++ (content ++ (finish.written ++ after)))) fifth =
        liftLinks before fifth ++
          (start.written ++ (linkPages content ++ (finish.written ++ liftLinks after fifth))) ∧
      (linkPages content = content ↔ Pageless content) := by
  have hbefore := pagesLinked h.marked_before
  have hcontent := pagesLinked h.marked_content
  have hstart : Mark start.written := .tag h.bounds_start.formed h.bounds_start.inner
  have hfinish : Mark finish.written := .tag h.bounds_finish.formed h.bounds_finish.inner
  have hopen : unlinkedAfter 0 (tags start.written) = 1 := h.bounds_start.unlinkedAfter h.unlinked 0
  have hclose : unlinkedAfter 1 (tags finish.written) = 0 := h.bounds_finish.unlinkedAfter h.unlinked_finish 1
  refine ⟨?_, hcontent.eq_iff⟩
  rw [liftLinks_eq, h.linkPages_append, liftFrom_append hbefore.marked hstart, unlinkedAfter_append, h.depth_before,
    hopen, liftFrom_append hcontent.marked hfinish, unlinkedAfter_append, h.depth_content.1, hclose,
    liftFrom_of_stays hcontent.marked h.depth_content.2, liftLinks_eq, liftLinks_eq]

/-- A literal with a command, a reference and an address in it, between two references. -/
theorem liftLinks_unlinked_literal :
    let before : Text := "<para>ls(1) "
    let start : Tag := .make false "literal".toList [] false
    let content : Text := "<command>cp</command> mv(1) http://x.org"
    let finish : Tag := .make true "literal".toList [] false
    let after : Text := " rm(1)</para>"
    Outermost before start content finish after ∧ Pageless content ∧
      liftLinks (before ++ (start.written ++ (content ++ (finish.written ++ after)))) true =
        liftLinks before true ++ (start.written ++ (content ++ (finish.written ++ liftLinks after true))) := by
  intro before start content finish after
  have hletters : ∀ d ∈ 'l' :: "iteral".toList, isTagNameChar d = true := forall_mem_of_all (by decide)
  have hstart : Bounds false start := ⟨.intro (c := 'l') false rfl hletters .bare, by decide, rfl, rfl⟩
  have hfinish : Bounds true finish := ⟨.intro (c := 'l') true rfl hletters .bare, by decide, rfl, rfl⟩
  have h : Outermost before start content finish after :=
    { marked_before := by decide
      marked_content := by decide
      marked_after := by decide
      bounds_start := hstart
      bounds_finish := hfinish
      unlinked := by decide
      same := rfl
      outside := ⟨["para".toList], by decide, by decide⟩
      nested := by decide }
  have hpageless : Pageless content := by decide
  obtain ⟨hlinked, hsame⟩ := liftLinks_unlinked h true
  rw [hsame.mpr hpageless] at hlinked
  exact ⟨h, hpageless, hlinked⟩

end RoffDocBook.Markup
