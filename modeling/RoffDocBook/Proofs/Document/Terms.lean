import RoffDocBook.Proofs.Document.Items
import RoffDocBook.Proofs.Text.Search

/-! An item is begun after the one before it, and an entry whose term was the last output may be given one more. -/
namespace RoffDocBook.Document
open Text Markup

section
variable {doc : Document} {frame : ListFrame} {rest : List OpenBlock}

/-- The start tag of an entry, whose term is still to come. -/
theorem Settled.awaitTerm (h : Settled doc) (hb : doc.blocks = .list frame :: rest) (hk : frame.kind = .terms)
    (ho : frame.itemOpen = false) (items : Nat) :
    Balanced { doc with
      blocks := .list { frame with items, itemOpen := true } :: rest
      trap := some termTrap
      joinNext := false
      lines := addLine doc.joinNext "<varlistentry>" doc.lines } := by
  obtain ⟨hleaves, hfounded, hfill⟩ := h.of_blocks hb
  have helements : frame.elements false = [frame.kind.element] := by
    rw [ListFrame.elements, ho]
    rfl
  rw [blockElements, OpenBlock.elements, helements] at hleaves
  have hentry := leaves_addLine hleaves doc.joinNext
    (adds_start "varlistentry" (by decide) (fits_of_ne (by decide) _))
  exact h.await rfl hk rfl hentry (hfounded.keeps (.addLine _ _ _)) hfill
    (fun hn => by cases hn)

/-- The start tags of an item open its elements. -/
theorem Settled.openItem (h : Settled doc) (hb : doc.blocks = .list frame :: rest) (ho : frame.itemOpen = false)
    (items : Nat) {joinNext : Bool} {lines : List Text} (hj : joinNext = false)
    (hk : Keeps doc.lines lines)
    (hl : ∀ s, Leaves s (body doc.lines) → Leaves (frame.item false ++ s) (body lines)) :
    Settled { doc with
      blocks := .list { frame with items, itemOpen := true } :: rest
      joinNext
      lines } := by
  obtain ⟨hleaves, hfounded, hfill⟩ := h.of_blocks hb
  have helements : { frame with items, itemOpen := true }.elements false =
      frame.item false ++ frame.elements false := by
    rw [ListFrame.elements, ListFrame.elements, ho]
    rfl
  refine h.rewrite ?_ (hfounded.keeps hk) hfill (fun hn => by rw [hj] at hn; cases hn) h.sections
  rw [blockElements, OpenBlock.elements, helements, List.append_assoc, List.append_assoc]
  rw [blockElements, OpenBlock.elements, List.append_assoc] at hleaves
  exact hl _ hleaves

/-- The start tags of an item, whose term is awaited if it needs one and has none. -/
def writeItemStart (doc : Document) (kind : ListKind) (term : Option Text) : Document :=
  match kind, term with
  | .terms, some term => (doc.emit ("<varlistentry><term>" ++ term ++ "</term>")).emit "<listitem>"
  | .terms, none => { doc.emit "<varlistentry>" with trap := some termTrap }
  | .itemized, _ => doc.emit "<listitem>"
  | .ordered, _ => doc.emit "<listitem>"
  | .blockquote, _ => doc

theorem beginItem_eq (doc : Document) (term : Option Text) :
    doc.beginItem term =
      let inner := doc.closeItem.closeInnerDisplays
      match inner.topList? with
      | none => inner
      | some frame =>
        { inner with
          blocks := mapTopList (fun frame => { frame with items := frame.items + 1, itemOpen := true }) inner.blocks
          }.writeItemStart frame.kind term := by
  unfold beginItem writeItemStart
  rfl

/-- An entry with its term and the start of its item. -/
theorem adds_entry (s : List Text) {term : Text} (ht : Tagless term) :
    Adds s ("<varlistentry><term>" ++ term ++ "</term>") ("varlistentry" :: s) := by
  have hentry : Adds s (tag "varlistentry") ("varlistentry" :: s) :=
    adds_start "varlistentry" (by decide) (fits_of_ne (by decide) s)
  have hstart : Adds ("varlistentry" :: s) (tag "term") ("term" :: "varlistentry" :: s) :=
    adds_start "term" (by decide) fun _ => rfl
  exact ((hentry.append hstart).append (adds_text ht)).append (adds_close "term" (by decide))

theorem Settled.startItem (h : Settled doc) (hb : doc.blocks = .list frame :: rest) (ho : frame.itemOpen = false)
    (items : Nat) (term : Option Text) (ht : ∀ t ∈ term, Tagless t) :
    Balanced ({ doc with
      blocks := .list { frame with items, itemOpen := true } :: rest }.writeItemStart frame.kind term) := by
  obtain ⟨opener, kind, count, itemOpen, start⟩ := frame
  have hitem (s : List Text) : Adds s "<listitem>" ("listitem" :: s) :=
    adds_start "listitem" (by decide) (fits_of_ne (by decide) s)
  cases kind with
  | terms =>
    cases term with
    | none =>
      rw [writeItemStart, emit_eq]
      exact h.awaitTerm hb rfl ho items
    | some term =>
      rw [writeItemStart, emit_eq, emit_eq]
      exact (h.openItem hb ho items rfl ((Keeps.addLine _ _ _).trans (.addLine _ _ _)) fun s hs =>
        leaves_addLine (leaves_addLine hs _ (adds_entry s (ht term rfl))) _ (hitem _)).toBalanced
  | itemized | ordered =>
    rw [writeItemStart, emit_eq]
    exact (h.openItem hb ho items rfl (.addLine _ _ _) fun s hs =>
      leaves_addLine hs _ (hitem s)).toBalanced
  | blockquote => exact (h.openItem hb ho items (h.joinNext_of_list hb) (.refl _) fun s hs => hs).toBalanced

theorem balanced_beginItem (h : Balanced doc) (term : Option Text) (ht : ∀ t ∈ term, Tagless t) :
    Balanced (doc.beginItem term) := by
  have hs := settled_leaveItem h
  rw [beginItem_eq]
  dsimp only
  rcases leaveItem_cases doc with ⟨_, _, hb⟩ | ⟨frame, rest, _, _, hb⟩
  · have htop : doc.closeItem.closeInnerDisplays.topList? = none := by
      rw [topList?, openLists, hb]
      rfl
    rw [htop]
    exact hs.toBalanced
  · have htop : doc.closeItem.closeInnerDisplays.topList? = some { frame with itemOpen := false } := by
      rw [topList?, openLists, hb]
      rfl
    rw [htop, hb]
    exact hs.startItem hb rfl _ term ht

/-- An item in an entry belongs to the innermost list, and its term is there. -/
theorem Balanced.of_stack (h : Balanced doc) {outer : List Text} (hs : doc.stack = ("listitem" : Text) :: outer)
    (ho : outer.head? = some "varlistentry") :
    doc.inParagraph = false ∧ doc.trap = none ∧
      ∃ frame rest, doc.blocks = .list frame :: rest ∧ frame.kind = .terms ∧ frame.itemOpen = true := by
  rw [stack] at hs
  cases hp : doc.inParagraph with
  | true =>
    rw [hp, if_pos rfl] at hs
    exact absurd (List.cons.inj hs).1 (by decide)
  | false =>
    rw [hp, if_neg Bool.false_ne_true, List.nil_append] at hs
    cases hb : doc.blocks with
    | nil =>
      rw [hb, blockElements, List.nil_append] at hs
      obtain ⟨mark, hm, he⟩ : ∃ mark ∈ doc.sections, mark.element = "listitem" := by
        apply List.mem_map.mp
        rw [← sectionElements, hs]
        exact List.mem_cons_self
      have hname := h.sections mark hm
      rw [he] at hname
      exact absurd hname (by decide)
    | cons block rest =>
      rw [hb] at hs
      cases block with
      | display frame =>
        have hname : frame.kind.element = "listitem" := (List.cons.inj hs).1
        cases hk : frame.kind <;> rw [hk] at hname <;> exact absurd hname (by decide)
      | list frame =>
        rw [blockElements, OpenBlock.elements, ListFrame.elements] at hs
        cases hopen : frame.itemOpen with
        | false =>
          rw [hopen, if_neg Bool.false_ne_true] at hs
          have hname : frame.kind.element = "listitem" := (List.cons.inj hs).1
          cases hk : frame.kind <;> rw [hk] at hname <;> exact absurd hname (by decide)
        | true =>
          rw [hopen, if_pos rfl, ListFrame.item] at hs
          cases hk : frame.kind with
          | terms =>
            cases ht : doc.trap with
            | none => exact ⟨rfl, rfl, frame, rest, rfl, hk, hopen⟩
            | some trap =>
              rw [hk, ht] at hs
              exact absurd (List.cons.inj hs).1 (by decide)
          | itemized | ordered =>
            rw [hk] at hs
            rw [← (List.cons.inj hs).2] at ho
            exact absurd (Option.some.inj ho) (by decide)
          | blockquote =>
            rw [hk] at hs
            exact absurd (List.cons.inj hs).1 (by decide)

/-- Where the last line ends with a term and the start of its item, that item is the innermost open element. -/
theorem leaves_term {s : List Text} {stripped last : Text} {before : List Text}
    (h : Leaves s (body (last :: before))) (hl : dropEnd? "<listitem>" last = some stripped)
    (ht : endsWith stripped "</term>" = true) :
    ∃ outer, s = ("listitem" : Text) :: outer ∧ outer.head? = some "varlistentry" ∧
      Leaves outer (body (stripped :: before)) := by
  obtain rfl := dropEnd?_eq_some hl
  obtain ⟨start, hstart⟩ := Option.isSome_iff_exists.mp ht
  obtain rfl := dropEnd?_eq_some hstart
  rw [body_cons, ← List.append_assoc, ← List.append_assoc] at h
  obtain ⟨outer, rfl, houter⟩ := Leaves.start_inv (show IsName "listitem" by decide) h
  refine ⟨outer, rfl, ?_, ?_⟩
  · rw [← List.append_assoc] at houter
    have hterm := Leaves.close_inv (show IsName "term" by decide) houter
    exact hterm.fits (List.nil_append _).symm rfl
  · rw [body_cons, ← List.append_assoc]
    exact houter

theorem balanced_addTerm (h : Balanced doc) : Balanced doc.addTerm.2 := by
  unfold addTerm
  split
  · exact h
  · rename_i last before hlines
    split
    · rename_i stripped hl
      split
      · rename_i ht
        have hleaves := h.leaves
        have hfounded := h.founded
        rw [hlines] at hleaves hfounded
        obtain ⟨outer, hs, ho, houter⟩ := leaves_term hleaves hl ht
        obtain ⟨hp, htrap, frame, rest, hb, hk, hopen⟩ := h.of_stack hs ho
        rw [stack, hp, htrap, hb, blockElements, OpenBlock.elements, ListFrame.elements, hopen, if_pos rfl,
          ListFrame.item, hk] at hs
        have hentry : outer = ("varlistentry" : Text) :: frame.kind.element ::
            (blockElements false rest ++ sectionElements doc.sections) := by
          rw [hk, ← (List.cons.inj hs).2]
          rfl
        rw [hentry] at houter
        have hsettled : Settled doc := { h with closed := hp, untrapped := htrap }
        exact hsettled.await hb hk hopen houter (hfounded.keeps (.last last stripped before)) h.filling h.joins
      · exact h
    · exact h

end

end RoffDocBook.Document
