import RoffDocBook.Proofs.Document.Writing

/-! An item of a list is closed after what is open inside it, by the end tags of its elements. -/
namespace RoffDocBook.Document
open Text Markup

/-- The element of a list is no term. -/
theorem listKind_element (kind : ListKind) : IsName kind.element ∧ kind.element ≠ "term" := by
  cases kind <;> decide

/-- The innermost list comes right after the displays inside it. -/
theorem innermost_cases (doc : Document) :
    (doc.topList? = none ∧ doc.blocks.dropWhile OpenBlock.isDisplay = []) ∨
      ∃ frame rest, doc.topList? = some frame ∧
        doc.blocks.dropWhile OpenBlock.isDisplay = .list frame :: rest := by
  unfold topList? openLists
  induction doc.blocks with
  | nil => exact Or.inl ⟨rfl, rfl⟩
  | cons block rest ih =>
    cases block with
    | list frame => exact Or.inr ⟨frame, rest, rfl, rfl⟩
    | display frame => exact ih

/-- The blocks with the item of the innermost list closed. -/
def withoutItem (blocks : List OpenBlock) : List OpenBlock :=
  mapTopList ({ · with itemOpen := false }) (blocks.dropWhile OpenBlock.isDisplay)

/-- Something to stand in an item that nothing was written into. -/
def filledItem (doc : Document) : Document :=
  if doc.lines.head?.any (endsWith · "<listitem>") then doc.append "<para/>" else doc

/-- The end tags of an item. -/
def writeItemEnd (doc : Document) (kind : ListKind) : Document :=
  if kind = .terms then (doc.emit "</listitem>").append "</varlistentry>" else doc.emit "</listitem>"

theorem closeItem_eq (doc : Document) :
    doc.closeItem =
      match doc.topList? with
      | none => doc.closeParagraph
      | some frame =>
        if frame.itemOpen then
          let inner := doc.closeInnerDisplays.flushTrap.closeParagraph
          if frame.kind = .blockquote then
            { inner with blocks := mapTopList ({ · with itemOpen := false }) inner.blocks }
          else
            { inner.filledItem.writeItemEnd frame.kind with
              blocks := mapTopList ({ · with itemOpen := false }) inner.blocks }
        else doc.closeParagraph := by
  unfold closeItem
  cases doc.topList? with
  | none => rfl
  | some frame =>
    cases ho : frame.itemOpen with
    | false => simp [ho]
    | true =>
      simp only [ho, Bool.not_true, Bool.false_eq_true, if_false, if_true]
      split
      · rfl
      · unfold filledItem writeItemEnd
        simp only [emit_eq, append_eq]
        split <;> split <;> rfl

section
variable {doc : Document} {frame : ListFrame} {rest : List OpenBlock}

theorem Settled.append (h : Settled doc) {piece : Text}
    (hp : Adds (blockElements false doc.blocks ++ sectionElements doc.sections) piece
      (blockElements false doc.blocks ++ sectionElements doc.sections)) : Settled (doc.append piece) := by
  rw [append_eq]
  exact h.rewrite (leaves_lengthen h.leaves_outside hp) (h.founded.keeps (.lengthen _ _)) h.filling
    (fun hn => by cases hn) h.sections

theorem settled_filledItem (h : Settled doc) : Settled doc.filledItem := by
  unfold filledItem
  split
  · exact h.append (adds_empty "para" (by decide))
  · exact h

@[simp] theorem filledItem_blocks (doc : Document) : doc.filledItem.blocks = doc.blocks := by
  unfold filledItem
  split
  · rw [append_eq]
  · rfl

@[simp] theorem filledItem_sections (doc : Document) : doc.filledItem.sections = doc.sections := by
  unfold filledItem
  split
  · rw [append_eq]
  · rfl

/-- The end tags of an item close the elements of an open one. -/
theorem Settled.endItem (h : Settled doc) (hb : doc.blocks = .list frame :: rest) (ho : frame.itemOpen = true)
    (hk : frame.kind ≠ .blockquote) :
    Settled { doc.writeItemEnd frame.kind with blocks := .list { frame with itemOpen := false } :: rest } := by
  obtain ⟨hleaves, hfounded, hfill⟩ := h.of_blocks hb
  have helements : frame.elements false = frame.item false ++ [frame.kind.element] := by
    rw [ListFrame.elements, if_pos ho]
  rw [blockElements, OpenBlock.elements, helements, ListFrame.item] at hleaves
  unfold writeItemEnd
  cases hkind : frame.kind with
  | terms =>
    rw [hkind] at hleaves
    have hitem := leaves_addLine hleaves doc.joinNext (adds_close "listitem" (by decide))
    have hentry := leaves_lengthen hitem (adds_close "varlistentry" (by decide))
    rw [if_pos rfl, append_eq, emit_eq]
    exact h.rewrite hentry (hfounded.keeps ((Keeps.addLine _ _ _).trans (.lengthen _ _))) hfill
      (fun hn => by cases hn) h.sections
  | itemized | ordered =>
    rw [hkind] at hleaves
    have hitem := leaves_addLine hleaves doc.joinNext (adds_close "listitem" (by decide))
    rw [if_neg (by decide), emit_eq]
    exact h.rewrite hitem (hfounded.keeps (.addLine _ _ _)) hfill (fun hn => by cases hn) h.sections
  | blockquote => exact absurd hkind hk

/-- Output does not join the last line where a list is the innermost block. -/
theorem Aligned.joinNext_of_list (h : Aligned doc) (hb : doc.blocks = .list frame :: rest) :
    doc.joinNext = false := by
  cases hj : doc.joinNext with
  | false => rfl
  | true =>
    obtain ⟨display, outer, hdisplay⟩ := h.joins hj
    rw [hb] at hdisplay
    cases hdisplay

/-- What stands inside an item of a quotation has no element of its own. -/
theorem Settled.endQuotation (h : Settled doc) (hb : doc.blocks = .list frame :: rest)
    (hk : frame.kind = .blockquote) :
    Settled { doc with blocks := .list { frame with itemOpen := false } :: rest } := by
  obtain ⟨hleaves, hfounded, hfill⟩ := h.of_blocks hb
  have hitem : frame.elements false = { frame with itemOpen := false }.elements false := by
    rw [ListFrame.elements, ListFrame.elements, ListFrame.item, hk, ite_self]
    rfl
  rw [blockElements, OpenBlock.elements, hitem] at hleaves
  exact h.rewrite hleaves hfounded hfill
    (fun hj => by rw [h.joinNext_of_list hb] at hj; cases hj) h.sections

/-- Where no item is open, no term is awaited. -/
theorem Balanced.trap_eq_none (h : Balanced doc) (ho : ∀ frame, doc.topList? = some frame → frame.itemOpen = false) :
    doc.trap = none := by
  cases ht : doc.trap with
  | none => rfl
  | some trap =>
    obtain ⟨_, frame, rest, hb, _, hopen⟩ := h.trap trap ht
    have htop : doc.topList? = some frame := by
      rw [topList?, openLists, hb]
      rfl
    rw [ho frame htop] at hopen
    cases hopen

theorem settled_closeItem (h : Balanced doc) : Settled doc.closeItem := by
  rw [closeItem_eq]
  rcases innermost_cases doc with ⟨ht, _⟩ | ⟨frame, rest, ht, hd⟩
  · rw [ht]
    exact settled_closeParagraph h (h.trap_eq_none fun frame hf => by rw [ht] at hf; cases hf)
  · rw [ht]
    dsimp only
    split
    · rename_i ho
      have hinner := settled_flushTrap_closeParagraph (balanced_closeInnerDisplays h)
      have hblocks : doc.closeInnerDisplays.flushTrap.closeParagraph.blocks = .list frame :: rest := by
        simpa using hd
      rw [hblocks, mapTopList]
      split
      · rename_i hk
        exact hinner.endQuotation hblocks hk
      · rename_i hk
        exact (settled_filledItem hinner).endItem (by rw [filledItem_blocks, hblocks]) ho hk
    · rename_i ho
      refine settled_closeParagraph h (h.trap_eq_none fun other hf => ?_)
      rw [ht] at hf
      obtain rfl : frame = other := Option.some.inj hf
      simpa using ho

@[simp] theorem closeItem_sections (doc : Document) : doc.closeItem.sections = doc.sections := by
  rw [closeItem_eq]
  split
  · exact closeParagraph_sections doc
  · split
    · dsimp only
      split
      · simp
      · unfold writeItemEnd
        simp only [emit_eq, append_eq]
        split <;> simp
    · exact closeParagraph_sections doc

theorem closeItem_inner (doc : Document) :
    doc.closeItem.blocks.dropWhile OpenBlock.isDisplay = withoutItem doc.blocks := by
  rw [closeItem_eq, withoutItem]
  rcases innermost_cases doc with ⟨ht, hd⟩ | ⟨frame, rest, ht, hd⟩
  · rw [ht, hd]
    dsimp only
    rw [closeParagraph_blocks, hd, mapTopList]
  · have hblocks : doc.closeInnerDisplays.flushTrap.closeParagraph.blocks = .list frame :: rest := by
      simpa using hd
    rw [ht]
    dsimp only
    split
    · rw [hblocks, hd]
      split <;> rfl
    · rename_i ho
      have hframe : { frame with itemOpen := false } = frame := by
        rw [← Bool.eq_false_iff.mpr ho]
      rw [closeParagraph_blocks, hd, mapTopList, hframe]

/-- The document with what is open inside the innermost list closed. -/
theorem settled_leaveItem (h : Balanced doc) : Settled doc.closeItem.closeInnerDisplays :=
  settled_closeInnerDisplays (settled_closeItem h)

/-- When what is open inside the innermost list has been closed, no block is left or that list without an item. -/
theorem leaveItem_cases (doc : Document) :
    (doc.topList? = none ∧ doc.blocks.dropWhile OpenBlock.isDisplay = [] ∧
        doc.closeItem.closeInnerDisplays.blocks = []) ∨
      ∃ frame rest, doc.topList? = some frame ∧ doc.blocks.dropWhile OpenBlock.isDisplay = .list frame :: rest ∧
        doc.closeItem.closeInnerDisplays.blocks = .list { frame with itemOpen := false } :: rest := by
  rw [closeInnerDisplays_blocks, closeItem_inner, withoutItem]
  rcases innermost_cases doc with ⟨ht, hd⟩ | ⟨frame, rest, ht, hd⟩
  · exact Or.inl ⟨ht, hd, by rw [hd, mapTopList]⟩
  · exact Or.inr ⟨frame, rest, ht, hd, by rw [hd, mapTopList]⟩

end

end RoffDocBook.Document
