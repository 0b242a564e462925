import RoffDocBook.Proofs.Document.Items

/-! Lists are closed from the innermost one outwards, and one that nothing was written into is taken back. -/
namespace RoffDocBook.Document
open Text Markup

section
variable {doc : Document} {frame : ListFrame} {rest : List OpenBlock}

/-- Where no display is open, output does not join the last line. -/
theorem Aligned.joinNext_of_inDisplay (h : Aligned doc) (hd : doc.inDisplay = false) : doc.joinNext = false := by
  cases hj : doc.joinNext with
  | false => rfl
  | true =>
    obtain ⟨display, outer, hb⟩ := h.joins hj
    rw [inDisplay, openDisplays, hb] at hd
    cases hd

theorem flushTrap_closeParagraph_joinNext (h : doc.joinNext = false) :
    doc.flushTrap.closeParagraph.joinNext = false := by
  have hflush : doc.flushTrap.joinNext = false := by
    rw [flushTrap_eq]
    cases doc.trap with
    | some trap => rfl
    | none => exact h
  rw [closeParagraph_eq]
  split
  · rfl
  · exact hflush

theorem beginListWith_eq (doc : Document) (opener : String) (kind : ListKind) (attributes : Text) :
    doc.beginListWith opener kind attributes =
      let ready := doc.flushTrap.closeParagraph
      { ready with
        joinNext := false
        lines := addLine ready.joinNext
          ("<" ++ kind.element ++ attributes ++ " remap='" ++ escapeAttribute opener.toList ++ "'>") ready.lines
        blocks := .list { opener, kind, start := ready.lines.length } :: ready.blocks } := by
  rw [beginListWith, emit_eq]

/-- A list is opened on a line of its own; its attributes are apart from the name of its element. -/
theorem balanced_beginListWith (h : Balanced doc) (hj : doc.joinNext = false) (opener : String) (kind : ListKind)
    {attributes : Text} (ha : attributes = [] ∨ ∃ rest, attributes = ' ' :: rest) (ht : Tagless attributes) :
    Balanced (doc.beginListWith opener kind attributes) := by
  have hs := settled_flushTrap_closeParagraph h
  have hready := flushTrap_closeParagraph_joinNext hj
  rw [beginListWith_eq]
  generalize doc.flushTrap.closeParagraph = ready at hs hready
  obtain ⟨hn, hterm⟩ := listKind_element kind
  have hadds := adds_opening hn (fits_of_ne hterm (blockElements false ready.blocks ++ sectionElements ready.sections))
    ha ht opener.toList
  dsimp only
  rw [hready]
  have hopened : Settled { ready with
      lines := _ :: ready.lines
      joinNext := false
      blocks := .list { opener, kind, start := ready.lines.length } :: ready.blocks } :=
    hs.rewrite (leaves_cons hs.leaves_outside hadds) (hs.founded.push hs.leaves_outside _) hs.filling
      (fun hn => by cases hn) hs.sections
  exact hopened.toBalanced

/-- The end of a list without an item, which goes to the output unless nothing was written into the list. -/
def writeListEnd (doc : Document) (frame : ListFrame) : Document :=
  let untouched := doc.lines.length == frame.start + 1
  if untouched && frame.items == 0 then doc.truncate frame.start
  else (if frame.kind = .blockquote && untouched then doc.append "<para/>" else doc).emit
    ("</" ++ frame.kind.element ++ ">")

/-- A list without an item is closed by its end tag, or by taking its start tag back. -/
theorem Settled.endList (h : Settled doc) (hb : doc.blocks = .list frame :: rest) (ho : frame.itemOpen = false) :
    Settled ({ doc with blocks := rest }.writeListEnd frame) := by
  obtain ⟨hleaves, hfounded, hfill⟩ := h.of_blocks hb
  have helements : frame.elements false = [frame.kind.element] := by
    rw [ListFrame.elements, ho]
    rfl
  rw [blockElements, OpenBlock.elements, helements] at hleaves
  have hrest : Filling doc.formatter.fill rest := hfill
  have hend := adds_close (s := blockElements false rest ++ sectionElements doc.sections) frame.kind.element
    (listKind_element frame.kind).1
  unfold writeListEnd
  dsimp only
  split
  · obtain ⟨htruncated, hbefore⟩ := hfounded.truncate
    exact h.rewrite hbefore htruncated hrest (fun hj => by rw [h.joinNext_of_list hb] at hj; cases hj) h.sections
  · rw [emit_eq, endTag_eq]
    split
    · have hpara := leaves_lengthen hleaves (adds_empty "para" (by decide))
      rw [append_eq]
      exact h.rewrite (leaves_addLine hpara _ hend) (hfounded.pop.keeps ((Keeps.lengthen _ _).trans (.addLine _ _ _)))
        hrest (fun hn => by cases hn) h.sections
    · exact h.rewrite (leaves_addLine hleaves _ hend) (hfounded.pop.keeps (.addLine _ _ _)) hrest
        (fun hn => by cases hn) h.sections

@[simp] theorem writeListEnd_blocks (doc : Document) (frame : ListFrame) :
    (doc.writeListEnd frame).blocks = doc.blocks := by
  unfold writeListEnd
  simp only [emit_eq, append_eq]
  split
  · rfl
  · split <;> rfl

@[simp] theorem writeListEnd_sections (doc : Document) (frame : ListFrame) :
    (doc.writeListEnd frame).sections = doc.sections := by
  unfold writeListEnd
  simp only [emit_eq, append_eq]
  split
  · rfl
  · split <;> rfl

theorem endList_eq (doc : Document) :
    doc.endList =
      if doc.openLists.isEmpty then doc
      else
        let inner := doc.closeItem.closeInnerDisplays.closeParagraph
        match inner.blocks with
        | .list frame :: rest => { inner with blocks := rest }.writeListEnd frame
        | _ => inner :=
  rfl

/-- The innermost list is closed after what is open inside it, if there is a list. -/
theorem endList_cases (doc : Document) :
    (doc.blocks.dropWhile OpenBlock.isDisplay = [] ∧ doc.endList = doc) ∨
      ∃ frame rest, doc.blocks.dropWhile OpenBlock.isDisplay = .list frame :: rest ∧
        doc.closeItem.closeInnerDisplays.blocks = .list { frame with itemOpen := false } :: rest ∧
        doc.endList = { doc.closeItem.closeInnerDisplays.closeParagraph with
          blocks := rest }.writeListEnd { frame with itemOpen := false } := by
  rw [endList_eq]
  rcases leaveItem_cases doc with ⟨ht, hd, _⟩ | ⟨frame, rest, ht, hd, hb⟩
  · have hnone : doc.openLists = [] := List.head?_eq_none_iff.mp ht
    exact Or.inl ⟨hd, by rw [hnone, List.isEmpty_nil, if_pos rfl]⟩
  · have hsome : doc.openLists.isEmpty = false := by
      cases ho : doc.openLists with
      | nil =>
        rw [topList?, ho] at ht
        cases ht
      | cons _ _ => rfl
    refine Or.inr ⟨frame, rest, hd, hb, ?_⟩
    rw [hsome, if_neg Bool.false_ne_true]
    dsimp only
    rw [closeParagraph_blocks, hb]

theorem balanced_endList (h : Balanced doc) : Balanced doc.endList := by
  rcases doc.endList_cases with ⟨_, he⟩ | ⟨frame, rest, _, hb, he⟩
  · rw [he]
    exact h
  · rw [he, closeParagraph_of_false (settled_leaveItem h).closed]
    exact ((settled_leaveItem h).endList hb rfl).toBalanced

theorem balanced_endLists (h : Balanced doc) (frames : List ListFrame) : Balanced (endLists frames doc) := by
  unfold endLists
  induction frames generalizing doc with
  | nil => exact h
  | cons _ frames ih => exact ih (balanced_endList h)

theorem balanced_endListBy (h : Balanced doc) (opener : String) : Balanced (doc.endListBy opener).2 := by
  unfold endListBy
  split
  · exact balanced_endLists h _
  · exact h

@[simp] theorem endList_sections (doc : Document) : doc.endList.sections = doc.sections := by
  rcases doc.endList_cases with ⟨_, he⟩ | ⟨frame, rest, _, _, he⟩
  · rw [he]
  · rw [he]
    simp

@[simp] theorem endLists_sections (doc : Document) (frames : List ListFrame) :
    (endLists frames doc).sections = doc.sections := by
  unfold endLists
  induction frames generalizing doc with
  | nil => rfl
  | cons _ frames ih => exact (ih doc.endList).trans doc.endList_sections

/-- Closing a list leaves the blocks outside it. -/
theorem endList_suffix (doc : Document) : doc.endList.blocks <:+ doc.blocks := by
  rcases doc.endList_cases with ⟨_, he⟩ | ⟨frame, rest, hd, _, he⟩
  · simp [he]
  · rw [he, writeListEnd_blocks]
    have hrest : rest <:+ doc.blocks.dropWhile OpenBlock.isDisplay := by
      rw [hd]
      exact List.suffix_cons _ rest
    exact hrest.trans (List.dropWhile_suffix _)

theorem endLists_suffix (doc : Document) (frames : List ListFrame) : (endLists frames doc).blocks <:+ doc.blocks := by
  unfold endLists
  induction frames generalizing doc with
  | nil => exact List.suffix_refl _
  | cons _ frames ih => exact (ih doc.endList).trans doc.endList_suffix

theorem endList_blocks (hb : doc.blocks = .list frame :: rest) : doc.endList.blocks = rest := by
  rcases doc.endList_cases with ⟨hd, _⟩ | ⟨inner, outer, hd, _, he⟩
  · rw [hb] at hd
    cases hd
  · rw [hb] at hd
    rw [he, writeListEnd_blocks, ← (List.cons.inj hd).2]

/-- Lists that are the innermost blocks are closed one by one. -/
theorem endLists_blocks {frames : List ListFrame} {outer : List OpenBlock}
    (hb : doc.blocks = frames.map .list ++ outer) : (endLists frames doc).blocks = outer := by
  unfold endLists
  induction frames generalizing doc with
  | nil => exact hb
  | cons frame frames ih => exact ih (endList_blocks hb)

/-- The lists inside the innermost display, and the blocks from that display outwards. -/
theorem lists_append (blocks : List OpenBlock) :
    blocks = ((blocks.takeWhile fun block => !block.isDisplay).filterMap OpenBlock.list?).map .list ++
      blocks.dropWhile fun block => !block.isDisplay := by
  induction blocks with
  | nil => rfl
  | cons block rest ih =>
    cases block with
    | list frame => exact congrArg (.list frame :: ·) ih
    | display frame => rfl

/-- Where no display is open, no block is left when all lists have been closed. -/
theorem endAllLists_blocks (hd : doc.openDisplays = []) : doc.endAllLists.blocks = [] := by
  refine endLists_blocks ?_
  rw [List.append_nil]
  unfold openLists
  unfold openDisplays at hd
  generalize doc.blocks = blocks at hd
  induction blocks with
  | nil => rfl
  | cons block rest ih =>
    cases block with
    | list frame => exact congrArg (.list frame :: ·) (ih hd)
    | display frame => cases hd

/-- The innermost display is closed after the lists inside it, if there is a display. -/
theorem endDisplay_cases (doc : Document) :
    (doc.openDisplays = [] ∧ doc.endDisplay.2 = doc) ∨
      ∃ lists frame rest, doc.blocks = lists.map .list ++ .display frame :: rest ∧
        (endLists lists doc).blocks = .display frame :: rest ∧
        doc.endDisplay.2 = { endLists lists doc with blocks := rest }.writeDisplayEnd frame := by
  unfold endDisplay
  have hsplit := lists_append doc.blocks
  have hended := endLists_blocks hsplit
  generalize (doc.blocks.takeWhile fun block => !block.isDisplay).filterMap OpenBlock.list? = lists at *
  have hhead := List.head?_dropWhile_not (fun block => !OpenBlock.isDisplay block) doc.blocks
  cases hd : doc.blocks.dropWhile fun block => !block.isDisplay with
  | nil =>
    have hnone : doc.openDisplays = [] := by
      rw [openDisplays, hsplit, hd, List.append_nil, List.filterMap_map]
      exact List.filterMap_eq_nil_iff.mpr fun _ _ => rfl
    exact Or.inl ⟨hnone, by rw [hnone]; rfl⟩
  | cons block rest =>
    rw [hd] at hhead hsplit hended
    cases block with
    | list frame => cases hhead
    | display frame =>
      have hsome : doc.openDisplays.isEmpty = false := by
        have hm : frame ∈ doc.openDisplays := by
          refine List.mem_filterMap.mpr ⟨.display frame, ?_, rfl⟩
          rw [hsplit]
          exact List.mem_append_right _ List.mem_cons_self
        exact List.isEmpty_eq_false_iff.mpr (List.ne_nil_of_mem hm)
      refine Or.inr ⟨lists, frame, rest, hsplit, hended, ?_⟩
      rw [hsome, if_neg Bool.false_ne_true]
      dsimp only
      rw [hended]

theorem balanced_endDisplay (h : Balanced doc) : Balanced doc.endDisplay.2 := by
  rcases doc.endDisplay_cases with ⟨_, he⟩ | ⟨lists, frame, rest, _, hb, he⟩
  · rw [he]
    exact h
  · rw [he]
    exact (settled_closeDisplay (balanced_endLists h lists) hb).toBalanced

theorem balanced_endAllDisplays (h : Balanced doc) : Balanced doc.endAllDisplays := by
  unfold endAllDisplays
  generalize doc.openDisplays = displays
  induction displays generalizing doc with
  | nil => exact h
  | cons _ displays ih => exact ih (balanced_endDisplay h)

@[simp] theorem endDisplay_sections (doc : Document) : doc.endDisplay.2.sections = doc.sections := by
  rcases doc.endDisplay_cases with ⟨_, he⟩ | ⟨lists, frame, rest, _, _, he⟩
  · rw [he]
  · rw [he, writeDisplayEnd_eq]
    exact doc.endLists_sections lists

theorem endDisplay_openDisplays (doc : Document) : doc.endDisplay.2.openDisplays = doc.openDisplays.tail := by
  rcases doc.endDisplay_cases with ⟨hd, he⟩ | ⟨lists, frame, rest, hb, _, he⟩
  · rw [he, hd, List.tail_nil]
  · have hlists : lists.filterMap (OpenBlock.display? ∘ .list) = [] :=
      List.filterMap_eq_nil_iff.mpr fun _ _ => rfl
    rw [he, openDisplays, writeDisplayEnd_blocks, openDisplays, hb, List.filterMap_append, List.filterMap_map, hlists]
    rfl

/-- All displays are closed, from the innermost one outwards. -/
theorem endAllDisplays_state (doc : Document) :
    doc.endAllDisplays.sections = doc.sections ∧ doc.endAllDisplays.openDisplays = [] := by
  unfold endAllDisplays
  generalize hd : doc.openDisplays = displays
  induction displays generalizing doc with
  | nil => exact ⟨rfl, hd⟩
  | cons display displays ih =>
    have hnext := doc.endDisplay_openDisplays
    rw [hd, List.tail_cons] at hnext
    obtain ⟨hsections, hnone⟩ := ih doc.endDisplay.2 hnext
    exact ⟨hsections.trans doc.endDisplay_sections, hnone⟩

end

end RoffDocBook.Document
