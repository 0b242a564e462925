import RoffDocBook.Proofs.Document.Confinement
import RoffDocBook.Proofs.Document.SectionTree

/-! What is written into a section is what the same calls write on a page of its own: the lines before it, the sections
around it and the identifiers in use make no difference to text, lists and displays. -/
namespace RoffDocBook
open Text Markup

/-- What has been written of a document before a page. -/
structure Ground extends Outer where
  ids : IdRegistry := []
  sectionName : Option Text := none

/-- A list with a number of lines put before it. -/
def ListFrame.raise (n : Nat) (frame : ListFrame) : ListFrame :=
  { frame with start := frame.start + n }

def OpenBlock.raise (n : Nat) : OpenBlock → OpenBlock
  | .list frame => .list (frame.raise n)
  | .display frame => .display frame

namespace Document

/-- A page on top of what has been written before. -/
def onto (page : Document) (ground : Ground) : Document :=
  { page with
    lines := page.lines ++ ground.lines
    blocks := page.blocks.map (OpenBlock.raise ground.lines.length)
    sections := ground.sections
    ids := ground.ids
    sectionName := ground.sectionName }

section
variable {s : List Text} {doc page : Document} {piece : Text} (ground : Ground)

theorem lengthen_append {lines : List Text} (h : lines ≠ []) (below : List Text) :
    lengthen piece (lines ++ below) = lengthen piece lines ++ below := by
  obtain ⟨last, before, rfl⟩ := List.exists_cons_of_ne_nil h
  rfl

theorem addLine_append {joins : Bool} {lines : List Text} (h : joins = true → lines ≠ []) (below : List Text) :
    addLine joins piece (lines ++ below) = addLine joins piece lines ++ below := by
  unfold addLine
  split
  · rename_i hj
    exact lengthen_append (h hj) below
  · rfl

theorem onto_append (h : page.lines ≠ []) (piece : Text) :
    (page.onto ground).append piece = (page.append piece).onto ground := by
  rw [append_eq, append_eq]
  change { page.onto ground with joinNext := false, lines := lengthen piece (page.lines ++ ground.lines) } = _
  rw [lengthen_append h]
  rfl

theorem onto_emit (page : Document) (h : page.joinNext = true → page.lines ≠ []) (piece : Text) :
    (page.onto ground).emit piece = (page.emit piece).onto ground := by
  rw [emit_eq, emit_eq]
  change { page.onto ground with
    joinNext := false, lines := addLine page.joinNext piece (page.lines ++ ground.lines) } = _
  rw [addLine_append h]
  rfl

theorem onto_closeParagraph (h : Begun page) :
    (page.onto ground).closeParagraph = page.closeParagraph.onto ground := by
  rw [closeParagraph_eq, closeParagraph_eq]
  change (if page.inParagraph then { page.onto ground with
    fonts := {}
    inParagraph := false
    joinNext := false
    lines := lengthen "</para>" (lengthen page.fonts.closing (page.lines ++ ground.lines)) }
    else page.onto ground) = _
  split
  · rename_i hp
    rw [lengthen_append (h.paragraph hp), lengthen_append (lengthen_ne_nil _ _)]
    rfl
  · rfl

theorem onto_openParagraph (h : Begun page) :
    (page.onto ground).openParagraph = page.openParagraph.onto ground := by
  rw [openParagraph_eq, openParagraph_eq]
  change (if page.inParagraph then page.onto ground else { page.onto ground with
    inParagraph := true
    joinNext := true
    lines := addLine page.joinNext "<para>" (page.lines ++ ground.lines) }) = _
  split
  · rfl
  · rw [addLine_append h.lines_ne_nil]
    rfl

theorem onto_flushTrap (h : Begun page) : (page.onto ground).flushTrap = page.flushTrap.onto ground := by
  have htrap : (page.onto ground).trap = page.trap := rfl
  unfold flushTrap
  rw [htrap]
  cases page.trap with
  | some trap => exact onto_emit ground { page with trap := none } h.lines_ne_nil _
  | none => rfl

theorem onto_writeDisplayEnd (page : Document) (h : page.lines ≠ []) (frame : DisplayFrame) :
    (page.onto ground).writeDisplayEnd frame = (page.writeDisplayEnd frame).onto ground := by
  rw [writeDisplayEnd_eq, writeDisplayEnd_eq]
  change { page.onto ground with
    fonts := {}
    joinNext := false
    lines := lengthen ("</" ++ frame.kind.element ++ ">") (lengthen page.fonts.closing (page.lines ++ ground.lines))
    formatter := { page.formatter with fill := frame.fillAfter } } = _
  rw [lengthen_append h, lengthen_append (lengthen_ne_nil _ _)]
  rfl

theorem onto_closeInnerDisplays (h : Begun page) :
    (page.onto ground).closeInnerDisplays = page.closeInnerDisplays.onto ground := by
  unfold closeInnerDisplays
  change closeInnerDisplays.go (page.blocks.map (OpenBlock.raise ground.lines.length)) (page.onto ground) = _
  generalize hb : page.blocks = blocks
  induction blocks generalizing page with
  | nil => rfl
  | cons block rest ih =>
    cases block with
    | list frame => rfl
    | display frame =>
      have hlines : page.lines ≠ [] := h.blocks (by rw [hb]; exact List.cons_ne_nil _ _)
      have hnext := ih (h.writeDisplayEnd hb) (writeDisplayEnd_blocks _ frame)
      rw [← onto_writeDisplayEnd ground { page with blocks := rest } hlines] at hnext
      exact hnext

theorem onto_openLists (page : Document) :
    (page.onto ground).openLists = page.openLists.map (ListFrame.raise ground.lines.length) := by
  unfold openLists
  change (page.blocks.map (OpenBlock.raise ground.lines.length)).filterMap OpenBlock.list? = _
  rw [List.filterMap_map, List.map_filterMap]
  refine List.filterMap_congr fun block _ => ?_
  cases block <;> rfl

theorem onto_openDisplays (page : Document) : (page.onto ground).openDisplays = page.openDisplays := by
  unfold openDisplays
  change (page.blocks.map (OpenBlock.raise ground.lines.length)).filterMap OpenBlock.display? = _
  rw [List.filterMap_map]
  refine List.filterMap_congr fun block _ => ?_
  cases block <;> rfl

theorem onto_topList? (page : Document) :
    (page.onto ground).topList? = page.topList?.map (ListFrame.raise ground.lines.length) := by
  rw [topList?, onto_openLists, List.head?_map, topList?]

/-- A change that does not look at where a list begins can be made before or after lines are put before it. -/
theorem mapTopList_raise {change : ListFrame → ListFrame} {n : Nat}
    (hc : ∀ frame, change (frame.raise n) = (change frame).raise n) (blocks : List OpenBlock) :
    mapTopList change (blocks.map (OpenBlock.raise n)) = (mapTopList change blocks).map (OpenBlock.raise n) := by
  induction blocks with
  | nil => rfl
  | cons block rest ih =>
    cases block with
    | list frame => exact congrArg (fun frame => .list frame :: rest.map (OpenBlock.raise n)) (hc frame)
    | display frame => exact congrArg (.display frame :: ·) ih

theorem onto_filledItem (h : page.lines ≠ []) :
    (page.onto ground).filledItem = page.filledItem.onto ground := by
  have hhead : (page.onto ground).lines.head? = page.lines.head? := List.head?_append_of_ne_nil _ h
  unfold filledItem
  rw [hhead]
  split
  · exact onto_append ground h _
  · rfl

theorem onto_writeItemEnd (h : page.joinNext = true → page.lines ≠ []) (kind : ListKind) :
    (page.onto ground).writeItemEnd kind = (page.writeItemEnd kind).onto ground := by
  unfold writeItemEnd
  rw [onto_emit ground page h]
  split
  · refine onto_append ground ?_ _
    rw [emit_eq]
    exact addLine_ne_nil _ _ _
  · rfl

theorem filledItem_lines_ne_nil (h : page.lines ≠ []) : page.filledItem.lines ≠ [] := by
  unfold filledItem
  split
  · rw [append_eq]
    exact lengthen_ne_nil _ _
  · exact h

theorem flushTrap_closeParagraph_onto (h : Begun page) :
    (page.onto ground).flushTrap.closeParagraph = page.flushTrap.closeParagraph.onto ground := by
  rw [onto_flushTrap ground h, onto_closeParagraph ground h.flushTrap]

theorem onto_closeItem (h : Begun page) : (page.onto ground).closeItem = page.closeItem.onto ground := by
  rw [closeItem_eq, closeItem_eq, onto_topList?]
  rcases innermost_cases page with ⟨ht, _⟩ | ⟨frame, rest, ht, hd⟩
  · rw [ht]
    exact onto_closeParagraph ground h
  · have hinner := h.closeInnerDisplays
    have hready := hinner.flushTrap.closeParagraph
    have hblocks : page.closeInnerDisplays.flushTrap.closeParagraph.blocks = .list frame :: rest := by
      simpa using hd
    have hlines : page.closeInnerDisplays.flushTrap.closeParagraph.lines ≠ [] :=
      hready.blocks (by rw [hblocks]; exact List.cons_ne_nil _ _)
    rw [ht, Option.map_some]
    dsimp only
    rw [onto_closeParagraph ground h, onto_closeInnerDisplays ground h, flushTrap_closeParagraph_onto ground hinner]
    generalize page.closeInnerDisplays.flushTrap.closeParagraph = inner at hlines
    have hmap : mapTopList ({ · with itemOpen := false }) (inner.onto ground).blocks =
        (mapTopList ({ · with itemOpen := false }) inner.blocks).map (OpenBlock.raise ground.lines.length) :=
      mapTopList_raise (by exact fun _ => rfl) inner.blocks
    have hopen : (frame.raise ground.lines.length).itemOpen = frame.itemOpen := rfl
    have hkind : (frame.raise ground.lines.length).kind = frame.kind := rfl
    rw [hopen, hkind, hmap, onto_filledItem ground hlines,
      onto_writeItemEnd ground (fun _ => filledItem_lines_ne_nil hlines)]
    split
    · split <;> rfl
    · rfl

theorem onto_leaveItem (h : Begun page) :
    (page.onto ground).closeItem.closeInnerDisplays = page.closeItem.closeInnerDisplays.onto ground := by
  rw [onto_closeItem ground h, onto_closeInnerDisplays ground h.closeItem]

theorem onto_writeItemStart (page : Document) (h : page.joinNext = true → page.lines ≠ []) (kind : ListKind)
    (term : Option Text) :
    (page.onto ground).writeItemStart kind term = (page.writeItemStart kind term).onto ground := by
  have hwritten (piece : Text) : (page.emit piece).lines ≠ [] := by
    rw [emit_eq]
    exact addLine_ne_nil _ _ _
  cases kind with
  | terms =>
    cases term with
    | none =>
      unfold writeItemStart
      rw [onto_emit ground page h]
      rfl
    | some term =>
      unfold writeItemStart
      dsimp only
      rw [onto_emit ground page h, onto_emit ground _ fun _ => hwritten _]
  | itemized | ordered => exact onto_emit ground page h _
  | blockquote => rfl

theorem onto_beginItem (h : Begun page) (term : Option Text) :
    (page.onto ground).beginItem term = (page.beginItem term).onto ground := by
  have hinner := h.leaveItem
  rw [beginItem_eq, beginItem_eq]
  dsimp only
  rw [onto_leaveItem ground h, onto_topList?]
  generalize page.closeItem.closeInnerDisplays = inner at hinner
  cases inner.topList? with
  | none => rfl
  | some frame =>
    have hmap : mapTopList (fun frame => { frame with items := frame.items + 1, itemOpen := true })
        (inner.onto ground).blocks =
          (mapTopList (fun frame => { frame with items := frame.items + 1, itemOpen := true }) inner.blocks).map
            (OpenBlock.raise ground.lines.length) :=
      mapTopList_raise (by exact fun _ => rfl) inner.blocks
    rw [Option.map_some]
    dsimp only
    rw [hmap]
    generalize mapTopList _ inner.blocks = blocks
    exact onto_writeItemStart ground { inner with blocks } hinner.lines_ne_nil frame.kind term

/-- A list is taken back as it is on a page of its own, and the lines before the page stay. -/
theorem onto_writeListEnd (page : Document) (h : page.joinNext = true → page.lines ≠ []) (frame : ListFrame)
    (hl : page.lines ≠ []) :
    (page.onto ground).writeListEnd (frame.raise ground.lines.length) =
      (page.writeListEnd frame).onto ground := by
  have hlength : (page.onto ground).lines.length = page.lines.length + ground.lines.length := List.length_append
  have huntouched : (page.lines.length + ground.lines.length == (frame.raise ground.lines.length).start + 1) =
      (page.lines.length == frame.start + 1) := by
    rw [Bool.eq_iff_iff, beq_iff_eq, beq_iff_eq, ListFrame.raise]
    dsimp only
    omega
  have hitems : (frame.raise ground.lines.length).items = frame.items := rfl
  have hkind : (frame.raise ground.lines.length).kind = frame.kind := rfl
  unfold writeListEnd
  dsimp only
  rw [hlength, huntouched, hitems, hkind]
  split
  · unfold truncate
    have hdrop : (page.onto ground).lines.drop
        ((page.onto ground).lines.length - (frame.raise ground.lines.length).start) =
          page.lines.drop (page.lines.length - frame.start) ++ ground.lines := by
      rw [hlength, ListFrame.raise, Nat.add_sub_add_right]
      exact List.drop_append_of_le_length (Nat.sub_le _ _)
    rw [hdrop]
    rfl
  · split
    · rw [onto_append ground hl, onto_emit]
      exact fun _ => by
        rw [append_eq]
        exact lengthen_ne_nil _ _
    · exact onto_emit ground page h _

theorem onto_endList (h : Begun page) : (page.onto ground).endList = page.endList.onto ground := by
  rw [endList_eq, endList_eq, onto_openLists, List.isEmpty_map]
  split
  · rfl
  · have hinner := h.leaveItem
    dsimp only
    rw [onto_leaveItem ground h, onto_closeParagraph ground hinner]
    have hclosed := hinner.closeParagraph
    generalize page.closeItem.closeInnerDisplays.closeParagraph = inner at hclosed
    have hblocks : (inner.onto ground).blocks = inner.blocks.map (OpenBlock.raise ground.lines.length) := rfl
    rw [hblocks]
    cases hb : inner.blocks with
    | nil => rfl
    | cons block rest =>
      cases block with
      | list frame =>
        have hlines : inner.lines ≠ [] := hclosed.blocks (by rw [hb]; exact List.cons_ne_nil _ _)
        exact onto_writeListEnd ground { inner with blocks := rest } (fun _ => hlines) frame hlines
      | display frame => rfl

theorem onto_endLists (h : Begun page) (frames : List ListFrame) :
    endLists frames (page.onto ground) = (endLists frames page).onto ground := by
  unfold endLists
  induction frames generalizing page with
  | nil => rfl
  | cons _ frames ih =>
    rw [List.foldl_cons, List.foldl_cons, onto_endList ground h]
    exact ih h.endList

/-- It only matters how many lists are closed. -/
theorem endLists_map (change : ListFrame → ListFrame) (frames : List ListFrame) (doc : Document) :
    endLists (frames.map change) doc = endLists frames doc :=
  List.foldl_map

theorem onto_endAllLists (h : Begun page) : (page.onto ground).endAllLists = page.endAllLists.onto ground := by
  rw [endAllLists, onto_openLists, endLists_map, onto_endLists ground h, endAllLists]

theorem framesThrough_raise (opener : String) (n : Nat) (frames : List ListFrame) :
    framesThrough opener (frames.map (ListFrame.raise n)) = (framesThrough opener frames).map (ListFrame.raise n) := by
  induction frames with
  | nil => rfl
  | cons frame rest ih =>
    rw [List.map_cons, framesThrough, framesThrough, ih]
    change (if frame.opener == opener then _ else _) = _
    split <;> rfl

theorem onto_endListBy (h : Begun page) (opener : String) :
    ((page.onto ground).endListBy opener).2 = (page.endListBy opener).2.onto ground := by
  have hhas : (page.onto ground).hasList opener = page.hasList opener := by
    rw [hasList, onto_openLists, List.any_map, hasList]
    rfl
  unfold endListBy
  rw [hhas]
  split
  · dsimp only
    rw [onto_openLists, framesThrough_raise, endLists_map, onto_endLists ground h]
  · rfl

theorem onto_breakLists (h : Begun page) (request : String) :
    (page.onto ground).breakLists request = (page.breakLists request).onto ground := by
  unfold breakLists
  rw [onto_openLists, List.takeWhile_map, framesThrough_raise, endLists_map, onto_endLists ground h]
  rfl

theorem onto_beginListWith (h : Begun page) (opener : String) (kind : ListKind) (attributes : Text) :
    (page.onto ground).beginListWith opener kind attributes = (page.beginListWith opener kind attributes).onto ground := by
  have hready := h.flushTrap.closeParagraph
  rw [beginListWith_eq, beginListWith_eq, flushTrap_closeParagraph_onto ground h]
  generalize page.flushTrap.closeParagraph = ready at hready
  have hlines (piece : Text) : addLine (ready.onto ground).joinNext piece (ready.onto ground).lines =
      addLine ready.joinNext piece ready.lines ++ ground.lines :=
    addLine_append hready.lines_ne_nil _
  have hlength : (ready.onto ground).lines.length = ready.lines.length + ground.lines.length := List.length_append
  dsimp only
  rw [hlines, hlength]
  rfl

theorem onto_beginDisplay (h : Begun page) (kind : DisplayKind) (opener : String) :
    (page.onto ground).beginDisplay kind opener = (page.beginDisplay kind opener).onto ground := by
  have hready := h.flushTrap.closeParagraph
  rw [beginDisplay_eq, beginDisplay_eq, flushTrap_closeParagraph_onto ground h]
  generalize page.flushTrap.closeParagraph = ready at hready
  have hlines (piece : Text) : addLine (ready.onto ground).joinNext piece (ready.onto ground).lines =
      addLine ready.joinNext piece ready.lines ++ ground.lines :=
    addLine_append hready.lines_ne_nil _
  dsimp only
  rw [hlines]
  rfl

theorem onto_endDisplay (h : Begun page) : (page.onto ground).endDisplay.2 = page.endDisplay.2.onto ground := by
  unfold endDisplay
  rw [onto_openDisplays]
  split
  · rfl
  · have hlists : ((page.onto ground).blocks.takeWhile fun block => !block.isDisplay).filterMap OpenBlock.list? =
        ((page.blocks.takeWhile fun block => !block.isDisplay).filterMap OpenBlock.list?).map
          (ListFrame.raise ground.lines.length) := by
      change ((page.blocks.map (OpenBlock.raise ground.lines.length)).takeWhile _).filterMap _ = _
      rw [List.takeWhile_map, List.filterMap_map, List.map_filterMap]
      have hsame : (fun block : OpenBlock => !block.isDisplay) ∘ OpenBlock.raise ground.lines.length =
          fun block => !block.isDisplay := by
        funext block
        cases block <;> rfl
      rw [hsame]
      refine List.filterMap_congr fun block _ => ?_
      cases block <;> rfl
    rw [hlists, endLists_map]
    dsimp only
    rw [onto_endLists ground h]
    generalize (page.blocks.takeWhile fun block => !block.isDisplay).filterMap OpenBlock.list? = frames
    have hended := h.endLists frames
    generalize endLists frames page = ended at hended
    have hblocks : (ended.onto ground).blocks = ended.blocks.map (OpenBlock.raise ground.lines.length) := rfl
    rw [hblocks]
    cases hb : ended.blocks with
    | nil => rfl
    | cons block rest =>
      cases block with
      | list frame => rfl
      | display frame =>
        have hlines : ended.lines ≠ [] := hended.blocks (by rw [hb]; exact List.cons_ne_nil _ _)
        exact onto_writeDisplayEnd ground { ended with blocks := rest } hlines frame

theorem onto_endAllDisplays (h : Begun page) :
    (page.onto ground).endAllDisplays = page.endAllDisplays.onto ground := by
  unfold endAllDisplays
  rw [onto_openDisplays]
  generalize page.openDisplays = displays
  induction displays generalizing page with
  | nil => rfl
  | cons _ displays ih =>
    rw [List.foldl_cons, List.foldl_cons, onto_endDisplay ground h]
    exact ih h.endDisplay

theorem onto_closeBlocks (h : Begun page) : (page.onto ground).closeBlocks = page.closeBlocks.onto ground := by
  have hdisplays := h.flushTrap.endAllDisplays
  rw [closeBlocks, onto_flushTrap ground h, onto_endAllDisplays ground h.flushTrap,
    onto_endAllLists ground hdisplays, endAllLists, onto_closeParagraph ground (hdisplays.endLists _)]
  rfl

theorem onto_recordEntity (page : Document) (name : String) :
    (page.onto ground).recordEntity name = (page.recordEntity name).onto ground := by
  unfold recordEntity
  change (if Glyph.predefinedEntities.contains name || page.entities.contains name then _ else _) = _
  split <;> rfl

theorem onto_namedGlyph (page : Document) (name : Text) :
    (page.onto ground).namedGlyph name = (page.namedGlyph name).map id (onto · ground) := by
  have hglyphs : (page.onto ground).formatter.glyphs = page.formatter.glyphs := rfl
  unfold namedGlyph
  rw [hglyphs]
  cases page.formatter.glyphs.get? (String.ofList name) with
  | some definition => rfl
  | none =>
    dsimp only
    split
    · split
      · rw [onto_recordEntity]
        rfl
      · rfl
    · split <;> rfl

theorem onto_renderPiece (page : Document) (piece : Inline.Piece) :
    (page.onto ground).renderPiece piece = (page.renderPiece piece).map id (onto · ground) := by
  cases piece with
  | plain text => rfl
  | font name =>
    have hfonts : (page.onto ground).fonts = page.fonts := rfl
    unfold renderPiece
    dsimp only
    rw [hfonts]
    cases page.fonts.target? (String.ofList name) <;> rfl
  | glyph name =>
    change (page.onto ground).glyphMarkup name = (page.glyphMarkup name).map id (onto · ground)
    unfold glyphMarkup
    split
    · split
      · rfl
      · exact onto_namedGlyph ground page _
    · exact onto_namedGlyph ground page name
  | numbered number =>
    unfold renderPiece
    dsimp only
    split
    · split <;> rfl
    · rfl
  | width text => rfl

theorem onto_renderPieces (page : Document) (pieces : List Inline.Piece) :
    (page.onto ground).renderPieces pieces = (page.renderPieces pieces).map id (onto · ground) := by
  induction pieces generalizing page with
  | nil => rfl
  | cons piece pieces ih =>
    unfold renderPieces
    rw [onto_renderPiece]
    dsimp only [Prod.map]
    rw [ih]
    rfl

theorem onto_renderInline (page : Document) (line : Text) :
    (page.onto ground).renderInline line = (page.renderInline line).map id (onto · ground) := by
  have hstart (opens : Bool) : (if opens then
      { page.onto ground with fonts := { page.fonts with opened := true } } else page.onto ground) =
        (if opens then { page with fonts := { page.fonts with opened := true } } else page : Document).onto ground := by
    split <;> rfl
  have hfonts : (page.onto ground).fonts = page.fonts := rfl
  unfold renderInline
  rw [hfonts]
  dsimp only
  rw [hstart, onto_renderPieces]
  rfl

theorem onto_finishLine (page : Document) (line : Text) :
    (page.onto ground).finishLine line = (page.finishLine line).map id (onto · ground) :=
  rfl

theorem onto_emit_finishLine (h : page.joinNext = true → page.lines ≠ []) (line : Text) :
    ((page.onto ground).finishLine line).2.emit ((page.onto ground).finishLine line).1 =
      ((page.finishLine line).2.emit (page.finishLine line).1).onto ground := by
  obtain ⟨_, _, _, _, hsame⟩ := page.renders_finishLine line
  rw [onto_finishLine]
  refine onto_emit ground (page.finishLine line).2 ?_ _
  rw [hsame]
  exact h

theorem onto_textLine (h : Begun page) (line : Text) :
    (page.onto ground).textLine line = (page.textLine line).onto ground := by
  have hrendered := h.renders (page.renders_renderInline line)
  unfold textLine
  rw [onto_closeParagraph ground h, onto_renderInline]
  change (if page.formatter.fill && isAllBlank line && page.trap.isNone then _ else _) = _
  split
  · rfl
  · dsimp only [Prod.map, id]
    generalize page.renderInline line = rendered at hrendered ⊢
    obtain ⟨text, inside⟩ := rendered
    dsimp only at hrendered ⊢
    have htrap : (inside.onto ground).trap = inside.trap := rfl
    have hfill : (inside.onto ground).formatter.fill = inside.formatter.fill := rfl
    rw [htrap, hfill, onto_openParagraph ground hrendered]
    cases inside.trap with
    | some trap =>
      dsimp only
      split
      · rfl
      · obtain ⟨_, _, _, _, hsame⟩ := renders_finishLine { inside with trap := none } text
        refine onto_emit ground (finishLine { inside with trap := none } text).2.takeFontClose.2 ?_ _
        rw [takeFontClose, hsame]
        exact hrendered.lines_ne_nil
    | none =>
      dsimp only
      split
      · exact onto_emit_finishLine ground (fun _ => hrendered.openParagraph_lines) text
      · exact onto_emit_finishLine ground hrendered.lines_ne_nil text

variable {call : Call} {calls : List Call}

theorem onto_perform (h : Begun page) (hi : call.isInner = true) :
    (page.onto ground).perform call = (page.perform call).onto ground := by
  cases call with
  | textLine line => exact onto_textLine ground h line
  | closeParagraph => exact onto_closeParagraph ground h
  | beginListWith opener kind attributes => exact onto_beginListWith ground h opener kind attributes
  | beginItem term => exact onto_beginItem ground h term
  | closeItem => exact onto_closeItem ground h
  | endList => exact onto_endList ground h
  | endListBy opener => exact onto_endListBy ground h opener
  | breakLists request => exact onto_breakLists ground h request
  | endAllLists => exact onto_endAllLists ground h
  | beginDisplay kind opener => exact onto_beginDisplay ground h kind opener
  | endDisplay => exact onto_endDisplay ground h
  | addTerm | pushSection | pushSynopsis | popSections | endSections => cases hi

theorem onto_suits : (page.onto ground).Suits call ↔ page.Suits call := by
  cases call with
  | beginListWith opener kind attributes =>
    have hdisplay : (page.onto ground).inDisplay = page.inDisplay := by
      rw [inDisplay, onto_openDisplays, inDisplay]
    exact and_congr_left' (by rw [hdisplay])
  | _ => exact Iff.rfl

/-- Calls suit a page on top of other output as they suit it on its own, and write the same there. -/
theorem onto_performAll (h : Begun page) (hs : (page.onto ground).SuitsAll calls) :
    page.SuitsAll calls ∧ (page.onto ground).performAll calls = (page.performAll calls).onto ground := by
  induction calls generalizing page with
  | nil => exact ⟨trivial, rfl⟩
  | cons call calls ih =>
    have hcall := (onto_suits ground).mp hs.1
    have hperform := onto_perform ground h hcall.isInner
    have hrest := hs.2
    rw [hperform] at hrest
    obtain ⟨hsuits, hall⟩ := ih (h.perform hcall.isInner) hrest
    refine ⟨⟨hcall, hsuits⟩, ?_⟩
    change ((page.onto ground).perform call).performAll calls = _
    rw [hperform, hall]
    rfl

end

end Document

end RoffDocBook
