import RoffDocBook.Proofs.Document.Level
import RoffDocBook.Proofs.Document.Tags

/-! Where nothing has been written, nothing is open: neither a paragraph nor a list nor a display. -/
namespace RoffDocBook.Document
open Text Markup

/-- No list that is inside another block begins with the first line, so taking it back leaves something. -/
def Seated : List OpenBlock → Prop
  | [] => True
  | .list frame :: rest => (rest ≠ [] → 0 < frame.start) ∧ Seated rest
  | .display _ :: rest => Seated rest

/-- Something has been written wherever anything is open. -/
structure Begun (doc : Document) : Prop extends Aligned doc where
  paragraph : doc.inParagraph = true → doc.lines ≠ []
  blocks : doc.blocks ≠ [] → doc.lines ≠ []
  seated : Seated doc.blocks

theorem lengthen_ne_nil (piece : Text) (lines : List Text) : lengthen piece lines ≠ [] := by
  cases lines <;> exact List.cons_ne_nil _ _

theorem addLine_ne_nil (joins : Bool) (piece : Text) (lines : List Text) : addLine joins piece lines ≠ [] := by
  unfold addLine
  split
  · exact lengthen_ne_nil piece lines
  · exact List.cons_ne_nil _ _

theorem emit_lines_ne_nil (doc : Document) (piece : Text) : (doc.emit piece).lines ≠ [] := by
  rw [emit_eq]
  exact addLine_ne_nil _ _ _

theorem Seated.dropWhile_isDisplay {blocks : List OpenBlock} (h : Seated blocks) :
    Seated (blocks.dropWhile OpenBlock.isDisplay) := by
  induction blocks with
  | nil => exact h
  | cons block rest ih =>
    cases block with
    | list frame => exact h
    | display frame => exact ih h

section
variable {doc : Document} {frame : ListFrame} {rest : List OpenBlock}

/-- The innermost list may be another one that begins at the same place. -/
theorem Seated.replace {other : ListFrame} (h : Seated doc.blocks)
    (hd : doc.blocks.dropWhile OpenBlock.isDisplay = .list frame :: rest) (hs : other.start = frame.start) :
    Seated (.list other :: rest) := by
  have hseated := h.dropWhile_isDisplay
  rw [hd] at hseated
  refine ⟨?_, hseated.2⟩
  rw [hs]
  exact hseated.1

theorem begun_of_lines (h : Aligned doc) (hl : doc.lines ≠ []) (hs : Seated doc.blocks) : Begun doc :=
  { h with paragraph := fun _ => hl, blocks := fun _ => hl, seated := hs }

namespace Begun

theorem lines_ne_nil (h : Begun doc) (hj : doc.joinNext = true) : doc.lines ≠ [] := by
  obtain ⟨frame, rest, hb⟩ := h.joins hj
  exact h.blocks (by rw [hb]; exact List.cons_ne_nil _ _)

theorem lines_ne_nil_of_dropWhile (h : Begun doc)
    (hd : doc.blocks.dropWhile OpenBlock.isDisplay = .list frame :: rest) : doc.lines ≠ [] := by
  refine h.blocks fun hn => ?_
  rw [hn] at hd
  cases hd

theorem openParagraph_lines (h : Begun doc) : doc.openParagraph.lines ≠ [] := by
  rw [openParagraph_eq]
  split
  · rename_i hp
    exact h.paragraph hp
  · exact addLine_ne_nil _ _ _

theorem closeParagraph (h : Begun doc) : Begun doc.closeParagraph := by
  have haligned := h.toAligned.closeParagraph
  rw [closeParagraph_eq] at haligned ⊢
  split at haligned
  · rename_i hp
    rw [if_pos hp]
    exact begun_of_lines haligned (lengthen_ne_nil _ _) h.seated
  · rename_i hp
    rwa [if_neg hp]

theorem flushTrap (h : Begun doc) : Begun doc.flushTrap := by
  have haligned := h.toAligned.flushTrap
  rw [flushTrap_eq] at haligned ⊢
  split
  · rename_i trap ht
    rw [ht] at haligned
    exact begun_of_lines haligned (addLine_ne_nil _ _ _) h.seated
  · exact h

theorem writeDisplayEnd (h : Begun doc) {frame : DisplayFrame} (hb : doc.blocks = .display frame :: rest) :
    Begun ({ doc with blocks := rest }.writeDisplayEnd frame) := by
  have hseated := h.seated
  rw [hb] at hseated
  refine begun_of_lines (h.toAligned.writeDisplayEnd hb) ?_ ?_
  · rw [writeDisplayEnd_eq]
    exact lengthen_ne_nil _ _
  · rw [writeDisplayEnd_blocks]
    exact hseated

theorem closeInnerDisplays (h : Begun doc) : Begun doc.closeInnerDisplays := by
  unfold Document.closeInnerDisplays
  generalize hb : doc.blocks = blocks
  induction blocks generalizing doc with
  | nil => exact h
  | cons block rest ih =>
    cases block with
    | list frame => exact h
    | display frame => exact ih (h.writeDisplayEnd hb) (writeDisplayEnd_blocks _ frame)

theorem writeItemEnd_lines (doc : Document) (kind : ListKind) : (doc.writeItemEnd kind).lines ≠ [] := by
  unfold Document.writeItemEnd
  split
  · rw [append_eq]
    exact lengthen_ne_nil _ _
  · exact emit_lines_ne_nil _ _

/-- In an item something has been written. -/
theorem closeItem_lines (h : Begun doc) (hl : doc.lines ≠ []) : doc.closeItem.lines ≠ [] := by
  have hparagraph {other : Document} (ho : other.lines ≠ []) : other.closeParagraph.lines ≠ [] := by
    rw [closeParagraph_eq]
    split
    · exact lengthen_ne_nil _ _
    · exact ho
  rw [closeItem_eq]
  rcases innermost_cases doc with ⟨ht, _⟩ | ⟨frame, rest, ht, hd⟩
  · rw [ht]
    exact hparagraph hl
  · rw [ht]
    dsimp only
    split
    · split
      · have hinner := h.closeInnerDisplays.flushTrap.closeParagraph
        refine hinner.blocks ?_
        rw [closeParagraph_blocks, flushTrap_blocks, closeInnerDisplays_blocks, hd]
        exact List.cons_ne_nil _ _
      · exact writeItemEnd_lines _ _
    · exact hparagraph hl

theorem closeItem (h : Begun doc) : Begun doc.closeItem := by
  rcases doc.closeItem_cases with he | ⟨frame, rest, hd, _, he⟩
  · rw [he]
    exact h.closeParagraph
  · refine begun_of_lines h.toAligned.closeItem (h.closeItem_lines (h.lines_ne_nil_of_dropWhile hd)) ?_
    rw [he]
    exact h.seated.replace hd rfl

theorem leaveItem (h : Begun doc) : Begun doc.closeItem.closeInnerDisplays :=
  h.closeItem.closeInnerDisplays

theorem writeItemStart_lines {kind : ListKind} (hl : doc.lines ≠ []) (term : Option Text) :
    (doc.writeItemStart kind term).lines ≠ [] := by
  cases kind with
  | terms => cases term <;> exact emit_lines_ne_nil _ _
  | itemized | ordered => exact emit_lines_ne_nil _ _
  | blockquote => exact hl

theorem beginItem (h : Begun doc) (term : Option Text) : Begun (doc.beginItem term) := by
  have haligned := h.toAligned.beginItem term
  rw [beginItem_eq] at haligned ⊢
  dsimp only at haligned ⊢
  rcases leaveItem_cases doc with ⟨_, _, hb⟩ | ⟨frame, rest, _, hd, hb⟩
  · have htop : doc.closeItem.closeInnerDisplays.topList? = none := by
      rw [topList?, openLists, hb]
      rfl
    rw [htop]
    exact h.leaveItem
  · have htop : doc.closeItem.closeInnerDisplays.topList? = some { frame with itemOpen := false } := by
      rw [topList?, openLists, hb]
      rfl
    rw [htop] at haligned ⊢
    refine begun_of_lines haligned (writeItemStart_lines ?_ term) ?_
    · exact h.leaveItem.blocks (by rw [hb]; exact List.cons_ne_nil _ _)
    · rw [writeItemStart_blocks, hb]
      exact h.seated.replace hd rfl

/-- Where a list is taken back, what is outside it stays. -/
theorem writeListEnd (h : Begun doc) (hb : doc.blocks = .list frame :: rest) (hp : doc.inParagraph = false) :
    Begun ({ doc with blocks := rest }.writeListEnd frame) := by
  have hj := h.joinNext_of_list hb
  have hfill := h.filling
  have hseated := h.seated
  rw [hb] at hfill hseated
  have hrest : Aligned { doc with blocks := rest } := aligned_of_joinNext hfill hj
  have haligned := hrest.writeListEnd hj frame
  unfold Document.writeListEnd at haligned ⊢
  dsimp only at haligned ⊢
  split at haligned
  · rename_i hu
    rw [if_pos hu]
    rw [Bool.and_eq_true, beq_iff_eq] at hu
    refine { haligned with paragraph := fun hn => ?_, blocks := fun hn => ?_, seated := hseated.2 }
    · rw [show _ = doc.inParagraph from rfl, hp] at hn
      cases hn
    · have hstart := hseated.1 hn
      change doc.lines.drop (doc.lines.length - frame.start) ≠ []
      rw [← List.length_pos_iff, List.length_drop]
      omega
  · rename_i hu
    rw [if_neg hu]
    refine begun_of_lines haligned (emit_lines_ne_nil _ _) ?_
    rw [emit_eq]
    split
    · rw [append_eq]
      exact hseated.2
    · exact hseated.2

theorem endList (h : Begun doc) : Begun doc.endList := by
  rcases doc.endList_cases with ⟨_, he⟩ | ⟨frame, rest, _, hb, he⟩
  · rwa [he]
  · rw [he]
    exact h.leaveItem.closeParagraph.writeListEnd (by rw [closeParagraph_blocks, hb]) (closeParagraph_inParagraph _)

theorem endLists (h : Begun doc) (frames : List ListFrame) : Begun (Document.endLists frames doc) := by
  unfold Document.endLists
  induction frames generalizing doc with
  | nil => exact h
  | cons _ frames ih => exact ih h.endList

theorem endListBy (h : Begun doc) (opener : String) : Begun (doc.endListBy opener).2 := by
  unfold Document.endListBy
  split
  · exact h.endLists _
  · exact h

theorem beginListWith (h : Begun doc) (opener : String) (kind : ListKind) (attributes : Text) :
    Begun (doc.beginListWith opener kind attributes) := by
  have haligned := h.toAligned.beginListWith opener kind attributes
  have hready := h.flushTrap.closeParagraph
  rw [beginListWith_eq] at haligned ⊢
  refine begun_of_lines haligned (addLine_ne_nil _ _ _) ⟨fun hn => ?_, hready.seated⟩
  exact List.length_pos_iff.mpr (hready.blocks hn)

theorem beginDisplay (h : Begun doc) (kind : DisplayKind) (opener : String) : Begun (doc.beginDisplay kind opener) := by
  have haligned := h.toAligned.beginDisplay kind opener
  rw [beginDisplay_eq] at haligned ⊢
  exact begun_of_lines haligned (addLine_ne_nil _ _ _) h.flushTrap.closeParagraph.seated

theorem endDisplay (h : Begun doc) : Begun doc.endDisplay.2 := by
  rcases doc.endDisplay_cases with ⟨_, he⟩ | ⟨lists, frame, rest, _, hb, he⟩
  · rwa [he]
  · rw [he]
    exact (h.endLists lists).writeDisplayEnd hb

theorem endAllDisplays (h : Begun doc) : Begun doc.endAllDisplays := by
  unfold Document.endAllDisplays
  generalize doc.openDisplays = displays
  induction displays generalizing doc with
  | nil => exact h
  | cons _ displays ih => exact ih h.endDisplay

theorem closeBlocks (h : Begun doc) : Begun doc.closeBlocks :=
  (h.flushTrap.endAllDisplays.endLists _).closeParagraph

/-- A line of text ends a paragraph, writes something, or is kept from a trap because it is blank. -/
theorem textLine_cases (doc : Document) (line : Text) :
    doc.textLine line = doc.closeParagraph ∨ (doc.textLine line).lines ≠ [] ∨ Renders doc (doc.textLine line) := by
  unfold Document.textLine
  split
  · exact Or.inl rfl
  · refine Or.inr ?_
    dsimp only
    split
    · split
      · exact Or.inr (doc.renders_renderInline line)
      · exact Or.inl (emit_lines_ne_nil _ _)
    · exact Or.inl (emit_lines_ne_nil _ _)

theorem renders (h : Begun doc) {after : Document} (hr : Renders doc after) : Begun after := by
  obtain ⟨_, _, _, _, rfl⟩ := hr
  exact {
    filling := h.filling
    joins := h.joins
    paragraph := h.paragraph
    blocks := h.blocks
    seated := h.seated }

theorem textLine (h : Begun doc) (line : Text) : Begun (doc.textLine line) := by
  have haligned := h.toAligned.textLine line
  have hseated : Seated (doc.textLine line).blocks := by
    rw [textLine_blocks]
    exact h.seated
  rcases textLine_cases doc line with he | hl | hr
  · rw [he]
    exact h.closeParagraph
  · exact begun_of_lines haligned hl hseated
  · exact h.renders hr

end Begun

/-- Whether a call writes text, lists and displays into what is open. -/
def Call.isInner : Call → Bool
  | .textLine _ | .closeParagraph | .beginListWith _ _ _ | .beginItem _ | .closeItem | .endList | .endListBy _
  | .breakLists _ | .endAllLists | .beginDisplay _ _ | .endDisplay => true
  | .addTerm | .pushSection _ _ | .pushSynopsis _ | .popSections _ | .endSections => false

theorem Begun.perform (h : Begun doc) {call : Call} (hi : call.isInner = true) : Begun (doc.perform call) := by
  cases call with
  | textLine line => exact h.textLine line
  | closeParagraph => exact h.closeParagraph
  | beginListWith opener kind attributes => exact h.beginListWith opener kind attributes
  | beginItem term => exact h.beginItem term
  | closeItem => exact h.closeItem
  | endList => exact h.endList
  | endListBy opener => exact h.endListBy opener
  | breakLists request => exact h.endLists _
  | endAllLists => exact h.endLists _
  | beginDisplay kind opener => exact h.beginDisplay kind opener
  | endDisplay => exact h.endDisplay
  | addTerm | pushSection | pushSynopsis | popSections | endSections => cases hi

end

end RoffDocBook.Document

/-! Text, lists and displays write no tags of sections, and when they have been closed, nothing of a document has changed
but its lines. -/
namespace RoffDocBook.Document
open Text Markup

/-- A document that differs from a page only in what writing text, lists and displays changes, and whose lines have no
tags of sections. -/
structure Confined (page doc : Document) : Prop where
  same : ∃ lines inParagraph joinNext trap fonts blocks diagnostics entities fill registers, doc =
    { page with
      lines, inParagraph, joinNext, trap, fonts, blocks, diagnostics, entities
      formatter := { page.formatter with fill, registers } }
  lines : ∀ line ∈ doc.lines, tagsOther line = true
  trap : ∀ set ∈ doc.trap, tagsOther (Trap.before set) = true ∧ tagsOther set.after = true
  substitutes : doc.substitutes = []
  glyphs : doc.formatter.glyphs = []

theorem tagsOther_list (kind : ListKind) :
    tagsOther ("<" ++ kind.element) = true ∧ tagsOther ("</" ++ kind.element ++ ">") = true := by
  cases kind <;> decide

theorem tagsOther_display (kind : DisplayKind) :
    tagsOther ("<" ++ kind.element) = true ∧ tagsOther ("</" ++ kind.element ++ ">") = true := by
  cases kind <;> decide

theorem tagsOther_remap {start : Text} (h : tagsOther start = true) (opener : String) :
    tagsOther (start ++ " remap='" ++ escapeAttribute opener.toList ++ "'>") = true := by
  have hopener := tagsOther_of_notMem (tagless_escapeAttribute opener.toList).1
  exact tagsOther_append (tagsOther_append (tagsOther_append h (by decide)) hopener) (by decide)

section
variable {page doc : Document} {piece : Text}

theorem tagsOther_lengthen {lines : List Text} (hl : ∀ line ∈ lines, tagsOther line = true)
    (hp : tagsOther piece = true) : ∀ line ∈ lengthen piece lines, tagsOther line = true := by
  cases lines with
  | nil => exact List.forall_mem_singleton.mpr hp
  | cons last before =>
    obtain ⟨hlast, hbefore⟩ := List.forall_mem_cons.mp hl
    exact List.forall_mem_cons.mpr ⟨tagsOther_append hlast hp, hbefore⟩

theorem tagsOther_addLine {lines : List Text} (hl : ∀ line ∈ lines, tagsOther line = true)
    (hp : tagsOther piece = true) (joins : Bool) : ∀ line ∈ addLine joins piece lines, tagsOther line = true := by
  unfold addLine
  split
  · exact tagsOther_lengthen hl hp
  · exact List.forall_mem_cons.mpr ⟨hp, hl⟩

theorem tagsOther_body {lines : List Text} (h : ∀ line ∈ lines, tagsOther line = true) :
    tagsOther (body lines) = true := by
  induction lines with
  | nil => rfl
  | cons line before ih =>
    obtain ⟨hline, hbefore⟩ := List.forall_mem_cons.mp h
    rw [body_cons]
    exact tagsOther_append (ih hbefore) (tagsOther_append (tagsOther_of_notMem (tagless_gap before).1) hline)

namespace Confined

theorem rewrite (h : Confined page doc) {lines : List Text} {inParagraph joinNext fill : Bool} {trap : Option Trap}
    {fonts : FontState} {blocks : List OpenBlock} (hl : ∀ line ∈ lines, tagsOther line = true)
    (ht : ∀ set ∈ trap, tagsOther (Trap.before set) = true ∧ tagsOther set.after = true) :
    Confined page { doc with
      lines, inParagraph, joinNext, trap, fonts, blocks
      formatter := { doc.formatter with fill } } := by
  obtain ⟨_, _, _, _, _, _, _, _, _, _, rfl⟩ := h.same
  exact ⟨⟨_, _, _, _, _, _, _, _, _, _, rfl⟩, hl, ht, h.substitutes, h.glyphs⟩

theorem renders (h : Confined page doc) {after : Document} (hr : Renders doc after) : Confined page after := by
  obtain ⟨_, _, _, _, rfl⟩ := hr
  obtain ⟨_, _, _, _, _, _, _, _, _, _, rfl⟩ := h.same
  exact ⟨⟨_, _, _, _, _, _, _, _, _, _, rfl⟩, h.lines, h.trap, h.substitutes, h.glyphs⟩

theorem emit (h : Confined page doc) (hp : tagsOther piece = true) : Confined page (doc.emit piece) := by
  rw [emit_eq]
  exact h.rewrite (tagsOther_addLine h.lines hp _) h.trap

theorem append (h : Confined page doc) (hp : tagsOther piece = true) : Confined page (doc.append piece) := by
  rw [append_eq]
  exact h.rewrite (tagsOther_lengthen h.lines hp) h.trap

/-- The state beside the output does not matter. -/
theorem beside (h : Confined page doc) (blocks : List OpenBlock) : Confined page { doc with blocks } :=
  h.rewrite h.lines h.trap

theorem closeParagraph (h : Confined page doc) : Confined page doc.closeParagraph := by
  have hclosing := tagsOther_closing doc.fonts
  rw [closeParagraph_eq]
  split
  · exact h.rewrite (tagsOther_lengthen (tagsOther_lengthen h.lines hclosing) (by decide)) h.trap
  · exact h

theorem openParagraph (h : Confined page doc) : Confined page doc.openParagraph := by
  rw [openParagraph_eq]
  split
  · exact h
  · exact h.rewrite (tagsOther_addLine h.lines (by decide) _) h.trap

theorem flushTrap (h : Confined page doc) : Confined page doc.flushTrap := by
  rw [flushTrap_eq]
  split
  · rename_i trap ht
    obtain ⟨hbefore, hafter⟩ := h.trap trap ht
    exact h.rewrite (tagsOther_addLine h.lines (tagsOther_append hbefore hafter) _) (fun _ hn => by cases hn)
  · exact h

theorem writeDisplayEnd (h : Confined page doc) (frame : DisplayFrame) :
    Confined page (doc.writeDisplayEnd frame) := by
  have hend := (tagsOther_display frame.kind).2
  rw [writeDisplayEnd_eq]
  exact h.rewrite (tagsOther_lengthen (tagsOther_lengthen h.lines (tagsOther_closing _)) hend) h.trap

theorem closeInnerDisplays (h : Confined page doc) : Confined page doc.closeInnerDisplays := by
  unfold Document.closeInnerDisplays
  generalize doc.blocks = blocks
  induction blocks generalizing doc with
  | nil => exact h
  | cons block rest ih =>
    cases block with
    | list frame => exact h
    | display frame => exact ih ((h.beside rest).writeDisplayEnd frame)

theorem filledItem (h : Confined page doc) : Confined page doc.filledItem := by
  unfold Document.filledItem
  split
  · exact h.append (by decide)
  · exact h

theorem writeItemEnd (h : Confined page doc) (kind : ListKind) : Confined page (doc.writeItemEnd kind) := by
  have hended : Confined page (doc.emit "</listitem>") := h.emit (by decide)
  unfold Document.writeItemEnd
  split
  · exact hended.append (by decide)
  · exact hended

theorem closeItem (h : Confined page doc) : Confined page doc.closeItem := by
  rw [closeItem_eq]
  cases doc.topList? with
  | none => exact h.closeParagraph
  | some frame =>
    dsimp only
    split
    · have hinner := h.closeInnerDisplays.flushTrap.closeParagraph
      split
      · exact hinner.beside _
      · exact (hinner.filledItem.writeItemEnd frame.kind).beside _
    · exact h.closeParagraph

theorem writeItemStart (h : Confined page doc) (kind : ListKind) {term : Option Text}
    (ht : ∀ t ∈ term, tagsOther t = true) :
    Confined page (doc.writeItemStart kind term) := by
  have hitem {other : Document} (ho : Confined page other) : Confined page (other.emit "<listitem>") :=
    ho.emit (by decide)
  cases kind with
  | terms =>
    cases term with
    | none =>
      have hentry : Confined page (doc.emit "<varlistentry>") := h.emit (by decide)
      refine hentry.rewrite hentry.lines fun trap htrap => ?_
      rw [← Option.some.inj htrap]
      decide
    | some term =>
      exact hitem (h.emit (tagsOther_append (tagsOther_append (by decide) (ht term rfl)) (by decide)))
  | itemized | ordered => exact hitem h
  | blockquote => exact h

theorem beginItem (h : Confined page doc) {term : Option Text} (ht : ∀ t ∈ term, tagsOther t = true) :
    Confined page (doc.beginItem term) := by
  have hinner := h.closeItem.closeInnerDisplays
  rw [beginItem_eq]
  dsimp only
  split
  · exact hinner
  · exact (hinner.beside _).writeItemStart _ ht

theorem writeListEnd (h : Confined page doc) (frame : ListFrame) : Confined page (doc.writeListEnd frame) := by
  have hend := (tagsOther_list frame.kind).2
  unfold Document.writeListEnd
  dsimp only
  split
  · exact h.rewrite (fun line hm => h.lines line (List.mem_of_mem_drop hm)) h.trap
  · split
    · exact (h.append (by decide)).emit hend
    · exact h.emit hend

theorem endList (h : Confined page doc) : Confined page doc.endList := by
  rcases doc.endList_cases with ⟨_, he⟩ | ⟨frame, rest, _, _, he⟩
  · rwa [he]
  · rw [he]
    exact (h.closeItem.closeInnerDisplays.closeParagraph.beside rest).writeListEnd _

theorem endLists (h : Confined page doc) (frames : List ListFrame) : Confined page (Document.endLists frames doc) := by
  unfold Document.endLists
  induction frames generalizing doc with
  | nil => exact h
  | cons _ frames ih => exact ih h.endList

theorem beginListWith (h : Confined page doc) (opener : String) (kind : ListKind) {attributes : Text}
    (ha : tagsOther attributes = true) : Confined page (doc.beginListWith opener kind attributes) := by
  have hready := h.flushTrap.closeParagraph
  have htag := tagsOther_remap (tagsOther_append (tagsOther_list kind).1 ha) opener
  rw [beginListWith_eq]
  exact hready.rewrite (tagsOther_addLine hready.lines htag _) hready.trap

theorem beginDisplay (h : Confined page doc) (kind : DisplayKind) (opener : String) :
    Confined page (doc.beginDisplay kind opener) := by
  have hready := h.flushTrap.closeParagraph
  have htag := tagsOther_remap (tagsOther_display kind).1 opener
  rw [beginDisplay_eq]
  exact hready.rewrite (tagsOther_addLine hready.lines htag _) hready.trap

theorem endDisplay (h : Confined page doc) : Confined page doc.endDisplay.2 := by
  rcases doc.endDisplay_cases with ⟨_, he⟩ | ⟨lists, frame, rest, _, _, he⟩
  · rwa [he]
  · rw [he]
    exact ((h.endLists lists).beside rest).writeDisplayEnd frame

theorem closeBlocks (h : Confined page doc) : Confined page doc.closeBlocks := by
  have hdisplays : Confined page doc.flushTrap.endAllDisplays := by
    unfold endAllDisplays
    generalize doc.flushTrap.openDisplays = displays
    have hstart := h.flushTrap
    generalize doc.flushTrap = flushed at hstart
    induction displays generalizing flushed with
    | nil => exact hstart
    | cons _ displays ih => exact ih _ hstart.endDisplay
  exact (hdisplays.endLists _).closeParagraph

theorem emit_finishLine (h : Confined page doc) {text : Text} (ht : tagsOther text = true) :
    Confined page ((doc.finishLine text).2.emit (doc.finishLine text).1) :=
  (h.renders (doc.renders_finishLine text)).emit (tagsOther_finishLine h.substitutes ht)

theorem textLine (h : Confined page doc) {line : Text} (ht : '<' ∉ line) : Confined page (doc.textLine line) := by
  have hrendered := h.renders (doc.renders_renderInline line)
  have htext := tagsOther_renderInline h.glyphs ht
  unfold Document.textLine
  split
  · exact h.closeParagraph
  · dsimp only
    generalize doc.renderInline line = rendered at hrendered htext ⊢
    split
    · rename_i trap htrap
      split
      · exact hrendered
      · have hready : Confined page { rendered.2 with trap := none } :=
          hrendered.rewrite hrendered.lines fun _ hn => by cases hn
        obtain ⟨hbefore, hafter⟩ := hrendered.trap trap htrap
        have hline := tagsOther_finishLine hready.substitutes htext
        have hfinished := hready.renders (renders_finishLine _ rendered.1)
        have hclosed : Confined page (finishLine { rendered.2 with trap := none } rendered.1).2.takeFontClose.2 :=
          hfinished.rewrite hfinished.lines hfinished.trap
        refine hclosed.emit (tagsOther_append (tagsOther_append ?_ (tagsOther_closing _)) hafter)
        exact tagsOther_append hbefore hline
    · split
      · exact hrendered.openParagraph.emit_finishLine htext
      · exact hrendered.emit_finishLine htext

end Confined

end

/-- What a call may be given that writes into a section: text and terms without tags of sections. No list is opened
inside a display. -/
def Suits (doc : Document) : Call → Prop
  | .textLine line => '<' ∉ line
  | .beginListWith _ _ attributes => doc.inDisplay = false ∧ tagsOther attributes = true
  | .beginItem term => ∀ t ∈ term, tagsOther t = true
  | .closeParagraph | .closeItem | .endList | .endListBy _ | .breakLists _ | .endAllLists | .beginDisplay _ _
  | .endDisplay => True
  | .addTerm | .pushSection _ _ | .pushSynopsis _ | .popSections _ | .endSections => False

instance (doc : Document) (call : Call) : Decidable (doc.Suits call) :=
  match call with
  | .textLine line => inferInstanceAs (Decidable ('<' ∉ line))
  | .beginListWith _ _ _ => inferInstanceAs (Decidable (_ ∧ _))
  | .beginItem term => inferInstanceAs (Decidable (∀ t ∈ term, tagsOther t = true))
  | .closeParagraph | .closeItem | .endList | .endListBy _ | .breakLists _ | .endAllLists | .beginDisplay _ _
  | .endDisplay => isTrue trivial
  | .addTerm | .pushSection _ _ | .pushSynopsis _ | .popSections _ | .endSections => isFalse id

/-- Every call suits the document that the calls before it have built. -/
def SuitsAll (doc : Document) : List Call → Prop
  | [] => True
  | call :: calls => doc.Suits call ∧ (doc.perform call).SuitsAll calls

instance decidableSuitsAll (doc : Document) : (calls : List Call) → Decidable (doc.SuitsAll calls)
  | [] => isTrue trivial
  | call :: calls =>
    have := decidableSuitsAll (doc.perform call) calls
    inferInstanceAs (Decidable (doc.Suits call ∧ (doc.perform call).SuitsAll calls))

section
variable {page doc : Document} {call : Call} {calls : List Call}

theorem Suits.isInner (hs : doc.Suits call) : call.isInner = true := by
  cases call with
  | addTerm | pushSection | pushSynopsis | popSections | endSections => exact hs.elim
  | _ => rfl

/-- Outside of displays a list begins on a line of its own. -/
theorem Suits.respects (hs : doc.Suits call) (h : Aligned doc) : Respects [] doc call := by
  refine ⟨List.nil_suffix, ?_⟩
  cases call with
  | beginListWith => exact h.joinNext_of_inDisplay hs.1
  | addTerm | pushSection | pushSynopsis | popSections | endSections => exact hs.elim
  | _ => trivial

theorem Confined.perform (h : Confined page doc) (hs : doc.Suits call) : Confined page (doc.perform call) := by
  cases call with
  | textLine line => exact h.textLine hs
  | closeParagraph => exact h.closeParagraph
  | beginListWith opener kind attributes => exact h.beginListWith opener kind hs.2
  | beginItem term => exact h.beginItem hs
  | closeItem => exact h.closeItem
  | endList => exact h.endList
  | endListBy opener =>
    unfold Document.perform endListBy
    dsimp only
    split
    · exact h.endLists _
    · exact h
  | breakLists request => exact h.endLists _
  | endAllLists => exact h.endLists _
  | beginDisplay kind opener => exact h.beginDisplay kind opener
  | endDisplay => exact h.endDisplay
  | addTerm | pushSection | pushSynopsis | popSections | endSections => exact hs.elim

theorem Confined.performAll (h : Confined page doc) (hs : doc.SuitsAll calls) : Confined page (doc.performAll calls) := by
  induction calls generalizing doc with
  | nil => exact h
  | cons call calls ih => exact ih (h.perform hs.1) hs.2

theorem Begun.performAll (h : Begun doc) (hs : doc.SuitsAll calls) : Begun (doc.performAll calls) := by
  induction calls generalizing doc with
  | nil => exact h
  | cons call calls ih => exact ih (h.perform hs.1.isInner) hs.2

end

end RoffDocBook.Document
