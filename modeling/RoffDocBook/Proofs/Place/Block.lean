import RoffDocBook.Document.Name
import RoffDocBook.Proofs.Document.Output
import RoffDocBook.Proofs.Formatter.Registers
import RoffDocBook.Table.Markup

/-! Writing moves nothing: the input that is left and the macros that are being expanded stay as they are. -/
namespace RoffDocBook.Document
open Text Markup

/-- Where reading has come to: the input that is left, and the macros that are being expanded, the innermost first. -/
def place (doc : Document) : Input × List Formatter.Invocation :=
  (doc.input, doc.formatter.invocations)

section
variable (doc : Document)

@[simp] theorem warn_place (complaint : Complaint) : (doc.warn complaint).place = doc.place :=
  rfl

@[simp] theorem error_place (complaint : Complaint) : (doc.error complaint).place = doc.place :=
  rfl

@[simp] theorem append_place (text : Text) : (doc.append text).place = doc.place := by
  rw [append_eq]
  rfl

@[simp] theorem emit_place (text : Text) : (doc.emit text).place = doc.place := by
  rw [emit_eq]
  rfl

theorem foldl_place {α : Type} {f : Document → α → Document} (h : ∀ doc a, (f doc a).place = doc.place)
    (l : List α) : (l.foldl f doc).place = doc.place := by
  induction l generalizing doc with
  | nil => rfl
  | cons a l ih => rw [List.foldl_cons, ih, h]

@[simp] theorem emitMarkup_place (markup : Text) : (doc.emitMarkup markup).place = doc.place :=
  foldl_place doc emit_place _

@[simp] theorem truncate_place (n : Nat) : (doc.truncate n).place = doc.place :=
  rfl

@[simp] theorem emitComment_place (text : Text) : (doc.emitComment text).place = doc.place := by
  unfold emitComment
  split
  · exact emit_place doc _
  · rfl

@[simp] theorem recordEntity_place (name : String) : (doc.recordEntity name).place = doc.place := by
  unfold recordEntity
  split <;> rfl

@[simp] theorem namedGlyph_place (name : Text) : (doc.namedGlyph name).2.place = doc.place := by
  unfold namedGlyph
  split
  · rfl
  · split
    · split
      · exact recordEntity_place doc _
      · rfl
    · split <;> rfl

@[simp] theorem glyphMarkup_place (name : Text) : (doc.glyphMarkup name).2.place = doc.place := by
  unfold glyphMarkup
  split
  · split
    · rfl
    · exact namedGlyph_place doc _
  · exact namedGlyph_place doc _

@[simp] theorem renderPiece_place (piece : Inline.Piece) : (doc.renderPiece piece).2.place = doc.place := by
  cases piece with
  | plain text => rfl
  | font name =>
    rw [renderPiece]
    split <;> rfl
  | glyph name => exact glyphMarkup_place doc name
  | numbered number =>
    rw [renderPiece]
    split
    · split <;> rfl
    · rfl
  | width text => rfl

@[simp] theorem renderPieces_place (pieces : List Inline.Piece) : (doc.renderPieces pieces).2.place = doc.place := by
  induction pieces generalizing doc with
  | nil => rfl
  | cons piece rest ih =>
    rw [renderPieces]
    exact (ih _).trans (renderPiece_place doc piece)

@[simp] theorem renderInline_place (text : Text) : (doc.renderInline text).2.place = doc.place := by
  unfold renderInline
  dsimp only
  rw [renderPieces_place]
  split <;> rfl

@[simp] theorem interpolate_place (text : Text) : (doc.interpolate text).2.place = doc.place :=
  congrArg (doc.input, ·) (doc.formatter.recounts_interpolate text).invocations

@[simp] theorem renderIsolated_place (text : Text) : (doc.renderIsolated text).2.place = doc.place := by
  unfold renderIsolated
  dsimp only
  rw [interpolate_place]
  exact renderInline_place _ text

@[simp] theorem finishLine_place (text : Text) : (doc.finishLine text).2.place = doc.place :=
  interpolate_place doc text

@[simp] theorem setSubstitute_place (c : Char) (text : Text) : (doc.setSubstitute c text).place = doc.place :=
  rfl

@[simp] theorem setFont_place (name : String) : (doc.setFont name).place = doc.place := by
  have hclosed : (if doc.fonts.closing.isEmpty then doc else doc.append doc.fonts.closing).place = doc.place := by
    split
    · rfl
    · exact append_place doc _
  unfold setFont
  dsimp only
  split
  · exact hclosed
  · exact hclosed

@[simp] theorem closeParagraph_place : doc.closeParagraph.place = doc.place := by
  rw [closeParagraph_eq]
  split <;> rfl

@[simp] theorem openParagraph_place : doc.openParagraph.place = doc.place := by
  rw [openParagraph_eq]
  split <;> rfl

@[simp] theorem flushTrap_place : doc.flushTrap.place = doc.place := by
  unfold flushTrap
  split
  · exact emit_place _ _
  · rfl

@[simp] theorem closeFont_place : doc.closeFont.place = doc.place := by
  rw [closeFont_eq]
  rfl

@[simp] theorem textLine_place (line : Text) : (doc.textLine line).place = doc.place := by
  unfold textLine
  split
  · exact closeParagraph_place doc
  · dsimp only
    split
    · split
      · exact renderInline_place doc line
      · rw [emit_place]
        exact (finishLine_place _ _).trans (renderInline_place doc line)
    · rw [emit_place, finishLine_place]
      split
      · rw [openParagraph_place, renderInline_place]
      · exact renderInline_place doc line

end
/-! Opening and closing blocks and sections, and writing what they hold, moves nothing in the input. -/

section
variable (doc : Document)

@[simp] theorem writeDisplayEnd_place (frame : DisplayFrame) : (doc.writeDisplayEnd frame).place = doc.place := by
  have h : (doc.closeFont.append ("</" ++ frame.kind.element ++ ">")).place = doc.place := by
    rw [append_place, closeFont_place]
  exact h

theorem closeInnerDisplays_go_place (blocks : List OpenBlock) :
    (closeInnerDisplays.go blocks doc).place = doc.place := by
  induction blocks generalizing doc with
  | nil => rfl
  | cons block rest ih =>
    cases block with
    | list frame => rfl
    | display frame =>
      rw [closeInnerDisplays.go, ih]
      exact writeDisplayEnd_place _ frame

@[simp] theorem closeInnerDisplays_place : doc.closeInnerDisplays.place = doc.place :=
  closeInnerDisplays_go_place doc doc.blocks

@[simp] theorem closeItem_place : doc.closeItem.place = doc.place := by
  have h : doc.closeInnerDisplays.flushTrap.closeParagraph.place = doc.place := by
    rw [closeParagraph_place, flushTrap_place, closeInnerDisplays_place]
  unfold closeItem
  split
  · exact closeParagraph_place doc
  · split
    · exact closeParagraph_place doc
    · simp only [apply_ite place, append_place, emit_place, ite_self]
      exact h

@[simp] theorem endList_place : doc.endList.place = doc.place := by
  have h : doc.closeItem.closeInnerDisplays.closeParagraph.place = doc.place := by
    rw [closeParagraph_place, closeInnerDisplays_place, closeItem_place]
  unfold endList
  split
  · rfl
  · dsimp only
    split
    · simp only [apply_ite place, truncate_place, append_place, emit_place, ite_self]
      exact h
    · exact h

@[simp] theorem endLists_place (frames : List ListFrame) : (endLists frames doc).place = doc.place :=
  foldl_place doc (fun doc _ => endList_place doc) frames

@[simp] theorem endAllLists_place : doc.endAllLists.place = doc.place :=
  endLists_place doc doc.openLists

@[simp] theorem endListBy_place (opener : String) : (doc.endListBy opener).2.place = doc.place := by
  unfold endListBy
  split
  · exact endLists_place doc _
  · rfl

@[simp] theorem breakLists_place (request : String) : (doc.breakLists request).place = doc.place :=
  endLists_place doc _

@[simp] theorem beginListWith_place (opener : String) (kind : ListKind) (attributes : Text) :
    (doc.beginListWith opener kind attributes).place = doc.place := by
  have h : doc.flushTrap.closeParagraph.place = doc.place := by
    rw [closeParagraph_place, flushTrap_place]
  exact (emit_place _ _).trans h

@[simp] theorem beginList_place (opener : String) (kind : ListKind) :
    (doc.beginList opener kind).place = doc.place :=
  beginListWith_place doc opener kind ""

@[simp] theorem beginItem_place (term : Option Text) : (doc.beginItem term).place = doc.place := by
  have h : doc.closeItem.closeInnerDisplays.place = doc.place := by
    rw [closeInnerDisplays_place, closeItem_place]
  unfold beginItem
  dsimp only
  split
  · exact h
  · split
    · rw [emit_place, emit_place]
      exact h
    · exact (emit_place _ _).trans h
    · exact (emit_place _ _).trans h
    · exact (emit_place _ _).trans h
    · exact h

@[simp] theorem addTerm_place : doc.addTerm.2.place = doc.place := by
  unfold addTerm
  split
  · rfl
  · split
    · split <;> rfl
    · rfl

@[simp] theorem beginDisplay_place (kind : DisplayKind) (opener : String) :
    (doc.beginDisplay kind opener).place = doc.place := by
  have h : doc.flushTrap.closeParagraph.place = doc.place := by
    rw [closeParagraph_place, flushTrap_place]
  exact (emit_place _ _).trans h

@[simp] theorem endDisplay_place : doc.endDisplay.2.place = doc.place := by
  unfold endDisplay
  split
  · rfl
  · dsimp only
    split
    · rw [writeDisplayEnd_place]
      exact endLists_place doc _
    · exact endLists_place doc _

@[simp] theorem endAllDisplays_place : doc.endAllDisplays.place = doc.place :=
  foldl_place doc (fun doc _ => endDisplay_place doc) _

@[simp] theorem closeBlocks_place : doc.closeBlocks.place = doc.place := by
  unfold closeBlocks
  rw [closeParagraph_place, endAllLists_place, endAllDisplays_place, flushTrap_place]

@[simp] theorem endSection_place : doc.endSection.place = doc.place := by
  unfold endSection
  dsimp only
  split
  · exact closeBlocks_place doc
  · simp only [apply_ite place, truncate_place, warn_place, append_place, emit_place, ite_self]
    exact closeBlocks_place doc

@[simp] theorem popSections_place (depth : Nat) : (doc.popSections depth).place = doc.place :=
  foldl_place doc (fun doc _ => endSection_place doc) _

@[simp] theorem openSection_place (depth : Nat) (element title : Text) :
    (doc.openSection depth element title).place = doc.place := by
  have h : (doc.closeBlocks.popSections depth).place = doc.place := by
    rw [popSections_place, closeBlocks_place]
  exact (emit_place _ _).trans h

@[simp] theorem pushSection_place (depth : Nat) (title : Text) : (doc.pushSection depth title).place = doc.place :=
  openSection_place doc _ _ title

@[simp] theorem pushSynopsis_place (title : Text) : (doc.pushSynopsis title).place = doc.place := by
  unfold pushSynopsis
  split
  · exact openSection_place doc _ _ title
  · exact pushSection_place doc 1 title

@[simp] theorem beginFootnote_place : doc.beginFootnote.place = doc.place :=
  rfl

@[simp] theorem endDiversion_place : doc.endDiversion.2.place = doc.place := by
  have h : doc.flushTrap.closeParagraph.place = doc.place := by
    rw [closeParagraph_place, flushTrap_place]
  unfold endDiversion
  dsimp only
  split
  · exact h
  · exact h

@[simp] theorem endFootnote_place : doc.endFootnote.place = doc.place := by
  unfold endFootnote
  split
  · rfl
  · dsimp only
    split
    · rw [append_place, endDiversion_place]
    · exact endDiversion_place doc

@[simp] theorem addInclusion_place (file : Text) : (doc.addInclusion file).2.place = doc.place := by
  unfold addInclusion
  dsimp only
  generalize (if doc.isFifth then _ else _ : Text) = markup
  split <;> rfl

@[simp] theorem learn_place (token : Text) (tag : HintTag) : (doc.learn token tag).place = doc.place := by
  unfold learn
  split <;> rfl

@[simp] theorem emitNames_place (names : List Text) (purpose : Text) :
    (doc.emitNames names purpose).place = doc.place := by
  unfold emitNames
  dsimp only
  rw [emitMarkup_place, closeParagraph_place, renderIsolated_place]
  split
  · exact foldl_place _ (fun doc name => learn_place doc name _) names
  · rfl

@[simp] theorem nameSection_place (text : Text) : (doc.nameSection text).place = doc.place := by
  unfold nameSection
  split
  · exact emitNames_place doc _ _
  · exact emitNames_place _ _ _

@[simp] theorem indentedParagraph_place (tag : Text) (request : String) :
    (doc.indentedParagraph tag request).place = doc.place := by
  have hnew : ((doc.beginList request .blockquote).beginItem none).place = doc.place := by
    rw [beginItem_place, beginList_place]
  unfold indentedParagraph
  split
  · split
    · split
      · exact closeParagraph_place doc
      · exact hnew
    · exact hnew
  · simp only [apply_ite place, beginItem_place, renderIsolated_place, ite_self]
    split
    · split
      · rfl
      · split
        · rw [beginList_place, endList_place]
        · exact beginList_place doc request _
    · exact beginList_place doc request _

@[simp] theorem firstTerm?_place (texts : List Text) : (doc.firstTerm? texts).2.place = doc.place := by
  induction texts generalizing doc with
  | nil => rfl
  | cons text rest ih =>
    rw [firstTerm?]
    dsimp only
    split
    · rw [ih, renderIsolated_place]
    · exact renderIsolated_place doc text

@[simp] theorem indexTerm_place (texts : List Text) : (doc.indexTerm texts).place = doc.place := by
  have hfirst := firstTerm?_place doc texts
  unfold indexTerm
  generalize doc.firstTerm? texts = found at hfirst
  match found with
  | (none, next) => exact hfirst
  | (some (primary, rest), next) =>
    dsimp only
    simp only [apply_ite place, append_place, emitMarkup_place, ite_self, firstTerm?_place]
    exact hfirst

open Table

@[simp] theorem renderEntries_place (entries : List Entry) : (doc.renderEntries entries).2.place = doc.place := by
  induction entries generalizing doc with
  | nil => rfl
  | cons entry rest ih =>
    rw [renderEntries]
    exact (ih _).trans (renderIsolated_place doc entry.content)

@[simp] theorem renderRows_place (rows : List Row) : (doc.renderRows rows).2.place = doc.place := by
  induction rows generalizing doc with
  | nil => rfl
  | cons row rest ih =>
    rw [renderRows]
    exact (ih _).trans (renderEntries_place doc row.entries)

@[simp] theorem renderTable_place (lines : List Text) (explicit : Bool) :
    (doc.renderTable lines explicit).place = doc.place := by
  have h : (if (Grid.ofLines lines explicit).formatted then doc else doc.warn .tableWithoutFormat).place = doc.place := by
    split <;> rfl
  unfold renderTable
  dsimp only
  split
  · exact h
  · rw [emitMarkup_place]
    exact (renderRows_place _ _).trans h

end
end RoffDocBook.Document
