import RoffDocBook.Package.Mdoc
import RoffDocBook.Proofs.Place.Block

/-! The requests of the semantic manual package write, and move nothing in the input. -/
namespace RoffDocBook.Mdoc
open Text Document

section
variable (doc : Document)

@[simp] theorem renderAll_place (texts : List Text) : (renderAll doc texts).2.place = doc.place := by
  induction texts generalizing doc with
  | nil => rfl
  | cons text rest ih =>
    rw [renderAll]
    exact (ih _).trans (renderIsolated_place doc text)

theorem addElement_place (rule : ElementRule) (out : Line × Document) (argument : Text) :
    (addElement rule out argument).2.place = out.2.place := by
  unfold addElement
  split
  · rfl
  · exact renderIsolated_place out.2 argument

/-- Adding arguments one by one moves nothing if adding one does not. -/
theorem foldl_line_place {add : Line × Document → Text → Line × Document}
    (h : ∀ out argument, (add out argument).2.place = out.2.place) (arguments : List Text) (out : Line × Document) :
    (arguments.foldl add out).2.place = out.2.place := by
  induction arguments generalizing out with
  | nil => rfl
  | cons argument rest ih => rw [List.foldl_cons, ih, h]

theorem addElements_place (rule : ElementRule) (arguments : List Text) (out : Line × Document) :
    (arguments.foldl (addElement rule) out).2.place = out.2.place :=
  foldl_line_place (addElement_place rule) arguments out

theorem addWords_place (arguments : List Text) (out : Line × Document) :
    (arguments.foldl addWord out).2.place = out.2.place :=
  addElements_place _ arguments out

theorem addCitation_place (out : Line) (body : List Text) : (addCitation out doc body).2.place = doc.place := by
  unfold addCitation
  split
  · rfl
  · rename_i page rest
    exact (addWords_place (rest.drop 1) _).trans (renderIsolated_place doc page)

theorem addFunction_place (out : Line) (body : List Text) : (addFunction out doc body).2.place = doc.place := by
  unfold addFunction
  split
  · rfl
  · rename_i name parameters
    exact (renderIsolated_place _ name).trans (renderAll_place doc parameters)

theorem addLink_place (out : Line) (body : List Text) : (addLink out doc body).2.place = doc.place := by
  unfold addLink
  split
  · rfl
  · rename_i target texts
    exact (renderAll_place _ texts).trans (renderIsolated_place doc target)

theorem addSectionLink_place (out : Line) (body : List Text) :
    (addSectionLink out doc body).2.place = doc.place :=
  renderAll_place doc body

theorem addStandard_place (out : Line) (body : List Text) : (addStandard out doc body).2.place = doc.place := by
  unfold addStandard
  split
  · rfl
  · split <;> rfl

theorem addBody_place {add : Line → Document → List Text → Line × Document}
    (h : ∀ out doc body, (add out doc body).2.place = doc.place) (out : Line) (arguments : List Text) :
    (addBody add out doc arguments).2.place = doc.place :=
  h out doc _

theorem addCall_place (out : Line) (token : Text) (rest : List Text) :
    (addCall out doc token rest).2.1.place = doc.place := by
  unfold addCall
  dsimp only
  split
  · exact addElements_place _ _ _
  · rfl
  · rfl
  · rfl
  · split
    · exact addElements_place _ _ _
    · exact addWords_place _ _
    · exact addWords_place _ _
    · exact addWords_place _ _
    · exact addWords_place _ _
    · exact addWords_place _ _
    · exact addBody_place doc (fun out doc body => addCitation_place doc out body) _ _
    · exact addBody_place doc (fun out doc body => addFunction_place doc out body) _ _
    · exact addBody_place doc (fun out doc body => addLink_place doc out body) _ _
    · exact addBody_place doc (fun out doc body => addSectionLink_place doc out body) out _
    · exact addBody_place doc (fun out doc body => addStandard_place doc out body) _ _
    · split
      · rfl
      · exact renderIsolated_place doc _
    · split
      · rfl
      · exact renderIsolated_place doc _
    · rfl
    · rfl
    · split
      · rfl
      · exact renderIsolated_place doc _
    · rfl
    · exact addWords_place _ _

theorem addTokens_place (out : Line) (tokens : List Text) : (addTokens out doc tokens).2.place = doc.place := by
  fun_induction addTokens out doc tokens with
  | case1 out doc => rfl
  | case2 before doc token rest _ out next h ih =>
    have hword := addElement_place ⟨[], [], none⟩ (before, doc) token
    rw [show addElement ⟨[], [], none⟩ (before, doc) token = (out, next) from h] at hword
    exact ih.trans hword
  | case3 out doc token rest _ opening closing _ inner next h ih =>
    rw [h] at ih
    exact ih
  | case4 before doc token rest _ _ out next n h ih =>
    have hcall := addCall_place doc before token rest
    rw [h] at hcall
    exact ih.trans hcall

end

end RoffDocBook.Mdoc

namespace RoffDocBook.Document
open Text Markup Mdoc

section
variable (doc : Document)

@[simp] theorem renderTokens_place (tokens : List Text) : (doc.renderTokens tokens).2.place = doc.place :=
  addTokens_place doc {} tokens

@[simp] theorem beginMdocList_place (arguments : List Text) : (doc.beginMdocList arguments).place = doc.place := by
  unfold beginMdocList
  dsimp only
  split
  · exact closeParagraph_place doc
  · split
    · exact beginListWith_place doc "Bl" _ _
    · exact beginListWith_place _ "Bl" _ _

@[simp] theorem columnCells_place (fields : List (List Text)) : (doc.columnCells fields).2.place = doc.place := by
  induction fields generalizing doc with
  | nil => rfl
  | cons field fields ih =>
    rw [columnCells]
    exact (ih _).trans (renderTokens_place doc field)

@[simp] theorem writeColumns_place (rows : List (List Text)) : (doc.writeColumns rows).place = doc.place := by
  unfold writeColumns
  dsimp only
  split
  · rfl
  · rw [emitMarkup_place, closeParagraph_place]

@[simp] theorem endMdocList_place : doc.endMdocList.place = doc.place := by
  unfold endMdocList
  split
  · rfl
  · dsimp only
    split
    · exact endListBy_place _ "Bl"
    · exact writeColumns_place _ _

@[simp] theorem beginMdocDisplay_place (arguments : List Text) :
    (doc.beginMdocDisplay arguments).place = doc.place := by
  unfold beginMdocDisplay
  dsimp only
  split
  · exact beginDisplay_place doc .literal "Bd"
  · split
    · exact (beginItem_place _ none).trans (beginList_place doc "Bd" .blockquote)
    · exact closeParagraph_place doc

@[simp] theorem endMdocDisplay_place : doc.endMdocDisplay.place = doc.place := by
  unfold endMdocDisplay
  split
  · rfl
  · dsimp only
    split
    · exact endDisplay_place _
    · exact endListBy_place _ "Bd"
    · exact closeParagraph_place _

@[simp] theorem endReference_place : doc.endReference.place = doc.place := by
  unfold endReference
  split
  · rfl
  · rw [emitMarkup_place]
    exact closeParagraph_place _

@[simp] theorem writeCommand_place : doc.writeCommand.place = doc.place := by
  unfold writeCommand
  split
  · rfl
  · dsimp only
    rw [emitMarkup_place, closeParagraph_place]
    split <;> rfl

@[simp] theorem writeFunctions_place : doc.writeFunctions.place = doc.place := by
  unfold writeFunctions
  split
  · rfl
  · dsimp only
    simp only [apply_ite place, emitMarkup_place, closeParagraph_place, ite_self]
    split <;> rfl

@[simp] theorem writeSynopsis_place : doc.writeSynopsis.place = doc.place := by
  rw [writeSynopsis, writeFunctions_place, writeCommand_place]

theorem synopsisArgument_place (tags : Text × Text) (argument : Text) :
    (doc.synopsisArgument tags argument).2.place = doc.place := by
  unfold synopsisArgument
  split
  · rfl
  · split
    · rfl
    · split
      · rfl
      · exact renderIsolated_place doc argument

theorem synopsisArguments_place (tags : Text × Text) (arguments : List Text) :
    (doc.synopsisArguments tags arguments).2.place = doc.place := by
  unfold synopsisArguments
  generalize hr : (false, doc) = result
  have hd : result.2.place = doc.place := by rw [← hr]
  clear hr
  induction arguments generalizing result with
  | nil => exact hd
  | cons argument rest ih => exact ih _ ((synopsisArgument_place result.2 tags argument).trans hd)

theorem synopsisFallback_place (token : Text) : (doc.synopsisFallback token).place = doc.place := by
  unfold synopsisFallback
  split <;> rfl

theorem synopsisToken_place (token : Text) (rest : List Text) :
    (doc.synopsisToken token rest).1.place = doc.place := by
  unfold synopsisToken
  dsimp only
  split
  · simp only [apply_ite place, synopsisFallback_place, ite_self]
    exact synopsisArguments_place doc _ _
  · split
    · rfl
    · rfl
    · rfl
    · rfl
    · rfl
    · rfl
    · rfl
    · rfl
    · rfl
    · rfl
    · split
      · exact renderTokens_place doc _
      · split
        · rfl
        · exact renderIsolated_place doc token

@[simp] theorem synopsisTokens_place (tokens : List Text) : (doc.synopsisTokens tokens).place = doc.place := by
  fun_induction synopsisTokens doc tokens with
  | case1 doc => rfl
  | case2 doc token rest _ ih => exact ih
  | case3 doc token rest _ next n h ih =>
    have htoken := synopsisToken_place doc token rest
    rw [h] at htoken
    exact ih.trans htoken

@[simp] theorem beginCommand_place (arguments : List Text) : (doc.beginCommand arguments).place = doc.place := by
  unfold beginCommand
  dsimp only
  split
  · split
    · exact (synopsisTokens_place _ _).trans (writeSynopsis_place doc)
    · exact (synopsisTokens_place _ _).trans ((renderIsolated_place _ _).trans (writeSynopsis_place doc))
  · exact (synopsisTokens_place _ _).trans (writeSynopsis_place doc)

@[simp] theorem functionRequest_place (request : String) (arguments : List Text) :
    (doc.functionRequest request arguments).place = doc.place := by
  have h : (renderAll doc.writeCommand arguments).2.place = doc.place := by
    rw [renderAll_place, writeCommand_place]
  unfold functionRequest
  dsimp only
  split
  · exact h
  · exact h
  · exact h
  · exact h
  · split
    · exact h
    · exact h
  · exact h
  · split
    · exact h
    · exact h
  · split
    · exact h
    · exact h

@[simp] theorem mdocPrepare_place (request : String) : (doc.mdocPrepare request).place = doc.place := by
  unfold mdocPrepare
  split
  · exact writeSynopsis_place doc
  · rfl

@[simp] theorem writeNamesAlone_place (complain : Bool) : (doc.writeNamesAlone complain).place = doc.place := by
  unfold writeNamesAlone
  split
  · refine (emitNames_place _ _ _).trans ?_
    split <;> rfl
  · rfl

@[simp] theorem mdocSection_place (arguments : List Text) (depth : Nat) :
    (doc.mdocSection arguments depth).place = doc.place := by
  have h : ((doc.writeNamesAlone true).renderTokens arguments).2.place = doc.place := by
    rw [renderTokens_place, writeNamesAlone_place]
  unfold mdocSection
  dsimp only
  split
  · exact (popSections_place _ 1).trans h
  · split
    · exact (pushSynopsis_place _ _).trans h
    · exact (pushSection_place _ _ _).trans h

@[simp] theorem addPageNames_place (arguments : List Text) : (doc.addPageNames arguments).place = doc.place :=
  renderAll_place doc _

@[simp] theorem standardSentence_place (request : String) (arguments : List Text) :
    (doc.standardSentence request arguments).2.place = doc.place := by
  unfold standardSentence
  dsimp only
  split
  · split
    · exact renderIsolated_place doc _
    · rfl
  · split
    · exact renderIsolated_place doc _
    · rfl
  · rfl
  · rfl

@[simp] theorem textParameters_place (before : Nat) (arguments : List Text) :
    (doc.textParameters before arguments).2.place = doc.place := by
  induction arguments generalizing doc before with
  | nil => rfl
  | cons argument rest ih =>
    rw [textParameters]
    exact (ih _ _).trans (renderIsolated_place doc argument)

@[simp] theorem textTokens_place (tokens : List Text) : (doc.textTokens tokens).place = doc.place :=
  (textLine_place _ _).trans (renderTokens_place doc tokens)

@[simp] theorem setParameters_place (parameters : Option Nat) : (doc.setParameters parameters).place = doc.place :=
  rfl

@[simp] theorem referenceField_place (request : Request) (key : Char) :
    (doc.referenceField request key).place = doc.place := by
  unfold referenceField
  dsimp only
  split
  · exact renderTokens_place doc _
  · exact (textLine_place _ _).trans (renderTokens_place doc _)

end

end RoffDocBook.Document
