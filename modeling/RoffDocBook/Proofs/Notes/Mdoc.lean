import RoffDocBook.Package.Mdoc
import RoffDocBook.Proofs.Notes.Block

/-! The requests of the semantic manual package that write. -/
namespace RoffDocBook.Document.Notes
open Text Markup Mdoc

section
variable {still : Bool} {base : Document}

theorem addElement (rule : ElementRule) {out : Line × Document} (h : Notes still base out.2) (argument : Text) :
    Notes still base (Mdoc.addElement rule out argument).2 := by
  unfold Mdoc.addElement
  split
  · exact h
  · exact h.renderIsolated argument

theorem addElements (rule : ElementRule) (arguments : List Text) {out : Line × Document} (h : Notes still base out.2) :
    Notes still base (arguments.foldl (Mdoc.addElement rule) out).2 := by
  induction arguments generalizing out with
  | nil => exact h
  | cons argument rest ih => exact ih (addElement rule h argument)

theorem addWords (arguments : List Text) {out : Line × Document} (h : Notes still base out.2) :
    Notes still base (arguments.foldl addWord out).2 :=
  addElements _ arguments h

variable {doc : Document}

theorem renderAll (h : Notes still base doc) (texts : List Text) : Notes still base (Mdoc.renderAll doc texts).2 := by
  induction texts generalizing doc with
  | nil => exact h
  | cons text rest ih =>
    rw [Mdoc.renderAll]
    exact ih (h.renderIsolated text)

theorem addCitation (h : Notes still base doc) (out : Line) (body : List Text) :
    Notes still base (Mdoc.addCitation out doc body).2 := by
  unfold Mdoc.addCitation
  split
  · exact h
  · rename_i page rest
    exact addWords (rest.drop 1) (h.renderIsolated page)

theorem addFunction (h : Notes still base doc) (out : Line) (body : List Text) :
    Notes still base (Mdoc.addFunction out doc body).2 := by
  unfold Mdoc.addFunction
  split
  · exact h
  · rename_i name parameters
    exact (h.renderAll parameters).renderIsolated name

theorem addLink (h : Notes still base doc) (out : Line) (body : List Text) :
    Notes still base (Mdoc.addLink out doc body).2 := by
  unfold Mdoc.addLink
  split
  · exact h
  · rename_i target texts
    exact (h.renderIsolated target).renderAll texts

theorem addStandard (h : Notes still base doc) (out : Line) (body : List Text) :
    Notes still base (Mdoc.addStandard out doc body).2 := by
  unfold Mdoc.addStandard
  split
  · exact h
  · split
    · exact h
    · exact h.warn _

theorem addCall (h : Notes still base doc) (out : Line) (token : Text) (rest : List Text) :
    Notes still base (Mdoc.addCall out doc token rest).2.1 := by
  unfold Mdoc.addCall
  dsimp only
  split
  · exact addElements _ _ h
  · exact h
  · exact h
  · exact h
  · split
    · exact addElements _ _ h
    · exact addWords _ h
    · exact addWords _ h
    · exact addWords _ h
    · exact addWords _ h
    · exact addWords _ h
    · exact h.addCitation out _
    · exact h.addFunction out _
    · exact h.addLink out _
    · exact h.renderAll _
    · exact h.addStandard out _
    · split
      · exact h
      · exact h.renderIsolated _
    · split
      · exact h
      · exact h.renderIsolated _
    · exact h
    · exact h
    · split
      · exact h
      · exact h.renderIsolated _
    · exact h
    · exact addWords _ h

theorem addTokens (h : Notes still base doc) (out : Line) (tokens : List Text) :
    Notes still base (Mdoc.addTokens out doc tokens).2 := by
  fun_induction Mdoc.addTokens out doc tokens with
  | case1 out doc => exact h
  | case2 before doc token rest _ out next hw ih =>
    have hbefore : Notes still base ((before, doc) : Line × Document).2 := h
    have hword := addElement ⟨[], [], none⟩ hbefore token
    rw [show Mdoc.addElement ⟨[], [], none⟩ (before, doc) token = (out, next) from hw] at hword
    exact ih hword
  | case3 out doc token rest _ opening closing _ inner next hi ih =>
    have hinner := ih h
    rw [hi] at hinner
    exact hinner
  | case4 before doc token rest _ _ out next n hc ih =>
    have hcall := h.addCall before token rest
    rw [hc] at hcall
    exact ih hcall

end

section
variable {still : Bool} {base doc : Document} (h : Notes still base doc)
include h

theorem renderTokens (tokens : List Text) : Notes still base (doc.renderTokens tokens).2 :=
  h.addTokens {} tokens

theorem beginMdocList (arguments : List Text) : Notes still base (doc.beginMdocList arguments) := by
  unfold Document.beginMdocList
  dsimp only
  split
  · exact h.closeParagraph.same (by rfl)
  · split
    · exact (h.beginListWith "Bl" _ _).same (by rfl)
    · exact ((h.warn _).beginListWith "Bl" _ _).same (by rfl)

theorem columnCells (fields : List (List Text)) : Notes still base (doc.columnCells fields).2 := by
  induction fields generalizing doc with
  | nil => exact h
  | cons field fields ih =>
    rw [Document.columnCells]
    exact ih (h.renderTokens field)

theorem writeColumns (rows : List (List Text)) : Notes still base (doc.writeColumns rows) := by
  unfold Document.writeColumns
  dsimp only
  split
  · exact h
  · exact h.closeParagraph.emitMarkup _

theorem endMdocList : Notes still base doc.endMdocList := by
  unfold Document.endMdocList
  split
  · exact h.warn _
  · dsimp only
    split
    · exact endListBy (h.same (by rfl)) "Bl"
    · exact writeColumns (h.same (by rfl)) _

theorem beginMdocDisplay (arguments : List Text) : Notes still base (doc.beginMdocDisplay arguments) := by
  unfold Document.beginMdocDisplay
  dsimp only
  split
  · exact (h.beginDisplay .literal "Bd").same (by rfl)
  · split
    · exact ((h.beginList "Bd" .blockquote).beginItem none).same (by rfl)
    · exact h.closeParagraph.same (by rfl)

theorem endMdocDisplay : Notes still base doc.endMdocDisplay := by
  unfold Document.endMdocDisplay
  split
  · exact h.warn _
  · dsimp only
    split
    · exact endDisplay (h.same (by rfl))
    · exact endListBy (h.same (by rfl)) "Bd"
    · exact closeParagraph (h.same (by rfl))

theorem endReference : Notes still base doc.endReference := by
  unfold Document.endReference
  split
  · exact h.warn _
  · exact emitMarkup (closeParagraph (h.same (by rfl))) _

theorem writeCommand : Notes still base doc.writeCommand := by
  unfold Document.writeCommand
  split
  · exact h
  · refine emitMarkup (closeParagraph (.ite ?_ (warn ?_ _))) _ <;> exact h.same (by rfl)

theorem writeFunctions : Notes still base doc.writeFunctions := by
  unfold Document.writeFunctions
  split
  · exact h
  · dsimp only
    split <;> refine .ite ?_ (emitMarkup (closeParagraph ?_) _)
    · exact warn (h.same (by rfl)) _
    · exact warn (h.same (by rfl)) _
    · exact h.same (by rfl)
    · exact h.same (by rfl)

theorem writeSynopsis : Notes still base doc.writeSynopsis :=
  h.writeCommand.writeFunctions

theorem mapCommand (change : Command → Command) : Notes still base (doc.mapCommand change) :=
  h.same (by rfl)

theorem synopsisArgument (tags : Text × Text) (argument : Text) :
    Notes still base (doc.synopsisArgument tags argument).2 := by
  unfold Document.synopsisArgument
  split
  · exact h.mapCommand _
  · split
    · exact h.mapCommand _
    · split
      · exact h
      · exact (h.renderIsolated argument).mapCommand _

theorem synopsisArguments (tags : Text × Text) (arguments : List Text) :
    Notes still base (doc.synopsisArguments tags arguments).2 := by
  unfold Document.synopsisArguments
  generalize hr : (false, doc) = result
  have hd : Notes still base result.2 := by
    rw [← hr]
    exact h
  clear hr
  induction arguments generalizing result with
  | nil => exact hd
  | cons argument rest ih => exact ih _ (synopsisArgument hd tags argument)

theorem synopsisFallback (token : Text) : Notes still base (doc.synopsisFallback token) := by
  unfold Document.synopsisFallback
  split
  · exact h.mapCommand _
  · exact h.mapCommand _
  · exact h

theorem synopsisToken (token : Text) (rest : List Text) : Notes still base (doc.synopsisToken token rest).1 := by
  unfold Document.synopsisToken
  dsimp only
  split
  · exact .ite (h.synopsisArguments _ _) ((h.synopsisArguments _ _).synopsisFallback _)
  · split
    · exact h.mapCommand _
    · exact h.mapCommand _
    · exact h
    · exact h
    · exact h
    · exact h
    · exact h
    · exact h
    · exact h.mapCommand _
    · exact h.mapCommand _
    · split
      · exact (h.renderTokens _).mapCommand _
      · split
        · exact h
        · exact (h.renderIsolated token).mapCommand _

theorem synopsisTokens (tokens : List Text) : Notes still base (doc.synopsisTokens tokens) := by
  fun_induction Document.synopsisTokens doc tokens with
  | case1 doc => exact h
  | case2 doc token rest _ ih => exact (ih (h.mapCommand _)).mapCommand _
  | case3 doc token rest _ next n hn ih =>
    have htoken := h.synopsisToken token rest
    rw [hn] at htoken
    exact ih htoken

theorem beginCommand (arguments : List Text) : Notes still base (doc.beginCommand arguments) := by
  unfold Document.beginCommand
  dsimp only
  split
  · split
    · exact synopsisTokens (h.writeSynopsis.same (by rfl)) _
    · exact synopsisTokens ((h.writeSynopsis.renderIsolated _).same (by rfl)) _
  · exact synopsisTokens (h.writeSynopsis.same (by rfl)) _

theorem functionRequest (request : String) (arguments : List Text) :
    Notes still base (doc.functionRequest request arguments) := by
  have hrendered := h.writeCommand.renderAll arguments
  have hkept (functions : Functions) : Notes still base
      { (Mdoc.renderAll doc.writeCommand arguments).2 with
        mdoc := { (Mdoc.renderAll doc.writeCommand arguments).2.mdoc with functions := some functions } } :=
    hrendered.same (by rfl)
  unfold Document.functionRequest
  dsimp only
  split
  · exact hkept _
  · exact hkept _
  · exact hkept _
  · exact hkept _
  · split
    · exact hkept _
    · exact hkept _
  · exact hkept _
  · split
    · exact hkept _
    · exact hkept _
  · split
    · exact hkept _
    · exact (hkept _).warn _

theorem mdocPrepare (request : String) : Notes still base (doc.mdocPrepare request) :=
  .ite h.writeSynopsis h

theorem writeNamesAlone (complain : Bool) : Notes still base (doc.writeNamesAlone complain) := by
  unfold Document.writeNamesAlone
  split
  · exact (emitNames (.ite (h.warn _) h) _ _).same (by rfl)
  · exact h

theorem mdocSection (arguments : List Text) (depth : Nat) : Notes still base (doc.mdocSection arguments depth) := by
  have htitle := (h.writeNamesAlone true).renderTokens arguments
  unfold Document.mdocSection
  dsimp only
  split
  · exact (htitle.popSections 1).same (by rfl)
  · split
    · exact (htitle.pushSynopsis _).same (by rfl)
    · exact pushSection (htitle.same (by rfl)) _ _

theorem addPageNames (arguments : List Text) : Notes still base (doc.addPageNames arguments) :=
  (h.renderAll _).same (by rfl)

theorem standardSentence (request : String) (arguments : List Text) :
    Notes still base (doc.standardSentence request arguments).2 := by
  unfold Document.standardSentence
  dsimp only
  split
  · split
    · exact h.renderIsolated _
    · exact h
  · split
    · exact h.renderIsolated _
    · exact h
  · exact h
  · exact h

theorem textParameters (before : Nat) (arguments : List Text) :
    Notes still base (doc.textParameters before arguments).2 := by
  induction arguments generalizing doc before with
  | nil => exact h
  | cons argument rest ih =>
    rw [Document.textParameters]
    exact ih (h.renderIsolated argument) _

theorem textTokens (tokens : List Text) : Notes still base (doc.textTokens tokens) :=
  (h.renderTokens tokens).textLine _

theorem setParameters (parameters : Option Nat) : Notes still base (doc.setParameters parameters) :=
  h.same (by rfl)

theorem referenceField (request : Request) (key : Char) : Notes still base (doc.referenceField request key) := by
  have hvalue := h.renderTokens request.arguments
  unfold Document.referenceField
  dsimp only
  split
  · exact hvalue.same (by rfl)
  · exact (hvalue.warn _).textLine _

theorem mdocFinish : Notes still base doc.mdocFinish := by
  have hlists := (h.writeSynopsis.writeNamesAlone false).foldl
    (f := fun doc (_ : OpenList) => (doc.warn (.unclosed "Bl")).endMdocList) (fun _ h => (h.warn _).endMdocList)
    (doc.writeSynopsis.writeNamesAlone false).mdoc.lists
  unfold Document.mdocFinish
  dsimp only
  split
  · exact (hlists.warn _).endReference
  · exact hlists

end

end RoffDocBook.Document.Notes
