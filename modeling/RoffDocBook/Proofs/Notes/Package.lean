import RoffDocBook.Conversion.Run
import RoffDocBook.Proofs.Notes.Formatter

/-! The requests of the packages for pages and papers. -/
namespace RoffDocBook.Document.Notes
open Text Markup

/-- A complaint if there was nothing to end. -/
theorem complainUnless {still : Bool} {base : Document} {ended : Bool × Document} (h : Notes still base ended.2)
    (complaint : Complaint) :
    Notes still base (if ended.1 then ended.2 else ended.2.warn complaint) :=
  .ite h (h.warn complaint)

section
variable {still : Bool} {base doc : Document} (h : Notes still base doc)
include h

theorem manTitle (request : Request) : Notes still base (doc.manTitle request) := by
  unfold Document.manTitle
  dsimp only
  split
  · exact warn (h.same (by rfl)) _
  · exact h.same (by rfl)

theorem alternateFonts (arguments : List Text) (first second : Text) :
    Notes still base (doc.alternateFonts arguments first second) :=
  .ite h (h.textLine _)

theorem taggedParagraph : Notes still base doc.taggedParagraph := by
  have hended (c : Bool) : Notes still base (if c then doc.endList else doc) := .ite h.endList h
  exact beginItem (.ite (hended _) ((hended _).beginList "TP" .terms)) none

theorem paperDate (arguments : List Text) : Notes still base (doc.paperDate arguments) := by
  unfold Document.paperDate
  dsimp only
  split
  · exact h.same (by rfl)
  · exact (h.renderIsolated _).same (by rfl)

theorem addAuthor (text : Text) : Notes still base (doc.addAuthor text) :=
  (h.renderIsolated text).same (by rfl)

theorem addAuthors (lines : List Text) : Notes still base (lines.foldl Document.addAuthor doc) :=
  h.foldl (fun line h => h.addAuthor line) lines

theorem setAffiliation (text : Text) : Notes still base (doc.setAffiliation text) :=
  (h.renderIsolated text).same (by rfl)

theorem beginAbstract : Notes still base doc.beginAbstract :=
  h.closeParagraph.same (by rfl)

theorem endAbstract (opener closer : String) : Notes still base (doc.endAbstract opener closer) := by
  have hended := endDiversion (h.same (b := { doc with inAbstract := false }) (by rfl))
  unfold Document.endAbstract
  split
  · exact h.warn _
  · dsimp only
    split
    · exact hended.same (by rfl)
    · exact hended

theorem finishAbstract (opener closer : String) : Notes still base (doc.finishAbstract opener closer) :=
  .ite ((h.warn _).endAbstract opener closer) h

theorem closeDisplay : Notes still base doc.closeDisplay :=
  complainUnless h.endDisplay _

theorem wordInFont (arguments : List Text) (font : String) : Notes still base (doc.wordInFont arguments font) := by
  unfold Document.wordInFont
  split
  · exact h.setFont font
  · exact h.textLine _

theorem beginLettered (letter : Char) : Notes still base (doc.beginLettered letter) := by
  unfold Document.beginLettered
  dsimp only
  split
  · exact ((h.beginList "(q" .blockquote).beginItem none).same (by rfl)
  · exact (h.beginDisplay .literal "(l").same (by rfl)
  · exact h.beginFootnote.same (by rfl)
  · exact h.closeParagraph.same (by rfl)
  · exact h.closeParagraph.same (by rfl)
  · exact h.closeParagraph.same (by rfl)
  · exact (h.warn _).same (by rfl)

theorem closeLettered (block : LetteredBlock) : Notes still base (doc.closeLettered block) := by
  cases block with
  | quote => exact h.endListBy _
  | display => exact h.endDisplay
  | footnote => exact h.endFootnote
  | keep => exact h.closeParagraph

theorem endLettered (letter : Char) : Notes still base (doc.endLettered letter) := by
  unfold Document.endLettered
  split
  · exact h.warn _
  · exact foldl (fun entry h => h.closeLettered entry.2) (h.same (by rfl)) _

theorem finishLettered : Notes still base doc.finishLettered :=
  h.foldl (fun entry h => (h.warn _).endLettered entry.1) _

theorem meItem (opener : String) (kind : ListKind) : Notes still base (doc.meItem opener kind) := by
  unfold Document.meItem
  refine beginItem ?_ none
  split
  · exact .ite h (.ite (h.endList.beginList opener kind) (h.beginList opener kind))
  · exact h.beginList opener kind

theorem mmItem (arguments : List Text) : Notes still base (doc.mmItem arguments) := by
  unfold Document.mmItem
  split
  · exact (h.warn _).closeParagraph
  · exact .ite ((h.renderIsolated _).beginItem _) (h.beginItem none)

theorem mmFont (arguments : List Text) (first second : String) :
    Notes still base (doc.mmFont arguments first second) :=
  .ite (h.setFont first) (h.alternateFonts arguments _ _)

theorem continueTerms (opener : String) : Notes still base (doc.continueTerms opener) :=
  .ite h (h.beginList opener .terms)

theorem procedureArgument (request : Request) : Notes still base (doc.procedureArgument request) :=
  ((h.renderIsolated _).continueTerms "AP").beginItem _

theorem widgetOption (request : Request) : Notes still base (doc.widgetOption request) := by
  unfold Document.widgetOption
  dsimp only
  refine beginItem (continueTerms ?_ "OP") _
  exact ((h.renderIsolated _).renderIsolated _).renderIsolated _

theorem optionMembers (options : List Text) : Notes still base (doc.optionMembers options).2 := by
  induction options generalizing doc with
  | nil => exact h
  | cons option rest ih => exact ih (h.renderIsolated option)

theorem closeOpened (closer opener : String) : Notes still base (doc.closeOpened closer opener) :=
  complainUnless h.endDisplay _

theorem webLink (request : Request) : Notes still base (doc.webLink request) :=
  (h.renderIsolated _).textLine _

theorem mailLink (request : Request) : Notes still base (doc.mailLink request) :=
  (h.renderIsolated _).textLine _

theorem anchor (name : Text) : Notes still base (doc.anchor name) :=
  .ite (h.append _) (h.emitMarkup _)

theorem webImage (request : Request) : Notes still base (doc.webImage request) :=
  .ite (h.warn _) (h.closeParagraph.emitMarkup _)

theorem closeWebList (closer opener : String) : Notes still base (doc.closeWebList closer opener) :=
  complainUnless (h.endListBy opener) _

/-- What packages do even with requests that they do not know. -/
theorem prepare (package : Package) (request : Request) : Notes still base (Run.prepare doc package request) := by
  unfold Run.prepare
  split
  · exact h.mdocPrepare _
  · exact h

theorem noteFired (package : Package) : Notes still base (Run.noteFired doc package) := by
  unfold Run.noteFired
  split
  · exact h
  · exact h.same (by rfl)

end

section
variable {base doc : Document} (h : Notes false base doc)
include h

theorem paperTitle : Notes false base doc.paperTitle :=
  (h.gatherText.renderIsolated _).same (by rfl)

theorem paperHeading (depth : Nat) (arguments : List Text) : Notes false base (doc.paperHeading depth arguments) :=
  ((h.headingText arguments).renderIsolated _).pushSection depth _

theorem msHeading (argument : Text) : Notes false base (doc.msHeading argument) := by
  have htitle := h.gatherText.renderIsolated doc.gatherText.1
  exact pushSection (.ite (htitle.warn _) htitle) _ _

theorem mmHeading (request : Request) : Notes false base (doc.mmHeading request) :=
  (((h.headingText _).renderIsolated _).renderIsolated _).pushSection _ _

theorem standardOptions (page : Text) : Notes false base (doc.standardOptions page) :=
  (((h.pushSection 1 "STANDARD OPTIONS").gatherOptions.optionMembers _).emitMarkup _).emitMarkup _

theorem mdocItem (arguments : List Text) : Notes false base (doc.mdocItem arguments) := by
  have hitem : Notes false base
      (if arguments.getLast? == some "Xo".toList then doc.extendItem arguments.dropLast else (arguments, doc)).2 := by
    split
    · exact h.extendItem _
    · exact h
  unfold Document.mdocItem
  generalize (if arguments.getLast? == some "Xo".toList then doc.extendItem arguments.dropLast
    else (arguments, doc)) = item at hitem
  dsimp only
  split
  · exact hitem.warn _
  · exact (hitem.columnCells _).same (by rfl)
  · exact (hitem.renderTokens _).beginItem _
  · exact .ite (hitem.beginItem none) (((hitem.beginItem none).renderTokens _).textLine _)

theorem manRequest (request : Request) : (doc.manRequest request).After (Notes false base) := by
  unfold Document.manRequest
  extract_lets arguments
  split
  · exact h.manTitle request
  · exact h.manSection request 1
  · exact h.manSection request 2
  · exact h.closeParagraph
  · exact h.closeParagraph
  · exact h.closeParagraph
  · exact h.closeParagraph
  · exact h.taggedParagraph
  · exact complainUnless h.addTerm _
  · exact h.indentedParagraph _ _
  · exact (h.beginList "RS" .blockquote).beginItem none
  · exact complainUnless (h.endListBy _) _
  · exact h.fontLine _ _
  · exact h.fontLine _ _
  · exact h.fontLine _ _
  · exact h.fontLine _ _
  · exact h.alternateFonts _ _ _
  · exact h.alternateFonts _ _ _
  · exact h.alternateFonts _ _ _
  · exact h.alternateFonts _ _ _
  · exact h.alternateFonts _ _ _
  · exact h.alternateFonts _ _ _
  · exact h.manSynopsis request
  · exact h.textLine _
  · exact h.closeParagraph
  · exact h.manLink _ _ _
  · exact h.manLink _ _ _
  · exact h.warn _
  · exact h.warn _
  · exact h.beginDisplay _ _
  · exact complainUnless h.endDisplay _
  · exact h.indexTerm _
  · trivial

theorem mdocGeneral (request : Request) : (doc.mdocGeneral request).After (Notes false base) := by
  unfold Document.mdocGeneral
  extract_lets arguments tokens
  split
  · exact h.referenceField request _
  · split
    · exact ((h.renderIsolated _).textLine _).setParameters _
    · exact ((h.setParameters none).renderTokens _).textLine _
    · exact h.beginMdocList _
    · exact h.mdocItem _
    · exact h.endMdocList
    · exact h.beginMdocDisplay _
    · exact h.endMdocDisplay
    · exact (h.renderTokens _).closeParagraph.emitMarkup _
    · exact (h.renderTokens _).closeParagraph.emitMarkup _
    · exact h.setFont _
    · exact h.setFont _
    · exact h.same rfl
    · exact h.endReference
    · exact (h.standardSentence _ _).textLine _
    · exact (h.standardSentence _ _).textLine _
    · exact (h.standardSentence _ _).textLine _
    · exact (h.standardSentence _ _).textLine _
    · split
      · exact h.synopsisTokens tokens
      · split
        · exact h.textTokens tokens
        · trivial

theorem mdocRequest (request : Request) : (doc.mdocRequest request).After (Notes false base) := by
  unfold Document.mdocRequest
  extract_lets arguments
  split
  · exact h.same rfl
  · exact h.same rfl
  · exact h.same rfl
  · exact h.mdocSection _ 1
  · exact h.mdocSection _ 2
  · exact h.closeParagraph
  · exact h.closeParagraph
  · exact h.addPageNames _
  · have named := (h.renderTokens arguments).emitNames (doc.renderTokens arguments).2.mdoc.names
      (doc.renderTokens arguments).1
    exact named.same (by rfl)
  · exact h.beginCommand _
  · split
    · exact h.functionRequest _ _
    · exact ((h.textParameters _ _).setParameters _).textLine _
    · exact h.mdocGeneral request
  · split
    · exact h.functionRequest _ _
    · exact h.mdocGeneral request
  · exact h.mdocGeneral request

theorem msRequest (request : Request) : (doc.msRequest request).After (Notes false base) := by
  unfold Document.msRequest
  extract_lets arguments
  split
  · exact h.paperTitle
  · exact h.gatherLines.addAuthors _
  · exact h.gatherLines.setAffiliation _
  · exact h.paperDate _
  · exact h.paperDate _
  · exact h.beginAbstract
  · exact h.endAbstract _ _
  · exact h.msHeading _
  · exact h.msHeading _
  · exact h.closeParagraph
  · exact h.closeParagraph
  · exact h.closeParagraph
  · exact (h.beginList _ _).beginItem none
  · exact (h.beginList _ _).beginItem none
  · exact h.indentedParagraph _ _
  · exact complainUnless (h.endListBy _) _
  · exact h.beginDisplay _ _
  · exact h.beginDisplay _ _
  · exact h.beginDisplay _ _
  · exact h.beginDisplay _ _
  · exact h.beginDisplay _ _
  · exact h.closeDisplay
  · exact h.beginFootnote
  · exact h.endFootnote
  · exact h.wordInFont _ _
  · exact h.wordInFont _ _
  · exact h.wordInFont _ _
  · exact h.wordInFont _ _
  · exact h.wordInFont _ _
  · exact h.wordInFont _ _
  · exact h.skipTo _
  · exact h.skipTo _
  · trivial

theorem meRequest (request : Request) : (doc.meRequest request).After (Notes false base) := by
  unfold Document.meRequest
  extract_lets arguments
  split
  · exact h.paperHeading _ _
  · exact h.paperHeading _ _
  · exact h.paperHeading _ _
  · exact h.paperHeading _ _
  · exact h.closeParagraph
  · exact h.closeParagraph
  · exact h.indentedParagraph _ _
  · exact h.meItem _ _
  · exact h.meItem _ _
  · exact h.wordInFont _ _
  · exact h.wordInFont _ _
  · exact h.wordInFont _ _
  · exact h.wordInFont _ _
  · exact h.wordInFont _ _
  · exact h.textLine _
  · split
    · split
      · exact (h.renderIsolated _).same rfl
      · trivial
    · trivial
  · exact h.skipTo _
  · exact h.skipTo _
  · split
    · split
      · exact h.beginLettered _
      · trivial
    · split
      · exact h.endLettered _
      · trivial
    · trivial

theorem mmRequest (request : Request) : (doc.mmRequest request).After (Notes false base) := by
  unfold Document.mmRequest
  extract_lets arguments joined
  split
  · exact h.paperTitle
  · exact .ite h (h.addAuthor _)
  · exact h.setAffiliation _
  · exact h.paperDate _
  · exact h.beginAbstract
  · exact h.endAbstract _ _
  · exact h.mmHeading request
  · exact h.paperHeading _ _
  · exact h.closeParagraph
  · exact h.beginListWith _ _ _
  · exact h.beginList _ _
  · exact h.beginList _ _
  · exact h.beginListWith _ _ _
  · exact h.beginListWith _ _ _
  · exact h.beginList _ _
  · exact h.beginList _ _
  · exact h.mmItem _
  · exact .ite (h.warn _) h.endList
  · exact h.beginDisplay _ _
  · exact h.beginDisplay _ _
  · exact h.closeDisplay
  · exact h.beginFootnote
  · exact h.beginFootnote
  · exact h.endFootnote
  · exact h.endFootnote
  · exact (h.renderIsolated _).same rfl
  · exact (h.renderIsolated _).closeParagraph.emitMarkup _
  · exact (h.renderIsolated _).closeParagraph.emitMarkup _
  · exact (h.renderIsolated _).closeParagraph.emitMarkup _
  · exact h.mmFont _ _ _
  · exact h.mmFont _ _ _
  · exact h.setFont _
  · exact h.alternateFonts _ _ _
  · exact h.alternateFonts _ _ _
  · exact h.alternateFonts _ _ _
  · exact h.alternateFonts _ _ _
  · exact h.alternateFonts _ _ _
  · exact h.alternateFonts _ _ _
  · trivial

theorem pod2manRequest (request : Request) : (doc.pod2manRequest request).After (Notes false base) := by
  unfold Document.pod2manRequest
  extract_lets arguments
  split
  · exact h.beginDisplay _ _
  · exact complainUnless h.endDisplay _
  · exact .ite (h.textLine _) h.closeParagraph
  · exact .ite h (h.indexTerm _)
  · exact ((h.headingText _).renderIsolated _).pushSection _ _
  · exact h.indentedParagraph _ _
  · trivial

theorem tkmanRequest (request : Request) : (doc.tkmanRequest request).After (Notes false base) := by
  unfold Document.tkmanRequest
  extract_lets argument
  split
  · exact h.procedureArgument request
  · split
    · exact h.widgetOption request
    · trivial
  · exact h.beginDisplay _ _
  · exact h.closeOpened _ _
  · exact h.beginDisplay _ _
  · exact h.closeOpened _ _
  · exact h.standardOptions _
  · exact h.warn _
  · exact h.textLine _
  · exact h.textLine _
  · exact h.textLine _
  · split
    · exact h.textLine _
    · trivial
  · trivial

theorem wwwRequest (request : Request) : (doc.wwwRequest request).After (Notes false base) := by
  unfold Document.wwwRequest
  split
  · exact h.webLink request
  · exact h.webLink request
  · exact h.mailLink request
  · exact h.closeParagraph
  · exact h.anchor _
  · exact h.webImage request
  · exact h.webImage request
  · exact h.webImage request
  · exact h.beginList _ _
  · exact h.beginList _ _
  · exact h.closeWebList _ _
  · exact h.closeWebList _ _
  · split
    · exact h.beginItem none
    · trivial
  · trivial

theorem interpret (package : Package) (request : Request) :
    (Run.interpret doc package request).After (Notes false base) := by
  cases package with
  | troff => exact h.formatterRequest request
  | man => exact h.manRequest request
  | mdoc => exact h.mdocRequest request
  | ms => exact h.msRequest request
  | me => exact h.meRequest request
  | mm => exact h.mmRequest request
  | pod2man => exact h.pod2manRequest request
  | tkman => exact h.tkmanRequest request
  | www => exact h.wwwRequest request

end

end RoffDocBook.Document.Notes
