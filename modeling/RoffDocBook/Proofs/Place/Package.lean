import RoffDocBook.Proofs.Place.Ahead

/-! The requests of the formatter that define, remove and rename leave the input and the macros that are being expanded,
but for the lines that a definition takes. -/
namespace RoffDocBook.Document
open Text Markup

theorem defineString_place (doc : Document) (request : Request) (adding : Bool) :
    (doc.defineString request adding).place = doc.place := by
  unfold defineString
  dsimp only
  split <;> rfl

theorem removeNames_place (doc : Document) (names : List Text) : (doc.removeNames names).place = doc.place := by
  unfold removeNames
  refine foldl_place doc ?_ names
  intro doc name
  rfl

theorem rename_place (doc : Document) (old new : Text) (removing : Bool) :
    (doc.rename old new removing).place = doc.place := by
  unfold rename
  split <;> rfl

theorem setNumber_place (doc : Document) (request : Request) : (doc.setNumber request).place = doc.place := by
  unfold setNumber
  extract_lets argument name
  split
  · rfl
  · split
    rename_i sign expression _
    have h := (doc.formatter.recounts_evaluate expression).invocations
    generalize doc.formatter.evaluate expression = evaluated at h
    match evaluated with
    | (.ok value, formatter) => exact congrArg (doc.input, ·) h
    | (.error e, formatter) => exact congrArg (doc.input, ·) h

theorem reduceWrapper_place (doc : Document) (name : String) : (doc.reduceWrapper name).place = doc.place := by
  unfold reduceWrapper
  dsimp only
  split <;> rfl

theorem reads_defineMacro (doc : Document) (request : Request) (adding : Bool) :
    Reads doc (doc.defineMacro request adding) := by
  unfold defineMacro
  dsimp only
  generalize isTerminator doc.formatter.control _ = closes
  refine (reads_readUntil doc closes).write ?_
  simp only [apply_ite place, warn_place, reduceWrapper_place, ite_self]
  split
  · rfl
  · split <;> split <;> rfl

theorem reads_divert (doc : Document) (request : Request) : Reads doc (doc.divert request) := by
  unfold divert
  dsimp only
  split
  · exact .refl doc
  · exact (reads_readUntil doc _).write rfl

theorem defineGlyph_place (doc : Document) (request : Request) : (doc.defineGlyph request).place = doc.place := by
  unfold defineGlyph
  dsimp only
  split
  · rfl
  · exact renderIsolated_place doc _

theorem substituteUnit_place (doc : Document) (unit : Text) (replacement : Option Text) :
    (doc.substituteUnit unit replacement).place = doc.place := by
  unfold substituteUnit
  split
  · dsimp only
    simp only [apply_ite place, warn_place, setSubstitute_place, ite_self]
    split
    · exact renderIsolated_place doc _
    · rfl
  · rfl

theorem substituteUnits_place (doc : Document) (units : List Text) :
    (doc.substituteUnits units).place = doc.place := by
  fun_induction substituteUnits doc units with
  | case1 doc => rfl
  | case2 doc unit => exact substituteUnit_place doc unit none
  | case3 doc unit replacement rest ih => exact ih.trans (substituteUnit_place doc unit _)

theorem titleLine_place (doc : Document) (written : Text) : (doc.titleLine written).place = doc.place := by
  unfold titleLine
  split
  · rfl
  · dsimp only
    split
    · rfl
    · exact textLine_place doc _

theorem reads_ignoreBlock (doc : Document) (terminator : Text) : Reads doc (doc.ignoreBlock terminator) := by
  unfold ignoreBlock
  dsimp only
  generalize isTerminator doc.formatter.control _ = closes
  refine (reads_readUntil doc closes).write ?_
  simp only [apply_ite place, warn_place, ite_self]
  exact foldl_place _ emitComment_place _

theorem noFill_place (doc : Document) : doc.noFill.place = doc.place := by
  unfold noFill
  split
  · rfl
  · exact beginDisplay_place doc .literal "nf"

theorem fill_place (doc : Document) : doc.fill.place = doc.place := by
  unfold fill
  split
  · rfl
  · split
    · exact endDisplay_place doc
    · rfl

theorem space_place (doc : Document) (argument : Text) : (doc.space argument).place = doc.place := by
  unfold space
  split
  · exact closeParagraph_place doc
  · exact foldl_place doc (fun doc _ => textLine_place doc []) _

theorem referToFile_place (doc : Document) (file : Text) : (doc.referToFile file).place = doc.place := by
  unfold referToFile
  rw [emitMarkup_place, closeParagraph_place, addInclusion_place]

/-! The requests of the packages for pages and papers write, and some of them read ahead. -/

section
variable (doc : Document)

theorem manTitle_place (request : Request) : (doc.manTitle request).place = doc.place := by
  unfold manTitle
  dsimp only
  split <;> rfl

theorem alternateFonts_place (arguments : List Text) (first second : Text) :
    (doc.alternateFonts arguments first second).place = doc.place := by
  unfold alternateFonts
  split
  · rfl
  · exact textLine_place doc _

theorem taggedParagraph_place : doc.taggedParagraph.place = doc.place := by
  unfold taggedParagraph
  dsimp only
  simp only [beginItem_place, apply_ite place, beginList_place, endList_place, ite_self]

theorem reads_manLink (target : Text) (closer : String) (mail : Bool) : Reads doc (doc.manLink target closer mail) :=
  (reads_manLinkText doc closer).write (textLine_place _ _)

theorem reads_paperTitle : Reads doc doc.paperTitle :=
  (reads_gatherText doc).write (renderIsolated_place _ _)

theorem paperDate_place (arguments : List Text) : (doc.paperDate arguments).place = doc.place := by
  unfold paperDate
  dsimp only
  split
  · rfl
  · exact renderIsolated_place doc _

theorem addAuthor_place (text : Text) : (doc.addAuthor text).place = doc.place :=
  renderIsolated_place doc text

theorem setAffiliation_place (text : Text) : (doc.setAffiliation text).place = doc.place :=
  renderIsolated_place doc text

theorem beginAbstract_place : doc.beginAbstract.place = doc.place :=
  closeParagraph_place doc

theorem endAbstract_place (opener closer : String) : (doc.endAbstract opener closer).place = doc.place := by
  have h : place { doc with inAbstract := false }.endDiversion.2 = doc.place := endDiversion_place _
  unfold endAbstract
  split
  · rfl
  · dsimp only
    split <;> exact h

theorem reads_paperHeading (depth : Nat) (arguments : List Text) : Reads doc (doc.paperHeading depth arguments) := by
  refine (reads_headingText doc arguments).write ?_
  exact (pushSection_place _ depth _).trans (renderIsolated_place _ _)

/-- A complaint if there was nothing to end. -/
theorem complainUnless_place (ended : Bool × Document) (complaint : Complaint) :
    (if ended.1 then ended.2 else ended.2.warn complaint).place = ended.2.place := by
  rw [apply_ite place, warn_place, ite_self]

theorem wordInFont_place (arguments : List Text) (font : String) :
    (doc.wordInFont arguments font).place = doc.place := by
  unfold wordInFont
  split
  · exact setFont_place doc font
  · exact textLine_place doc _

theorem reads_msHeading (argument : Text) : Reads doc (doc.msHeading argument) := by
  refine (reads_gatherText doc).write ?_
  unfold msHeading
  dsimp only
  rw [pushSection_place, apply_ite place, warn_place, ite_self]
  exact renderIsolated_place _ _

theorem beginLettered_place (letter : Char) : (doc.beginLettered letter).place = doc.place := by
  unfold beginLettered
  dsimp only
  split
  · exact (beginItem_place _ none).trans (beginList_place doc _ _)
  · exact beginDisplay_place doc _ _
  · exact beginFootnote_place doc
  · exact closeParagraph_place doc
  · exact closeParagraph_place doc
  · exact closeParagraph_place doc
  · rfl

theorem closeLettered_place (block : LetteredBlock) : (doc.closeLettered block).place = doc.place := by
  cases block with
  | quote => exact endListBy_place doc _
  | display => exact endDisplay_place doc
  | footnote => exact endFootnote_place doc
  | keep => exact closeParagraph_place doc

theorem endLettered_place (letter : Char) : (doc.endLettered letter).place = doc.place := by
  unfold endLettered
  split
  · rfl
  · refine foldl_place _ ?_ _
    intro doc entry
    exact closeLettered_place doc entry.2

theorem meItem_place (opener : String) (kind : ListKind) : (doc.meItem opener kind).place = doc.place := by
  unfold meItem
  rw [beginItem_place]
  split
  · simp only [apply_ite place, beginList_place, endList_place, ite_self]
  · exact beginList_place doc _ _

theorem reads_mmHeading (request : Request) : Reads doc (doc.mmHeading request) := by
  refine (reads_headingText doc ((request.arguments.drop 1).take 1)).write ?_
  unfold mmHeading
  dsimp only
  rw [pushSection_place, renderIsolated_place, renderIsolated_place]

theorem mmItem_place (arguments : List Text) : (doc.mmItem arguments).place = doc.place := by
  unfold mmItem
  split
  · exact closeParagraph_place _
  · split
    · exact (beginItem_place _ _).trans (renderIsolated_place doc _)
    · exact beginItem_place doc none

theorem mmFont_place (arguments : List Text) (first second : String) :
    (doc.mmFont arguments first second).place = doc.place := by
  unfold mmFont
  split
  · exact setFont_place doc first
  · exact alternateFonts_place doc arguments _ _

theorem continueTerms_place (opener : String) : (doc.continueTerms opener).place = doc.place := by
  unfold continueTerms
  split
  · rfl
  · exact beginList_place doc _ _

theorem procedureArgument_place (request : Request) : (doc.procedureArgument request).place = doc.place := by
  unfold procedureArgument
  dsimp only
  rw [beginItem_place, continueTerms_place, renderIsolated_place]

theorem widgetOption_place (request : Request) : (doc.widgetOption request).place = doc.place := by
  unfold widgetOption
  dsimp only
  rw [beginItem_place, continueTerms_place, renderIsolated_place, renderIsolated_place, renderIsolated_place]

theorem optionMembers_place (options : List Text) : (doc.optionMembers options).2.place = doc.place := by
  induction options generalizing doc with
  | nil => rfl
  | cons option rest ih => exact (ih _).trans (renderIsolated_place doc option)

theorem reads_standardOptions (page : Text) : Reads doc (doc.standardOptions page) := by
  have h := Reads.of_place (pushSection_place doc 1 "STANDARD OPTIONS")
  refine (h.trans (reads_gatherOptions _)).write ?_
  unfold standardOptions
  dsimp only
  rw [emitMarkup_place, emitMarkup_place, optionMembers_place]

theorem webLink_place (request : Request) : (doc.webLink request).place = doc.place :=
  (textLine_place _ _).trans (renderIsolated_place doc _)

theorem mailLink_place (request : Request) : (doc.mailLink request).place = doc.place :=
  (textLine_place _ _).trans (renderIsolated_place doc _)

theorem anchor_place (name : Text) : (doc.anchor name).place = doc.place := by
  unfold anchor
  dsimp only
  split
  · exact append_place doc _
  · exact emitMarkup_place doc _

theorem webImage_place (request : Request) : (doc.webImage request).place = doc.place := by
  unfold webImage
  dsimp only
  split
  · rfl
  · exact (emitMarkup_place _ _).trans (closeParagraph_place doc)

theorem reads_mdocItem (arguments : List Text) : Reads doc (doc.mdocItem arguments) := by
  have h : Reads doc
      (if arguments.getLast? == some "Xo".toList then doc.extendItem arguments.dropLast else (arguments, doc)).2 := by
    split
    · exact reads_extendItem doc _
    · exact .refl doc
  unfold mdocItem
  generalize (if arguments.getLast? == some "Xo".toList then doc.extendItem arguments.dropLast
    else (arguments, doc)) = item at h
  dsimp only
  split
  · exact h.write rfl
  · exact h.write (columnCells_place _ _)
  · exact h.write ((beginItem_place _ _).trans (renderTokens_place _ _))
  · split
    · exact h.write (beginItem_place _ none)
    · exact h.write ((textLine_place _ _).trans ((renderTokens_place _ _).trans (beginItem_place _ none)))

end
end RoffDocBook.Document
