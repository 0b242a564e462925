import RoffDocBook.Proofs.Expansion.Package
import RoffDocBook.Proofs.Notes.Mdoc

/-! Reading ahead notes no more than the complaints about what is missing. -/
namespace RoffDocBook.Document.Notes
open Text Markup
variable {base doc : Document} (h : Notes false base doc)
include h

theorem nextRawLine : Notes false base doc.nextRawLine.2 :=
  h.reads (reads_nextRawLine doc) (elsewhere_nextRawLine doc)

theorem nextLine : Notes false base doc.nextLine.2 :=
  h.reads (reads_nextLine doc) (elsewhere_nextLine doc)

theorem gatherLines : Notes false base doc.gatherLines.2 :=
  h.reads (reads_gatherLines doc) (elsewhere_gatherLines_go doc _)

theorem gatherText : Notes false base doc.gatherText.2 :=
  h.gatherLines

theorem headingText (arguments : List Text) : Notes false base (doc.headingText arguments).2 :=
  h.reads (reads_headingText doc arguments) (elsewhere_headingText doc arguments)

theorem readUntil (closes : Text → Bool) : Notes false base (doc.readUntil closes).2.2 :=
  h.reads (reads_readUntil doc closes) (elsewhere_readUntil doc closes)

theorem takeUntil (stops : List String) : Notes false base (doc.takeUntil stops).2 :=
  h.reads (reads_takeUntil doc stops) (elsewhere_takeUntil doc stops)

theorem manHeading (request : Request) : Notes false base (doc.manHeading request).2 :=
  h.reads (reads_manHeading doc request) (elsewhere_manHeading doc request)

theorem joinContinuations (left : Nat) (line : Text) : Notes false base (Run.joinContinuations left doc line).2 :=
  h.reads (Run.reads_joinContinuations left doc line) (Run.elsewhere_joinContinuations left doc line)

theorem gatherBlock (closer : String) : Notes false base (doc.gatherBlock closer).2 :=
  .ite (h.readUntil _) ((h.readUntil _).warn _)

theorem skipTo (closer : String) : Notes false base (doc.skipTo closer) :=
  h.gatherBlock closer

theorem fontLine (arguments : List Text) (font : Text) : Notes false base (doc.fontLine arguments font) := by
  have hnext := h.nextLine
  unfold Document.fontLine
  split
  · split
    · exact h
    · generalize doc.nextLine = found at hnext
      match found with
      | (some line, next) => exact hnext.textLine _
      | (none, next) => exact hnext
  · exact h.textLine _

theorem skipBlock_go (left : Nat) (depth : Int) : Notes false base (skipBlock.go left depth doc) := by
  induction left generalizing doc depth with
  | zero => exact .ite (h.warn _) h
  | succ left ih =>
    rw [skipBlock.go]
    split
    · have hnext := h.nextRawLine
      generalize doc.nextRawLine = found at hnext
      obtain ⟨line?, next⟩ := found
      cases line? with
      | none => exact hnext.warn _
      | some line => exact ih hnext _
    · exact h

theorem skipBlock (depth : Int) : Notes false base (doc.skipBlock depth) :=
  h.skipBlock_go _ depth

theorem manLinkText_go (closer : String) (left : Nat) :
    Notes false base (manLinkText.go closer left doc).2.2 := by
  induction left generalizing doc with
  | zero => exact h.warn _
  | succ left ih =>
    have hnext := h.nextLine
    rw [manLinkText.go]
    split
    · exact h.warn _
    · split
      · dsimp only
        split <;> exact hnext
      · split
        · exact h
        · exact ih (hnext.renderIsolated _)

theorem manLinkText (closer : String) : Notes false base (doc.manLinkText closer).2.2 :=
  h.manLinkText_go closer _

theorem manLink (target : Text) (closer : String) (mail : Bool) :
    Notes false base (doc.manLink target closer mail) :=
  (h.manLinkText closer).textLine _

theorem extendItem_go (left : Nat) : Notes false base (extendItem.go left doc).2.2 := by
  induction left generalizing doc with
  | zero => exact h
  | succ left ih =>
    have hnext := h.nextLine
    rw [extendItem.go]
    generalize doc.nextLine = found at hnext
    obtain ⟨line?, next⟩ := found
    cases line? with
    | none => exact hnext
    | some line =>
      dsimp only
      split
      · exact hnext
      · exact ih hnext
      · exact ih hnext

theorem extendItem (arguments : List Text) : Notes false base (doc.extendItem arguments).2 := by
  have hread := h.extendItem_go doc.input.length
  exact .ite hread (hread.warn _)

theorem gatherOptions_go (left : Nat) : Notes false base (gatherOptions.go left doc).2 := by
  induction left generalizing doc with
  | zero => exact h.warn _
  | succ left ih =>
    have hraw := h.gatherLines.nextRawLine
    rw [gatherOptions.go]
    dsimp only
    generalize doc.gatherLines.2.nextRawLine = found at hraw
    obtain ⟨line?, next⟩ := found
    cases line? with
    | none => exact hraw.warn _
    | some line =>
      dsimp only
      split
      · exact hraw
      · exact ih hraw

theorem gatherOptions : Notes false base doc.gatherOptions.2 :=
  h.gatherOptions_go _

theorem manSynopsisLines_go (left : Nat) : Notes false base (manSynopsisLines.go left doc).2.2 := by
  induction left generalizing doc with
  | zero => exact h
  | succ left ih =>
    have hnext := h.nextRawLine
    rw [manSynopsisLines.go]
    generalize doc.nextRawLine = found at hnext
    obtain ⟨line?, next⟩ := found
    cases line? with
    | none => exact hnext
    | some line =>
      dsimp only
      split
      · exact hnext.pushLine line
      · split
        · exact hnext
        · exact ih hnext

/-- A block that reads as no command is put back. -/
theorem manSynopsis (request : Request) : Notes false base (doc.manSynopsis request) := by
  have hlines := h.manSynopsisLines_go doc.input.length
  unfold Document.manSynopsis Document.manSynopsisLines
  generalize manSynopsisLines.go doc.input.length doc = found at hlines
  obtain ⟨lines, closed, next⟩ := found
  dsimp only at hlines ⊢
  split
  · exact hlines.closeParagraph.emitAll _
  · exact pushLines ((Notes.ite hlines (hlines.warn _)).closeParagraph.textLine _) lines

/-- A section that reads as no synopsis is put back. -/
theorem liftSynopsis (stops : List String) : Notes false base (doc.liftSynopsis stops).2 := by
  have htaken := h.takeUntil stops
  unfold Document.liftSynopsis
  generalize doc.takeUntil stops = found at htaken
  obtain ⟨lines, next⟩ := found
  dsimp only at htaken ⊢
  split
  · exact htaken.pushLines lines
  · refine emitAll (closeParagraph ?_) _
    refine foldl (fun name h => h.learn _ _) ?_ _
    exact htaken.foldl (fun reason h => h.warn _) _

theorem manSection (request : Request) (depth : Nat) : Notes false base (doc.manSection request depth) := by
  have hheading := h.manHeading request
  unfold Document.manSection
  generalize doc.manHeading request = heading at hheading
  obtain ⟨title, next⟩ := heading
  dsimp only at hheading ⊢
  split
  · exact (hheading.popSections 1).gatherText.nameSection _
  · split
    · exact ((hheading.renderIsolated title).pushSynopsis _).liftSynopsis _
    · exact (hheading.renderIsolated title).pushSection _ _

end RoffDocBook.Document.Notes

/-! The requests of the formatter. -/
namespace RoffDocBook.Document.Notes
open Text Markup

section
variable {still : Bool} {base doc : Document} (h : Notes still base doc)
include h

theorem defineString (request : Request) (adding : Bool) : Notes still base (doc.defineString request adding) := by
  unfold Document.defineString
  dsimp only
  split
  · exact h.warn _
  · exact h.same (by rfl)

theorem removeNames (names : List Text) : Notes still base (doc.removeNames names) :=
  h.foldl (fun _ h => h.same (by rfl)) names

theorem rename (old new : Text) (removing : Bool) : Notes still base (doc.rename old new removing) := by
  unfold Document.rename
  split
  · exact h.warn _
  · exact h.same (by rfl)

theorem setNumber (request : Request) : Notes still base (doc.setNumber request) := by
  unfold Document.setNumber
  extract_lets argument name
  split
  · exact h
  · split
    rename_i sign expression _
    generalize doc.formatter.evaluate expression = evaluated
    match evaluated with
    | (.ok value, formatter) => exact h.same (by rfl)
    | (.error e, formatter) =>
      exact (warn (h.same (b := { doc with formatter }) (by rfl)) (.badRegisterValue e name)).same (by rfl)

theorem reduceWrapper (name : String) : Notes still base (doc.reduceWrapper name) := by
  unfold Document.reduceWrapper
  dsimp only
  split
  · exact h.same (by rfl)
  · exact h.same (by rfl)

theorem defineGlyph (request : Request) : Notes still base (doc.defineGlyph request) := by
  unfold Document.defineGlyph
  dsimp only
  split
  · exact h
  · exact (h.renderIsolated _).same (by rfl)

theorem setSubstitute (c : Char) (text : Text) : Notes still base (doc.setSubstitute c text) :=
  h.same (by rfl)

theorem substituteUnit (unit : Text) (replacement : Option Text) :
    Notes still base (doc.substituteUnit unit replacement) := by
  unfold Document.substituteUnit
  split
  · cases replacement with
    | none => exact .ite (h.warn _) (h.setSubstitute _ _)
    | some written => exact .ite ((h.renderIsolated _).warn _) ((h.renderIsolated _).setSubstitute _ _)
  · exact h.warn _

theorem substituteUnits (units : List Text) : Notes still base (doc.substituteUnits units) := by
  fun_induction Document.substituteUnits doc units with
  | case1 doc => exact h
  | case2 doc unit => exact h.substituteUnit unit none
  | case3 doc unit replacement rest ih => exact ih (h.substituteUnit unit _)

theorem titleLine (written : Text) : Notes still base (doc.titleLine written) := by
  unfold Document.titleLine
  split
  · exact h
  · exact .ite h (h.textLine _)

theorem noFill : Notes still base doc.noFill := by
  unfold Document.noFill
  split
  · exact h.same (by rfl)
  · exact h.beginDisplay .literal "nf"

theorem fill : Notes still base doc.fill := by
  unfold Document.fill
  split
  · exact h.same (by rfl)
  · exact .ite h.endDisplay h

theorem space (argument : Text) : Notes still base (doc.space argument) :=
  .ite h.closeParagraph (h.foldl (fun _ h => h.textLine []) _)

theorem referToFile (file : Text) : Notes still base (doc.referToFile file) :=
  (h.addInclusion file).closeParagraph.emitMarkup _

theorem sourceFile (file : Text) : Notes still base (doc.sourceFile file) := by
  unfold Document.sourceFile
  split
  · exact h.warn _
  · split
    · exact h.same (by rfl)
    · split
      · exact (h.warn _).referToFile file
      · exact .ite (h.pushLines _) (h.referToFile file)

theorem sourcePackage (file : Text) : Notes still base (doc.sourcePackage file) := by
  unfold Document.sourcePackage
  split
  · exact h.same (by rfl)
  · dsimp only
    split
    · exact h.pushLines _
    · exact h.warn _

theorem guard (request : Request) : Notes still base (doc.guard request).2.2 := by
  have hguarded : Notes still base { doc with formatter := (doc.formatter.condition request.rest).2 } :=
    h.same (by rfl)
  unfold Document.guard
  dsimp only
  split
  · exact hguarded.warn _
  · exact hguarded

theorem shiftArguments (n : Nat) : Notes still base (doc.shiftArguments n) := by
  unfold Document.shiftArguments
  split
  · exact h
  · exact h.same (by rfl)

theorem emitComments (lines : List Text) : Notes still base (lines.foldl Document.emitComment doc) :=
  h.foldl (fun line h => h.emitComment line) lines

end

section
variable {base doc : Document} (h : Notes false base doc)
include h

/-- The rest of the input is dropped. -/
theorem dropInput : Notes false base { doc with input := [] } :=
  h.trans (of_input (fun hs => by cases hs) List.nil_suffix rfl rfl)

theorem leaveMacro : Notes false base doc.leaveMacro := by
  refine h.reads (reads_leaveMacro doc) ?_
  unfold Document.leaveMacro
  split
  · exact ⟨_, _, _, rfl⟩
  · exact .refl doc

theorem defineMacro (request : Request) (adding : Bool) : Notes false base (doc.defineMacro request adding) := by
  unfold Document.defineMacro
  dsimp only
  generalize isTerminator doc.formatter.control _ = closes
  have hread := h.readUntil closes
  generalize doc.readUntil closes = found at hread
  obtain ⟨lines, closed, next⟩ := found
  dsimp only at hread ⊢
  have hclosed : Notes false base
      (if closed then next else next.warn (.unterminatedMacro (String.ofList (request.argument 0)))) :=
    .ite hread (hread.warn _)
  exact .ite (hclosed.warn _) (.ite (hclosed.warn _) (reduceWrapper (hclosed.same (by rfl)) _))

theorem divert (request : Request) : Notes false base (doc.divert request) := by
  unfold Document.divert
  dsimp only
  split
  · exact h
  · exact (h.readUntil _).same (by rfl)

theorem ignoreBlock (terminator : Text) : Notes false base (doc.ignoreBlock terminator) := by
  unfold Document.ignoreBlock
  dsimp only
  generalize isTerminator doc.formatter.control _ = closes
  exact .ite ((h.readUntil closes).emitComments _) (((h.readUntil closes).emitComments _).warn _)

theorem governed (taken : Bool) (statement : Text) : Notes false base (doc.governed taken statement) := by
  unfold Document.governed
  dsimp only
  split
  · exact .ite (.ite h (h.pushLine _)) (h.skipBlock _)
  · exact .ite (h.pushLine _) h

theorem elseRequest (request : Request) : Notes false base (doc.elseRequest request) := by
  unfold Document.elseRequest
  split
  · exact governed (h.same (by rfl)) _ _
  · exact (h.warn _).governed _ _

theorem whileRequest (request : Request) : Notes false base (doc.whileRequest request) :=
  governed ((h.warn .loopNotInterpreted).same (by rfl)) _ _

theorem formatterRequest (request : Request) : (doc.formatterRequest request).After (Notes false base) := by
  unfold Document.formatterRequest
  extract_lets setFormatter
  split
  -- Strings, names and registers.
  · exact h.defineString request false
  · exact h.defineString request false
  · exact h.defineString request true
  · exact h.defineString request true
  · exact h.removeNames _
  · exact h.rename _ _ true
  · exact h.rename _ _ false
  · exact h.setNumber request
  · exact h.same rfl
  -- Definitions read their lines ahead.
  · exact h.defineMacro request false
  · exact h.defineMacro request false
  · exact h.defineMacro request true
  · exact h.defineMacro request true
  · exact h.same rfl
  · exact h.ignoreBlock _
  -- Conditionals put the statement that they govern back.
  · exact (h.guard request).governed _ _
  · exact governed ((h.guard request).same (by rfl)) _ _
  · exact h.elseRequest request
  · exact h.whileRequest request
  -- The innermost macro is left, or its arguments move up.
  · exact h.leaveMacro
  · exact h.shiftArguments _
  · exact h.divert request
  · exact h.divert request
  · exact h.defineGlyph request
  · exact h.pushLine _
  · exact h.pushLine _
  · exact h.warn _
  · exact h.warn _
  · exact h.warn _
  · exact h
  · exact h.dropInput
  · exact h.dropInput
  · exact h.same rfl
  · exact h.same rfl
  -- Other files are put in front of the input.
  · exact h.sourceFile _
  · exact h.sourcePackage _
  · exact h.substituteUnits _
  · exact h.same rfl
  · exact h.setFont _
  · exact h.noFill
  · exact h.fill
  · exact h
  · exact h.space _
  · exact h.closeParagraph
  · exact h.titleLine _
  · trivial

end

end RoffDocBook.Document.Notes
