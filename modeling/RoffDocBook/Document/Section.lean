import RoffDocBook.Document.Block

/-! Sections, diversions and footnotes, references to other files, and the end of a document. -/
namespace RoffDocBook.Document
open Text Markup

/-- Closes what is open inside the innermost section. -/
def closeBlocks (doc : Document) : Document :=
  doc.flushTrap.endAllDisplays.endAllLists.closeParagraph

/-- Closes the innermost section. A section of the first depth that nothing was written into is taken back. -/
def endSection (doc : Document) : Document :=
  let doc := doc.closeBlocks
  match doc.sections with
  | [] => doc
  | mark :: rest =>
    let doc := { doc with sections := rest }
    if doc.lines.length == mark.start + 1 then
      if mark.depth == 1 then (doc.warn .emptySection).truncate mark.start
      else (doc.append "<para/>").emit ("</" ++ mark.element ++ ">")
    else doc.emit ("</" ++ mark.element ++ ">")

/-- Closes the innermost sections of a depth or deeper. -/
def popSections (doc : Document) (depth : Nat) : Document :=
  (doc.sections.takeWhile fun mark => depth ≤ mark.depth).foldl (fun doc _ => doc.endSection) doc

def endSections (doc : Document) : Document :=
  doc.popSections 0

def sectionDepth (doc : Document) : Nat :=
  (doc.sections.head?.map (·.depth)).getD 0

/-- Opens a section as a given element, after those that it cannot be part of have been closed. -/
def openSection (doc : Document) (depth : Nat) (element title : Text) : Document :=
  let doc := doc.closeBlocks.popSections depth
  let plain := stripTags title
  let id := doc.ids.make plain
  let start := doc.lines.length
  let doc := { doc with ids := id.2 }.emit ("<" ++ element ++ " id='" ++ id.1 ++ "'><title>" ++ title ++ "</title>")
  { doc with sectionName := some plain, sections := { depth, element, start } :: doc.sections }

/-- Opens a section with a title that is markup; depths count from one. -/
def pushSection (doc : Document) (depth : Nat) (title : Text) : Document :=
  let depth := max 1 depth
  let element : Text := if doc.isManualPage then "refsect" ++ ofNat (min 3 depth) else "sect" ++ ofNat (min 5 depth)
  doc.openSection depth element title

/-- Opens the synopsis of a manual page. -/
def pushSynopsis (doc : Document) (title : Text) : Document :=
  if doc.isManualPage then doc.openSection 1 "refsynopsisdiv" title else doc.pushSection 1 title

/-- Sets the output aside and collects what follows. -/
def beginDiversion (doc : Document) : Document :=
  { doc with
    suspended := { lines := doc.lines, inParagraph := doc.inParagraph } :: doc.suspended
    lines := []
    inParagraph := false
    joinNext := false }

/-- Goes back to the output that was set aside, and gives the lines collected since. -/
def endDiversion (doc : Document) : List Text × Document :=
  let doc := doc.flushTrap.closeParagraph
  match doc.suspended with
  | [] => ([], doc)
  | outer :: rest =>
    (doc.lines.reverse,
      { doc with lines := outer.lines, suspended := rest, inParagraph := outer.inParagraph, joinNext := false })

def inDiversion (doc : Document) : Bool :=
  !doc.suspended.isEmpty

def beginFootnote (doc : Document) : Document :=
  doc.beginDiversion

/-- Collected lines as the content of an element that holds paragraphs, if there is any text in them. -/
def paragraphs? (lines : List Text) : Option Text :=
  let body := unlines lines
  if isAllBlank body then none
  else if startsWith body "<para" then some body
  else some ("<para>" ++ body ++ "</para>")

/-- Ends a footnote, which goes to the end of the text before it. A footnote without text vanishes. -/
def endFootnote (doc : Document) : Document :=
  if doc.suspended.isEmpty then doc.warn .footnoteEndAlone
  else
    let ended := doc.endDiversion
    match paragraphs? ended.1 with
    | some body => ended.2.append ("<footnote>" ++ body ++ "</footnote>")
    | none => ended.2

/-- Refers to a file instead of reading it, and gives the markup of the reference. -/
def addInclusion (doc : Document) (file : Text) : Text × Document :=
  let base := (splitOn '/' file).getLastD []
  let stem := ((breakOnLast? "." base).map Prod.fst).getD base
  let target := stem ++ ".xml"
  let entity := Slug.ofTitle stem
  let markup : Text :=
    if doc.isFifth then "<xi:include href='" ++ escapeAttribute target ++ "'/>" else "&" ++ entity ++ ";"
  if doc.inclusions.any fun inclusion => inclusion.entity == entity then (markup, doc)
  else (markup, { doc with inclusions := doc.inclusions ++ [{ entity, target }] })

/-- Closes the open diversions, and puts what they collected into the output. -/
def endDiversions (doc : Document) : Document :=
  doc.suspended.foldl
    (fun doc _ =>
      let ended := doc.endDiversion
      ended.1.foldl emit ended.2)
    doc

/-- Closes everything that is open. -/
def closeAll (doc : Document) : Document :=
  doc.endDiversions.closeBlocks.endSections

/-- The finished lines of the document, whose output is empty afterwards. -/
def finish (doc : Document) : List Text × Document :=
  let doc := doc.closeAll
  (doc.lines.reverse, { doc with lines := [] })

/-- The output lines after the first `n`. -/
def linesSince (doc : Document) (n : Nat) : List Text :=
  doc.lines.reverse.drop n

end RoffDocBook.Document

/-! Reading ahead: the lines of text that a request takes from the input after it. -/
namespace RoffDocBook.Document
open Text

/-- The lines of text up to the next control line, expanded and trimmed, without blank ones. -/
def gatherLines (doc : Document) : List Text × Document :=
  go doc.input.length doc
where
  go : Nat → Document → List Text × Document
  | 0, doc => ([], doc)
  | left + 1, doc =>
    if doc.nextIsControl then ([], doc)
    else
      match doc.nextLine with
      | (none, doc) => ([], doc)
      | (some line, doc) =>
        let others := go left doc
        (if isAllBlank line then others.1 else trim line :: others.1, others.2)

/-- The lines of text up to the next control line as one text. -/
def gatherText (doc : Document) : Text × Document :=
  let gathered := doc.gatherLines
  (join " " gathered.1, gathered.2)

/-- The text of a heading: its arguments, or else the lines after it. -/
def headingText (doc : Document) (arguments : List Text) : Text × Document :=
  if arguments.isEmpty then doc.gatherText else (join " " arguments, doc)

/-- The raw lines up to the first one that closes, which is read too, and whether there was one. -/
def readUntil (doc : Document) (closes : Text → Bool) : List Text × Bool × Document :=
  go doc.input.length doc
where
  go : Nat → Document → List Text × Bool × Document
  | 0, doc => ([], false, doc)
  | left + 1, doc =>
    match doc.nextRawLine with
    | (none, doc) => ([], false, doc)
    | (some line, doc) =>
      if closes line then ([], true, doc)
      else
        let others := go left doc
        (line :: others.1, others.2)

/-- The raw lines up to the control line with a request, which is read too; complains if there is none. -/
def gatherBlock (doc : Document) (closer : String) : List Text × Document :=
  let (lines, closed, rest) := doc.readUntil fun line => doc.isRequest line [closer]
  (lines, if closed then rest else rest.warn (.missingEnd closer))

/-- Writes arguments in one font, or the next line of text if there are none. -/
def fontLine (doc : Document) (arguments : List Text) (font : Text) : Document :=
  if arguments.isEmpty then
    if doc.nextIsControl then doc
    else
      match doc.nextLine with
      | (some line, doc) => doc.textLine ("\\f" ++ font ++ line ++ "\\fR")
      | (none, doc) => doc
  else doc.textLine ("\\f" ++ font ++ join " " arguments ++ "\\fR")

/-- Texts with two fonts taking turns. -/
def alternating (first second : Text) : List Text → Text
  | [] => []
  | argument :: rest => "\\f" ++ first ++ argument ++ alternating second first rest

/-- Writes arguments without blanks between them, in two fonts that take turns. -/
def alternateFonts (doc : Document) (arguments : List Text) (first second : Text) : Document :=
  if arguments.isEmpty then doc else doc.textLine (alternating first second arguments ++ "\\fR")

end RoffDocBook.Document
