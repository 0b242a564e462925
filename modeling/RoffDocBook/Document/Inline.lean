import RoffDocBook.Document.Basic

/-! The markup of a piece of running text: fonts, glyphs, registers, substituted characters and tab stops. -/
namespace RoffDocBook.Document
open Text Markup

/-- Notes that the output uses an entity that has to be declared. -/
def recordEntity (doc : Document) (name : String) : Document :=
  if Glyph.predefinedEntities.contains name || doc.entities.contains name then doc
  else
    { doc with
      entities :=
        doc.entities.takeWhile (fun entity => entity < name) ++
          name :: doc.entities.dropWhile (fun entity => entity < name) }

/-- Whether the rest of a glyph name gives code points in hexadecimal. -/
def isCodeName (digits : Text) : Bool :=
  !digits.isEmpty && digits.all fun c => c.isDigit || "abcdefABCDEF_".toList.elem c

/-- The markup of a glyph that is known by name, or else the name itself. -/
def namedGlyph (doc : Document) (name : Text) : Text × Document :=
  match doc.formatter.glyphs.get? (String.ofList name) with
  | some definition => (definition, doc)
  | none =>
    match Glyph.lookup? name with
    | some glyph =>
      match glyph.entity with
      | some entity => ("&" ++ entity ++ ";", doc.recordEntity entity)
      | none => (escape [Char.ofNat glyph.code], doc)
    | none =>
      if name.length == 1 then (escape name, doc) else (escape name, doc.warn (.unknownGlyph name))

/-- The markup of a glyph; a name that begins with `u` may give its code points. -/
def glyphMarkup (doc : Document) (name : Text) : Text × Document :=
  match name with
  | 'u' :: digits =>
    if isCodeName digits then ("&#x" ++ (spanUntil (· == '_') digits).1 ++ ";", doc) else doc.namedGlyph name
  | _ => doc.namedGlyph name

/-- The markup of one piece of a line. -/
def renderPiece (doc : Document) : Inline.Piece → Text × Document
  | .plain text => (text, doc)
  | .font name =>
    match doc.fonts.target? (String.ofList name) with
    | some font => ((doc.fonts.switchTo font).2, { doc with fonts := (doc.fonts.switchTo font).1 })
    | none => ([], doc.warn (.unknownFont name))
  | .glyph name => doc.glyphMarkup name
  | .numbered number =>
    match toNat? (trim number) with
    | some n => if n < Word.count32 then ("&#" ++ ofNat n ++ ";", doc) else ([], doc.warn (.badCharacterNumber number))
    | none => ([], doc.warn (.badCharacterNumber number))
  | .width text => (ofNat (Formatter.width text), doc)

def renderPieces (doc : Document) : List Inline.Piece → Text × Document
  | [] => ([], doc)
  | piece :: rest =>
    let first := doc.renderPiece piece
    let others := renderPieces first.2 rest
    (first.1 ++ others.1, others.2)

/-- The markup of a line in the font in force, which stays open at its end. -/
def renderInline (doc : Document) (text : Text) : Text × Document :=
  let reopens := doc.fonts.current != .roman && !doc.fonts.opened && !isAllBlank text
  let start := if reopens then { doc with fonts := { doc.fonts with opened := true } } else doc
  let rendered := start.renderPieces (Inline.pieces text)
  ((if reopens then doc.fonts.current.openTag else []) ++ rendered.1, rendered.2)

/-- The tag that closes the open font; text is in roman afterwards. -/
def takeFontClose (doc : Document) : Text × Document :=
  (doc.fonts.closing, { doc with fonts := {} })

/-- The text with its register references replaced. -/
def interpolate (doc : Document) (text : Text) : Text × Document :=
  let result := doc.formatter.interpolate text
  (result.1, { doc with formatter := result.2 })

/-- The markup of a text that stands alone: it begins in roman, and its fonts are closed. -/
def renderIsolated (doc : Document) (text : Text) : Text × Document :=
  let rendered := { doc with fonts := {} }.renderInline text
  let result := { rendered.2 with fonts := doc.fonts }.interpolate (rendered.1 ++ rendered.2.fonts.closing)
  (Inline.stripMotions result.1, result.2)

/-- A change of font between lines. -/
def setFont (doc : Document) (name : String) : Document :=
  let closed := if doc.fonts.closing.isEmpty then doc else doc.append doc.fonts.closing
  match doc.fonts.target? name with
  | some font => { closed with fonts := { current := font, previous := doc.fonts.current, opened := false } }
  | none => { closed with fonts := { doc.fonts with opened := false } }.warn (.unknownFont name.toList)

/-- Makes a character stand for a text, or for itself again. -/
def setSubstitute (doc : Document) (c : Char) (text : Text) : Document :=
  let others := doc.substitutes.filter fun entry => entry.1 != c
  { doc with substitutes := if text == [c] then others else (c, text) :: others }

/-- Text with its characters substituted, where `inMarkup` tells whether it begins inside a tag or a reference. -/
def substituteChars (table : List (Char × Text)) : Bool → Text → Text
  | _, [] => []
  | inMarkup, c :: cs =>
    if inMarkup && (c == '>' || c == ';') then c :: substituteChars table false cs
    else if inMarkup || c == '<' || c == '&' then c :: substituteChars table true cs
    else (table.lookup c).getD [c] ++ substituteChars table false cs

/-- The distance of the usual tab stops. -/
def tabWidth : Nat := 8

/-- The distance of the tab stops after the last one that was set. -/
def tabInterval (stops : List Nat) : Nat :=
  match stops.reverse with
  | last :: previous :: _ => max 1 (last - previous)
  | _ => tabWidth

/-- The first tab stop after a column. -/
def nextTabStop (stops : List Nat) (column : Nat) : Nat :=
  match stops.find? (column < ·) with
  | some stop => stop
  | none =>
    let last := stops.getLastD 0
    last + ((column - last) / tabInterval stops + 1) * tabInterval stops

/-- Where a scan for columns stands: a tag takes no column, and a reference takes one. -/
structure ColumnScan where
  column : Nat := 0
  inTag : Bool := false
  inReference : Bool := false

/-- Text with blanks for its tabs. -/
def expandTabsFrom (stops : List Nat) : ColumnScan → Text → Text
  | _, [] => []
  | scan, c :: cs =>
    if c == '<' then c :: expandTabsFrom stops { scan with inTag := true } cs
    else if c == '>' && scan.inTag then c :: expandTabsFrom stops { scan with inTag := false } cs
    else if c == '&' && !scan.inTag then
      c :: expandTabsFrom stops { scan with inReference := true, column := scan.column + 1 } cs
    else if c == ';' && scan.inReference then c :: expandTabsFrom stops { scan with inReference := false } cs
    else if c == '\t' && !scan.inTag then
      let stop := nextTabStop stops scan.column
      List.replicate (stop - scan.column) ' ' ++ expandTabsFrom stops { scan with column := stop } cs
    else if !scan.inTag && !scan.inReference then
      c :: expandTabsFrom stops { scan with column := scan.column + 1 } cs
    else c :: expandTabsFrom stops scan cs

/-- The finished form of a line of markup: registers and motions are gone, characters are substituted, and text that is
not filled has its tabs expanded. -/
def finishLine (doc : Document) (text : Text) : Text × Document :=
  let result := doc.interpolate text
  let substituted := substituteChars doc.substitutes false (Inline.stripMotions result.1)
  (if doc.formatter.fill then substituted else expandTabsFrom doc.tabStops {} substituted, result.2)

end RoffDocBook.Document

/-! Lines of text in the output: the paragraphs that they form, and traps for the next line. -/
namespace RoffDocBook.Document
open Text

/-- Opens a paragraph unless one is open. -/
def openParagraph (doc : Document) : Document :=
  if doc.inParagraph then doc else { doc.emit "<para>" with joinNext := true, inParagraph := true }

/-- Closes the open font in the output. -/
def closeFont (doc : Document) : Document :=
  doc.takeFontClose.2.append doc.takeFontClose.1

/-- Closes the open paragraph, if any. -/
def closeParagraph (doc : Document) : Document :=
  if doc.inParagraph then { doc.closeFont.append "</para>" with inParagraph := false } else doc

/-- Writes a trap that no text has come for. -/
def flushTrap (doc : Document) : Document :=
  match doc.trap with
  | some trap => { doc with trap := none }.emit (trap.before ++ trap.after)
  | none => doc

/-- Puts markup around the next line of text that is not blank. -/
def setTrap (doc : Document) (before after : Text) : Document :=
  { doc.flushTrap.closeParagraph with trap := some { before, after } }

/-- Writes a line of text. In fill mode a blank line ends the paragraph, and other text opens one where needed; a trap
takes the first line that is not blank. -/
def textLine (doc : Document) (line : Text) : Document :=
  if doc.formatter.fill && isAllBlank line && doc.trap.isNone then doc.closeParagraph
  else
    let rendered := doc.renderInline line
    match rendered.2.trap with
    | some trap =>
      if isAllBlank rendered.1 then rendered.2
      else
        let finished := { rendered.2 with trap := none }.finishLine rendered.1
        let closed := finished.2.takeFontClose
        closed.2.emit (trap.before ++ finished.1 ++ closed.1 ++ trap.after)
    | none =>
      let opened := if rendered.2.formatter.fill then rendered.2.openParagraph else rendered.2
      let finished := opened.finishLine rendered.1
      finished.2.emit finished.1

end RoffDocBook.Document
