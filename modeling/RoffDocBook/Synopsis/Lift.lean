import RoffDocBook.Document.Name
import RoffDocBook.Package.Request
import RoffDocBook.Synopsis.Display

/-! Synopses in the source of a manual page: their lines as plain text, and the section that they are lifted from. -/
namespace RoffDocBook
open Text

namespace Synopsis

/-- Plain lines while they are being put together. -/
structure PlainLines where
  /-- Finished lines, the most recent first. -/
  finished : List Text := []
  current : Text := []
  fill : Bool := true

namespace PlainLines

/-- Ends the current line. -/
def flush (plain : PlainLines) : PlainLines :=
  let line := join " " (words plain.current)
  { plain with finished := if line.isEmpty then plain.finished else line :: plain.finished, current := [] }

/-- Adds to the current line, with a blank where there is none. -/
def append (plain : PlainLines) (t : Text) : PlainLines :=
  let separator : Text := if plain.current.isEmpty || plain.current.getLast? == some ' ' then "" else " "
  { plain with current := plain.current ++ separator ++ t }

/-- Ends the current line unless text is filled. -/
def endUnfilled (plain : PlainLines) : PlainLines :=
  if plain.fill then plain else plain.flush

def breakRequests : List String :=
  ["br", "sp", "PP", "LP", "P", "HP", "TP", "IP", "in", "ti", "ne", "Sp", "YS"]

def neutralRequests : List String :=
  ["ad", "na", "hy", "nh", "ft", "PD", "RS", "RE", "ta", "DT", "ll", "ps", "vs", "ce", "fam", "IX", "ie", "el", "if"]

/-- What a request contributes, if it is one that a synopsis can have. -/
def request? (plain : PlainLines) (name : String) (arguments : List Text) : Option PlainLines :=
  let spaced := Inline.plainText (join " " arguments)
  if ["B", "I", "SM", "SB", "R"].contains name then some (plain.append spaced).endUnfilled
  else if ["BR", "BI", "IB", "IR", "RB", "RI"].contains name then
    some (plain.append (Inline.plainText arguments.flatten)).endUnfilled
  else if breakRequests.contains name then some plain.flush
  else if ["nf", "EX", "Vb"].contains name then some { plain.flush with fill := false }
  else if ["fi", "EE", "Ve"].contains name then some { plain.flush with fill := true }
  else if name == "SY" then some (plain.flush.append spaced)
  else if name == "OP" then some (plain.append ("[" ++ spaced ++ "]"))
  else if neutralRequests.contains name then some plain
  else none

/-- The contribution of one line of source. -/
def line? (formatter : Formatter.State) (plain : PlainLines) (raw : Text) : Option PlainLines :=
  if ControlLine.isComment raw then some plain
  else
    let line := formatter.expand raw
    match ControlLine.split? line formatter.control formatter.noBreak with
    | some (name, rest) => plain.request? name (ControlLine.arguments rest)
    | none =>
      if isAllBlank line then some { plain.flush with finished := [] :: plain.flush.finished }
      else some (plain.append (trim (Inline.plainText line))).endUnfilled

end PlainLines

/-- The plain lines of a synopsis, joined where its text is filled; nothing if it has a request that is not
understood. -/
def plainLines? (formatter : Formatter.State) (lines : List Text) : Option (List Text) :=
  (lines.foldlM (PlainLines.line? formatter) {}).map fun plain =>
    (plain.flush.finished.dropWhile List.isEmpty).reverse

end Synopsis

namespace Document

/-- The display that the lines of a synopsis make, if there is a command or a function among them. -/
def synopsis? (doc : Document) (lines : List Text) : Option Synopsis.Display :=
  ((Synopsis.plainLines? doc.formatter lines).map fun plain =>
    Synopsis.Display.ofLines plain doc.front.names doc.hints).filter (·.found)

/-- The raw lines up to one of some requests, or up to anything else that is not a line. -/
def takeUntil (doc : Document) (stops : List String) : List Text × Document :=
  go doc.input.length doc
where
  go : Nat → Document → List Text × Document
  | 0, doc => ([], doc)
  | left + 1, doc =>
    match doc.input.nextLine? with
    | none => ([], doc)
    | some next =>
      if doc.isRequest next stops then ([], doc)
      else
        match doc.nextRawLine with
        | (none, doc) => ([], doc)
        | (some line, doc) =>
          let others := go left doc
          (line :: others.1, others.2)

/-- Writes the section of a synopsis, up to one of some requests, as commands and functions. If there are none, its
lines stay to be read as they are, and the answer is false. -/
def liftSynopsis (doc : Document) (stops : List String) : Bool × Document :=
  let (lines, doc) := doc.takeUntil stops
  match doc.synopsis? lines with
  | none => (false, { doc with input := doc.input.pushLines lines })
  | some display =>
    let doc := display.warnings.foldl (fun (doc : Document) reason => doc.warn (.synopsisNotParsed reason)) doc
    let doc := display.learned.foldl (fun (doc : Document) name => doc.learn name.1 name.2) doc
    (true, display.markup.foldl emitMarkup doc.closeParagraph)

end Document

end RoffDocBook
