import RoffDocBook.Synopsis.Command
import RoffDocBook.Synopsis.Declaration

/-! The synopsis of C functions: their declarations, with the lines that go before them. -/
namespace RoffDocBook.Synopsis.Function
open Text Markup

/-- Whether a line cannot belong to the declaration of a function. -/
def isForeign (line : Text) : Bool :=
  line.elem '|' || contains line ") (" || contains line "] ["

/-- Beginnings of lines that tell how to compile. -/
def compileLeads : List Text :=
  ["cc ", "gcc ", "c99 ", "Link with", "link with", "Compile with"]

/-- Whether a line is kept as it is: a directive, a remark on compiling, or a declaration of something else. -/
def isInformation (line : Text) : Bool :=
  startsWith (trimStart line) "#" || compileLeads.any (startsWith (trimStart line) ·) ||
    (endsWith (trimEnd line) ";" && !line.elem '(')

/-- How many more braces a line opens than it closes. -/
def braceBalance (line : Text) : Int :=
  (List.count '\x7b' line : Int) - List.count '\x7d' line

/-- The lines of a declaration in braces, of which `depth` are open. -/
def readBraced : Nat → Int → TokenReader → List Text × TokenReader
  | 0, _, reader => ([], reader)
  | fuel + 1, depth, reader =>
    match reader.popLine with
    | (none, reader) => ([], reader)
    | (some line, reader) =>
      if depth + braceBalance line ≤ 0 then ([line], reader)
      else
        let (lines, reader) := readBraced fuel (depth + braceBalance line) reader
        (line :: lines, reader)

/-- The lines before a declaration that are kept as they are; blank lines among them are dropped. -/
def readInformation : Nat → TokenReader → List Text × TokenReader
  | 0, reader => ([], reader)
  | fuel + 1, reader =>
    match reader.peekLine? with
    | none => ([], reader)
    | some line =>
      if isAllBlank line then readInformation fuel reader.popLine.2
      else if line.elem '\x7b' && !line.elem '(' then
        let (lines, reader) := readBraced reader.lines.length 0 reader
        let (more, reader) := readInformation fuel reader
        (lines ++ more, reader)
      else if isInformation line then
        let (more, reader) := readInformation fuel reader.popLine.2
        (line :: more, reader)
      else ([], reader)

/-- The text of a declaration: whole lines up to one at which all parentheses are closed. -/
def readDeclaration : Nat → Text → TokenReader → Option Text × TokenReader
  | 0, _, reader => (none, reader)
  | fuel + 1, before, reader =>
    match reader.popLine with
    | (none, reader) => (none, reader)
    | (some line, reader) =>
      let t := before ++ unescape (trim line) ++ " "
      let opened := List.count '(' t
      let closed := List.count ')' t
      if 0 < opened && opened == closed then (some t, reader)
      else if opened < closed then (none, reader)
      else readDeclaration fuel t reader

/-- The parameters that the parts of a line declare; each part after the first has the type that the line begins
with. -/
def declaredBy? (names : List Text) (ts : List Text) : Option (List (Text × Parameter)) :=
  let parts :=
    match splitCommas 0 ts with
    | [] => []
    | first :: rest => first :: rest.map (ts.take 1 ++ ·)
  parts.mapM fun part =>
    match Parameter.ofTokens? part with
    | some (.named before name after) =>
      if names.contains name then some (name, .named before name after) else none
    | _ => none

/-- The declarations of parameters on the lines after a function head; nothing if one of the lines declares something
else. -/
def readParameters : Nat → List Text → List (Text × Parameter) → TokenReader →
    Option (List (Text × Parameter)) × TokenReader
  | 0, _, declared, reader => (some declared, reader)
  | fuel + 1, names, declared, reader =>
    if names.length ≤ declared.length then (some declared, reader)
    else
      match reader.peekLine?.bind fun line => dropEnd? ";" (unescape (trim line)) with
      | none => (some declared, reader)
      | some body =>
        if body.elem '(' then (some declared, reader)
        else
          match declaredBy? names (tokens body) with
          | none => (none, reader)
          | some more => readParameters fuel names (declared ++ more) reader.popLine.2

/-- One function head, which may go over several lines and have its parameters declared after it. -/
def readPrototype (reader : TokenReader) : Option Prototype × TokenReader :=
  match readDeclaration reader.lines.length [] reader with
  | (none, reader) => (none, reader)
  | (some t, reader) =>
    match Prototype.parse? t with
    | none => (none, reader)
    | some (prototype, names) =>
      if names.isEmpty || names.length != prototype.parameters.length then (some prototype, reader)
      else
        match readParameters (reader.lines.length + 1) names [] reader with
        | (none, reader) => (none, reader)
        | (some declared, reader) =>
          let parameter (name : Text) : Parameter := (declared.lookup name).getD (.named "int" name "")
          (some { prototype with parameters := names.map parameter }, reader)

/-- Whether a line may begin a function head. -/
def opensPrototype (line : Text) : Bool :=
  line.elem '(' && !isForeign line

/-- A function head with the lines kept before it. -/
structure Entry where
  information : List Text
  prototype : Prototype

def Entry.markup (entry : Entry) : Text :=
  let information : Text :=
    if entry.information.isEmpty then ""
    else "<funcsynopsisinfo>" ++ unlines entry.information ++ "</funcsynopsisinfo>\n"
  information ++ entry.prototype.markup ++ "\n"

/-- As many function heads as there are, with nothing read after the last one. -/
def readEntries : Nat → TokenReader → List Entry × TokenReader
  | 0, reader => ([], reader)
  | fuel + 1, reader =>
    let (information, ahead) := readInformation reader.lines.length reader
    if !ahead.peekLine?.any opensPrototype then ([], ahead.restore reader.mark)
    else
      match readPrototype ahead with
      | (none, ahead) => ([], ahead.restore reader.mark)
      | (some prototype, rest) =>
        let (more, rest) := readEntries fuel rest
        ({ information, prototype } :: more, rest)

/-- Reads a run of function heads: their markup and the names of the functions. Nothing is read unless there is one. -/
def parse (reader : TokenReader) : Verdict (Text × List Text) × TokenReader :=
  match reader.peekLine? with
  | none => (.declined, reader)
  | some line =>
    if isForeign line then (.declined, reader)
    else
      match readEntries (reader.lines.length + 1) reader with
      | ([], after) => (.declined, after.restore reader.mark)
      | (entries, after) =>
        (.parsed ("<funcsynopsis>\n" ++ entries.flatMap Entry.markup ++ "</funcsynopsis>",
          entries.map fun entry => entry.prototype.name), after)

end RoffDocBook.Synopsis.Function
