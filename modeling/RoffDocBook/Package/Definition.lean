import RoffDocBook.Package.Request

/-! Requests that define and remove strings, macros, number registers and glyphs, and the expansion of macros. -/
namespace RoffDocBook.Document
open Text

/-- The first word of a text at blanks and tabs, and the text after the blank that ends it. -/
def splitName (t : Text) : Text × Text :=
  let found := spanUntil isSpaceOrTab t
  (found.1, found.2.drop 1)

/-- A value as it is written after a name, where a quote keeps the blanks at its start. -/
def writtenValue (t : Text) : Text :=
  let value := trimStart t
  (dropStart? "\"" value).getD value

/-- Defines a string, or adds to it. -/
def defineString (doc : Document) (request : Request) (adding : Bool) : Document :=
  let (name, value) := splitName (trimStart request.rest)
  if name.isEmpty then doc.warn .namelessString
  else
    let name := String.ofList name
    let value := writtenValue value
    let value := if adding then (doc.formatter.strings.get? name).getD [] ++ value else value
    { doc with formatter := { doc.formatter with strings := doc.formatter.strings.put name value } }

/-- Removes strings and macros. -/
def removeNames (doc : Document) (names : List Text) : Document :=
  names.foldl
    (fun (doc : Document) name =>
      let name := String.ofList name
      { doc with
        formatter :=
          { doc.formatter with
            strings := doc.formatter.strings.remove name
            macros := doc.formatter.macros.remove name
            reductions := doc.formatter.reductions.remove name } })
    doc

/-- What a table becomes when the thing with one name gets another one, and loses the first if asked for. -/
def moveBinding {α : Type} (table : Bindings α) (old new : String) (removing : Bool) : Bindings α :=
  match table.get? old with
  | some value => if removing then (table.put new value).remove old else table.put new value
  | none => table

/-- Gives a macro or a string another name. -/
def rename (doc : Document) (old new : Text) (removing : Bool) : Document :=
  if old.isEmpty || new.isEmpty then doc.warn .renameNeedsTwo
  else
    let old := String.ofList old
    let new := String.ofList new
    { doc with
      formatter :=
        { doc.formatter with
          macros := moveBinding doc.formatter.macros old new removing
          strings := moveBinding doc.formatter.strings old new removing
          reductions := moveBinding doc.formatter.reductions old new false } }

/-- Sets a number register: to a value, or relative to its value after a sign. -/
def setNumber (doc : Document) (request : Request) : Document :=
  let name := request.argument 0
  if name.isEmpty then doc
  else
    let name := String.ofList name
    let (sign, expression) : Int64 × Text :=
      match request.argument 1 with
      | '+' :: rest => (1, rest)
      | '-' :: rest => (-1, rest)
      | text => (0, text)
    let (result, formatter) := doc.formatter.evaluate expression
    let doc := { doc with formatter }
    let (value, doc) : Int64 × Document :=
      match result with
      | .ok value => (value, doc)
      | .error e => (0, doc.warn (.badRegisterValue e name))
    let value := if sign == 0 then value else doc.formatter.register name + sign * value
    let step :=
      match toWord? (request.argument 2) with
      | some step => step
      | none =>
        match doc.formatter.registers.get? name with
        | some (.value _ step) => step
        | _ => 0
    { doc with formatter := doc.formatter.setRegister name value step }

def removeRegisters (doc : Document) (names : List Text) : Document :=
  { doc with
    formatter :=
      { doc.formatter with
        registers := names.foldl (fun table name => table.remove (String.ofList name)) doc.formatter.registers } }

/-- Whether a line ends a definition that a name ends. -/
def isTerminator (control : Char) (name line : Text) : Bool :=
  match line with
  | [] => false
  | c :: rest =>
    c == control &&
      match dropStart? name (rest.dropWhile isSpaceOrTab) with
      | none => false
      | some after => after.isEmpty || after.head?.any isSpaceOrTab || startsWith after "\\\""

/-- The request that a line of a macro makes, if the line does anything: blank lines, comments and ignored requests do
not, and a line of text makes no request. -/
def significant? (doc : Document) (line : Text) : Option (Option String) :=
  if isAllBlank line || ControlLine.isComment line then none
  else
    match doc.splitControl? line with
    | none => some none
    | some (name, _) => if doc.isIgnored name then none else some (some name)

/-- The standard request that a macro is no more than another name of. -/
def reduction? (doc : Document) (name : String) : Option String := do
  let body ← doc.formatter.macros.get? name
  match body.filterMap doc.significant? with
  | [some only] => if doc.listed Descriptor.reducible only && only != name then some only else none
  | _ => none

/-- Notes whether a macro can be reduced to a standard request. -/
def reduceWrapper (doc : Document) (name : String) : Document :=
  let reductions := doc.formatter.reductions.remove name
  let doc := { doc with formatter := { doc.formatter with reductions } }
  match doc.reduction? name with
  | some only => { doc with formatter := { doc.formatter with reductions := reductions.put name only } }
  | none => doc

/-- Defines a macro by the lines up to the end of the definition, or adds them to it. -/
def defineMacro (doc : Document) (request : Request) (adding : Bool) : Document :=
  let name := String.ofList (request.argument 0)
  let terminator : Text :=
    if (request.argument 1).isEmpty then (doc.formatter.definitionEnd.getD ".").toList else request.argument 1
  let (lines, closed, doc) := doc.readUntil (isTerminator doc.formatter.control terminator)
  let body := lines.map fun line => replace line "\\\\" "\\"
  let doc := if closed then doc else doc.warn (.unterminatedMacro name)
  if name == "" then doc.warn .namelessMacro
  else if doc.isImmutable name then doc.warn (.immutableMacro name)
  else
    let body := if adding then (doc.formatter.macros.get? name).getD [] ++ body else body
    let doc := { doc with formatter := { doc.formatter with macros := doc.formatter.macros.put name body } }
    doc.reduceWrapper name

/-- The deepest nesting of macros that are being expanded. -/
def maximalNesting : Nat := 200

/-- Puts the body of a macro in front of the input, with a mark at its end. -/
def invoke (doc : Document) (request : Request) : Document :=
  if maximalNesting ≤ doc.formatter.invocations.length then doc.error (.nestedTooDeeply request.name)
  else
    match doc.formatter.macros.get? request.name with
    | none => doc
    | some body =>
      { doc with
        formatter :=
          { doc.formatter with
            invocations :=
              { name := request.name, arguments := request.arguments, line := doc.line } ::
                doc.formatter.invocations }
        input := Input.pushLines (.finish doc.line :: doc.input) body }

/-- Leaves the innermost macro. -/
def leaveMacro (doc : Document) : Document :=
  match doc.input.unwind? with
  | some (line, rest) =>
    { doc with
      input := rest
      line
      formatter := { doc.formatter with invocations := doc.formatter.invocations.tail } }
  | none => doc

/-- Drops the first arguments of the innermost macro. -/
def shiftArguments (doc : Document) (n : Nat) : Document :=
  match doc.formatter.invocations with
  | [] => doc
  | invocation :: outer =>
    { doc with
      formatter :=
        { doc.formatter with
          invocations := { invocation with arguments := invocation.arguments.drop n } :: outer } }

/-- Collects the lines up to the end of a diversion as a macro, or adds them to it. -/
def divert (doc : Document) (request : Request) : Document :=
  let name := String.ofList (request.argument 0)
  if name == "" then doc
  else
    let closes (line : Text) : Bool :=
      (doc.splitControl? line).any fun found => (found.1 == "di" || found.1 == "da") && isAllBlank found.2
    let (lines, _, doc) := doc.readUntil closes
    let before := if request.name == "di" then [] else (doc.formatter.macros.get? name).getD []
    { doc with formatter := { doc.formatter with macros := doc.formatter.macros.put name (before ++ lines) } }

/-- Defines a glyph by the markup of a text. -/
def defineGlyph (doc : Document) (request : Request) : Document :=
  let (written, definition) := splitName (trimStart request.rest)
  let name := Glyph.bareName written
  if name.isEmpty then doc
  else
    let (markup, doc) := doc.renderIsolated (writtenValue definition)
    { doc with
      formatter := { doc.formatter with glyphs := doc.formatter.glyphs.put (String.ofList name) markup } }

end RoffDocBook.Document
