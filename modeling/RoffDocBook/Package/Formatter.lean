import RoffDocBook.Package.Definition
import RoffDocBook.Package.Include
import RoffDocBook.Package.Request

/-! Conditional requests: the evaluation of their guards, and the statements and blocks that they govern. -/
namespace RoffDocBook.Document
open Text

/-- How many more blocks a line opens than it closes. -/
def blockBalance (line : Text) : Int :=
  (occurrences line "\\\x7b" : Int) - occurrences line "\\\x7d"

/-- Passes over the lines of a block of which `depth` levels are open. -/
def skipBlock (doc : Document) (depth : Int) : Document :=
  go doc.input.length depth doc
where
  go : Nat → Int → Document → Document
  | 0, depth, doc => if 0 < depth then doc.warn .unterminatedBlock else doc
  | left + 1, depth, doc =>
    if 0 < depth then
      match doc.nextRawLine with
      | (none, doc) => doc.warn .unterminatedBlock
      | (some line, doc) => go left (depth + blockBalance line) doc
    else doc

/-- Carries out the statement after a guard, or passes over it. A block that is carried out stays in the input, where
its end is dropped. -/
def governed (doc : Document) (taken : Bool) (statement : Text) : Document :=
  let statement := trimStart statement
  match dropStart? "\\\x7b" statement with
  | some block =>
    if taken then
      let block := trimStart block
      if startsWith block "\\\"" || isAllBlank block then doc else doc.pushLine block
    else doc.skipBlock (1 + blockBalance block)
  | none => if taken && !statement.isEmpty then doc.pushLine statement else doc

/-- The value of the guard of a request, and the statement after it. -/
def guard (doc : Document) (request : Request) : Bool × Text × Document :=
  let (outcome, formatter) := doc.formatter.condition request.rest
  let doc := { doc with formatter }
  (outcome.value, outcome.rest,
    match outcome.error with
    | some error => doc.warn (.badGuard error request.name)
    | none => doc)

/-- A conditional with one arm. -/
def ifRequest (doc : Document) (request : Request) : Document :=
  let (value, statement, doc) := doc.guard request
  doc.governed value statement

/-- The first arm of a conditional with two, whose guard is kept for the second. -/
def ifElseRequest (doc : Document) (request : Request) : Document :=
  let (value, statement, doc) := doc.guard request
  let doc := { doc with formatter := { doc.formatter with guards := value :: doc.formatter.guards } }
  doc.governed value statement

/-- The second arm of a conditional. -/
def elseRequest (doc : Document) (request : Request) : Document :=
  match doc.formatter.guards with
  | value :: rest =>
    { doc with formatter := { doc.formatter with guards := rest } }.governed (!value) request.rest
  | [] => (doc.warn .elseAlone).governed false request.rest

/-- A loop, which is passed over. -/
def whileRequest (doc : Document) (request : Request) : Document :=
  let doc := doc.warn .loopNotInterpreted
  let (outcome, formatter) := doc.formatter.condition request.rest
  { doc with formatter }.governed false outcome.rest

end RoffDocBook.Document

/-! The requests of the formatter itself. -/
namespace RoffDocBook.Document
open Text Markup

/-- The operands of a character substitution one by one: a character, a reference, or an escape. -/
def substituteOperands : Text → List Text
  | [] => []
  | '\\' :: '(' :: rest => ('\\' :: '(' :: rest.take 2) :: substituteOperands (rest.drop 2)
  | '\\' :: '[' :: rest =>
    let found := spanUntil (· == ']') rest
    ('\\' :: '[' :: found.1 ++ found.2.take 1) :: substituteOperands (found.2.drop 1)
  | '\\' :: c :: rest => ['\\', c] :: substituteOperands rest
  | '&' :: rest =>
    let found := spanUntil (· == ';') rest
    if found.2.isEmpty then ['&'] :: substituteOperands rest
    else ('&' :: found.1 ++ [';']) :: substituteOperands (found.2.drop 1)
  | c :: rest => [c] :: substituteOperands rest
termination_by t => t.length
decreasing_by
  all_goals simp only [List.length_cons, List.length_drop]
  all_goals try omega
  · have := length_spanUntil_le (· == ']') rest; omega
  · have := length_spanUntil_le (· == ';') rest; omega

/-- Makes the first of two operands stand for the second, or for a blank if there is none. -/
def substituteUnit (doc : Document) (unit : Text) (replacement : Option Text) : Document :=
  match unescape unit with
  | [c] =>
    let (text, doc) : Text × Document :=
      match replacement with
      | some replacement => doc.renderIsolated replacement
      | none => (" ", doc)
    if c == '<' || c == '>' || c == '&' then doc.warn .markupSubstitute else doc.setSubstitute c text
  | _ => doc.warn (.badSubstitute unit)

/-- Substitutes characters by pairs of operands. -/
def substituteUnits (doc : Document) : List Text → Document
  | [] => doc
  | [unit] => doc.substituteUnit unit none
  | unit :: replacement :: rest => substituteUnits (doc.substituteUnit unit (some replacement)) rest

/-- How many columns a unit of length has, as a fraction: an inch ten, a centimetre four, and a pica the
floating-point number nearest to 1.7. -/
def columnsPer (unit : Option Char) : Binary64.Fraction :=
  if unit == some 'i' then (10, 1)
  else if unit == some 'c' then (4, 1)
  else if unit == some 'P' then Binary64.nearest (17, 10)
  else (1, 1)

/-- The column that a length reaches, if it begins with a number. -/
def column? (written : Text) : Option Nat :=
  let digits := written.takeWhile Formatter.isNumeralChar
  (Binary64.decimal? digits).map fun value =>
    let length := Binary64.nearest value
    let scale := columnsPer (written.dropWhile Formatter.isNumeralChar).head?
    min (Word.count64 - 1) (Binary64.roundUp (Binary64.nearest (length.1 * scale.1, length.2 * scale.2)))

/-- The tab stops that arguments ask for; a plus sign counts from the stop before. -/
def tabStopsFrom : Nat → List Text → List Nat
  | _, [] => []
  | last, argument :: rest =>
    let (relative, written) : Bool × Text :=
      match argument with
      | '+' :: written => (true, written)
      | written => (false, written)
    match column? written with
    | none => tabStopsFrom last rest
    | some column =>
      let stop := if relative then last + column else column
      stop :: tabStopsFrom stop rest

def setTabs (doc : Document) (arguments : List Text) : Document :=
  { doc with tabStops := tabStopsFrom 0 arguments }

/-- Writes the parts of a title, which its first character separates, as a line of text. -/
def titleLine (doc : Document) (written : Text) : Document :=
  match trim written with
  | [] => doc
  | separator :: rest =>
    let parts := ((splitOn separator rest).map trim).filter fun part => !part.isEmpty
    if parts.isEmpty then doc else doc.textLine (join " " parts)

/-- Passes over the lines up to the end of an ignored block, which become comments. -/
def ignoreBlock (doc : Document) (terminator : Text) : Document :=
  let terminator : Text := if terminator.isEmpty then "." else terminator
  let (lines, closed, doc) := doc.readUntil (isTerminator doc.formatter.control terminator)
  let doc := lines.foldl emitComment doc
  if closed then doc else doc.warn .unterminatedIgnore

/-- Turns filling off, by a display of its own unless one is open. -/
def noFill (doc : Document) : Document :=
  if doc.inDisplay then { doc with formatter := { doc.formatter with fill := false } }
  else doc.beginDisplay .literal "nf"

/-- Turns filling on again, except inside a display that another request opened. -/
def fill (doc : Document) : Document :=
  match doc.openDisplays with
  | [] => { doc with formatter := { doc.formatter with fill := true } }
  | frame :: _ => if frame.opener == "nf" then doc.endDisplay.2 else doc

/-- Vertical space: the end of a paragraph, or empty lines where text is not filled. -/
def space (doc : Document) (argument : Text) : Document :=
  if doc.formatter.fill then doc.closeParagraph
  else
    let n := max 1 (min 10 ((toNatBelow? Word.count64 argument).getD 1))
    (List.range n).foldl (fun doc _ => doc.textLine []) doc

/-- What a request of the formatter does. -/
def formatterRequest (doc : Document) (request : Request) : Outcome :=
  let setFormatter (change : Formatter.State → Formatter.State) : Outcome :=
    .done { doc with formatter := change doc.formatter }
  match request.name with
  | "ds" | "ds1" => .done (doc.defineString request false)
  | "as" | "as1" => .done (doc.defineString request true)
  | "rm" => .done (doc.removeNames request.arguments)
  | "rn" => .done (doc.rename (request.argument 0) (request.argument 1) true)
  | "als" => .done (doc.rename (request.argument 1) (request.argument 0) false)
  | "nr" => .done (doc.setNumber request)
  | "rr" => .done (doc.removeRegisters request.arguments)
  | "de" | "de1" => .done (doc.defineMacro request false)
  | "am" | "am1" => .done (doc.defineMacro request true)
  | "em" =>
    let name := request.argument 0
    setFormatter ({ · with definitionEnd := if name.isEmpty then none else some (String.ofList name) })
  | "ig" => .done (doc.ignoreBlock (request.argument 0))
  | "if" => .done (doc.ifRequest request)
  | "ie" => .done (doc.ifElseRequest request)
  | "el" => .done (doc.elseRequest request)
  | "while" => .done (doc.whileRequest request)
  | "return" => .done doc.leaveMacro
  | "shift" => .done (doc.shiftArguments ((toNatBelow? Word.count64 (request.argument 0)).getD 1))
  | "di" | "da" => .done (doc.divert request)
  | "char" => .done (doc.defineGlyph request)
  | "nop" => .done (doc.pushLine request.rest)
  | "do" => .done (doc.pushLine (doc.formatter.control :: request.rest))
  | "tm" | "tm1" | "tmc" => .done (doc.warn (.userMessage (trim request.rest)))
  | "ab" => .aborted (trim request.rest) doc
  | "ex" | "nx" => .done { doc with input := [] }
  | "cc" => setFormatter ({ · with control := (request.argument 0).headD '.' })
  | "c2" => setFormatter ({ · with noBreak := (request.argument 0).headD '\'' })
  | "so" => .done (doc.sourceFile (request.argument 0))
  | "mso" => .done (doc.sourcePackage (request.argument 0))
  | "tr" => .done (doc.substituteUnits (substituteOperands (trim request.rest)))
  | "ta" => .done (doc.setTabs request.arguments)
  | "ft" => .done (doc.setFont (String.ofList (request.argument 0)))
  | "nf" => .done doc.noFill
  | "fi" => .done doc.fill
  | "br" => .done doc
  | "sp" => .done (doc.space (request.argument 0))
  | "bp" => .done doc.closeParagraph
  | "tl" => .done (doc.titleLine request.rest)
  | _ => .declined

end RoffDocBook.Document
