import RoffDocBook.Shell.Arithmetic
import RoffDocBook.Shell.Glob
import RoffDocBook.Shell.Machine

/-! The expansion of words: parameters, the output of commands and arithmetic are put in, and what is outside quotes is
divided into fields. -/
namespace RoffDocBook.Shell
open Text

/-- A character of an expanded word, or a sign between characters. -/
inductive Cell where
  /-- A character as it is written, outside quotes. -/
  | plain (c : Char)
  | quoted (c : Char)
  /-- A character that has been put in, outside quotes. -/
  | expanded (c : Char)
  /-- A place of quotes, which makes a field even of nothing. -/
  | mark
  /-- The edge between two fields. -/
  | edge
  deriving DecidableEq, Repr

namespace Cell

def char? : Cell → Option Char
  | plain c => some c
  | quoted c => some c
  | expanded c => some c
  | mark => none
  | edge => some ' '

/-- The text of an expanded word that is not divided. -/
def text (cells : List Cell) : Text :=
  cells.filterMap char?

/-- The pattern that an expanded word is. What is quoted stands for itself. -/
def glob (cells : List Cell) : Glob :=
  let chars := cells.filterMap fun cell =>
    match cell with
    | plain c => some (c, false)
    | expanded c => some (c, false)
    | quoted c => some (c, true)
    | _ => none
  Glob.ofChars chars.length chars

/-- The fields of an expanded word. `field` is the one at hand, in reverse, if it has been begun, and `ended` tells
whether a blank has just ended one. -/
def fieldsFrom (dividers : Text) : Option (List Cell) → Bool → List Cell → List (List Cell)
  | field, _, [] => (field.map List.reverse).toList
  | field, ended, cell :: rest =>
    match cell with
    | edge => (field.map List.reverse).toList ++ fieldsFrom dividers none false rest
    | expanded c =>
      if !dividers.elem c then fieldsFrom dividers (some (cell :: field.getD [])) false rest
      else if " \t\n".toList.elem c then
        match field with
        | some field => field.reverse :: fieldsFrom dividers none true rest
        | none => fieldsFrom dividers none ended rest
      else
        match field with
        | some field => field.reverse :: fieldsFrom dividers none false rest
        | none => if ended then fieldsFrom dividers none false rest else [] :: fieldsFrom dividers none false rest
    | cell => fieldsFrom dividers (some (cell :: field.getD [])) false rest

def fields (dividers : Text) (cells : List Cell) : List (List Cell) :=
  fieldsFrom dividers none false cells

end Cell

/-- Where a piece of a word stands, which decides what has a meaning in it. -/
inductive Quotation where
  | bare
  | quotes
  /-- Input that is given in the script itself. -/
  | document
  deriving DecidableEq, Repr

/-- The cells of a text that is put in. -/
def Quotation.cells (quotation : Quotation) (t : Text) : List Cell :=
  if quotation = .bare then t.map .expanded else t.map .quoted

/-- The cells of the arguments of a script. -/
def argumentCells (quotation : Quotation) (machine : Machine) (name : Text) : List Cell :=
  let arguments := machine.arguments
  if quotation = .bare then List.intercalate [.edge] (arguments.map fun t => t.map .expanded)
  else if name == "@" then List.intercalate [.edge] (arguments.map fun t => .mark :: t.map .quoted)
  else (join (machine.dividers.take 1) arguments).map .quoted

/-- The cells of a parameter. -/
def parameterCells (quotation : Quotation) (name : Text) : Action (List Cell) := do
  let machine ← get
  if name == "@" || name == "*" then pure (argumentCells quotation machine name)
  else
    match machine.value? name with
    | some value => pure (quotation.cells value)
    | none => if machine.refusesUnset then Action.stop 2 else pure []

/-- The output of a script that runs by itself, without the line ends after it. -/
def substituted (execute : Text → Action Unit) (script : Text) : Action Text := do
  let output ← Action.collect (Action.inSubshell execute (execute script))
  pure ((output.filter (· != '\x00')).reverse.dropWhile (· == '\n')).reverse

/-- The value of an expression, whose assignments are carried out. -/
def calculated (expression : Text) : Action Text := do
  match Arithmetic.eval? (← get).value? expression with
  | none => Action.stop 2
  | some (n, changes) =>
    modify fun machine => changes.foldl (fun machine (name, value) => machine.assign name value) machine
    pure (ofInt n)

/-- The name of a parameter in braces, and what follows it. -/
def splitBraced (inside : Text) : Text × Text :=
  match inside with
  | c :: _ =>
    if c.isDigit then (inside.takeWhile Char.isDigit, inside.dropWhile Char.isDigit) else splitParameter inside
  | [] => ([], [])

/-- A script between backquotes as it is meant. -/
def backquoted : Text → Text
  | [] => []
  | '\\' :: c :: rest =>
    if c == '$' || c == '\x60' || c == '\\' then c :: backquoted rest else '\\' :: c :: backquoted rest
  | c :: rest => c :: backquoted rest

mutual

/-- Expands a word as it is written. -/
def expand (execute : Text → Action Unit) : Nat → Quotation → Text → Action (List Cell)
  | 0, _, _ => Action.stop 2
  | fuel + 1, quotation, raw => do
    let parts ← (units (quotation != .bare) raw).mapM (expandUnit execute fuel quotation)
    pure parts.flatten

def expandUnit (execute : Text → Action Unit) : Nat → Quotation → Text → Action (List Cell)
  | 0, _, _ => Action.stop 2
  | fuel + 1, quotation, piece => do
    match piece with
    | ['\\', c] =>
      if quotation = .bare then pure (if c == '\n' then [] else [.quoted c])
      else if c == '\n' then pure []
      else if c == '$' || c == '\x60' || c == '\\' || (c == '"' && quotation = .quotes) then pure [.quoted c]
      else pure [.quoted '\\', .quoted c]
    | '$' :: '(' :: '(' :: inside =>
      if endsWith inside "))" then
        let expression ← expand execute fuel .quotes (inside.take (inside.length - 2))
        return quotation.cells (← calculated (Cell.text expression))
      else return quotation.cells (← substituted execute ('(' :: inside.dropLast))
    | '$' :: '(' :: inside => return quotation.cells (← substituted execute inside.dropLast)
    | '$' :: '\x7b' :: inside => braced execute fuel quotation inside.dropLast
    | ['$'] => pure (quotation.cells ['$'])
    | '$' :: name => parameterCells quotation name
    | ['\x60'] => pure (quotation.cells ['\x60'])
    | '\x60' :: inside => return quotation.cells (← substituted execute (backquoted inside.dropLast))
    | [c] => pure [if quotation = .bare then .plain c else .quoted c]
    | '\'' :: inside => pure (.mark :: inside.dropLast.map .quoted)
    | '"' :: inside =>
      let inside := inside.dropLast
      let cells ← expand execute fuel .quotes inside
      pure (if inside == "$@" && cells.isEmpty then [] else .mark :: cells)
    | piece => pure (quotation.cells piece)

/-- Expands a parameter in braces with what is done to its value. -/
def braced (execute : Text → Action Unit) : Nat → Quotation → Text → Action (List Cell)
  | 0, _, _ => Action.stop 2
  | fuel + 1, quotation, inside => do
    let machine ← get
    let value? (name : Text) : Option Text :=
      if name == "@" || name == "*" then
        if machine.arguments.isEmpty then none else some (join [' '] machine.arguments)
      else machine.value? name
    let asPutIn (cell : Cell) : Cell :=
      match cell with
      | .plain c => .expanded c
      | cell => cell
    let word (raw : Text) : Action (List Cell) :=
      let raw := if quotation = .bare then raw else ((units true raw).filter (· != ['"'])).flatten
      return (← expand execute fuel quotation raw).map asPutIn
    let measured := inside.drop 1
    if inside.head? == some '#' && !measured.isEmpty && (splitBraced measured).2.isEmpty then
      if measured == "@" || measured == "*" then pure (quotation.cells (ofNat (join [' '] machine.arguments).length))
      else pure (quotation.cells (ofNat ((machine.value? measured).getD []).length))
    else
      let (name, change) := splitBraced inside
      if name.isEmpty then Action.stop 2
      else
        let (demanding, change) : Bool × Text :=
          match change with
          | ':' :: change => (true, change)
          | change => (false, change)
        let given := (value? name).filter fun value => !(demanding && value.isEmpty)
        let trimmed (drop : Glob → Bool → Text → Text) (longest : Bool) (raw : Text) : Action (List Cell) := do
          let pattern := Cell.glob (← expand execute fuel .bare raw)
          pure (quotation.cells (drop pattern longest ((value? name).getD [])))
        match change with
        | [] => if demanding then Action.stop 2 else parameterCells quotation name
        | '-' :: raw => if given.isSome then parameterCells quotation name else word raw
        | '+' :: raw => if given.isSome then word raw else pure []
        | '=' :: raw =>
          if given.isSome then parameterCells quotation name
          else
            let value := Cell.text (← word raw)
            modify (·.assign name value)
            pure (quotation.cells value)
        | '?' :: _ => if given.isSome then parameterCells quotation name else Action.stop 2
        | '%' :: '%' :: raw => trimmed Glob.dropEnd true raw
        | '%' :: raw => trimmed Glob.dropEnd false raw
        | '#' :: '#' :: raw => trimmed Glob.dropStart true raw
        | '#' :: raw => trimmed Glob.dropStart false raw
        | _ => Action.stop 2

end

/-- The levels of expansions inside one another that a word may have. -/
def expansionLevels : Nat := 200

/-- The text of a word that is not divided. -/
def expandText (execute : Text → Action Unit) (raw : Text) : Action Text := do
  pure (Cell.text (← expand execute expansionLevels .bare raw))

/-- The fields of a word; a pattern becomes the paths that it accepts, if there are any. -/
def expandFields (execute : Text → Action Unit) (raw : Text) : Action (List Text) := do
  let cells ← expand execute expansionLevels .bare raw
  let machine ← get
  pure ((Cell.fields machine.dividers cells).flatMap fun field =>
    let glob := Cell.glob field
    let paths := if glob.isOpen && !machine.keepsPatterns then glob.paths machine.files else []
    if paths.isEmpty then [Cell.text field] else paths)

end RoffDocBook.Shell
