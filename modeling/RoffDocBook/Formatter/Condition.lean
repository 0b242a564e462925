import RoffDocBook.Formatter.Expression
import RoffDocBook.Glyph

/-! The guards of conditional requests. -/
namespace RoffDocBook.Formatter
open Text

structure ConditionOutcome where
  value : Bool
  /-- The statement after the guard, without leading blanks. -/
  rest : Text
  /-- Why the guard was not understood; such a guard holds. -/
  error : Option ExpressionError
  deriving DecidableEq

/-- Characters that open a comparison of two strings. -/
def isStringDelimiter (c : Char) : Bool :=
  !(isLetterOrNumber c || isBlank c || "()+-.\\!|&<>=".toList.elem c)

/-- Whether a guard of one letter ends before this text. -/
def atBoundary : Text → Bool
  | [] => true
  | c :: _ => isBlank c || c == '\\'

/-- The numeric guard at the start of a text and the text after it. A guard ends at a blank outside parentheses or at
the opening of a block; `delimiter` is what closes the argument of an escape that the text begins in. -/
def guardExtent : Nat → Option Char → Text → Text × Text
  | _, _, [] => ([], [])
  | depth, some delimiter, c :: cs =>
    let found := guardExtent depth (if c == delimiter then none else some delimiter) cs
    (c :: found.1, found.2)
  | depth, none, '\\' :: 'w' :: delimiter :: cs =>
    let found := guardExtent depth (some delimiter) cs
    ('\\' :: 'w' :: delimiter :: found.1, found.2)
  | depth, none, '\\' :: 'B' :: delimiter :: cs =>
    let found := guardExtent depth (some delimiter) cs
    ('\\' :: 'B' :: delimiter :: found.1, found.2)
  | _, none, '\\' :: '{' :: cs => ([], '\\' :: '{' :: cs)
  | depth, none, c :: cs =>
    if isBlank c && depth == 0 then ([], c :: cs)
    else
      let depth := if c == '(' then depth + 1 else if c == ')' then depth - 1 else depth
      let found := guardExtent depth none cs
      (c :: found.1, found.2)

namespace State

/-- Whether the thing of the given kind exists: a register, a string or macro, or a glyph. -/
def exists? (s : State) (kind : Char) (name : Text) : Bool :=
  if kind == 'r' then s.registers.contains (String.ofList name)
  else if kind == 'd' then s.strings.contains (String.ofList name) || s.macros.contains (String.ofList name)
  else if kind == 'c' then
    let glyph := Glyph.bareName name
    glyph.length == 1 || (Glyph.lookup? glyph).isSome || s.glyphs.contains (String.ofList glyph)
  else false

/-- The value of a guard without its negation, and the text after it. -/
def guardValue (s : State) (t : Text) : Except ExpressionError Bool × Text × State :=
  let numeric : Except ExpressionError Bool × Text × State :=
    let found := guardExtent 0 none t
    let result := s.evaluate found.1
    (result.1.map (0 < ·), found.2, result.2)
  match t with
  | [] => (.error (.badTerm []), [], s)
  | c :: rest =>
    if isDeviceLetter c && atBoundary rest then (.ok (deviceHolds c), rest, s)
    else if "rdcmFS".toList.elem c && (rest.head?.any isSpaceOrTab) then
      let found := spanUntil isBlank (rest.dropWhile isSpaceOrTab)
      (.ok (s.exists? c found.1), found.2, s)
    else if isStringDelimiter c then
      let left := spanUntil (· == c) rest
      let right := spanUntil (· == c) (left.2.drop 1)
      if left.2.isEmpty || right.2.isEmpty then (.error (.badTerm t), [], s)
      else (.ok (s.expand left.1 == s.expand right.1), right.2.drop 1, s)
    else numeric

/-- The guard at the start of a text, with the formatter as its evaluation leaves it. -/
def condition (s : State) (t : Text) : ConditionOutcome × State :=
  let t := trimStart t
  let negated := t.head? == some '!'
  let (result, rest, s) := s.guardValue (if negated then t.drop 1 else t)
  match result with
  | .ok value => ({ value := value != negated, rest := trimStart rest, error := none }, s)
  | .error e => ({ value := true, rest := trimStart rest, error := some e }, s)

end State

end RoffDocBook.Formatter
