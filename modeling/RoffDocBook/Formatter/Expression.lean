import RoffDocBook.Formatter.State
import RoffDocBook.Number.Binary64

/-! Numeric expressions. Operators apply strictly from left to right, without precedence, and each is also known by
its spelling in escaped markup. -/
namespace RoffDocBook.Formatter
open Text

inductive ExpressionError where
  | badTerm (text : Text)
  | unbalanced
  | divisionByZero
  deriving DecidableEq, Repr

def ExpressionError.message : ExpressionError → String
  | badTerm text => "unrecognized term in expression at \x60" ++ String.ofList text ++ "\x60"
  | unbalanced => "unbalanced parenthesis in expression"
  | divisionByZero => "division by zero in expression"

inductive Operator where
  | add | sub | mul | div | rem | and | or | eq | lt | gt | le | ge | min | max
  deriving DecidableEq, Repr

namespace Operator

/-- Spellings in the order in which they are tried, each before its own beginnings. -/
def spellings : List (String × Operator) :=
  [("&lt;=", le), ("&gt;=", ge), ("&lt;?", min), ("&gt;?", max), ("&lt;", lt), ("&gt;", gt), ("&amp;", and),
    ("<=", le), (">=", ge), ("<?", min), (">?", max), ("==", eq), ("+", add), ("-", sub), ("*", mul), ("/", div),
    ("%", rem), ("<", lt), (">", gt), ("=", eq), ("&", and), (":", or)]

/-- The operator at the start of a text, and the text after it. -/
def read? (t : Text) : Option (Operator × Text) :=
  spellings.findSome? fun entry => (dropStart? entry.1.toList t).map fun rest => (entry.2, rest)

/-- The value of an operation. A division or a remainder without a value counts as one by zero. -/
def apply (op : Operator) (a b : Int64) : Except ExpressionError Int64 :=
  let quotient (q : Option Int64) : Except ExpressionError Int64 :=
    match q with
    | some value => .ok value
    | none => .error .divisionByZero
  match op with
  | add => .ok (Word.add a b)
  | sub => .ok (Word.sub a b)
  | mul => .ok (Word.mul a b)
  | div => quotient (Word.div? a b)
  | rem => quotient (Word.rem? a b)
  | and => .ok (Word.ofBool (0 < a && 0 < b))
  | or => .ok (Word.ofBool (0 < a || 0 < b))
  | eq => .ok (Word.ofBool (a == b))
  | lt => .ok (Word.ofBool (a < b))
  | gt => .ok (Word.ofBool (b < a))
  | le => .ok (Word.ofBool (a ≤ b))
  | ge => .ok (Word.ofBool (b ≤ a))
  | min => .ok (if b < a then b else a)
  | max => .ok (if a < b then b else a)

end Operator

/-- Whether a device guard holds: the output is not typeset, and every page is odd. -/
def deviceHolds (c : Char) : Bool :=
  c == 'n' || c == 'o'

/-- The letters that are guards about the output device. -/
def isDeviceLetter (c : Char) : Bool :=
  c == 'n' || c == 't' || c == 'o' || c == 'e' || c == 'v'

/-- The width of a text in columns, where a backslash and the character after it have none. -/
def width : Text → Nat
  | [] => 0
  | '\\' :: [] => 0
  | '\\' :: _ :: rest => width rest
  | _ :: rest => width rest + 1

/-- Letters that may follow a number as its unit; a unit does not change the value. -/
def isUnit (c : Char) : Bool :=
  "icpPmMnvuf".toList.elem c

/-- The value of a decimal numeral, rounded to a whole number; zero if it is malformed. -/
def numeral (t : Text) : Int64 :=
  match Binary64.decimal? t with
  | some value => Word.clamp (Binary64.roundUp (Binary64.nearest value))
  | none => 0

def isNumeralChar (c : Char) : Bool :=
  c.isDigit || c == '.'

/-- The number at the start of a text with its unit, and the text after it. -/
def readNumber (t : Text) : Int64 × Text :=
  let digits := t.takeWhile isNumeralChar
  let rest := t.dropWhile isNumeralChar
  let rest :=
    match rest with
    | c :: cs => if isUnit c then cs else c :: cs
    | [] => []
  (numeral digits, rest)

/-- The outcome of reading a part of an expression, with the formatter as the reading leaves it. -/
abbrev Reading := Except ExpressionError (Int64 × Text) × State

mutual

/-- The value of the expression at the start of a text, read in at most `fuel` nested steps. -/
def readExpression : Nat → State → Text → Reading
  | 0, s, t => (.error (.badTerm t), s)
  | fuel + 1, s, t =>
    match readTerm fuel s t with
    | (.ok (value, rest), s) => readOperations fuel s value rest
    | (.error e, s) => (.error e, s)

/-- The value of the operations at the start of a text on the value before them. -/
def readOperations : Nat → State → Int64 → Text → Reading
  | 0, s, _, t => (.error (.badTerm t), s)
  | fuel + 1, s, value, t =>
    let t := t.dropWhile isSpaceOrTab
    match Operator.read? t with
    | none => (.ok (value, t), s)
    | some (op, rest) =>
      match readTerm fuel s rest with
      | (.error e, s) => (.error e, s)
      | (.ok (operand, rest), s) =>
        match op.apply value operand with
        | .error e => (.error e, s)
        | .ok value => readOperations fuel s value rest

/-- The value of the term at the start of a text. -/
def readTerm : Nat → State → Text → Reading
  | 0, s, t => (.error (.badTerm t), s)
  | fuel + 1, s, t =>
    match t.dropWhile isSpaceOrTab with
    | [] => (.error (.badTerm []), s)
    | '!' :: rest =>
      match readTerm fuel s rest with
      | (.ok (value, rest), s) => (.ok (Word.ofBool (value ≤ 0), rest), s)
      | (.error e, s) => (.error e, s)
    | '-' :: rest =>
      match readTerm fuel s rest with
      | (.ok (value, rest), s) => (.ok (-value, rest), s)
      | (.error e, s) => (.error e, s)
    | '+' :: rest => readTerm fuel s rest
    | '(' :: rest =>
      match readExpression fuel s rest with
      | (.ok (value, rest), s) =>
        match rest.dropWhile isSpaceOrTab with
        | ')' :: rest => (.ok (value, rest), s)
        | _ => (.error .unbalanced, s)
      | (.error e, s) => (.error e, s)
    | '\\' :: 'n' :: rest =>
      let found := s.readRegister rest
      (.ok (found.1, found.2.1), found.2.2)
    | '\\' :: 'w' :: delimiter :: rest =>
      let found := spanUntil (· == delimiter) rest
      (.ok (Int64.ofNat (width found.1), found.2.drop 1), s)
    | c :: rest =>
      if c.isDigit || c == '.' then (.ok (readNumber (c :: rest)), s)
      else if isDeviceLetter c then (.ok (Word.ofBool (deviceHolds c), rest), s)
      else (.error (.badTerm (c :: rest)), s)

end

/-- The value of a whole text as an expression. Each nested step of reading passes a character or goes from an
expression to its first term, so twice the length is enough steps. -/
def State.evaluate (s : State) (t : Text) : Except ExpressionError Int64 × State :=
  match readExpression (2 * t.length + 2) s t with
  | (.ok (value, []), s) => (.ok value, s)
  | (.ok (_, rest), s) => (.error (.badTerm rest), s)
  | (.error e, s) => (.error e, s)

end RoffDocBook.Formatter
