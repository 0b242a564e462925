import RoffDocBook.Shell.Token

/-! The arithmetic of a shell: expressions over signed words of 64 bits, with named parameters. -/
namespace RoffDocBook.Shell.Arithmetic
open Text

inductive Term where
  | number (n : Int)
  | name (name : Text)
  | sign (mark : String) (term : Term)
  | operation (mark : String) (left right : Term)
  | choice (condition yes no : Term)
  | assignment (name : Text) (value : Term)
  deriving DecidableEq, Repr

/-- Readers of terms, which take characters off the front. -/
abbrev Reader := StateT Text Option

/-- The number that digits of a base stand for. -/
def ofDigits (base : Nat) (digits : Text) : Nat :=
  digits.foldl (fun n c =>
    base * n + (if c.isDigit then c.toNat - '0'.toNat else c.toLower.toNat - 'a'.toNat + 10)) 0

/-- The number that a numeral stands for, where a zero in front tells another base than ten. -/
def numeral? (t : Text) : Option Nat :=
  let inBase (base : Nat) (isDigit : Char → Bool) (digits : Text) : Option Nat :=
    if digits.all isDigit then some (ofDigits base digits) else none
  let isHexDigit (c : Char) : Bool := c.isDigit || ('a' ≤ c.toLower && c.toLower ≤ 'f')
  match t with
  | [] => none
  | ['0'] => some 0
  | '0' :: c :: rest =>
    if c == 'x' || c == 'X' then inBase 16 isHexDigit rest
    else inBase 8 (fun c => '0' ≤ c && c ≤ '7') (c :: rest)
  | t => inBase 10 Char.isDigit t

def marks : List String :=
  ["<<=", ">>=", "<<", ">>", "<=", ">=", "==", "!=", "&&", "||", "+=", "-=", "*=", "/=", "%=", "&=", "|=", "^=", "+",
    "-", "*", "/", "%", "<", ">", "=", "!", "~", "&", "|", "^", "?", ":", "(", ")"]

/-- Takes the mark at the front off if it is one of the given ones. -/
def skipAny? (wanted : List String) : Reader (Option String) := fun t =>
  let t := trimStart t
  match marks.findSome? fun (mark : String) => (dropStart? mark.toList t).map fun rest => (mark, rest) with
  | some (mark, rest) => some (if wanted.contains mark then (some mark, rest) else (none, t))
  | none => some (none, t)

def skip (mark : String) : Reader Bool := do
  pure (← skipAny? [mark]).isSome

/-- The operators of two sides, those that bind least first. -/
def levels : List (List String) :=
  [["||"], ["&&"], ["|"], ["^"], ["&"], ["==", "!="], ["<=", ">=", "<", ">"], ["<<", ">>"], ["+", "-"], ["*", "/", "%"]]

def assignmentMarks : List String :=
  ["=", "+=", "-=", "*=", "/=", "%=", "<<=", ">>=", "&=", "|=", "^="]

mutual

/-- An assignment, or a term of lower rank. -/
def term : Nat → Reader Term
  | 0 => failure
  | fuel + 1 => do
    let before ← get
    let name := (trimStart before).takeWhile isNameChar
    if name.head?.any isNameStart then
      set ((trimStart before).drop name.length)
      if let some mark ← skipAny? assignmentMarks then
        let value ← term fuel
        let operator := String.ofList (mark.toList.dropLast)
        return .assignment name (if operator.isEmpty then value else .operation operator (.name name) value)
      set before
    let condition ← level fuel levels
    if ← skip "?" then
      let yes ← term fuel
      if !(← skip ":") then failure
      return .choice condition yes (← term fuel)
    pure condition

def level : Nat → List (List String) → Reader Term
  | 0, _ => failure
  | fuel + 1, [] => signed fuel
  | fuel + 1, operators :: higher => do
    let first ← level fuel higher
    further fuel operators higher first

def further : Nat → List String → List (List String) → Term → Reader Term
  | 0, _, _, _ => failure
  | fuel + 1, operators, higher, left => do
    match ← skipAny? operators with
    | some mark => further fuel operators higher (.operation mark left (← level fuel higher))
    | none => pure left

def signed : Nat → Reader Term
  | 0 => failure
  | fuel + 1 => do
    match ← skipAny? ["-", "+", "!", "~"] with
    | some mark => return .sign mark (← signed fuel)
    | none =>
      if ← skip "(" then
        let inside ← term fuel
        if !(← skip ")") then failure
        pure inside
      else
        let t := trimStart (← get)
        let word := t.takeWhile isNameChar
        set (t.drop word.length)
        if word.head?.any isNameStart then pure (.name word)
        else return .number (← numeral? word)

end

/-- The term that a text is. Nothing stands for zero. -/
def term? (t : Text) : Option Term :=
  if isAllBlank t then some (.number 0)
  else
    match term (20 * t.length + 40) t with
    | some (term, rest) => if isAllBlank rest then some term else none
    | none => none

def ofBool (b : Bool) : Int :=
  if b then 1 else 0

/-- The result of an operator on two words, unless it is a division by zero. -/
def result? (mark : String) (a b : Int) : Option Int :=
  let word (n : Int) : Int := (Int64.ofInt n).toInt
  let bits (f : Int64 → Int64 → Int64) : Int := (f (Int64.ofInt a) (Int64.ofInt b)).toInt
  match mark with
  | "+" => some (word (a + b))
  | "-" => some (word (a - b))
  | "*" => some (word (a * b))
  | "/" => if b == 0 then none else some (word (a.tdiv b))
  | "%" => if b == 0 then none else some (word (a.tmod b))
  | "==" => some (ofBool (a == b))
  | "!=" => some (ofBool (a != b))
  | "<=" => some (ofBool (a ≤ b))
  | ">=" => some (ofBool (b ≤ a))
  | "<" => some (ofBool (a < b))
  | ">" => some (ofBool (b < a))
  | "<<" => some (bits (· <<< ·))
  | ">>" => some (bits (· >>> ·))
  | "&" => some (bits (· &&& ·))
  | "|" => some (bits (· ||| ·))
  | "^" => some (bits (· ^^^ ·))
  | _ => none

/-- The number in the value of a parameter. -/
def ofValue? (value : Text) : Option Int :=
  match trim value with
  | [] => some 0
  | '-' :: digits => (numeral? digits).map fun n => -(n : Int)
  | '+' :: digits => (numeral? digits).map Int.ofNat
  | digits => (numeral? digits).map Int.ofNat

/-- The value of a term with the parameters that it has changed, the last one first. -/
def Term.eval (value? : Text → Option Text) : Term → StateT (List (Text × Text)) Option Int
  | .number n => pure n
  | .name parameter => do
    let value := ((← get).lookup parameter <|> value? parameter).getD []
    (ofValue? value : Option Int)
  | .sign mark term => do
    let n ← term.eval value?
    pure (match mark with
      | "-" => -n
      | "!" => ofBool (n == 0)
      | "~" => -n - 1
      | _ => n)
  | .operation mark left right => do
    let a ← left.eval value?
    if mark == "&&" then
      if a == 0 then pure 0 else return ofBool ((← right.eval value?) != 0)
    else if mark == "||" then
      if a != 0 then pure 1 else return ofBool ((← right.eval value?) != 0)
    else
      let b ← right.eval value?
      (result? mark a b : Option Int)
  | .choice condition yes no => do
    if (← condition.eval value?) != 0 then yes.eval value? else no.eval value?
  | .assignment parameter term => do
    let n ← term.eval value?
    modify ((parameter, ofInt n) :: ·)
    pure n

/-- The value of an expression, and the parameters that it changes in turn. -/
def eval? (value? : Text → Option Text) (t : Text) : Option (Int × List (Text × Text)) := do
  let (n, changes) ← (← term? t).eval value? []
  pure (n, changes.reverse)

end RoffDocBook.Shell.Arithmetic
