import RoffDocBook.Text.Basic

/-! Readers, which take a piece off the front of a text or refuse it, and those of TOML's blanks, comments, strings
and keys. -/
namespace RoffDocBook.Toml
open Text

abbrev Reader := StateT Text Option

namespace Reader

/-- The characters of a class at the front. -/
def takeWhile (p : Char → Bool) : Reader Text :=
  fun t => some (t.takeWhile p, t.dropWhile p)

def expect (piece : Text) : Reader Unit :=
  fun t => (dropStart? piece t).map ((), ·)

/-- Takes a piece off the front if it is there. -/
def skip (piece : Text) : Reader Bool :=
  fun t =>
    match dropStart? piece t with
    | some rest => some (true, rest)
    | none => some (false, t)

/-- Whether the text goes on with a piece. -/
def sees (piece : Text) : Reader Bool :=
  fun t => some (startsWith t piece, t)

def atEnd : Reader Bool :=
  fun t => some (t.isEmpty, t)

def next : Reader Char
  | [] => none
  | c :: rest => some (c, rest)

/-- A number of characters of a class. -/
def take (p : Char → Bool) (count : Nat) : Reader Text :=
  fun t => if (t.take count).length = count && (t.take count).all p then some (t.take count, t.drop count) else none

/-- Reads a whole text. -/
def all? {α : Type} (reader : Reader α) (t : Text) : Option α := do
  let (value, rest) ← reader t
  if rest.isEmpty then some value else none

end Reader

/-- Whether a character may stand in a comment or a string. -/
def isPlain (c : Char) : Bool :=
  c == '\t' || (' ' ≤ c && c != Char.ofNat 0x7F)

def blanks : Reader Unit :=
  discard (Reader.takeWhile isSpaceOrTab)

/-- A comment up to the end of its line, if one is there. -/
def comment : Reader Unit := do
  if ← Reader.skip "#" then discard (Reader.takeWhile isPlain)

/-- A line end, if one is there. -/
def skipLineEnd : Reader Bool := do
  if ← Reader.skip "\n" then pure true else Reader.skip "\r\n"

/-- Blanks, comments and line ends. -/
def space : Nat → Reader Unit
  | 0 => pure ()
  | fuel + 1 => do
    blanks
    comment
    if ← skipLineEnd then space fuel

/-- The number that hexadecimal digits stand for. -/
def ofHexDigits (digits : Text) : Nat :=
  digits.foldl (fun n c =>
    let digit :=
      if c.isDigit then c.toNat - '0'.toNat else (asciiCapital c).toNat - 'A'.toNat + 10
    16 * n + digit) 0

def isHexDigit (c : Char) : Bool :=
  c.isDigit || ('a' ≤ c && c ≤ 'f') || ('A' ≤ c && c ≤ 'F')

/-- The character that a number of hexadecimal digits stands for. -/
def codePoint (count : Nat) : Reader Char := do
  let n := ofHexDigits (← Reader.take isHexDigit count)
  if n.isValidChar then pure (Char.ofNat n) else failure

/-- What stands after a backslash. -/
def escaped : Reader Char := do
  match ← Reader.next with
  | 'b' => pure '\x08'
  | 't' => pure '\t'
  | 'n' => pure '\n'
  | 'f' => pure '\x0c'
  | 'r' => pure '\r'
  | 'e' => pure '\x1b'
  | '"' => pure '"'
  | '\\' => pure '\\'
  | 'x' => codePoint 2
  | 'u' => codePoint 4
  | 'U' => codePoint 8
  | _ => failure

/-- The rest of a string on one line after its opening mark. -/
def lineString (mark : Char) : Nat → Reader Text
  | 0 => failure
  | fuel + 1 => do
    let c ← Reader.next
    if c == mark then pure []
    else if c == '\\' && mark == '"' then return (← escaped) :: (← lineString mark fuel)
    else if isPlain c then return c :: (← lineString mark fuel)
    else failure

/-- Line ends and blanks after a backslash at the end of a line, which join the line with what follows. -/
def joinLines (fuel : Nat) : Reader Unit := do
  blanks
  if !(← skipLineEnd) then failure
  let rec more : Nat → Reader Unit
    | 0 => pure ()
    | fuel + 1 => do
      blanks
      if ← skipLineEnd then more fuel
  more fuel

/-- The rest of a string over lines after its opening mark; up to two more marks may stand before the closing one. -/
def linesString (mark : Char) : Nat → Reader Text
  | 0 => failure
  | fuel + 1 => do
    if ← Reader.skip [mark, mark, mark] then
      if ← Reader.skip [mark, mark] then pure [mark, mark]
      else if ← Reader.skip [mark] then pure [mark]
      else pure []
    else if ← Reader.skip "\r\n" then return '\r' :: '\n' :: (← linesString mark fuel)
    else
      let c ← Reader.next
      if c == '\\' && mark == '"' then
        let here ← get
        match joinLines here.length here with
        | some (_, rest) =>
          set rest
          linesString mark fuel
        | none => return (← escaped) :: (← linesString mark fuel)
      else if c == '\n' || isPlain c then return c :: (← linesString mark fuel)
      else failure

/-- A string between marks of its kind; only one in quotation marks has escapes. -/
def markedString (mark : Char) : Reader Text := do
  let fuel := (← get).length
  if ← Reader.skip [mark, mark, mark] then
    discard skipLineEnd
    linesString mark fuel
  else
    Reader.expect [mark]
    lineString mark fuel

def isBareKeyChar (c : Char) : Bool :=
  c.isAlphanum || c == '-' || c == '_'

/-- One name of a key. -/
def keyName : Reader Text := do
  let fuel := (← get).length
  if ← Reader.skip "\"" then lineString '"' fuel
  else if ← Reader.skip "'" then lineString '\'' fuel
  else
    let name ← Reader.takeWhile isBareKeyChar
    if name.isEmpty then failure else pure name

/-- The names of a dotted key, at most a number of them. -/
def names : Nat → Reader (List Text)
  | 0 => failure
  | most + 1 => do
    blanks
    let name ← keyName
    blanks
    if ← Reader.skip "." then return name :: (← names most) else pure [name]

/-- A dotted key; it has no more than 80 names. -/
def key : Reader (List Text) :=
  names 80

end RoffDocBook.Toml

/-! The values of a TOML document, and how its statements build them. -/
namespace RoffDocBook.Toml

/-- How a table came to be, which decides what may still be added to it. -/
inductive TableKind where
  /-- On the way to the table of a header. -/
  | implied
  /-- On the way to a dotted key. -/
  | dotted
  /-- By a header of its own. -/
  | defined
  /-- As a value, which is complete. -/
  | inline
  deriving DecidableEq, Repr

inductive Value where
  | string (text : Text)
  | integer (value : Int)
  | float (numeral : Text)
  | boolean (value : Bool)
  /-- A date or a time in its usual notation. -/
  | dateTime (written : Text)
  | array (items : List Value)
  /-- Tables that headers in double brackets begin, the last one apart. -/
  | tables (before : List (List (Text × Value))) (last : List (Text × Value))
  | table (kind : TableKind) (entries : List (Text × Value))
  deriving Inhabited

/-- The keys of a table with their values, in the order in which they were met. -/
abbrev Entries := List (Text × Value)

namespace Entries

/-- The entries with the value of one key changed, or given where the key is new; without a new value nothing is. -/
def alter? (key : Text) (change : Option Value → Option Value) : Entries → Option Entries
  | [] => (change none).map fun value => [(key, value)]
  | entry :: rest =>
    if entry.1 = key then (change (some entry.2)).map fun value => (key, value) :: rest
    else (alter? key change rest).map (entry :: ·)

/-- Changes the table that the path of a header leads to. -/
def alterAt? (change : Entries → Option Entries) : List Text → Entries → Option Entries
  | [], entries => change entries
  | key :: path, entries =>
    entries.alter? key fun
      | none => (alterAt? change path []).map (.table .implied)
      | some (.tables before last) => (alterAt? change path last).map (.tables before)
      | some (.table .inline _) => none
      | some (.table kind inner) => (alterAt? change path inner).map (.table kind)
      | some _ => none

/-- Opens the table of a header, which no other header has opened. -/
def openTable? (path : List Text) (last : Text) : Entries → Option Entries :=
  alterAt? (fun entries => entries.alter? last fun
    | none => some (.table .defined [])
    | some (.table .implied inner) => some (.table .defined inner)
    | some _ => none) path

/-- Begins one more table of a header in double brackets. -/
def appendTable? (path : List Text) (last : Text) : Entries → Option Entries :=
  alterAt? (fun entries => entries.alter? last fun
    | none => some (.tables [] [])
    | some (.tables before newest) => some (.tables (before ++ [newest]) [])
    | some _ => none) path

/-- Puts a value under a dotted key that has none. The tables on the way are none that a header has opened, and no
header can open them any more. -/
def insert? (value : Value) : List Text → Entries → Option Entries
  | [], _ => none
  | [key], entries =>
    entries.alter? key fun
      | none => some value
      | some _ => none
  | key :: next :: path, entries =>
    entries.alter? key fun
      | none => (insert? value (next :: path) []).map (.table .dotted)
      | some (.table .dotted inner) => (insert? value (next :: path) inner).map (.table .dotted)
      | some (.table .implied inner) => (insert? value (next :: path) inner).map (.table .dotted)
      | some _ => none

end Entries

end RoffDocBook.Toml

/-! The numbers, dates and times of TOML. -/
namespace RoffDocBook.Toml
open Text

/-- Digits of a base; an underscore may stand between two of them. -/
def digits? (isDigit : Char → Bool) (t : Text) : Option Text :=
  let groups := splitOn '_' t
  if groups.all fun group => !group.isEmpty && group.all isDigit then some groups.flatten else none

/-- A sign in front, and what follows it. -/
def splitSign : Text → Bool × Text
  | '-' :: rest => (true, rest)
  | '+' :: rest => (false, rest)
  | t => (false, t)

/-- The digits of a decimal whole number, without zeros in front. -/
def wholeDigits? (t : Text) : Option Text :=
  (digits? Char.isDigit t).filter fun digits => digits.length == 1 || digits.head? != some '0'

/-- A number with the digits of a base that is a power of two. -/
def inBase? (base : Nat) (isDigit : Char → Bool) (t : Text) : Option Nat :=
  (digits? isDigit t).map fun digits => digits.foldl (fun n c => base * n + ofHexDigits [c]) 0

def integer? (t : Text) : Option Int :=
  match t with
  | '0' :: 'x' :: rest => (inBase? 16 isHexDigit rest).map Int.ofNat
  | '0' :: 'o' :: rest => (inBase? 8 (fun c => '0' ≤ c && c ≤ '7') rest).map Int.ofNat
  | '0' :: 'b' :: rest => (inBase? 2 (fun c => c == '0' || c == '1') rest).map Int.ofNat
  | _ =>
    let (negative, rest) := splitSign t
    ((wholeDigits? rest).bind toNat?).map fun n => if negative then -(n : Int) else n

/-- Whether a text is the numeral of a number with a fraction or an exponent, or names one that has no numeral. -/
def isFloat (t : Text) : Bool :=
  let unsigned := (splitSign t).2
  let (mantissa, exponent) := spanUntil (fun c => c == 'e' || c == 'E') unsigned
  let hasExponent :=
    match exponent with
    | [] => true
    | _ :: rest => (digits? Char.isDigit (splitSign rest).2).isSome
  let (whole, fraction) := spanUntil (· == '.') mantissa
  let hasFraction :=
    match fraction with
    | [] => !exponent.isEmpty
    | _ :: rest => (digits? Char.isDigit rest).isSome
  unsigned == "inf" || unsigned == "nan" || (hasExponent && hasFraction && (wholeDigits? whole).isSome)

/-- A number of two digits in a range, as it is written. -/
def twoDigits (least greatest : Nat) : Reader Text := do
  let digits ← Reader.take Char.isDigit 2
  let n := (toNat? digits).getD 0
  if least ≤ n && n ≤ greatest then pure digits else failure

def daysInMonth (year month : Nat) : Nat :=
  if month == 2 then
    if year % 4 == 0 && (year % 100 != 0 || year % 400 == 0) then 29 else 28
  else if month == 4 || month == 6 || month == 9 || month == 11 then 30
  else 31

def date : Reader Text := do
  let year ← Reader.take Char.isDigit 4
  Reader.expect "-"
  let month ← twoDigits 1 12
  Reader.expect "-"
  let day ← twoDigits 1 (daysInMonth ((toNat? year).getD 0) ((toNat? month).getD 0))
  pure (year ++ "-" ++ month ++ "-" ++ day)

/-- The digits of a fraction of a second, to nanoseconds and without zeros at the end. -/
def nanoseconds (digits : Text) : Text :=
  let kept := ((digits.take 9).reverse.dropWhile (· == '0')).reverse
  if kept.isEmpty then ['0'] else kept

/-- A time of day; the seconds may be left out, and a second may be a leap second. -/
def time : Reader Text := do
  let hour ← twoDigits 0 23
  Reader.expect ":"
  let minute ← twoDigits 0 59
  let ofDay := hour ++ ":" ++ minute
  if ← Reader.skip ":" then
    let ofDay := ofDay ++ ":" ++ (← twoDigits 0 60)
    if ← Reader.skip "." then
      let digits ← Reader.takeWhile Char.isDigit
      if digits.isEmpty then failure else pure (ofDay ++ "." ++ nanoseconds digits)
    else pure ofDay
  else pure ofDay

/-- The distance of a time from the universal one, if it is given. -/
def offset : Reader Text := do
  if ← Reader.atEnd then return []
  match ← Reader.next with
  | 'Z' => pure ['Z']
  | 'z' => pure ['Z']
  | sign =>
    if sign != '+' && sign != '-' then failure
    let hours ← twoDigits 0 23
    Reader.expect ":"
    let distance := hours ++ ":" ++ (← twoDigits 0 59)
    pure ((if distance == "00:00" then '+' else sign) :: distance)

/-- A date, a time of day, or both with the offset of the time, in the usual notation. -/
def dateTime : Reader Text := do
  match date (← get) with
  | none => time
  | some (day, rest) =>
    set rest
    if ← Reader.atEnd then pure day
    else
      let mark ← Reader.next
      if mark != 'T' && mark != 't' && mark != ' ' then failure
      return day ++ "T" ++ (← time) ++ (← offset)

/-- The value that a word without marks stands for. -/
def scalar? (word : Text) : Option Value :=
  if word == "true" then some (.boolean true)
  else if word == "false" then some (.boolean false)
  else if isFloat word then some (.float word)
  else
    match Reader.all? dateTime word with
    | some moment => some (.dateTime moment)
    | none => (integer? word).map .integer

def isScalarChar (c : Char) : Bool :=
  c.isAlphanum || c == '_' || c == '+' || c == '-' || c == '.' || c == ':'

/-- A word without marks; one blank may stand between a date and a time. -/
def scalar : Reader Value := do
  let word ← Reader.takeWhile isScalarChar
  let rest ← get
  let word ←
    match rest with
    | ' ' :: c :: _ =>
      if c.isDigit && (Reader.all? date word).isSome then
        discard Reader.next
        pure (word ++ " " ++ (← Reader.takeWhile isScalarChar))
      else pure word
    | _ => pure word
  scalar? word

end RoffDocBook.Toml

/-! The numbers of TOML that can be read: integers of at most 128 bits, and numerals with a fraction or an exponent that
are not rounded to infinity. -/
namespace RoffDocBook.Toml
open Text

/-- Whether an integer is a word of 128 bits, with or without a sign. -/
def isWord (n : Int) : Bool :=
  -170141183460469231731687303715884105728 ≤ n && n < 340282366920938463463374607431768211456

/-- The least whole number that is rounded to infinity: halfway from the greatest one of 53 bits to 2 to the power of
1024. -/
def infinite : Nat :=
  Nat.pow 2 1024 - Nat.pow 2 970

/-- Whether a numeral stands for a number that is rounded to infinity. The number is `digits` times a power of ten,
which needs to be known only where it is neither far too large nor small. -/
def isInfinite (numeral : Text) : Bool :=
  let (mantissa, exponent) := spanUntil (fun c => c == 'e' || c == 'E') (splitSign numeral).2
  let (whole, fraction) := spanUntil (· == '.') mantissa
  let fraction := fraction.filter Char.isDigit
  let digits := (whole.filter Char.isDigit ++ fraction).dropWhile (· == '0')
  let (negative, exponent) := splitSign (exponent.drop 1)
  let exponent := ((toNat? (exponent.filter Char.isDigit)).getD 0 : Int)
  let shift := (if negative then -exponent else exponent) - (fraction.length : Int)
  let places := (digits.length : Int) + shift
  let n := (toNat? digits).getD 0
  if digits.isEmpty || places < 309 then false
  else if 309 < places then true
  else if 0 ≤ shift then infinite ≤ n * Nat.pow 10 shift.toNat
  else infinite * Nat.pow 10 (-shift).toNat ≤ n

mutual

/-- Whether all numbers in a value can be read. -/
def Value.isReadable : Value → Bool
  | .integer n => isWord n
  | .float numeral => !isInfinite numeral
  | .array items => areReadable items
  | .tables before last => areTablesReadable before && areEntriesReadable last
  | .table _ entries => areEntriesReadable entries
  | _ => true

def areReadable : List Value → Bool
  | [] => true
  | item :: rest => item.isReadable && areReadable rest

def areEntriesReadable : List (Text × Value) → Bool
  | [] => true
  | (_, value) :: rest => value.isReadable && areEntriesReadable rest

def areTablesReadable : List (List (Text × Value)) → Bool
  | [] => true
  | entries :: rest => areEntriesReadable entries && areTablesReadable rest

end

end RoffDocBook.Toml
