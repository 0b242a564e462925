import RoffDocBook.Number.Word
import RoffDocBook.Text.Class

/-! Running text as a list of characters, with the operations on its lines and words that every other module uses. -/
namespace RoffDocBook

/-- Running text. -/
abbrev Text := List Char

instance : Coe String Text := ⟨String.toList⟩

namespace Text

/-- What follows a leading piece of text, if the text begins with it. -/
def dropStart? : Text → Text → Option Text
  | [], t => some t
  | _ :: _, [] => none
  | p :: ps, c :: cs => if p == c then dropStart? ps cs else none

/-- Whether the text begins with the piece. -/
def startsWith (t piece : Text) : Bool :=
  (dropStart? piece t).isSome

/-- What comes before a closing piece of text, if the text ends with it. -/
def dropEnd? (piece t : Text) : Option Text :=
  (dropStart? piece.reverse t.reverse).map List.reverse

/-- Whether the text ends with the piece. -/
def endsWith (t piece : Text) : Bool :=
  (dropEnd? piece t).isSome

def trimStart (t : Text) : Text :=
  t.dropWhile isBlank

def trimEnd (t : Text) : Text :=
  (t.reverse.dropWhile isBlank).reverse

def trim (t : Text) : Text :=
  trimEnd (trimStart t)

/-- Whether nothing but white space is in the text. -/
def isAllBlank (t : Text) : Bool :=
  t.all isBlank

/-- The text before the first occurrence of a piece and the text after it. -/
def breakOn? (piece : Text) : Text → Option (Text × Text)
  | [] => if piece.isEmpty then some ([], []) else none
  | c :: cs =>
    match dropStart? piece (c :: cs) with
    | some rest => some ([], rest)
    | none => (breakOn? piece cs).map fun found => (c :: found.1, found.2)

/-- The text before the last occurrence of a piece and the text after it. -/
def breakOnLast? (piece t : Text) : Option (Text × Text) :=
  (breakOn? piece.reverse t.reverse).map fun found => (found.2.reverse, found.1.reverse)

/-- The text before and after the first character of a class; the character itself opens the second part. -/
def spanUntil (p : Char → Bool) (t : Text) : Text × Text :=
  (t.takeWhile fun c => !p c, t.dropWhile fun c => !p c)

theorem length_spanUntil_le (p : Char → Bool) (t : Text) : (spanUntil p t).2.length ≤ t.length :=
  (List.dropWhile_suffix _).length_le

/-- Whether the piece occurs in the text. -/
def contains (t piece : Text) : Bool :=
  (breakOn? piece t).isSome

/-- Replacement from left to right, where `skip` characters of an occurrence are still to be passed over. -/
def replaceFrom (old new : Text) : Nat → Text → Text
  | _, [] => []
  | skip + 1, _ :: cs => replaceFrom old new skip cs
  | 0, c :: cs =>
    if startsWith (c :: cs) old then new ++ replaceFrom old new (old.length - 1) cs
    else c :: replaceFrom old new 0 cs

/-- Every occurrence of a non-empty piece replaced, from left to right and without overlap. -/
def replace (t old new : Text) : Text :=
  replaceFrom old new 0 t

/-- The fields between the characters of a class; there is always at least one. -/
def splitBy (p : Char → Bool) : Text → List Text
  | [] => [[]]
  | c :: cs =>
    match splitBy p cs with
    | [] => [[c]]
    | field :: fields => if p c then [] :: field :: fields else (c :: field) :: fields

/-- The fields between occurrences of one character. -/
def splitOn (separator : Char) (t : Text) : List Text :=
  splitBy (· == separator) t

/-- The non-empty runs of characters outside the class. -/
def fieldsBy (p : Char → Bool) (t : Text) : List Text :=
  (splitBy p t).filter fun field => !field.isEmpty

/-- The words of a text, which white space separates. -/
def words (t : Text) : List Text :=
  fieldsBy isBlank t

/-- A line without the carriage return of a two-character line end. -/
def dropReturn (line : Text) : Text :=
  (dropEnd? ['\r'] line).getD line

/-- The lines of a text: each ends at a line feed, and a carriage return before that line feed is not part of it. -/
def lines (t : Text) : List Text :=
  match (splitOn '\n' t).reverse with
  | [] => []
  | last :: before =>
    let closed := (before.map dropReturn).reverse
    if last.isEmpty then closed else closed ++ [last]

/-- The parts with a separator between neighbours. -/
def join (separator : Text) (parts : List Text) : Text :=
  List.intercalate separator parts

/-- Lines as one text with line feeds between them. -/
def unlines (parts : List Text) : Text :=
  join ['\n'] parts

/-- Whether the first character that counts for case has one. -/
def startsCased (t : Text) : Bool :=
  (t.dropWhile isCaseIgnorable).head?.any isCased

/-- The lower case of a text after the characters of `before`, the nearest first. A sigma has its final form after a
letter with a case and not before another one. -/
def lowerCaseAfter (before : Text) : Text → Text
  | [] => []
  | c :: cs =>
    let written := if c != 'Σ' then lower c else if startsCased before && !startsCased cs then ['ς'] else ['σ']
    written ++ lowerCaseAfter (c :: before) cs

def lowerCase (t : Text) : Text :=
  lowerCaseAfter [] t

def asciiCapitals (t : Text) : Text :=
  t.map asciiCapital

/-- The decimal numeral of a number. -/
def ofNat (n : Nat) : Text :=
  Nat.toDigits 10 n

/-- The decimal numeral of an integer, with a minus sign where needed. -/
def ofInt (n : Int) : Text :=
  if n < 0 then '-' :: ofNat n.natAbs else ofNat n.natAbs

/-- The number that a text of decimal digits stands for; one leading plus sign is allowed. -/
def toNat? (t : Text) : Option Nat :=
  let digits := (dropStart? ['+'] t).getD t
  if digits.isEmpty || !digits.all Char.isDigit then none
  else some (digits.foldl (fun n c => 10 * n + (c.toNat - '0'.toNat)) 0)

/-- The number below a limit that a text of decimal digits stands for. -/
def toNatBelow? (limit : Nat) (t : Text) : Option Nat :=
  (toNat? t).filter (· < limit)

/-- The signed word of 64 bits that a decimal numeral with an optional sign stands for. -/
def toWord? (t : Text) : Option Int64 :=
  match t with
  | '-' :: digits =>
    if digits.head?.any Char.isDigit then
      ((toNat? digits).filter (· ≤ Word.count63)).map fun n => Int64.ofInt (-(n : Int))
    else none
  | _ => (toNatBelow? Word.count63 t).map Int64.ofNat

/-- A text at least as wide as asked, with blanks at its end. -/
def padEnd (width : Nat) (t : Text) : Text :=
  t ++ List.replicate (width - t.length) ' '

/-- The number of occurrences of a piece, counted from left to right without overlap, where `skip` characters of an
occurrence are still to be passed over. -/
def occurrencesFrom (piece : Text) : Nat → Text → Nat
  | _, [] => 0
  | skip + 1, _ :: cs => occurrencesFrom piece skip cs
  | 0, c :: cs =>
    if startsWith (c :: cs) piece then occurrencesFrom piece (piece.length - 1) cs + 1
    else occurrencesFrom piece 0 cs

/-- The number of occurrences of a non-empty piece. -/
def occurrences (t piece : Text) : Nat :=
  occurrencesFrom piece 0 t

/-- Whether a text is an identifier as in C: a letter or an underscore, and then letters, digits and underscores. -/
def isIdentifier : Text → Bool
  | [] => false
  | c :: cs => (c.isAlpha || c == '_') && cs.all fun c => c.isAlphanum || c == '_'

end Text

end RoffDocBook
