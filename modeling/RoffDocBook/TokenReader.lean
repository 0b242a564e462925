import RoffDocBook.Text.Basic

/-! Lines that are read whole or token by token, with marks to go back to. -/
namespace RoffDocBook
open Text

structure TokenReader where
  /-- Lines not yet read, the next one first. -/
  lines : List Text := []
  /-- Lines that have been read, the most recent first. -/
  consumed : List Text := []
  /-- Tokens of the current line that have not been read; the last one is the end of the line. -/
  tokens : List Text := []
  /-- The line that the tokens come from. -/
  current : Option Text := none
  /-- How many characters of the current line have been read as tokens. -/
  read : Nat := 0
  /-- A change made to each line before it is split at its blanks. -/
  spacing : Option (Text → Text) := none

namespace TokenReader

/-- The token at the end of every line. -/
def lineEnd : Text := ['\n']

def ofLines (lines : List Text) : TokenReader :=
  { lines }

/-- The tokens of a line. -/
def split (spacing : Option (Text → Text)) (line : Text) : List Text :=
  words ((spacing.getD id) line) ++ [lineEnd]

/-- Tokens without their first `n` characters, up to the end of the line. -/
def dropChars : Nat → List Text → List Text
  | _, [] => []
  | 0, tokens => tokens
  | n + 1, token :: rest =>
    if token == lineEnd then token :: rest
    else if token.length ≤ n + 1 then dropChars (n + 1 - token.length) rest
    else token.drop (n + 1) :: rest

/-- Changes the spacing; the rest of the current line is split anew. -/
def setSpacing (reader : TokenReader) (spacing : Option (Text → Text)) : TokenReader :=
  match reader.tokens, reader.current with
  | _ :: _, some line => { reader with spacing, tokens := dropChars reader.read (split spacing line) }
  | _, _ => { reader with spacing }

/-- The next whole line; tokens left of the current one are dropped. -/
def popLine (reader : TokenReader) : Option Text × TokenReader :=
  let reader := { reader with tokens := [], current := none, read := 0 }
  match reader.lines with
  | [] => (none, reader)
  | line :: rest => (some line, { reader with lines := rest, consumed := line :: reader.consumed })

/-- Puts a line back in front of the others. -/
def pushLine (reader : TokenReader) (line : Text) : TokenReader :=
  { reader with
    lines := line :: reader.lines
    consumed := if reader.consumed.head? == some line then reader.consumed.tail else reader.consumed }

def peekLine? (reader : TokenReader) : Option Text :=
  reader.lines.head?

/-- Whether no line and no token is left. -/
def isEmpty (reader : TokenReader) : Bool :=
  reader.lines.isEmpty && reader.tokens.isEmpty

/-- Makes the next line the current one. -/
def load (reader : TokenReader) : TokenReader :=
  match reader.lines with
  | [] => reader
  | line :: rest =>
    { reader with
      lines := rest
      consumed := line :: reader.consumed
      tokens := split reader.spacing line
      current := some line
      read := 0 }

/-- The reader with a token ready, if there is one. -/
def ready (reader : TokenReader) : TokenReader :=
  if reader.tokens.isEmpty then reader.load else reader

/-- The next token, from the next line if the current one is spent. -/
def popToken (reader : TokenReader) : Option Text × TokenReader :=
  let reader := reader.ready
  match reader.tokens with
  | [] => (none, reader)
  | token :: rest =>
    (some token,
      { reader with tokens := rest, read := if token == lineEnd then reader.read else reader.read + token.length })

/-- Puts a token back in front of the others. -/
def pushToken (reader : TokenReader) (token : Text) : TokenReader :=
  { reader with
    tokens := token :: reader.tokens
    read := if token == lineEnd then reader.read else reader.read - token.length }

/-- The next token, which stays to be read. -/
def peekToken (reader : TokenReader) : Option Text × TokenReader :=
  (reader.ready.tokens.head?, reader.ready)

/-- A place to go back to. -/
structure Mark where
  /-- How many lines had been read. -/
  consumed : Nat
  tokens : List Text
  current : Option Text
  read : Nat

def mark (reader : TokenReader) : Mark :=
  { consumed := reader.consumed.length, tokens := reader.tokens, current := reader.current, read := reader.read }

/-- Goes back to a mark; the lines read since are to be read again. -/
def restore (reader : TokenReader) (mark : Mark) : TokenReader :=
  let n := reader.consumed.length - mark.consumed
  { reader with
    lines := (reader.consumed.take n).reverse ++ reader.lines
    consumed := reader.consumed.drop n
    tokens := mark.tokens
    current := mark.current
    read := mark.read }

/-- The lines read since a mark, in reading order. -/
def consumedSince (reader : TokenReader) (mark : Mark) : List Text :=
  (reader.consumed.take (reader.consumed.length - mark.consumed)).reverse

/-- A bound on the tokens that are left, if spacing only adds blanks. -/
def tokenBound (reader : TokenReader) : Nat :=
  reader.tokens.length + reader.lines.foldr (fun line bound => line.length + 1 + bound) 0

end TokenReader

end RoffDocBook
