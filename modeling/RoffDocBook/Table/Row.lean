import RoffDocBook.Text.Basic

/-! The head of a table: its options, and the formats of its rows with a key for each column. -/
namespace RoffDocBook.Table
open Text

/-- What a column of a row holds. -/
inductive Key where
  | left
  | right
  | center
  | numeric
  | alphabetic
  /-- The entry of the column to the left goes on. -/
  | span
  /-- The entry of the row above goes on. -/
  | vertical
  /-- A rule in place of data. -/
  | rule
  deriving DecidableEq, Repr

namespace Key

def ofChar? (c : Char) : Option Key :=
  match c.toLower with
  | 'l' => some left
  | 'r' => some right
  | 'c' => some center
  | 'n' => some numeric
  | 'a' => some alphabetic
  | 's' => some span
  | '^' => some vertical
  | '_' | '-' | '=' => some rule
  | _ => none

/-- The alignment of an entry, if it is not the usual one. -/
def alignment? : Key → Option Text
  | right | numeric => some "right"
  | center => some "center"
  | _ => none

end Key

/-- The keys of a row. -/
abbrev Format := List Key

/-- What follows a sign and a number, both of which may be missing. -/
def dropSigned : Text → Text
  | '+' :: rest => rest.dropWhile Char.isDigit
  | '-' :: rest => rest.dropWhile Char.isDigit
  | rest => rest.dropWhile Char.isDigit

/-- What follows the argument of a font modifier. -/
def dropFontName : Text → Text
  | '(' :: rest => rest.drop 2
  | '[' :: rest => (rest.dropWhile (· != ']')).drop 1
  | rest => rest.drop 1

/-- What follows the argument of a width modifier. -/
def dropWidth : Text → Text
  | '(' :: rest => (rest.dropWhile (· != ')')).drop 1
  | rest => rest.dropWhile Char.isDigit

theorem length_dropSigned_le (t : Text) : (dropSigned t).length ≤ t.length := by
  unfold dropSigned
  split <;> grind [List.dropWhile_suffix, List.IsSuffix.length_le]

theorem length_dropFontName_le (t : Text) : (dropFontName t).length ≤ t.length := by
  unfold dropFontName
  split <;> grind [List.dropWhile_suffix, List.IsSuffix.length_le]

theorem length_dropWidth_le (t : Text) : (dropWidth t).length ≤ t.length := by
  unfold dropWidth
  split <;> grind [List.dropWhile_suffix, List.IsSuffix.length_le]

/-- The keys that a row of a format line gives, whose modifiers have no effect. -/
def Format.ofText (spec : Text) : Format :=
  match spec with
  | [] => []
  | c :: rest =>
    match c.toLower with
    | 'f' => Format.ofText (dropFontName rest)
    | 'w' => Format.ofText (dropWidth rest)
    | 'p' | 'v' => Format.ofText (dropSigned rest)
    | _ => (Key.ofChar? c).toList ++ Format.ofText rest
termination_by spec.length
decreasing_by
  · have := length_dropFontName_le rest; simp; omega
  · have := length_dropWidth_le rest; simp; omega
  · have := length_dropSigned_le rest; simp; omega
  · simp

/-- Whether a format line is the last one. -/
def isLastFormat (line : Text) : Bool :=
  endsWith (trimEnd line) "."

/-- The formats that a format line gives, where commas separate rows. -/
def formatsOfLine (line : Text) : List Format :=
  let body := ((trimEnd line).reverse.dropWhile (· == '.')).reverse
  ((splitOn ',' body).map Format.ofText).filter fun format => !format.isEmpty

/-- The formats up to the last format line, and the lines after it. -/
def readFormats : List Text → List Format × List Text
  | [] => ([], [])
  | line :: lines =>
    if isLastFormat line then (formatsOfLine line, lines)
    else
      let (formats, rest) := readFormats lines
      (formatsOfLine line ++ formats, rest)

theorem length_readFormats_le (lines : List Text) : (readFormats lines).2.length ≤ lines.length := by
  induction lines with
  | nil => simp [readFormats]
  | cons line lines ih =>
    unfold readFormats
    split
    · simp
    · simp; omega

/-- The key of a column; the last one counts for the columns after it as well. -/
def Format.keyAt (format : Format) (column : Nat) : Key :=
  (format[column]? <|> format.getLast?).getD .left

/-- The options of a table. -/
structure Options where
  /-- The character between the fields of a row. -/
  tab : Char := '\t'
  /-- Whether there is a frame around the table. -/
  framed : Bool := false
  deriving DecidableEq, Repr

/-- The words of the option line that ask for a frame. -/
def frameWords : List Text :=
  ["box", "allbox", "frame", "doublebox", "doubleframe"]

def Options.ofLine (line : Text) : Options :=
  let small := line.map Char.toLower
  let tab :=
    match breakOn? "tab(" small with
    | some (before, _) => ((line.drop (before.length + 4)).head?.filter (· != ')')).getD '\t'
    | none => '\t'
  { tab, framed := (fieldsBy (fun c => !c.isAlpha) small).any frameWords.contains }

end RoffDocBook.Table

/-! The rows of a table: the fields of a line of data, and the entries that the keys make of them. -/
namespace RoffDocBook.Table
open Text

/-- Whether a field opens a block of text. -/
def opensBlock (field : Text) : Bool :=
  trim field == "T\x7b".toList

/-- The text of a block, and what follows its end on the same line with the lines after that. Control lines inside a
block are passed over. -/
def readBlock : List Text → List Text × Option (Text × List Text)
  | [] => ([], none)
  | line :: lines =>
    match dropStart? "T\x7d" line with
    | some after => ([], some (after, lines))
    | none =>
      let (texts, tail) := readBlock lines
      (if startsWith line "." || startsWith line "'" then texts else trim line :: texts, tail)

theorem length_readBlock_lt {lines : List Text} {after : Text} {rest : List Text}
    (h : (readBlock lines).2 = some (after, rest)) : rest.length < lines.length := by
  induction lines with
  | nil => simp [readBlock] at h
  | cons line lines ih =>
    unfold readBlock at h
    split at h
    · simp at h
      simp [h.2]
    · have := ih h
      simp
      omega

/-- The fields of a row that begins with a line, and the lines after the row. A block as the last field of a line goes
on over the lines after it. -/
def readFields (tab : Char) (line : Text) (lines : List Text) : List Text × List Text :=
  let fields := splitOn tab line
  if opensBlock (fields.getLastD []) then
    let text := join " " (readBlock lines).1
    match _h : (readBlock lines).2 with
    | none => (fields.dropLast ++ [text], [])
    | some (after, rest) =>
      if after.isEmpty then (fields.dropLast ++ [text], rest)
      else
        let (others, rest) := readFields tab ((dropStart? [tab] after).getD after) rest
        (fields.dropLast ++ text :: others, rest)
  else (fields, lines)
termination_by lines.length
decreasing_by exact length_readBlock_lt _h

theorem length_readFields_le (tab : Char) (line : Text) (lines : List Text) :
    (readFields tab line lines).2.length ≤ lines.length := by
  fun_induction readFields tab line lines with
  | case1 => simp
  | case2 line lines _ _ _ after rest h => exact Nat.le_of_lt (length_readBlock_lt h)
  | case3 line lines _ _ _ after rest h _ _ _ eq ih =>
    have := length_readBlock_lt h
    simp_all
    omega
  | case4 => simp

/-- An entry of a row, from its first column to its last one. -/
structure Entry where
  content : Text
  first : Nat
  last : Nat
  /-- The number of rows below that the entry goes on in. -/
  moreRows : Nat := 0
  alignment : Option Text := none
  /-- Whether an entry of a row above comes before it, so that its column has to be given. -/
  placed : Bool := false
  deriving DecidableEq, Repr

/-- Whether an entry takes a column. -/
def Entry.covers (entry : Entry) (column : Nat) : Bool :=
  entry.first ≤ column && column ≤ entry.last

structure Row where
  entries : List Entry
  format : Format
  /-- Whether a rule follows the row. -/
  ruled : Bool := false
  deriving DecidableEq, Repr

/-- Fields that stand for a rule. -/
def ruleFields : List Text :=
  ["_", "=", "\\_", "\\="]

/-- The content of an entry with a key and a field, of which a rule has none. -/
def entryContent (key : Key) (field : Text) : Text :=
  if ruleFields.contains field || key = .rule || startsWith field "\\R" then [] else field

/-- The entries of a row up to some column, the most recent first. -/
structure Placement where
  entries : List Entry := []
  /-- Whether a column has been left to an entry of a row above. -/
  shifted : Bool := false

/-- The entries of a row with one more column. -/
def Placement.addColumn (fields : List Text) (format : Format) (placed : Placement) (column : Nat) : Placement :=
  let key := format.keyAt column
  let field := trim (fields.getD column [])
  match key, placed.entries with
  | .span, entry :: before => { placed with entries := { entry with last := column } :: before }
  | _, _ =>
    if key = .vertical || field == "\\^".toList then { placed with shifted := true }
    else
      let entry : Entry :=
        { content := entryContent key field, first := column, last := column, alignment := key.alignment?,
          placed := placed.shifted }
      { placed with entries := entry :: placed.entries }

/-- A row of data in a format. -/
def Row.ofFields (fields : List Text) (format : Format) : Row :=
  let width := max fields.length format.length
  { entries := ((List.range width).foldl (Placement.addColumn fields format) {}).entries.reverse, format }

/-- The number of columns that a row needs. -/
def Row.width (row : Row) : Nat :=
  max row.format.length (row.entries.getLast?.elim 0 fun entry => entry.last + 1)

/-- The columns that a row leaves to the row above by its format. -/
def Row.verticalColumns (row : Row) : List Nat :=
  (List.range (max 1 row.format.length)).filter fun column => row.format.keyAt column = .vertical

/-- The entries with the first one that takes a column going on for one more row. -/
def extendEntries (column : Nat) : List Entry → List Entry
  | [] => []
  | entry :: rest =>
    if entry.covers column then { entry with moreRows := entry.moreRows + 1 } :: rest
    else entry :: extendEntries column rest

/-- The rows above a row, the nearest first, with the entry over one of its columns going on for one more row. -/
def extendAbove : List Row → Nat → List Row
  | [], _ => []
  | row :: above, column =>
    if row.entries.any (·.covers column) then { row with entries := extendEntries column row.entries } :: above
    else row :: extendAbove above column

/-- The rows with the entries that go on over rows below, where the rows above come with the nearest first. -/
def spanRows : List Row → List Row → List Row
  | above, [] => above.reverse
  | above, row :: rest => spanRows (row :: row.verticalColumns.foldl extendAbove above) rest

end RoffDocBook.Table
