import RoffDocBook.ControlLine
import RoffDocBook.Table.Row

/-! A whole table read from its lines: the rows in their formats, and how many of them are the head. -/
namespace RoffDocBook.Table
open Text

structure Grid where
  options : Options := {}
  /-- Whether there was a format for the rows. -/
  formatted : Bool := true
  rows : List Row := []
  /-- The number of rows in the head. -/
  header : Nat := 0

/-- What a line after the formats of a table is. -/
inductive DataLine where
  /-- The request that ends the head. -/
  | headEnd
  /-- The request that new formats follow. -/
  | formats
  | rule (double : Bool)
  /-- Another request, which is passed over. -/
  | request
  /-- The first line of a row. -/
  | data

def DataLine.ofText (line : Text) : DataLine :=
  match String.ofList (trim line) with
  | ".TH" => headEnd
  | ".T&amp;" | ".T&" => formats
  | "_" | "-" => rule false
  | "=" => rule true
  | _ => if startsWith line "." || startsWith line "'" then request else data

/-- The rows of data read so far. -/
structure Reading where
  formats : List Format
  /-- The number of rows before the formats in force. -/
  base : Nat := 0
  /-- The rows, the most recent first. -/
  rows : List Row := []
  header : Option Nat := none
  /-- The number of rules between rows. -/
  rules : Nat := 0

namespace Reading

/-- The format of the next row; the last one counts for the rows after it as well. -/
def nextFormat (reading : Reading) : Format :=
  (reading.formats[reading.rows.length - reading.base]? <|> reading.formats.getLast?).getD []

/-- A rule between rows. The first one marks the head if it is a double rule after at most three rows, and any other
one belongs to the row before it. -/
def addRule (reading : Reading) (double : Bool) : Reading :=
  let count := reading.rows.length
  let marks := double && reading.rules == 0 && reading.header.isNone && 1 ≤ count && count ≤ 3
  let reading := { reading with rules := reading.rules + 1 }
  if marks then { reading with header := some count }
  else
    match reading.rows with
    | row :: before => { reading with rows := { row with ruled := true } :: before }
    | [] => reading

/-- Reads the lines of data, where `explicit` tells that a request marks the end of the head. -/
def readRows (explicit : Bool) (tab : Char) (reading : Reading) (lines : List Text) : Reading :=
  match lines with
  | [] => reading
  | line :: rest =>
    match DataLine.ofText line with
    | .headEnd =>
      let header := if explicit then some reading.rows.length else reading.header
      { reading with header }.readRows explicit tab rest
    | .formats =>
      let formats := (readFormats rest).1
      let reading := if formats.isEmpty then reading else { reading with formats, base := reading.rows.length }
      have := length_readFormats_le rest
      reading.readRows explicit tab (readFormats rest).2
    | .rule double => (reading.addRule double).readRows explicit tab rest
    | .request => reading.readRows explicit tab rest
    | .data =>
      let row := Row.ofFields (readFields tab line rest).1 reading.nextFormat
      have := length_readFields_le tab line rest
      { reading with rows := row :: reading.rows }.readRows explicit tab (readFields tab line rest).2
termination_by lines.length
decreasing_by all_goals (simp; try omega)

end Reading

/-- The number of rows that the formats before the last one without a vertical span stand for. -/
def headerOfFormats (formats : List Format) : Nat :=
  formats.length - 1 - (formats.reverse.takeWhile fun format => format.contains .vertical).length

/-- Reads a table from the lines between its requests. -/
def Grid.ofLines (lines : List Text) (explicit : Bool) : Grid :=
  let lines := lines.filter fun line => !ControlLine.isComment line
  let (options, lines) :=
    match lines with
    | line :: rest => if endsWith (trimEnd line) ";" then (Options.ofLine line, rest) else ({}, lines)
    | [] => ({}, [])
  let (given, data) := readFormats lines
  let formats := if given.isEmpty then [[.left]] else given
  let reading := Reading.readRows explicit options.tab { formats } data
  { options
    formatted := !given.isEmpty
    rows := spanRows [] reading.rows.reverse
    header := min (reading.header.getD (headerOfFormats formats)) (reading.rows.length - 1) }

/-- The number of columns of a table. -/
def Grid.width (grid : Grid) : Nat :=
  (grid.rows.map Row.width).foldl max 1

end RoffDocBook.Table
