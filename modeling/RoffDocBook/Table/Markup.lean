import RoffDocBook.Document.Paragraph
import RoffDocBook.Table.Grid

/-! Tables as markup: the entries of each row, with the columns and rows that they span. -/
namespace RoffDocBook
open Text Markup

namespace Table

/-- The name of a column, counted from zero. -/
def columnName (column : Nat) : Text :=
  'c' :: ofNat (column + 1)

/-- The attributes of an entry. -/
def Entry.attributes (entry : Entry) : Text :=
  let spans := entry.first < entry.last
  let place : Text := if entry.placed && !spans then " colname='" ++ columnName entry.first ++ "'" else ""
  let alignment : Text :=
    match entry.alignment with
    | some alignment => " align='" ++ alignment ++ "'"
    | none => ""
  let span : Text :=
    if spans then " namest='" ++ columnName entry.first ++ "' nameend='" ++ columnName entry.last ++ "'" else ""
  let rows : Text := if entry.moreRows > 0 then " morerows='" ++ ofNat entry.moreRows ++ "'" else ""
  place ++ alignment ++ span ++ rows

/-- An entry, whose content is markup, as an element. -/
def Entry.markup (entry : Entry) : Text :=
  if entry.content.isEmpty then "<entry" ++ entry.attributes ++ "/>"
  else "<entry" ++ entry.attributes ++ ">" ++ entry.content ++ "</entry>"

/-- A row, whose contents are markup, as an element. -/
def Row.markup (row : Row) : Text :=
  (if row.ruled then "<row rowsep='1'>" else "<row>" : Text) ++ row.entries.flatMap Entry.markup ++ "</row>"

/-- A table, whose contents are markup, as an element. -/
def Grid.markup (grid : Grid) (title : Option Text) : Text :=
  let frame : Text := if grid.options.framed then "all" else "none"
  let (element, opening) : Text × Text :=
    match title with
    | some title => ("table", "<table remap='TS' frame='" ++ frame ++ "'><title>" ++ title ++ "</title>")
    | none => ("informaltable", "<informaltable remap='TS' frame='" ++ frame ++ "'>")
  let columns := (List.range grid.width).map fun column => ("<colspec colname='" ++ columnName column ++ "'/>" : Text)
  let group (element : Text) (rows : List Row) : List Text :=
    let opening : Text := "<" ++ element ++ ">"
    let closing : Text := "</" ++ element ++ ">"
    opening :: rows.map Row.markup ++ [closing]
  let head := if grid.header > 0 then group "thead" (grid.rows.take grid.header) else []
  let columnGroup : Text := "<tgroup cols='" ++ ofNat grid.width ++ "'>"
  let closing : Text := "</tgroup>\n</" ++ element ++ ">"
  unlines (opening :: columnGroup :: columns ++ head ++ group "tbody" (grid.rows.drop grid.header) ++ [closing])

end Table

namespace Document
open Table

/-- The entries of a row with markup as their contents. -/
def renderEntries (doc : Document) : List Entry → List Entry × Document
  | [] => ([], doc)
  | entry :: rest =>
    let (content, doc) := doc.renderIsolated entry.content
    let (others, doc) := renderEntries doc rest
    ({ entry with content } :: others, doc)

/-- The rows of a table with markup as their contents. -/
def renderRows (doc : Document) : List Row → List Row × Document
  | [] => ([], doc)
  | row :: rest =>
    let (entries, doc) := doc.renderEntries row.entries
    let (others, doc) := renderRows doc rest
    ({ row with entries } :: others, doc)

/-- Writes the table that some lines describe, under the title that is set for it. -/
def renderTable (doc : Document) (lines : List Text) (explicit : Bool) : Document :=
  let grid := Grid.ofLines lines explicit
  let doc := if grid.formatted then doc else doc.warn .tableWithoutFormat
  if grid.rows.isEmpty then doc.warn .tableWithoutRows
  else
    let (rows, doc) := doc.renderRows grid.rows
    { doc with tableTitle := none }.emitMarkup ({ grid with rows }.markup doc.tableTitle)

end Document

end RoffDocBook
