import Mathlib.Data.List.Sort
import RoffDocBook.Proofs.Document.Rendering
import RoffDocBook.Proofs.Table.Tiling
import RoffDocBook.Proofs.Text.Words
import RoffDocBook.Table.Markup

/-! A table as it is written: the data of each row in order, in columns that the table declares. -/
namespace RoffDocBook
open Text

namespace Table

/-- Where an entry stands: its first and its last column, and its alignment in them. -/
def Entry.frame (entry : Entry) : Nat × Nat × Option Text :=
  (entry.first, entry.last, entry.alignment)

/-- The columns that an entry takes, from the left to the right. -/
def Entry.columns (entry : Entry) : List Nat :=
  List.range' entry.first (entry.last + 1 - entry.first)

/-- An entry stands as another one does, with the markup of some data as its content. It may go on in the rows below. -/
def Entry.Renders (given : Entry) (data : Text) (shown : Entry) : Prop :=
  ∃ (doc : Document) (moreRows : Nat), shown = { given with content := (doc.renderIsolated data).1, moreRows }

/-- A row shows a record: its entries are those of the record, with the markup of their data. -/
def Record.Shows (record : Record) (row : Row) : Prop :=
  List.Forall₂ (fun given shown => given.Renders (record.data given.first) shown) record.entries row.entries

namespace Record.Shows
variable {record : Record} {row : Row} {entry : Entry}

theorem map_frame (shows : record.Shows row) : row.entries.map Entry.frame = record.entries.map Entry.frame := by
  unfold Shows at shows
  generalize record.entries = given at shows ⊢
  generalize row.entries = printed at shows ⊢
  induction shows with
  | nil => rfl
  | cons first _ ih =>
    obtain ⟨_, _, rfl⟩ := first
    exact congrArg (_ :: ·) ih

theorem exists_frame (shows : record.Shows row) (mem : entry ∈ row.entries) :
    ∃ given ∈ record.entries, given.frame = entry.frame :=
  List.mem_map.mp (shows.map_frame ▸ List.mem_map_of_mem mem)

theorem first_le_last (shows : record.Shows row) (mem : entry ∈ row.entries) : entry.first ≤ entry.last := by
  obtain ⟨given, mem', frame⟩ := shows.exists_frame mem
  simp only [Entry.frame, Prod.mk.injEq] at frame
  rw [← frame.1, ← frame.2.1]
  exact Record.first_le_last mem'

theorem alignment (shows : record.Shows row) (mem : entry ∈ row.entries) :
    ∃ key : Key, entry.alignment = key.alignment? := by
  obtain ⟨given, mem', frame⟩ := shows.exists_frame mem
  simp only [Entry.frame, Prod.mk.injEq] at frame
  exact ⟨_, frame.2.2 ▸ (Record.given_of_mem mem').2⟩

theorem ordered (shows : record.Shows row) : Ordered row.entries := by
  have frames : (row.entries.map Entry.frame).Pairwise fun left right => left.2.1 < right.1 := by
    rw [shows.map_frame]
    exact List.pairwise_map.mpr record.ordered_entries
  exact List.pairwise_map.mp frames

theorem columns (shows : record.Shows row) :
    row.entries.flatMap Entry.columns = record.entries.flatMap Entry.columns := by
  have parts (entries : List Entry) :
      entries.flatMap Entry.columns =
        (entries.map Entry.frame).flatMap fun frame => List.range' frame.1 (frame.2.1 + 1 - frame.1) := by
    rw [List.flatMap_map]
    rfl
  rw [parts, parts, shows.map_frame]

end Record.Shows

/-! How wide a table is. -/

end Table

namespace Document
open Table
variable (doc : Document)

end Document

end RoffDocBook

/-! The markup of a table: the columns that it declares, the attributes that name them, and the rows of its two groups. -/
namespace RoffDocBook
open Text

namespace Table

/-- A quoted value with what stands before it. -/
def quote (part : Text × Text) : Text :=
  part.1 ++ '\'' :: part.2 ++ ['\'']

/-- Fields in twos. -/
def pairs : List Text → List (Text × Text)
  | before :: value :: rest => (before, value) :: pairs rest
  | _ => []

/-- The attributes of an entry as they are read back. -/
def Entry.parts (entry : Entry) : List (Text × Text) :=
  (if entry.placed && !(entry.first < entry.last : Bool) then [(" colname=".toList, columnName entry.first)] else []) ++
    (entry.alignment.toList.map (" align=".toList, ·)) ++
    (if entry.first < entry.last then
      [(" namest=".toList, columnName entry.first), (" nameend=".toList, columnName entry.last)]
    else []) ++
    (if entry.moreRows > 0 then [(" morerows=".toList, ofNat entry.moreRows)] else [])

/-- The line that declares a column with some name. -/
def declaration (name : Text) : Text :=
  "<colspec colname='" ++ name ++ "'/>"

/-- The lines of some rows, in the element for them. -/
def rowGroup (element : Text) (rows : List Row) : List Text :=
  ("<" ++ element ++ ">" : Text) :: rows.map Row.markup ++ [("</" ++ element ++ ">" : Text)]

namespace Grid
variable (grid : Grid)

/-- The lines that declare the columns of a table. -/
def declarations : List Text :=
  (List.range grid.width).map fun column => declaration (columnName column)

def head : List Row :=
  grid.rows.take grid.header

def body : List Row :=
  grid.rows.drop grid.header

def opening (title : Option Text) : Text :=
  let frame : Text := if grid.options.framed then "all" else "none"
  match title with
  | some title => "<table remap='TS' frame='" ++ frame ++ "'><title>" ++ title ++ "</title>"
  | none => "<informaltable remap='TS' frame='" ++ frame ++ "'>"

def closing : Option Text → Text
  | some _ => "</tgroup>\n</table>"
  | none => "</tgroup>\n</informaltable>"

/-- A table is written as the declarations of its columns, its head where it has one, and its body. -/
theorem markup_eq (title : Option Text) :
    grid.markup title = unlines
      (grid.opening title :: ("<tgroup cols='" ++ ofNat grid.width ++ "'>" : Text) :: grid.declarations ++
        (if grid.header > 0 then rowGroup "thead" grid.head else []) ++ rowGroup "tbody" grid.body ++
        [closing title]) := by
  cases title with
  | none => rfl
  | some title => rfl

variable {grid}

end Grid

end Table

namespace Document
open Table
variable (doc : Document)

end Document

end RoffDocBook
