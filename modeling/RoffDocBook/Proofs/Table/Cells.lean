import RoffDocBook.Proofs.Text.Words
import RoffDocBook.Table.Row

/-! Rows of data as they are written: cells with the tab character between them, where a block of text has lines of its
own. Reading such a row gives its cells back. -/
namespace RoffDocBook.Table
open Text

/-- A cell of a row. -/
inductive Cell where
  | plain (text : Text)
  /-- A text over any number of lines. -/
  | block (lines : List Text)

namespace Cell

/-- The field that a cell stands for. -/
def field : Cell → Text
  | plain text => text
  | block lines => join " " (lines.map trim)

/-- What a line of a block does not begin with: the end of the block, and the control characters. -/
def blockMarks : List Text :=
  ["T\x7d", ".", "'"]

/-- A cell can be told from what stands around it. -/
def Readable (tab : Char) : Cell → Prop
  | plain text => tab ∉ text ∧ trim text ≠ "T\x7b".toList
  | block lines => ∀ line ∈ lines, ∀ mark ∈ blockMarks, ¬ mark <+: line

instance (tab : Char) : (cell : Cell) → Decidable (cell.Readable tab)
  | plain _ => inferInstanceAs (Decidable (_ ∧ _))
  | block lines => inferInstanceAs (Decidable (∀ line ∈ lines, _))

end Cell

/-- The lines that a row is written on, the first one apart from the others. A block is opened at the end of a line, and
the next cell follows on the line that ends it. -/
def writeRow (tab : Char) : Cell → List Cell → Text × List Text
  | .plain text, [] => (text, [])
  | .plain text, next :: cells =>
    let written := writeRow tab next cells
    (text ++ tab :: written.1, written.2)
  | .block lines, [] => ("T\x7b", lines ++ ["T\x7d".toList])
  | .block lines, next :: cells =>
    let written := writeRow tab next cells
    ("T\x7b", lines ++ ("T\x7d" ++ tab :: written.1) :: written.2)

variable {tab : Char}

/-- A block is read up to the line that ends it. -/
theorem readBlock_append {lines : List Text} (h : (Cell.block lines).Readable tab) (after : Text) (rest : List Text) :
    readBlock (lines ++ ("T\x7d" ++ after) :: rest) = (lines.map trim, some (after, rest)) := by
  induction lines with
  | nil => rw [List.nil_append, readBlock, dropStart?_append, List.map_nil]
  | cons line lines ih =>
    obtain ⟨hline, hlines⟩ := List.forall_mem_cons.mp h
    have hmark : ∀ mark ∈ Cell.blockMarks, (dropStart? mark line).isSome = false := by
      intro mark hm
      rw [Bool.eq_false_iff, ne_eq, dropStart?_isSome_iff]
      exact hline mark hm
    have hend : dropStart? "T\x7d" line = none := by
      have hm := hmark "T\x7d" (by decide)
      simpa using hm
    have htext : (startsWith line "." || startsWith line "'") = false := by
      rw [startsWith, startsWith, hmark "." (by decide), hmark "'" (by decide)]
      rfl
    rw [List.cons_append, readBlock, hend]
    dsimp only
    rw [ih hlines, htext]
    rfl

/-! What a row is read as, by what its first line ends in. -/

theorem readFields_of_plain {line : Text} (h : opensBlock ((splitOn tab line).getLastD []) = false)
    (lines : List Text) : readFields tab line lines = (splitOn tab line, lines) := by
  rw [readFields, h]
  rfl

theorem readFields_of_block {line : Text} (h : opensBlock ((splitOn tab line).getLastD []) = true)
    {lines texts rest : List Text} (hb : readBlock lines = (texts, some ([], rest))) :
    readFields tab line lines = ((splitOn tab line).dropLast ++ [join " " texts], rest) := by
  rw [readFields, if_pos h]
  split
  · rename_i hnone
    rw [hb] at hnone
    cases hnone
  · rename_i after rest' hsome
    rw [hb] at hsome
    obtain ⟨rfl, rfl⟩ := Prod.mk.inj (Option.some.inj hsome)
    rw [hb]
    rfl

theorem readFields_of_block_cons {line : Text} (h : opensBlock ((splitOn tab line).getLastD []) = true)
    {lines texts rest : List Text} {next : Text} (hb : readBlock lines = (texts, some (tab :: next, rest))) :
    readFields tab line lines =
      ((splitOn tab line).dropLast ++ join " " texts :: (readFields tab next rest).1,
        (readFields tab next rest).2) := by
  rw [readFields, if_pos h]
  split
  · rename_i hnone
    rw [hb] at hnone
    cases hnone
  · rename_i after rest' hsome
    rw [hb] at hsome
    obtain ⟨rfl, rfl⟩ := Prod.mk.inj (Option.some.inj hsome)
    have hdrop : dropStart? [tab] (tab :: next) = some next := dropStart?_append [tab] next
    rw [hb, hdrop]
    rfl

/-- A text before the first tab character is the first field. -/
theorem readFields_append {text : Text} (h : tab ∉ text) (line : Text) (lines : List Text) :
    readFields tab (text ++ tab :: line) lines =
      (text :: (readFields tab line lines).1, (readFields tab line lines).2) := by
  have hsplit := splitOn_append_cons h line
  obtain ⟨first, others, hfields⟩ := List.exists_cons_of_ne_nil (splitBy_ne_nil (· == tab) line)
  have hlast : (splitOn tab (text ++ tab :: line)).getLastD [] = (splitOn tab line).getLastD [] := by
    rw [hsplit, splitOn, hfields]
    simp
  have hinit : (splitOn tab (text ++ tab :: line)).dropLast = text :: (splitOn tab line).dropLast := by
    rw [hsplit, splitOn, hfields]
    rfl
  rw [readFields, readFields, hlast, hinit, hsplit]
  dsimp only
  split
  · split
    · rfl
    · split
      · rfl
      · rfl
  · rfl

/-! The cells of a row, the last one and those with another one after them. -/

theorem readFields_plain {text : Text} (h : (Cell.plain text).Readable tab) (rest : List Text) :
    readFields tab text rest = ([text], rest) := by
  have hsplit : splitOn tab text = [text] := splitOn_of_notMem h.1
  have hplain : opensBlock ((splitOn tab text).getLastD []) = false := by
    rw [hsplit]
    exact beq_false_of_ne h.2
  rw [readFields_of_plain hplain, hsplit]

section
variable (htab : tab ∉ ['T', '\x7b', '\x7d'])
include htab

theorem splitOn_opening : splitOn tab "T\x7b" = ["T\x7b".toList] := by
  apply splitOn_of_notMem
  intro hm
  have hsub : "T\x7b".toList ⊆ ['T', '\x7b', '\x7d'] := by decide
  exact htab (hsub hm)

theorem opensBlock_opening : opensBlock ((splitOn tab "T\x7b").getLastD []) = true := by
  rw [splitOn_opening htab]
  decide

variable {lines : List Text} (h : (Cell.block lines).Readable tab) (rest : List Text)
include h

theorem readFields_block :
    readFields tab "T\x7b" (lines ++ "T\x7d".toList :: rest) = ([(Cell.block lines).field], rest) := by
  have hblock := readBlock_append h [] rest
  rw [List.append_nil] at hblock
  rw [readFields_of_block (opensBlock_opening htab) hblock, splitOn_opening htab]
  rfl

theorem readFields_block_cons (next : Text) :
    readFields tab "T\x7b" (lines ++ ("T\x7d" ++ tab :: next) :: rest) =
      ((Cell.block lines).field :: (readFields tab next rest).1, (readFields tab next rest).2) := by
  rw [readFields_of_block_cons (opensBlock_opening htab) (readBlock_append h (tab :: next) rest), splitOn_opening htab]
  rfl

end

/-- Reading a row that has been written gives the fields of its cells, and leaves the lines after the row. -/
theorem readFields_writeRow (htab : tab ∉ ['T', '\x7b', '\x7d']) {cell : Cell} {cells : List Cell}
    (h : ∀ c ∈ cell :: cells, c.Readable tab) (rest : List Text) :
    readFields tab (writeRow tab cell cells).1 ((writeRow tab cell cells).2 ++ rest) =
      ((cell :: cells).map Cell.field, rest) := by
  induction cells generalizing cell with
  | nil =>
    obtain ⟨hcell, -⟩ := List.forall_mem_cons.mp h
    cases cell with
    | plain text => exact readFields_plain hcell rest
    | block lines =>
      rw [writeRow, List.append_assoc, List.singleton_append]
      exact readFields_block htab hcell rest
  | cons next cells ih =>
    obtain ⟨hcell, hcells⟩ := List.forall_mem_cons.mp h
    have hnext := ih hcells
    cases cell with
    | plain text =>
      rw [writeRow, readFields_append hcell.1, hnext]
      rfl
    | block lines =>
      rw [writeRow, List.append_assoc, List.cons_append]
      dsimp only
      rw [readFields_block_cons htab hcell, hnext]
      rfl

/-- Texts and blocks in turn: one block with no lines at all, one with a blank line, and an empty text between two tab
characters. -/
private def mixed : Cell × List Cell :=
  (.plain "name", [.block ["  the first", "", "last "], .plain "", .block [], .plain " 3 "])

theorem readFields_writeRow_mixed :
    '\t' ∉ ['T', '\x7b', '\x7d'] ∧ (∀ c ∈ mixed.1 :: mixed.2, c.Readable '\t') ∧
      readFields '\t' "name\tT\x7b"
          ["  the first", "", "last ", "T\x7d\t\tT\x7b", "T\x7d\t 3 ", "next\tT\x7b", "T\x7d"] =
        (["name".toList, "the first  last", "", "", " 3 "], ["next\tT\x7b".toList, "T\x7d"]) := by
  have htab : '\t' ∉ ['T', '\x7b', '\x7d'] := by decide
  have hcells : ∀ c ∈ mixed.1 :: mixed.2, c.Readable '\t' := by decide
  exact ⟨htab, hcells, readFields_writeRow htab hcells ["next\tT\x7b", "T\x7d"]⟩

end RoffDocBook.Table
