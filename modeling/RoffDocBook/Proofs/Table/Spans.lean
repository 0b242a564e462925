import Mathlib.Algebra.BigOperators.Group.Finset.Basic
import Mathlib.Data.List.Forall2
import Mathlib.Order.Interval.Finset.Nat
import RoffDocBook.Table.Row

/-! The entries of a row of data. They stand side by side, and where the keys say all there is to say they take the
columns that the row does not leave to the rows above. -/
namespace RoffDocBook.Table
open Text

/-- The fields of a row, and the format in which they stand. -/
structure Record where
  fields : List Text
  format : Format
  deriving DecidableEq

namespace Record

/-- The number of columns with a field or a key. -/
def width (record : Record) : Nat :=
  max record.fields.length record.format.length

def row (record : Record) : Row :=
  Row.ofFields record.fields record.format

/-- A column is left to the rows above, by its key or by its field. -/
def Leaves (record : Record) (column : Nat) : Prop :=
  record.format.keyAt column = .vertical ∨ trim (record.fields.getD column []) = "\\^".toList

instance (record : Record) (column : Nat) : Decidable (record.Leaves column) :=
  inferInstanceAs (Decidable (_ ∨ _))

/-- The keys alone tell which columns are left to the rows above, and no entry goes on over one of them. -/
structure Regular (record : Record) : Prop where
  keyed : ∀ column < record.width, record.Leaves column → record.format[column]? = some .vertical
  joined : ∀ column < record.width, record.Leaves column → column + 1 < record.width →
    record.format.keyAt (column + 1) = .span → ∀ earlier < column, record.Leaves earlier

instance (record : Record) : Decidable record.Regular :=
  decidable_of_iff (_ ∧ _) ⟨fun h => ⟨h.1, h.2⟩, fun h => ⟨h.keyed, h.joined⟩⟩

end Record

theorem Format.keyAt_of_getElem? {format : Format} {column : Nat} {key : Key} (h : format[column]? = some key) :
    format.keyAt column = key := by
  rw [keyAt, h]
  rfl

/-- Entries stand side by side, the most recent first, before some column, and none goes on below. -/
structure Beside (column : Nat) (entries : List Entry) : Prop where
  before : ∀ entry ∈ entries, entry.first ≤ entry.last ∧ entry.last < column ∧ entry.moreRows = 0
  ordered : entries.Pairwise fun later earlier => earlier.last < later.first

/-- What a column of a record makes of the entries before it. -/
inductive Record.Adds (record : Record) (column : Nat) : List Entry → List Entry → Prop where
  | span {entry : Entry} {before : List Entry} (key : record.format.keyAt column = .span) :
      Adds record column (entry :: before) ({ entry with last := column } :: before)
  | leave {entries : List Entry} (left : record.Leaves column) : Adds record column entries entries
  | own {entries : List Entry} {entry : Entry} (kept : ¬ record.Leaves column) (first : entry.first = column)
      (last : entry.last = column) (more : entry.moreRows = 0) : Adds record column entries (entry :: entries)

theorem Record.adds_addColumn (record : Record) (column : Nat) (placed : Placement) :
    record.Adds column placed.entries (placed.addColumn record.fields record.format column).entries := by
  simp only [Placement.addColumn]
  split
  · rename_i entry before key entries
    rw [entries]
    exact .span key
  · split
    · rename_i left
      refine .leave ?_
      simpa [Leaves] using left
    · rename_i kept
      refine .own ?_ rfl rfl rfl
      simpa [Leaves] using kept

theorem Beside.adds {record : Record} {column : Nat} {entries after : List Entry} (beside : Beside column entries)
    (adds : record.Adds column entries after) : Beside (column + 1) after := by
  obtain ⟨before, ordered⟩ := beside
  cases adds with
  | span key =>
    obtain ⟨first, rest⟩ := List.forall_mem_cons.mp before
    refine ⟨List.forall_mem_cons.mpr ⟨⟨?_, Nat.lt_succ_self column, first.2.2⟩, fun entry mem => ?_⟩, ?_⟩
    · exact Nat.le_of_lt (Nat.lt_of_le_of_lt first.1 first.2.1)
    · have := rest entry mem
      exact ⟨this.1, Nat.lt_succ_of_lt this.2.1, this.2.2⟩
    · exact List.pairwise_cons.mpr (List.pairwise_cons.mp ordered)
  | leave left =>
    exact ⟨fun entry mem => ⟨(before entry mem).1, Nat.lt_succ_of_lt (before entry mem).2.1, (before entry mem).2.2⟩,
      ordered⟩
  | own kept first last more =>
    refine ⟨List.forall_mem_cons.mpr ⟨⟨?_, ?_, more⟩, fun entry mem => ?_⟩, List.pairwise_cons.mpr ⟨?_, ordered⟩⟩
    · omega
    · omega
    · have := before entry mem
      exact ⟨this.1, Nat.lt_succ_of_lt this.2.1, this.2.2⟩
    · intro entry mem
      rw [first]
      exact (before entry mem).2.1

/-- Entries from the left to the right. -/
abbrev Ordered (entries : List Entry) : Prop :=
  entries.Pairwise fun left right => left.last < right.first

theorem Entry.covers_iff {entry : Entry} {column : Nat} :
    entry.covers column = true ↔ entry.first ≤ column ∧ column ≤ entry.last := by
  rw [covers, Bool.and_eq_true, decide_eq_true_iff, decide_eq_true_iff]

/-- The columns before some column that are taken by entries are those that a record does not leave. -/
def Takes (record : Record) (column : Nat) (entries : List Entry) : Prop :=
  ∀ earlier < column, entries.any (·.covers earlier) = true ↔ ¬ record.Leaves earlier

/-- With a regular record, an entry that goes on over a column ends right before it. -/
theorem Takes.last_add_one {record : Record} {column : Nat} {entry : Entry} {before : List Entry}
    (regular : record.Regular) (within : column < record.width) (beside : Beside column (entry :: before))
    (takes : Takes record column (entry :: before)) (key : record.format.keyAt column = .span) :
    entry.last + 1 = column := by
  obtain ⟨first, last, -⟩ := beside.before entry List.mem_cons_self
  obtain ⟨previous, rfl⟩ : ∃ previous, column = previous + 1 := Nat.exists_eq_add_one.mpr (by omega)
  have kept : ¬ record.Leaves previous := by
    intro left
    have taken : (entry :: before).any (·.covers entry.first) = true :=
      List.any_eq_true.mpr ⟨entry, List.mem_cons_self, Entry.covers_iff.mpr ⟨Nat.le_refl _, first⟩⟩
    have first_kept := (takes entry.first (by omega)).mp taken
    rcases Nat.lt_or_ge entry.first previous with earlier | later
    · exact first_kept (regular.joined previous (by omega) left within key entry.first earlier)
    · exact first_kept ((by omega : entry.first = previous) ▸ left)
  obtain ⟨other, mem, covers⟩ := List.any_eq_true.mp ((takes previous (Nat.lt_succ_self previous)).mpr kept)
  have bounds := Entry.covers_iff.mp covers
  rcases List.mem_cons.mp mem with rfl | mem
  · omega
  · have := (List.pairwise_cons.mp beside.ordered).1 other mem
    omega

theorem Beside.any_covers {column : Nat} {entries : List Entry} (beside : Beside column entries) :
    ¬ entries.any (·.covers column) = true := by
  intro taken
  obtain ⟨entry, mem, covers⟩ := List.any_eq_true.mp taken
  exact Nat.not_le.mpr (beside.before entry mem).2.1 (Entry.covers_iff.mp covers).2

theorem Takes.adds {record : Record} {column : Nat} {entries after : List Entry} (regular : record.Regular)
    (within : column < record.width) (beside : Beside column entries) (takes : Takes record column entries)
    (adds : record.Adds column entries after) : Takes record (column + 1) after := by
  intro earlier bound
  cases adds with
  | span key =>
    rename_i entry before
    -- The entry ended right before the column, so that it takes no other column than this one in addition.
    have last := takes.last_add_one regular within beside key
    rw [List.any_cons, Bool.or_eq_true, Entry.covers_iff]
    rcases Nat.lt_succ_iff_lt_or_eq.mp bound with lower | rfl
    · rw [← takes earlier lower, List.any_cons, Bool.or_eq_true, Entry.covers_iff]
      exact or_congr_left (and_congr_right fun _ => by dsimp only; omega)
    · have kept : ¬ record.Leaves earlier := fun left => by
        have vertical := Format.keyAt_of_getElem? (regular.keyed earlier within left)
        rw [key] at vertical
        contradiction
      have first := (beside.before entry List.mem_cons_self).1
      exact iff_of_true (.inl ⟨by dsimp only; omega, Nat.le_refl _⟩) kept
  | leave left =>
    rcases Nat.lt_succ_iff_lt_or_eq.mp bound with lower | rfl
    · exact takes earlier lower
    · exact iff_of_false beside.any_covers (not_not_intro left)
  | own kept first last more =>
    rw [List.any_cons, Bool.or_eq_true, Entry.covers_iff]
    rcases Nat.lt_succ_iff_lt_or_eq.mp bound with lower | rfl
    · rw [← takes earlier lower]
      exact or_iff_right (by omega)
    · exact iff_of_true (.inl (by omega)) kept

namespace Record

/-- The entries of a record, from the left to the right. -/
def entries (record : Record) : List Entry :=
  record.row.entries

/-- The entries that the first columns of a record make, the most recent first. -/
private def entriesUpTo (record : Record) (column : Nat) : List Entry :=
  ((List.range column).foldl (Placement.addColumn record.fields record.format) {}).entries

private theorem adds_entriesUpTo (record : Record) (column : Nat) :
    record.Adds column (record.entriesUpTo column) (record.entriesUpTo (column + 1)) := by
  unfold entriesUpTo
  rw [List.range_succ, List.foldl_append]
  exact record.adds_addColumn column _

private theorem beside_entriesUpTo (record : Record) (column : Nat) : Beside column (record.entriesUpTo column) := by
  induction column with
  | zero => exact ⟨List.forall_mem_nil _, List.Pairwise.nil⟩
  | succ column ih => exact ih.adds (record.adds_entriesUpTo column)

private theorem takes_entriesUpTo {record : Record} (regular : record.Regular) {column : Nat}
    (within : column ≤ record.width) : Takes record column (record.entriesUpTo column) := by
  induction column with
  | zero => exact fun _ bound => absurd bound (Nat.not_lt_zero _)
  | succ column ih =>
    exact (ih (Nat.le_of_succ_le within)).adds regular within (record.beside_entriesUpTo column)
      (record.adds_entriesUpTo column)

private theorem entries_eq (record : Record) : record.entries = (record.entriesUpTo record.width).reverse :=
  rfl

theorem moreRows_of_mem {record : Record} {entry : Entry} (h : entry ∈ record.entries) : entry.moreRows = 0 :=
  ((record.beside_entriesUpTo record.width).before entry (List.mem_reverse.mp (record.entries_eq ▸ h))).2.2

theorem first_le_last {record : Record} {entry : Entry} (h : entry ∈ record.entries) : entry.first ≤ entry.last :=
  ((record.beside_entriesUpTo record.width).before entry (List.mem_reverse.mp (record.entries_eq ▸ h))).1

/-- The content that a column asks for: its field, unless a rule stands there. -/
def data (record : Record) (column : Nat) : Text :=
  entryContent (record.format.keyAt column) (trim (record.fields.getD column []))

/-- An entry has the content and the alignment that its first column asks for. -/
private theorem given_entriesUpTo (record : Record) (column : Nat) :
    ∀ entry ∈ record.entriesUpTo column,
      entry.content = record.data entry.first ∧ entry.alignment = (record.format.keyAt entry.first).alignment? := by
  induction column with
  | zero => exact List.forall_mem_nil _
  | succ column ih =>
    unfold entriesUpTo at ih ⊢
    rw [List.range_succ, List.foldl_append, List.foldl_cons, List.foldl_nil]
    generalize (List.range column).foldl (Placement.addColumn record.fields record.format) {} = placed at ih ⊢
    simp only [Placement.addColumn]
    split
    · rename_i entry before key entries
      rw [entries] at ih
      exact List.forall_mem_cons.mpr (List.forall_mem_cons.mp ih)
    · split
      · exact ih
      · exact List.forall_mem_cons.mpr ⟨⟨rfl, rfl⟩, ih⟩

theorem given_of_mem {record : Record} {entry : Entry} (h : entry ∈ record.entries) :
    entry.content = record.data entry.first ∧ entry.alignment = (record.format.keyAt entry.first).alignment? :=
  record.given_entriesUpTo record.width entry (List.mem_reverse.mp (record.entries_eq ▸ h))

theorem ordered_entries (record : Record) : Ordered record.entries := by
  rw [entries_eq]
  exact List.pairwise_reverse.mpr (record.beside_entriesUpTo record.width).ordered

theorem Regular.any_covers_iff {record : Record} (regular : record.Regular) {column : Nat}
    (within : column < record.width) : record.entries.any (·.covers column) = true ↔ ¬ record.Leaves column := by
  rw [entries_eq, List.any_reverse]
  exact takes_entriesUpTo regular (Nat.le_refl _) column within

end Record

/-- Entries from the left to the right cover a column at most once. -/
theorem Ordered.filter_covers {entries : List Entry} (ordered : Ordered entries) {entry : Entry} {column : Nat}
    (mem : entry ∈ entries) (covers : entry.covers column) : entries.filter (·.covers column) = [entry] := by
  obtain ⟨before, after, rfl⟩ := List.append_of_mem mem
  obtain ⟨-, later, earlier⟩ := List.pairwise_append.mp ordered
  have bounds := Entry.covers_iff.mp covers
  have none_before : before.filter (·.covers column) = [] := by
    refine List.filter_eq_nil_iff.mpr fun other mem covers => ?_
    have := earlier other mem entry List.mem_cons_self
    have := Entry.covers_iff.mp covers
    omega
  have none_after : after.filter (·.covers column) = [] := by
    refine List.filter_eq_nil_iff.mpr fun other mem covers => ?_
    have := (List.pairwise_cons.mp later).1 other mem
    have := Entry.covers_iff.mp covers
    omega
  rw [List.filter_append, List.filter_cons, if_pos covers, none_before, none_after]
  rfl

end RoffDocBook.Table

/-! How far the entries of a table go on below. The table is read downwards, each row extending entries above it; what
an entry is given in the end is told by the rows under it alone. -/
namespace RoffDocBook.Table

/-- An entry with as many more rows as its columns are given. -/
def Entry.extend (more : Nat → Nat) (entry : Entry) : Entry :=
  { entry with moreRows := entry.moreRows + ∑ column ∈ Finset.Icc entry.first entry.last, more column }

/-- What is left for the rows above some entries: nothing in the columns that the entries take. -/
def beyond (more : Nat → Nat) (entries : List Entry) (column : Nat) : Nat :=
  if entries.any (·.covers column) then 0 else more column

/-- The entries of some rows, the nearest first, where each column gives its rows to the nearest entry over it. -/
def extendAll (more : Nat → Nat) : List (List Entry) → List (List Entry)
  | [] => []
  | entries :: above => entries.map (Entry.extend more) :: extendAll (beyond more entries) above

theorem Entry.extend_eq_self {more : Nat → Nat} {entry : Entry}
    (h : ∀ column, entry.covers column = true → more column = 0) : entry.extend more = entry := by
  have zero : ∑ column ∈ Finset.Icc entry.first entry.last, more column = 0 :=
    Finset.sum_eq_zero fun column mem => h column (covers_iff.mpr (Finset.mem_Icc.mp mem))
  rw [extend, zero]
  rfl

theorem Entry.extend_singleton {column : Nat} {entry : Entry} (h : entry.covers column = true) :
    entry.extend (List.count · [column]) = { entry with moreRows := entry.moreRows + 1 } := by
  have one : ∑ other ∈ Finset.Icc entry.first entry.last, List.count other [column] = 1 := by
    rw [Finset.sum_eq_single_of_mem column (Finset.mem_Icc.mpr (covers_iff.mp h))]
    · exact List.count_singleton_self
    · intro other _ ne
      exact List.count_eq_zero.mpr fun mem => ne (List.mem_singleton.mp mem)
  rw [extend, one]

theorem Entry.extend_extend (first second : Nat → Nat) (entry : Entry) :
    (entry.extend first).extend second = entry.extend (first + second) := by
  simp only [extend, Pi.add_apply, Finset.sum_add_distrib, Nat.add_assoc]

theorem any_covers_map_extend (more : Nat → Nat) (entries : List Entry) (column : Nat) :
    (entries.map (Entry.extend more)).any (·.covers column) = entries.any (·.covers column) := by
  rw [List.any_map]
  rfl

theorem Ordered.map_extend {entries : List Entry} (ordered : Ordered entries) (more : Nat → Nat) :
    Ordered (entries.map (Entry.extend more)) :=
  List.pairwise_map.mpr ordered

theorem map_extend_eq_self {more : Nat → Nat} {entries : List Entry}
    (h : ∀ column, entries.any (·.covers column) = true → more column = 0) :
    entries.map (Entry.extend more) = entries := by
  refine (List.map_congr_left fun entry mem => ?_).trans entries.map_id
  exact Entry.extend_eq_self fun column covers => h column (List.any_eq_true.mpr ⟨entry, mem, covers⟩)

theorem extendAll_zero (rows : List (List Entry)) : extendAll (fun _ => 0) rows = rows := by
  induction rows with
  | nil => rfl
  | cons entries above ih =>
    have kept : entries.map (Entry.extend fun _ => 0) = entries := map_extend_eq_self fun _ _ => rfl
    have zero : beyond (fun _ => 0) entries = fun _ => 0 := funext fun column => ite_self 0
    rw [extendAll, kept, zero, ih]

theorem beyond_add (first second : Nat → Nat) (entries : List Entry) :
    beyond first entries + beyond second entries = beyond (first + second) entries := by
  funext column
  simp only [Pi.add_apply, beyond]
  split
  · rfl
  · rfl

/-- Rows given twice are rows given once, with both numbers together. -/
theorem extendAll_extendAll (first second : Nat → Nat) (rows : List (List Entry)) :
    extendAll second (extendAll first rows) = extendAll (first + second) rows := by
  induction rows generalizing first second with
  | nil => rfl
  | cons entries above ih =>
    have kept : beyond second (entries.map (Entry.extend first)) = beyond second entries :=
      funext fun column => by rw [beyond, any_covers_map_extend, beyond]
    have twice : Entry.extend second ∘ Entry.extend first = Entry.extend (first + second) :=
      funext (Entry.extend_extend first second)
    rw [extendAll, extendAll, List.map_map, twice, kept, ih, beyond_add, extendAll]

theorem ordered_extendAll {more : Nat → Nat} {rows : List (List Entry)} (ordered : ∀ entries ∈ rows, Ordered entries) :
    ∀ entries ∈ extendAll more rows, Ordered entries := by
  induction rows generalizing more with
  | nil => exact ordered
  | cons entries above ih =>
    obtain ⟨nearest, others⟩ := List.forall_mem_cons.mp ordered
    exact List.forall_mem_cons.mpr ⟨nearest.map_extend more, ih others⟩

theorem extendEntries_eq_map {entries : List Entry} (ordered : Ordered entries) (column : Nat) :
    extendEntries column entries = entries.map (Entry.extend (List.count · [column])) := by
  induction entries with
  | nil => rfl
  | cons entry rest ih =>
    obtain ⟨later, ordered⟩ := List.pairwise_cons.mp ordered
    rw [extendEntries, List.map_cons]
    split
    · rename_i covers
      have apart : ∀ other, rest.any (·.covers other) = true → List.count other [column] = 0 := by
        intro other taken
        obtain ⟨next, mem, covers'⟩ := List.any_eq_true.mp taken
        have := later next mem
        have := Entry.covers_iff.mp covers
        have := Entry.covers_iff.mp covers'
        exact List.count_eq_zero.mpr fun same => by have := List.mem_singleton.mp same; omega
      rw [Entry.extend_singleton covers, map_extend_eq_self apart]
    · rename_i apart
      have zero : ∀ other, entry.covers other = true → List.count other [column] = 0 :=
        fun other covers => List.count_eq_zero.mpr fun same => apart (List.mem_singleton.mp same ▸ covers)
      rw [Entry.extend_eq_self zero, ih ordered]

/-- A column extends the nearest entry over it. -/
theorem entries_extendAbove {above : List Row} (ordered : ∀ entries ∈ above.map Row.entries, Ordered entries)
    (column : Nat) :
    (extendAbove above column).map Row.entries = extendAll (List.count · [column]) (above.map Row.entries) := by
  induction above with
  | nil => rfl
  | cons row above ih =>
    obtain ⟨nearest, others⟩ := List.forall_mem_cons.mp ordered
    rw [extendAbove, List.map_cons, extendAll]
    -- Whatever column differs from the given one in whether the row takes it is another column, and gets nothing.
    have away : ∀ other, row.entries.any (·.covers other) ≠ row.entries.any (·.covers column) →
        List.count other [column] = 0 :=
      fun other differ => List.count_eq_zero.mpr fun same => differ (List.mem_singleton.mp same ▸ rfl)
    split
    · rename_i taken
      have zero : beyond (List.count · [column]) row.entries = fun _ => 0 := by
        funext other
        rw [beyond]
        split
        · rfl
        · rename_i free
          exact away other fun same => free (same ▸ taken)
      rw [List.map_cons, extendEntries_eq_map nearest, zero, extendAll_zero]
    · rename_i free
      have same : beyond (List.count · [column]) row.entries = (List.count · [column]) := by
        funext other
        rw [beyond]
        split
        · rename_i taken
          exact (away other fun same => free (same ▸ taken)).symm
        · rfl
      have kept : row.entries.map (Entry.extend (List.count · [column])) = row.entries :=
        map_extend_eq_self fun other taken => away other fun same => free (same ▸ taken)
      rw [List.map_cons, ih others, same, kept]

theorem entries_foldl_extendAbove {above : List Row} (ordered : ∀ entries ∈ above.map Row.entries, Ordered entries)
    (columns : List Nat) :
    (columns.foldl extendAbove above).map Row.entries = extendAll (List.count · columns) (above.map Row.entries) := by
  induction columns generalizing above with
  | nil => exact (extendAll_zero _).symm
  | cons column columns ih =>
    have step := entries_extendAbove ordered column
    have total : (List.count · [column]) + (List.count · columns) = (List.count · (column :: columns)) := by
      funext other
      have parts : List.count other ([column] ++ columns) = _ := List.count_append
      exact parts.symm
    rw [List.foldl_cons, ih (step ▸ ordered_extendAll ordered), step, extendAll_extendAll, total]

/-- The rows that a column gives to the nearest entry above some records. -/
def carried : List Record → Nat → Nat
  | [], _ => 0
  | record :: rest, column => record.row.verticalColumns.count column + beyond (carried rest) record.entries column

/-- The entries of some records, each extended by the records under it. -/
def spanned : List Record → List (List Entry)
  | [] => []
  | record :: rest => record.entries.map (Entry.extend (carried rest)) :: spanned rest

theorem length_spanned (records : List Record) : (spanned records).length = records.length := by
  induction records with
  | nil => rfl
  | cons record rest ih => exact congrArg (· + 1) ih

/-- A row is that of a record, whether or not a rule follows it. -/
def Record.Gives (record : Record) (row : Row) : Prop :=
  row.entries = record.entries ∧ row.format = record.format

theorem Record.Gives.verticalColumns {record : Record} {row : Row} (gives : record.Gives row) :
    row.verticalColumns = record.row.verticalColumns := by
  rw [Row.verticalColumns, gives.2]
  rfl

/-- What reading the rows downwards makes of them, with the rows above any others. -/
theorem entries_spanRows {records : List Record} {rows : List Row} (gives : List.Forall₂ Record.Gives records rows)
    {above : List Row} (ordered : ∀ entries ∈ above.map Row.entries, Ordered entries) :
    (spanRows above rows).map Row.entries =
      (extendAll (carried records) (above.map Row.entries)).reverse ++ spanned records := by
  induction gives generalizing above with
  | nil =>
    have zero : carried [] = fun _ => 0 := rfl
    rw [spanRows, List.map_reverse, zero, extendAll_zero, spanned, List.append_nil]
  | @cons record row records rows first _ ih =>
    have step := entries_foldl_extendAbove ordered row.verticalColumns
    have total : (List.count · row.verticalColumns) + beyond (carried records) row.entries =
        carried (record :: records) := by
      funext column
      rw [first.verticalColumns, first.1]
      rfl
    have ordered' : ∀ entries ∈ (row :: row.verticalColumns.foldl extendAbove above).map Row.entries, Ordered entries :=
      List.forall_mem_cons.mpr ⟨first.1 ▸ record.ordered_entries, step ▸ ordered_extendAll ordered⟩
    rw [spanRows, ih ordered', List.map_cons, extendAll, step, extendAll_extendAll, total, List.reverse_cons,
      List.append_assoc, first.1]
    rfl

end RoffDocBook.Table
