import RoffDocBook.Table.Grid
import RoffDocBook.Proofs.Table.Spans

/-! The records that the lines of a table stand for, told without the rows that are built from them. -/
namespace RoffDocBook.Table
open Text

/-- The records of some lines of data, where so many rows have been read in the formats in force. -/
def readRecords (tab : Char) (formats : List Format) (index : Nat) (lines : List Text) : List Record :=
  match lines with
  | [] => []
  | line :: rest =>
    match DataLine.ofText line with
    | .formats =>
      let given := (readFormats rest).1
      have := length_readFormats_le rest
      if given.isEmpty then readRecords tab formats index (readFormats rest).2
      else readRecords tab given 0 (readFormats rest).2
    | .data =>
      let format := (formats[index]? <|> formats.getLast?).getD []
      have := length_readFields_le tab line rest
      ⟨(readFields tab line rest).1, format⟩ :: readRecords tab formats (index + 1) (readFields tab line rest).2
    | .headEnd | .rule _ | .request => readRecords tab formats index rest
termination_by lines.length
decreasing_by all_goals (simp; try omega)

/-- The records of the lines between the requests of a table. -/
def Grid.records (lines : List Text) : List Record :=
  let lines := lines.filter fun line => !ControlLine.isComment line
  let (options, lines) :=
    match lines with
    | line :: rest => if endsWith (trimEnd line) ";" then (Options.ofLine line, rest) else ({}, lines)
    | [] => ({}, [])
  let (given, data) := readFormats lines
  readRecords options.tab (if given.isEmpty then [[.left]] else given) 0 data

namespace Reading

/-- The rows read so far are those of some records, the most recent first. -/
structure Holds (reading : Reading) (records : List Record) : Prop where
  gives : List.Forall₂ Record.Gives records reading.rows
  base : reading.base ≤ reading.rows.length

theorem Holds.addRule {reading : Reading} {records : List Record} (holds : reading.Holds records) (double : Bool) :
    (reading.addRule double).Holds records ∧ (reading.addRule double).formats = reading.formats ∧
      (reading.addRule double).rows.length = reading.rows.length ∧ (reading.addRule double).base = reading.base := by
  obtain ⟨gives, base⟩ := holds
  simp only [Reading.addRule]
  split
  · exact ⟨⟨gives, base⟩, rfl, rfl, rfl⟩
  · split
    · rename_i row before rows
      rw [rows] at gives base
      obtain ⟨record, records, first, others, rfl⟩ := List.forall₂_cons_right_iff.mp gives
      exact ⟨⟨.cons first others, base⟩, rfl, by rw [rows]; rfl, rfl⟩
    · exact ⟨⟨gives, base⟩, rfl, rfl, rfl⟩

/-- The rows of the lines of data, after those read before. -/
theorem Holds.readRows {reading : Reading} {records : List Record} (holds : reading.Holds records) (explicit : Bool)
    (tab : Char) (lines : List Text) :
    List.Forall₂ Record.Gives
      (records.reverse ++ readRecords tab reading.formats (reading.rows.length - reading.base) lines)
      (reading.readRows explicit tab lines).rows.reverse := by
  fun_induction Reading.readRows explicit tab reading lines generalizing records with
  | case1 reading =>
    rw [readRecords, List.append_nil]
    exact List.forall₂_reverse_iff.mpr holds.gives
  | case2 reading line rest kind header =>
    rename_i ih
    rw [readRecords, kind]
    exact ih ⟨holds.gives, holds.base⟩
  | case3 reading line rest kind formats next =>
    rename_i ih
    rw [readRecords, kind]
    dsimp only
    split
    · rename_i empty
      have unchanged : next = reading := if_pos empty
      rw [unchanged] at ih ⊢
      exact ih holds
    · rename_i given
      have changed : next = { reading with formats, base := reading.rows.length } := if_neg given
      rw [changed] at ih ⊢
      have := ih ⟨holds.gives, Nat.le_refl _⟩
      rwa [Nat.sub_self] at this
  | case4 reading line rest double kind ih =>
    obtain ⟨ruled, formats, count, base⟩ := holds.addRule double
    have := ih ruled
    rw [formats, count, base] at this
    rw [readRecords, kind]
    exact this
  | case5 reading line rest kind ih =>
    rw [readRecords, kind]
    exact ih holds
  | case6 reading line rest kind row =>
    rename_i ih
    have later : reading.rows.length + 1 - reading.base = reading.rows.length - reading.base + 1 :=
      Nat.succ_sub holds.base
    let record : Record := ⟨(readFields tab line rest).1, reading.nextFormat⟩
    have gives : record.Gives row := ⟨rfl, rfl⟩
    have := ih ⟨.cons gives holds.gives, Nat.le_succ_of_le holds.base⟩
    rw [List.length_cons, later, List.reverse_cons, List.append_assoc] at this
    rw [readRecords, kind]
    exact this

end Reading

/-- The rows of a table are those that its records give, with the entries going on below. -/
theorem Grid.entries_ofLines (lines : List Text) (explicit : Bool) :
    (Grid.ofLines lines explicit).rows.map Row.entries = spanned (Grid.records lines) := by
  have read (tab : Char) (formats : List Format) (data : List Text) :
      (spanRows [] (Reading.readRows explicit tab { formats } data).rows.reverse).map Row.entries =
        spanned (readRecords tab formats 0 data) := by
    have start : Reading.Holds { formats } [] := ⟨.nil, Nat.le_refl 0⟩
    have nothing : ∀ entries ∈ List.map Row.entries [], Ordered entries := List.forall_mem_nil _
    rw [entries_spanRows (start.readRows explicit tab data) nothing]
    rfl
  exact read ..

end RoffDocBook.Table

/-! The entries of a table tile it: every column of every row is under one entry, which is of an earlier row just where
the row leaves the column to the rows above. -/
namespace RoffDocBook.Table

/-- The rows of the entries over a column of a row, each from its own row to the last one that it goes on in. -/
def holders (rows : List (List Entry)) (row column : Nat) : List Nat :=
  (List.range (row + 1)).flatMap fun index =>
    ((rows.getD index []).filter fun entry => entry.covers column && row ≤ index + entry.moreRows).map fun _ => index

theorem holders_zero (entries : List Entry) (rows : List (List Entry)) (column : Nat) :
    holders (entries :: rows) 0 column = (entries.filter (·.covers column)).map fun _ => 0 := by
  simp [holders]

theorem holders_succ (entries : List Entry) (rows : List (List Entry)) (row column : Nat) :
    holders (entries :: rows) (row + 1) column =
      ((entries.filter fun entry => entry.covers column && row + 1 ≤ entry.moreRows).map fun _ => 0) ++
        (holders rows row column).map (· + 1) := by
  rw [holders, List.range_succ_eq_map, List.flatMap_cons, List.flatMap_map, holders, List.map_flatMap]
  simp [Nat.add_right_comm]

/-- The nearest of the rows from some row upwards that does not leave a column. -/
def owner : List Record → Nat → Nat → Option Nat
  | [], _, _ => none
  | record :: _, 0, column => if record.Leaves column then none else some 0
  | record :: rest, row + 1, column =>
    (owner rest row column).map (· + 1) <|> if record.Leaves column then none else some 0

theorem owner_zero_eq_none_iff {record : Record} {rest : List Record} {column : Nat} :
    owner (record :: rest) 0 column = none ↔ record.Leaves column := by
  simp [owner]

theorem owner_succ_eq_none_iff {record : Record} {rest : List Record} {row column : Nat} :
    owner (record :: rest) (row + 1) column = none ↔ owner rest row column = none ∧ record.Leaves column := by
  simp [owner]

theorem leaves_of_owner_eq_none {records : List Record} {row column : Nat} {record : Record}
    (found : records[row]? = some record) (h : owner records row column = none) : record.Leaves column := by
  induction records generalizing row with
  | nil => contradiction
  | cons first rest ih =>
    cases row with
    | zero =>
      obtain rfl : first = record := Option.some.inj found
      exact owner_zero_eq_none_iff.mp h
    | succ row => exact ih found (owner_succ_eq_none_iff.mp h).1

/-- The row that holds a column is an earlier one just where the row leaves the column. -/
theorem owner_lt_iff {records : List Record} {row column index : Nat} {record : Record}
    (found : records[row]? = some record) (held : owner records row column = some index) :
    index < row ↔ record.Leaves column := by
  induction records generalizing row index with
  | nil => contradiction
  | cons first rest ih =>
    cases row with
    | zero =>
      obtain rfl : first = record := Option.some.inj found
      have kept : ¬ first.Leaves column := fun left =>
        Option.some_ne_none index (held ▸ owner_zero_eq_none_iff.mpr left)
      obtain rfl : 0 = index := by simpa [owner, kept] using held
      exact iff_of_false (Nat.lt_irrefl 0) kept
    | succ row =>
      cases later : owner rest row column with
      | some index' =>
        obtain rfl : index' + 1 = index := by simpa [owner, later] using held
        rw [← ih found later]
        exact Nat.succ_lt_succ_iff
      | none =>
        have kept : ¬ first.Leaves column := fun left =>
          Option.some_ne_none index (held ▸ owner_succ_eq_none_iff.mpr ⟨later, left⟩)
        obtain rfl : 0 = index := by simpa [owner, later, kept] using held
        have found : rest[row]? = some record := found
        exact iff_of_true (Nat.succ_pos row) (leaves_of_owner_eq_none found later)

/-- Every column that the lower row leaves is one of the upper row, where only an entry of that one column takes it. -/
def Fits (upper lower : Record) : Prop :=
  ∀ column < lower.width, lower.Leaves column →
    column < upper.width ∧ ∀ entry ∈ upper.entries, entry.covers column = true → entry.first = entry.last

/-- The vertical spans of some records can be told from the keys, a row after the other. -/
structure Fitted (records : List Record) : Prop where
  regular : ∀ record ∈ records, record.Regular
  fits : records.IsChain Fits

instance (upper lower : Record) : Decidable (Fits upper lower) :=
  inferInstanceAs (Decidable (∀ column < lower.width, _ → _))

instance (records : List Record) : Decidable (Fitted records) :=
  decidable_of_iff (_ ∧ _) ⟨fun h => ⟨h.1, h.2⟩, fun h => ⟨h.regular, h.fits⟩⟩

theorem Fitted.tail {record : Record} {rest : List Record} (fitted : Fitted (record :: rest)) : Fitted rest :=
  ⟨(List.forall_mem_cons.mp fitted.regular).2, fitted.fits.tail⟩

namespace Record

theorem mem_verticalColumns_iff {record : Record} {column : Nat} :
    column ∈ record.row.verticalColumns ↔ record.format[column]? = some .vertical := by
  rw [Row.verticalColumns, List.mem_filter, List.mem_range, decide_eq_true_iff]
  change column < max 1 record.format.length ∧ record.format.keyAt column = .vertical ↔ _
  constructor
  · rintro ⟨bound, key⟩
    have full : record.format ≠ [] := fun empty => by simp [empty, Format.keyAt] at key
    have within : column < record.format.length := by
      have := List.length_pos_iff.mpr full
      omega
    have given := List.getElem?_eq_getElem within
    rw [given, ← Format.keyAt_of_getElem? given, key]
  · intro key
    have within := (List.getElem?_eq_some_iff.mp key).1
    exact ⟨by omega, Format.keyAt_of_getElem? key⟩

theorem count_verticalColumns_le_one (record : Record) (column : Nat) : record.row.verticalColumns.count column ≤ 1 :=
  List.nodup_iff_count_le_one.mp (List.nodup_range.filter _) column

theorem leaves_of_mem {record : Record} {column : Nat} (h : column ∈ record.row.verticalColumns) :
    column < record.width ∧ record.Leaves column := by
  have key := mem_verticalColumns_iff.mp h
  have within := (List.getElem?_eq_some_iff.mp key).1
  exact ⟨Nat.lt_of_lt_of_le within (Nat.le_max_right _ _), .inl (Format.keyAt_of_getElem? key)⟩

theorem Regular.count_verticalColumns {record : Record} (regular : record.Regular) {column : Nat}
    (within : column < record.width) (left : record.Leaves column) : record.row.verticalColumns.count column = 1 := by
  have mem := mem_verticalColumns_iff.mpr (regular.keyed column within left)
  have := List.count_pos_iff.mpr mem
  have := record.count_verticalColumns_le_one column
  omega

end Record

/-- Where anything is carried upwards, the first of the records leaves the column. -/
theorem Fitted.leaves_of_carried {record : Record} {rest : List Record} (fitted : Fitted (record :: rest))
    {column : Nat} (h : 0 < carried (record :: rest) column) : column < record.width ∧ record.Leaves column := by
  induction rest generalizing record with
  | nil =>
    refine Record.leaves_of_mem (List.count_pos_iff.mp ?_)
    simpa [carried, beyond] using h
  | cons next rest ih =>
    by_cases mem : column ∈ record.row.verticalColumns
    · exact Record.leaves_of_mem mem
    · rw [carried, List.count_eq_zero.mpr mem, Nat.zero_add, beyond] at h
      split at h
      · contradiction
      · rename_i free
        obtain ⟨within, left⟩ := ih fitted.tail h
        have upper := ((List.isChain_cons_cons.mp fitted.fits).1 column within left).1
        refine ⟨upper, ?_⟩
        by_contra kept
        exact free (((List.forall_mem_cons.mp fitted.regular).1.any_covers_iff upper).mpr kept)

/-- What is carried to a record comes from the record under it alone, which fits. -/
theorem Fitted.fits_of_carried {record : Record} {rest : List Record} (fitted : Fitted (record :: rest)) {column : Nat}
    (h : 0 < carried rest column) :
    column < record.width ∧ ∀ entry ∈ record.entries, entry.covers column = true → entry.first = entry.last := by
  cases rest with
  | nil => contradiction
  | cons next rest =>
    obtain ⟨within, left⟩ := fitted.tail.leaves_of_carried h
    exact (List.isChain_cons_cons.mp fitted.fits).1 column within left

/-- An entry goes on in as many rows as are carried to any of its columns. -/
theorem Fitted.moreRows_extend {record : Record} {rest : List Record} (fitted : Fitted (record :: rest)) {entry : Entry}
    (mem : entry ∈ record.entries) {column : Nat} (covers : entry.covers column = true) :
    (entry.extend (carried rest)).moreRows = carried rest column := by
  have bounds := Entry.covers_iff.mp covers
  have total : ∑ other ∈ Finset.Icc entry.first entry.last, carried rest other = carried rest column := by
    -- Were anything carried to another column of the entry, that column would be its only one.
    refine Finset.sum_eq_single_of_mem column (Finset.mem_Icc.mpr bounds) fun other within ne => ?_
    by_contra given
    have within := Finset.mem_Icc.mp within
    have single := (fitted.fits_of_carried (Nat.pos_of_ne_zero given)).2 entry mem (Entry.covers_iff.mpr within)
    omega
  rw [Entry.extend, Record.moreRows_of_mem mem, Nat.zero_add, total]

/-- A column that a record leaves gives one row more than the records under it do. -/
theorem Record.Regular.carried_cons {record : Record} (regular : record.Regular) (rest : List Record) {column : Nat}
    (within : column < record.width) (left : record.Leaves column) :
    carried (record :: rest) column = 1 + carried rest column := by
  have free : ¬ record.entries.any (·.covers column) = true := fun taken =>
    (regular.any_covers_iff within).mp taken left
  rw [carried, regular.count_verticalColumns within left, beyond, if_neg free]

/-- Rows are carried all the way up from a row where no row from it upwards keeps the column. -/
theorem Fitted.lt_carried_iff {records : List Record} (fitted : Fitted records) {row column : Nat} {record : Record}
    (found : records[row]? = some record) (within : column < record.width) :
    row < carried records column ↔ owner records row column = none := by
  induction records generalizing row with
  | nil => contradiction
  | cons first rest ih =>
    have regular := (List.forall_mem_cons.mp fitted.regular).1
    cases row with
    | zero =>
      obtain rfl : first = record := Option.some.inj found
      rw [owner_zero_eq_none_iff]
      constructor
      · exact fun h => (fitted.leaves_of_carried h).2
      · intro left
        rw [regular.carried_cons rest within left]
        omega
    | succ row =>
      rw [owner_succ_eq_none_iff, ← ih fitted.tail found]
      -- Past the first record one more row is carried, and only in a column that it leaves.
      constructor
      · intro h
        obtain ⟨inside, left⟩ := fitted.leaves_of_carried (Nat.zero_lt_of_lt h)
        rw [regular.carried_cons rest inside left] at h
        exact ⟨by omega, left⟩
      · rintro ⟨h, left⟩
        have inside := (fitted.fits_of_carried (Nat.zero_lt_of_lt h)).1
        rw [regular.carried_cons rest inside left]
        omega

theorem Fitted.carried_le_length {records : List Record} (fitted : Fitted records) (column : Nat) :
    carried records column ≤ records.length := by
  induction records with
  | nil => exact Nat.le_refl 0
  | cons record rest ih =>
    have one := record.count_verticalColumns_le_one column
    have others := ih fitted.tail
    rw [carried, beyond, List.length_cons]
    split
    · omega
    · omega

/-- A row holds the columns that it does not leave. -/
theorem Record.Regular.map_filter_covers {record : Record} (regular : record.Regular) (more : Nat → Nat) {column : Nat}
    (within : column < record.width) :
    (((record.entries.map (Entry.extend more)).filter (·.covers column)).map fun _ => 0) =
      if record.Leaves column then [] else [0] := by
  have taken := any_covers_map_extend more record.entries column ▸ regular.any_covers_iff within
  split
  · rename_i left
    refine List.map_eq_nil_iff.mpr (List.filter_eq_nil_iff.mpr fun entry mem covers => ?_)
    exact taken.mp (List.any_eq_true.mpr ⟨entry, mem, covers⟩) left
  · rename_i kept
    obtain ⟨entry, mem, covers⟩ := List.any_eq_true.mp (taken.mpr kept)
    have ordered : Ordered (record.entries.map (Entry.extend more)) := Ordered.map_extend record.ordered_entries more
    rw [ordered.filter_covers mem covers]
    rfl

/-- The entries of the first record are over a column of a row just where that row is carried up to them. -/
theorem Fitted.holders_spanned_succ {record : Record} {rest : List Record} (fitted : Fitted (record :: rest))
    (row column : Nat) :
    holders (spanned (record :: rest)) (row + 1) column =
      (if row < carried rest column then
        ((record.entries.map (Entry.extend (carried rest))).filter (·.covers column)).map fun _ => 0
      else []) ++ (holders (spanned rest) row column).map (· + 1) := by
  have reaches : ∀ entry ∈ record.entries.map (Entry.extend (carried rest)),
      (entry.covers column && row + 1 ≤ entry.moreRows) = (entry.covers column && row < carried rest column) := by
    intro extended mem
    obtain ⟨entry, given, rfl⟩ := List.mem_map.mp mem
    by_cases covers : entry.covers column = true
    · rw [fitted.moreRows_extend given covers]
      rfl
    · rw [(Bool.eq_false_iff.mpr covers : (entry.extend (carried rest)).covers column = false), Bool.false_and,
        Bool.false_and]
  rw [spanned, holders_succ, List.filter_congr reaches]
  split
  · rename_i carries
    simp only [carries, decide_true, Bool.and_true]
  · rename_i carries
    simp only [carries, decide_false, Bool.and_false, List.filter_false, List.map_nil]

/-- The entry over a column of a row is of the nearest row that does not leave the column. -/
theorem Fitted.holders_spanned {records : List Record} (fitted : Fitted records) {row column : Nat} {record : Record}
    (found : records[row]? = some record) (within : column < record.width) :
    holders (spanned records) row column = (owner records row column).toList := by
  induction records generalizing row with
  | nil => contradiction
  | cons first rest ih =>
    have regular := (List.forall_mem_cons.mp fitted.regular).1
    cases row with
    | zero =>
      obtain rfl : first = record := Option.some.inj found
      rw [spanned, holders_zero, regular.map_filter_covers _ within, owner]
      split
      · rfl
      · rfl
    | succ row =>
      have carries := fitted.tail.lt_carried_iff found within
      rw [fitted.holders_spanned_succ, ih fitted.tail found, owner]
      cases held : owner rest row column with
      | some index =>
        have kept : ¬ row < carried rest column := fun h => Option.some_ne_none index (held ▸ carries.mp h)
        rw [if_neg kept]
        rfl
      | none =>
        have carries := carries.mpr held
        have inside := (fitted.fits_of_carried (Nat.zero_lt_of_lt carries)).1
        rw [if_pos carries, regular.map_filter_covers _ inside]
        split
        · rfl
        · rfl

/-- No row is carried above the first record, which leaves no column. -/
theorem Fitted.owner_ne_none {records : List Record} (fitted : Fitted records)
    (top : ∀ record ∈ records.head?, ∀ column < record.width, ¬ record.Leaves column) {row column : Nat}
    {record : Record} (found : records[row]? = some record) (within : column < record.width) :
    owner records row column ≠ none := by
  intro free
  have carries := (fitted.lt_carried_iff found within).mpr free
  cases records with
  | nil => contradiction
  | cons first rest =>
    obtain ⟨inside, left⟩ := fitted.leaves_of_carried (Nat.zero_lt_of_lt carries)
    exact top first rfl column inside left

/-- No entry goes on past the last record. -/
theorem Fitted.moreRows_spanned {records : List Record} (fitted : Fitted records) {row : Nat} {entries : List Entry}
    (found : (spanned records)[row]? = some entries) {entry : Entry} (mem : entry ∈ entries) :
    row + entry.moreRows < records.length := by
  induction records generalizing row with
  | nil => contradiction
  | cons first rest ih =>
    cases row with
    | zero =>
      obtain rfl : first.entries.map (Entry.extend (carried rest)) = entries := Option.some.inj found
      obtain ⟨entry, given, rfl⟩ := List.mem_map.mp mem
      have covers : entry.covers entry.first = true :=
        Entry.covers_iff.mpr ⟨Nat.le_refl _, Record.first_le_last given⟩
      rw [fitted.moreRows_extend given covers, Nat.zero_add]
      exact Nat.lt_succ_of_le (fitted.tail.carried_le_length _)
    | succ row =>
      have := ih fitted.tail found
      rw [List.length_cons]
      omega

/-- The entries of a table tile its rows. -/
structure Tiled (records : List Record) (rows : List (List Entry)) : Prop where
  length_eq : rows.length = records.length
  /-- One entry is over each column of a row, of an earlier row just where the row leaves the column. -/
  held : ∀ (row : Nat) (record : Record), records[row]? = some record → ∀ column < record.width,
    ∃ holder, holders rows row column = [holder] ∧ (holder < row ↔ record.Leaves column)
  within : ∀ (row : Nat) (entries : List Entry), rows[row]? = some entries → ∀ entry ∈ entries,
    row + entry.moreRows < rows.length

/-- A table whose first row leaves no column, and whose vertical spans can be told from the keys, is tiled. -/
theorem Grid.tiled_ofLines {lines : List Text} (explicit : Bool)
    (top : ∀ record ∈ (Grid.records lines).head?, ∀ column < record.width, ¬ record.Leaves column)
    (fitted : Fitted (Grid.records lines)) :
    Tiled (Grid.records lines) ((Grid.ofLines lines explicit).rows.map Row.entries) := by
  rw [Grid.entries_ofLines]
  have length_eq := length_spanned (Grid.records lines)
  refine ⟨length_eq, fun row record found column within => ?_, fun row entries found entry mem => ?_⟩
  · obtain ⟨holder, held⟩ := Option.ne_none_iff_exists'.mp (fitted.owner_ne_none top found within)
    refine ⟨holder, ?_, owner_lt_iff found held⟩
    rw [fitted.holders_spanned found within, held]
    rfl
  · rw [length_eq]
    exact fitted.moreRows_spanned found mem

/-- A field alone does not make the entry above go on, so that there is none over its column. -/
example : holders (spanned [⟨["a".toList, "b".toList], [.left, .left]⟩,
    ⟨["\\^".toList, "c".toList], [.left, .left]⟩]) 1 0 = [] := by
  decide

private def spanning : List Text :=
  ["c s l".toList, "l l ^".toList, "^ l l.".toList, "T\t\tx".toList, "a\tb".toList, "\tc\td".toList]

/-- A table with one entry over two columns, and two entries that go on in the next row. -/
theorem Grid.tiled_ofLines_spanning :
    (∀ record ∈ (Grid.records spanning).head?, ∀ column < record.width, ¬ record.Leaves column) ∧
      Fitted (Grid.records spanning) ∧
      Tiled (Grid.records spanning) ((Grid.ofLines spanning false).rows.map Row.entries) ∧
      holders ((Grid.ofLines spanning false).rows.map Row.entries) 0 1 = [0] ∧
      holders ((Grid.ofLines spanning false).rows.map Row.entries) 1 2 = [0] ∧
      holders ((Grid.ofLines spanning false).rows.map Row.entries) 2 0 = [1] := by
  have top : ∀ record ∈ (Grid.records spanning).head?, ∀ column < record.width, ¬ record.Leaves column := by
    decide +kernel
  have fitted : Fitted (Grid.records spanning) := by decide +kernel
  have tiled := Grid.tiled_ofLines false top fitted
  rw [Grid.entries_ofLines] at tiled ⊢
  exact ⟨top, fitted, tiled, by decide +kernel, by decide +kernel, by decide +kernel⟩

end RoffDocBook.Table
