import RoffDocBook.Document.Name
import RoffDocBook.Proofs.Inline.Sizes
import RoffDocBook.Proofs.Markup.Nesting
import RoffDocBook.Proofs.Text.Words

/-! The line of a manual page that gives its names and their purpose. It is taken apart at the first separator, which
lies between the two if no name looks like one. -/
namespace RoffDocBook.NameLine
open Text Markup

/-- A name of which nothing is taken for a separator or for markup: it has no white space and no comma, no character
that begins an escape, a tag or a reference, and no hyphen at its start. -/
structure IsPlain (name : Text) : Prop where
  nonempty : name ≠ []
  hyphen : name.head? ≠ some '-'
  unbroken : ∀ c ∈ name, isBlank c = false
  unmarked : ∀ c ∈ [',', '\\', '<', '&'], c ∉ name

theorem isPlain_iff {name : Text} : IsPlain name ↔
    name ≠ [] ∧ name.head? ≠ some '-' ∧ name.all (isBlank · = false) = true ∧
      [',', '\\', '<', '&'].all (· ∉ name) = true := by
  rw [List.all_eq_true, List.all_eq_true]
  simp only [decide_eq_true_eq]
  exact ⟨fun h => ⟨h.nonempty, h.hyphen, h.unbroken, h.unmarked⟩, fun h => ⟨h.1, h.2.1, h.2.2.1, h.2.2.2⟩⟩

instance (name : Text) : Decidable (IsPlain name) :=
  decidable_of_iff' _ isPlain_iff

/-- The separators in the form in which they stand between the names and the purpose. -/
def written : List Text :=
  [" \\- ", " \\(em ", " \\[em] ", " \\(en ", " - "]

/-- A text without white space at its ends. -/
def IsTrimmed (t : Text) : Prop :=
  (∀ c ∈ t.head?, isBlank c = false) ∧ ∀ c ∈ t.getLast?, isBlank c = false

/-! The search for the first separator. -/

/-- No separator begins with a character other than these, but for a hyphen after a blank. -/
theorem splitFrom?_cons {afterBlank : Bool} {c : Char} (plain : c ≠ '\\' ∧ c ≠ '&')
    (hyphen : afterBlank = true → c ≠ '-') (t : Text) :
    splitFrom? afterBlank (c :: t) = (splitFrom? (isBlank c) t).map fun found => (c :: found.1, found.2) := by
  have unfound : (separators.findSome? fun separator => (dropStart? separator (c :: t)).filter beginsBlank) = none := by
    simp [separators, dropStart?, plain.1.symm, plain.2.symm]
  have other : (afterBlank && c == '-' && beginsBlank t) = false := by
    cases afterBlank with
    | false => rfl
    | true => simp [hyphen rfl]
  rw [splitFrom?, unfound]
  dsimp only
  rw [other, if_neg Bool.false_ne_true]

section
variable {rest before after : Text} (found : splitFrom? false rest = some (before, after))
include found

theorem splitFrom?_unbroken {t : Text} (unbroken : ∀ c ∈ t, isBlank c = false) (plain : '\\' ∉ t ∧ '&' ∉ t) :
    splitFrom? false (t ++ rest) = some (t ++ before, after) := by
  induction t with
  | nil => exact found
  | cons c t ih =>
    obtain ⟨first, others⟩ := List.forall_mem_cons.mp unbroken
    rw [List.mem_cons, not_or, List.mem_cons, not_or] at plain
    have next : c ≠ '\\' ∧ c ≠ '&' := ⟨Ne.symm plain.1.1, Ne.symm plain.2.1⟩
    rw [List.cons_append, splitFrom?_cons next (fun blank => absurd blank Bool.false_ne_true), first,
      ih others ⟨plain.1.2, plain.2.2⟩]
    rfl

/-- The hyphens of a name are no separators, nor is one at the end of the name before it. -/
theorem IsPlain.splitFrom?_append {name : Text} (h : IsPlain name) (afterBlank : Bool) :
    splitFrom? afterBlank (name ++ rest) = some (name ++ before, after) := by
  have escape := h.unmarked '\\' (by decide)
  have reference := h.unmarked '&' (by decide)
  obtain ⟨c, cs, rfl⟩ := List.exists_cons_of_ne_nil h.nonempty
  obtain ⟨first, others⟩ := List.forall_mem_cons.mp h.unbroken
  rw [List.mem_cons, not_or] at escape reference
  have hyphen : afterBlank = true → c ≠ '-' := fun _ same => h.hyphen (congrArg some same)
  rw [List.cons_append, splitFrom?_cons ⟨Ne.symm escape.1, Ne.symm reference.1⟩ hyphen, first,
    splitFrom?_unbroken found others ⟨escape.2, reference.2⟩]
  rfl

/-- Between two names there is a comma, so that no hyphen after its blank can be taken for a separator. -/
theorem splitFrom?_join (name : Text) (names : List Text) (plain : ∀ each ∈ name :: names, IsPlain each)
    (afterBlank : Bool) :
    splitFrom? afterBlank (join ", " (name :: names) ++ rest) = some (join ", " (name :: names) ++ before, after) := by
  induction names generalizing name afterBlank with
  | nil =>
    rw [join_singleton]
    exact (plain name List.mem_cons_self).splitFrom?_append found afterBlank
  | cons next names ih =>
    obtain ⟨first, others⟩ := List.forall_mem_cons.mp plain
    have inner := ih next others true
    have comma : splitFrom? false (", " ++ (join ", " (next :: names) ++ rest)) =
        some (", " ++ (join ", " (next :: names) ++ before), after) := by
      have blank : splitFrom? false (' ' :: (join ", " (next :: names) ++ rest)) =
          some (' ' :: (join ", " (next :: names) ++ before), after) := by
        rw [splitFrom?_cons (by decide) (by decide)]
        exact congrArg (Option.map _) inner
      refine (splitFrom?_cons (by decide) (by decide) _).trans ?_
      exact congrArg (Option.map _) blank
    rw [join_cons_cons, List.append_assoc, List.append_assoc, List.append_assoc, List.append_assoc]
    exact first.splitFrom?_append comma afterBlank

end

/-- A separator is found where it is written, whatever the purpose after it looks like. -/
theorem splitFrom?_written {separator : Text} (h : separator ∈ written) (purpose : Text) :
    splitFrom? false (separator ++ purpose) = some ([' '], ' ' :: purpose) := by
  have blank (t : Text) : splitFrom? false (' ' :: t) =
      (splitFrom? true t).map fun found => (' ' :: found.1, found.2) :=
    splitFrom?_cons (by decide) (by decide) t
  simp only [written, List.mem_cons, List.not_mem_nil, or_false] at h
  rcases h with rfl | rfl | rfl | rfl | rfl
  all_goals exact (blank _).trans rfl

/-! What is read of the two parts. -/

theorem blank_space : ∀ c ∈ [' '], isBlank c = true :=
  List.forall_mem_singleton.mpr rfl

theorem IsPlain.isTrimmed {name : Text} (h : IsPlain name) : IsTrimmed name :=
  ⟨fun c first => h.unbroken c (List.mem_of_mem_head? first), fun c last => h.unbroken c (List.mem_of_getLast? last)⟩

theorem trim_blank_append {front t : Text} (blank : ∀ c ∈ front, isBlank c = true) (h : IsTrimmed t) :
    trim (front ++ t) = t := by
  have trimmed := trim_append blank (List.forall_mem_nil (isBlank · = true)) h.1 h.2
  rwa [List.append_nil] at trimmed

/-- A name is read as it is, with a blank before it or without. -/
theorem IsPlain.read {name : Text} (h : IsPlain name) {front : Text} (blank : ∀ c ∈ front, isBlank c = true) :
    trim (stripTags (Inline.plainText (front ++ name))) = name := by
  have free {c : Char} (marked : isBlank c = false) (unmarked : c ∉ name) : c ∉ front ++ name := by
    rw [List.mem_append, not_or]
    refine ⟨fun mem => ?_, unmarked⟩
    rw [blank c mem] at marked
    cases marked
  have text := Inline.plainText_append (free (by decide) (h.unmarked '\\' (by decide))) []
  have outside := stripTags_append (free (by decide) (h.unmarked '<' (by decide))) []
  rw [Inline.plainText, List.append_nil] at text
  have nothing : stripTags [] = [] := rfl
  rw [nothing, List.append_nil] at outside
  rw [text, outside, trim_blank_append blank h.isTrimmed]

/-- The fields between the commas of a list of names. -/
theorem splitOn_join (name : Text) (names : List Text) (plain : ∀ each ∈ name :: names, ',' ∉ each) (front : Text)
    (free : ',' ∉ front) :
    splitOn ',' (front ++ join ", " (name :: names)) = (front ++ name) :: names.map ([' '] ++ ·) := by
  induction names generalizing name front with
  | nil =>
    rw [join_singleton]
    apply splitOn_of_notMem
    rw [List.mem_append, not_or]
    exact ⟨free, plain name List.mem_cons_self⟩
  | cons next names ih =>
    obtain ⟨first, others⟩ := List.forall_mem_cons.mp plain
    have fields := ih next others [' '] (by decide)
    have text : front ++ join ", " (name :: next :: names) =
        (front ++ name) ++ ',' :: ([' '] ++ join ", " (next :: names)) := by
      rw [join_cons_cons]
      simp
    rw [text, splitOn_append_cons, fields, List.map_cons]
    rw [List.mem_append, not_or]
    exact ⟨free, first⟩

/-- The last name ends the list of names. -/
theorem exists_join_eq_concat (name : Text) (names : List Text) (plain : ∀ each ∈ name :: names, IsPlain each) :
    ∃ before last, join ", " (name :: names) = before ++ [last] ∧ isBlank last = false := by
  induction names generalizing name with
  | nil =>
    have h := plain name List.mem_cons_self
    obtain ⟨before, last, same⟩ : ∃ before last, name = before ++ [last] :=
      ⟨_, _, (List.dropLast_append_getLast h.nonempty).symm⟩
    refine ⟨before, last, ?_, h.unbroken last (by rw [same]; simp)⟩
    rw [← same, join_singleton]
  | cons next names ih =>
    obtain ⟨before, last, same, ends⟩ := ih next (List.forall_mem_cons.mp plain).2
    refine ⟨name ++ ", " ++ before, last, ?_, ends⟩
    rw [join_cons_cons, same, ← List.append_assoc]

/-- The names are read from what stands before the separator. -/
theorem names_read (name : Text) (names : List Text) (plain : ∀ each ∈ name :: names, IsPlain each) :
    (splitOn ',' (trimEnd (join ", " (name :: names) ++ [' ']))).map
        (fun each => trim (stripTags (Inline.plainText each))) = name :: names := by
  obtain ⟨before, last, same, ends⟩ := exists_join_eq_concat name names plain
  have text : trimEnd (join ", " (name :: names) ++ [' ']) = join ", " (name :: names) := by
    rw [trimEnd_append blank_space, same, trimEnd_concat ends]
  have commas : ∀ each ∈ name :: names, ',' ∉ each := fun each mem => (plain each mem).unmarked ',' (by decide)
  have fields := splitOn_join name names commas [] List.not_mem_nil
  have others : names.map (fun each => trim (stripTags (Inline.plainText ([' '] ++ each)))) = names.map id :=
    List.map_congr_left fun each mem => (plain each (List.mem_cons_of_mem _ mem)).read blank_space
  have first := (plain name List.mem_cons_self).read (List.forall_mem_nil (isBlank · = true))
  rw [List.nil_append] at fields
  rw [text, fields, List.map_cons, List.map_map, first]
  exact congrArg (name :: ·) (others.trans (List.map_id names))

/-- A line with names, a separator and a purpose is read as these names and this purpose. -/
theorem parse?_written {names : List Text} (listed : names ≠ []) (plain : ∀ name ∈ names, IsPlain name) {purpose : Text}
    (trimmed : IsTrimmed purpose) {separator : Text} (h : separator ∈ written) :
    parse? (join ", " names ++ separator ++ purpose) = some (names, purpose) := by
  obtain ⟨name, names, rfl⟩ := List.exists_cons_of_ne_nil listed
  have found := splitFrom?_join (splitFrom?_written h purpose) name names plain false
  have kept : (name :: names).filter (fun each => !each.isEmpty) = name :: names :=
    List.filter_eq_self.mpr fun each mem => by simpa using (plain each mem).nonempty
  rw [List.append_assoc, parse?, found]
  dsimp only [Option.bind_eq_bind, Option.bind_some]
  rw [names_read name names plain, kept]
  exact congrArg (fun purpose => some (name :: names, purpose)) (trim_blank_append blank_space trimmed)

/-- The hyphens of names, and the separators and commas in a purpose, are left alone. -/
theorem parse?_written_hyphens :
    (∀ name ∈ ["git-log".toList, "ls".toList, "x-".toList], IsPlain name) ∧
      parse? "git-log, ls, x- - the \\- of a, b - c" =
        some (["git-log".toList, "ls".toList, "x-".toList], "the \\- of a, b - c".toList) := by
  have plain : ∀ name ∈ ["git-log".toList, "ls".toList, "x-".toList], IsPlain name := by decide
  have trimmed : IsTrimmed "the \\- of a, b - c" := by
    refine ⟨fun c first => ?_, fun c last => ?_⟩
    · obtain rfl := Option.some.inj first
      rfl
    · obtain rfl := Option.some.inj last
      rfl
  have separator : " - ".toList ∈ written := by decide
  exact ⟨plain, parse?_written (by decide) plain trimmed separator⟩

end RoffDocBook.NameLine
