import RoffDocBook.Proofs.Text.Search
import RoffDocBook.Text.Basic

/-! The words of a text hold all of its characters but the blanks, in order, and nothing else. -/
namespace RoffDocBook.Text

theorem splitBy_ne_nil (p : Char → Bool) (t : Text) : splitBy p t ≠ [] := by
  cases t with
  | nil => simp [splitBy]
  | cons c cs =>
    rw [splitBy]
    split
    · simp
    · split <;> simp

theorem splitBy_cons (p : Char → Bool) (c : Char) (cs : Text) :
    ∃ field fields, splitBy p cs = field :: fields ∧
      splitBy p (c :: cs) = if p c then [] :: field :: fields else (c :: field) :: fields := by
  obtain ⟨field, fields, h⟩ := List.exists_cons_of_ne_nil (splitBy_ne_nil p cs)
  exact ⟨field, fields, h, by rw [splitBy, h]⟩

theorem flatten_splitBy (p : Char → Bool) (t : Text) : (splitBy p t).flatten = t.filter (!p ·) := by
  induction t with
  | nil => rfl
  | cons c cs ih =>
    obtain ⟨field, fields, h, hc⟩ := splitBy_cons p c cs
    rw [h] at ih
    rw [hc]
    cases hp : p c <;> simpa [hp] using ih

theorem splitBy_free {p : Char → Bool} {t field : Text} (h : field ∈ splitBy p t) : ∀ c ∈ field, p c = false := by
  induction t generalizing field with
  | nil => simp_all [splitBy]
  | cons c cs ih =>
    obtain ⟨first, fields, hcs, hc⟩ := splitBy_cons p c cs
    rw [hcs] at ih
    rw [hc] at h
    cases hp : p c <;> simp only [hp, if_true, Bool.false_eq_true, if_false, List.mem_cons] at h
    · rcases h with rfl | h
      · intro d hd
        rcases List.mem_cons.mp hd with rfl | hd
        · exact hp
        · exact ih (by simp) d hd
      · exact ih (by simp [h])
    · rcases h with rfl | h
      · simp
      · exact ih (by simpa using h)

/-- A text with no character of the class belongs to the field after it. -/
theorem splitBy_append_of_free {p : Char → Bool} {t u field : Text} {fields : List Text} (h : ∀ c ∈ t, p c = false)
    (hu : splitBy p u = field :: fields) : splitBy p (t ++ u) = (t ++ field) :: fields := by
  induction t with
  | nil => exact hu
  | cons c cs ih =>
    obtain ⟨hc, hcs⟩ := List.forall_mem_cons.mp h
    rw [List.cons_append, splitBy, ih hcs, hc]
    rfl

/-- A text with no character of the class is one field. -/
theorem splitBy_of_free {p : Char → Bool} {t : Text} (h : ∀ c ∈ t, p c = false) : splitBy p t = [t] := by
  simpa using splitBy_append_of_free h (u := []) rfl

theorem flatten_words (t : Text) : (words t).flatten = t.filter (!isBlank ·) := by
  rw [← flatten_splitBy isBlank t, words, fieldsBy]
  generalize splitBy isBlank t = fields
  induction fields with
  | nil => rfl
  | cons field fields ih => cases field <;> simpa using ih

theorem word_ne_nil {t word : Text} (h : word ∈ words t) : word ≠ [] := by
  have := (List.mem_filter.mp h).2
  rintro rfl
  simp at this

theorem word_not_blank {t word : Text} (h : word ∈ words t) : ∀ c ∈ word, isBlank c = false :=
  splitBy_free (List.mem_filter.mp h).1

private theorem length_le_flatten {parts : List Text} (h : ∀ part ∈ parts, part ≠ []) :
    parts.length ≤ parts.flatten.length := by
  induction parts with
  | nil => simp
  | cons part parts ih =>
    have hp := List.length_pos_iff.mpr (h part (by simp))
    have hr := ih fun q hq => h q (by simp [hq])
    simp only [List.length_cons, List.flatten_cons, List.length_append]
    omega

/-- A word takes at least one character that is no blank. -/
theorem length_words_le (t : Text) : (words t).length ≤ (t.filter (!isBlank ·)).length := by
  rw [← flatten_words]
  exact length_le_flatten fun _ => word_ne_nil

/-- Fields before and after a separator. -/
theorem splitBy_append {p : Char → Bool} {c : Char} (h : p c = true) (t u : Text) :
    splitBy p (t ++ c :: u) = splitBy p t ++ splitBy p u := by
  induction t with
  | nil =>
    obtain ⟨field, fields, hu, hc⟩ := splitBy_cons p c u
    rw [List.nil_append, hc, if_pos h, hu]
    rfl
  | cons d ds ih =>
    obtain ⟨field, fields, hds, hd⟩ := splitBy_cons p d ds
    obtain ⟨first, others, hall, hcons⟩ := splitBy_cons p d (ds ++ c :: u)
    rw [ih, hds, List.cons_append] at hall
    obtain ⟨rfl, rfl⟩ := List.cons.inj hall
    rw [List.cons_append, hcons, hd]
    split <;> rfl

theorem splitBy_append_free {p : Char → Bool} {u : Text} (h : ∀ c ∈ u, p c = false) (t : Text) :
    ∃ init last, splitBy p t = init ++ [last] ∧ splitBy p (t ++ u) = init ++ [last ++ u] := by
  induction t with
  | nil => exact ⟨[], [], rfl, splitBy_of_free h⟩
  | cons c t ih =>
    obtain ⟨init, last, ht, htu⟩ := ih
    obtain ⟨field, fields, hfields, hc⟩ := splitBy_cons p c t
    obtain ⟨first, others, hall, hcons⟩ := splitBy_cons p c (t ++ u)
    rw [List.cons_append, hc, hcons]
    rw [ht] at hfields
    rw [htu] at hall
    cases init with
    | nil =>
      obtain ⟨rfl, rfl⟩ := List.cons.inj hfields
      obtain ⟨rfl, rfl⟩ := List.cons.inj hall
      split
      · exact ⟨[[]], last, rfl, rfl⟩
      · exact ⟨[], c :: last, rfl, rfl⟩
    | cons line init =>
      obtain ⟨rfl, rfl⟩ := List.cons.inj hfields
      obtain ⟨rfl, rfl⟩ := List.cons.inj hall
      split
      · exact ⟨[] :: line :: init, last, rfl, rfl⟩
      · exact ⟨(c :: line) :: init, last, rfl, rfl⟩

theorem mem_of_mem_splitBy {p : Char → Bool} {t field : Text} (h : field ∈ splitBy p t) {c : Char} (hc : c ∈ field) :
    c ∈ t := by
  have hm : c ∈ (splitBy p t).flatten := List.mem_flatten.mpr ⟨field, h, hc⟩
  rw [flatten_splitBy] at hm
  exact (List.mem_filter.mp hm).1

theorem splitOn_of_notMem {c : Char} {t : Text} (h : c ∉ t) : splitOn c t = [t] := by
  apply splitBy_of_free
  intro d hd
  exact beq_false_of_ne (ne_of_mem_of_not_mem hd h)

theorem splitOn_append_cons {c : Char} {t : Text} (h : c ∉ t) (u : Text) :
    splitOn c (t ++ c :: u) = t :: splitOn c u := by
  have hparts : splitOn c (t ++ c :: u) = splitOn c t ++ splitOn c u :=
    splitBy_append (p := (· == c)) (beq_self_eq_true c) t u
  rw [hparts, splitOn_of_notMem h, List.singleton_append]

theorem count_flatten_splitOn {c d : Char} (h : c ≠ d) (t : Text) : (splitOn d t).flatten.count c = t.count c := by
  rw [splitOn, flatten_splitBy, List.count_filter]
  simpa using h

theorem words_append_blank {c : Char} (h : isBlank c = true) (t u : Text) :
    words (t ++ c :: u) = words t ++ words u := by
  rw [words, fieldsBy, splitBy_append h, List.filter_append]
  rfl

theorem words_blank_append {t : Text} (h : ∀ c ∈ t, isBlank c = true) (u : Text) : words (t ++ u) = words u := by
  induction t with
  | nil => rfl
  | cons c cs ih =>
    obtain ⟨hc, hcs⟩ := List.forall_mem_cons.mp h
    exact (words_append_blank hc [] (cs ++ u)).trans (ih hcs)

theorem words_append_of_blank {u : Text} (h : ∀ c ∈ u, isBlank c = true) (t : Text) : words (t ++ u) = words t := by
  cases u with
  | nil => rw [List.append_nil]
  | cons c cs =>
    obtain ⟨hc, hcs⟩ := List.forall_mem_cons.mp h
    have hnone := words_blank_append hcs []
    rw [List.append_nil] at hnone
    rw [words_append_blank hc, hnone]
    exact List.append_nil _

/-- What is trimmed off a text is blank. -/
theorem exists_trim (t : Text) : ∃ front back, t = front ++ trim t ++ back ∧ (∀ c ∈ front, isBlank c = true) ∧
    ∀ c ∈ back, isBlank c = true := by
  have hback : trimEnd (trimStart t) ++ ((trimStart t).reverse.takeWhile isBlank).reverse = trimStart t := by
    rw [trimEnd, ← List.reverse_append, List.takeWhile_append_dropWhile, List.reverse_reverse]
  refine ⟨t.takeWhile isBlank, ((trimStart t).reverse.takeWhile isBlank).reverse, ?_,
    List.all_eq_true.mp List.all_takeWhile,
    fun c hc => List.all_eq_true.mp List.all_takeWhile c (List.mem_reverse.mp hc)⟩
  rw [List.append_assoc, trim, hback]
  exact List.takeWhile_append_dropWhile.symm

theorem trim_sublist (t : Text) : (trim t).Sublist t := by
  obtain ⟨front, back, ht, _⟩ := exists_trim t
  exact List.IsInfix.sublist ⟨front, back, ht.symm⟩

theorem count_of_blank {c : Char} (h : isBlank c = false) {gap : Text} (hg : ∀ c ∈ gap, isBlank c = true) :
    gap.count c = 0 := by
  rw [List.count_eq_zero]
  intro hm
  rw [hg c hm] at h
  cases h

theorem count_trim {c : Char} (h : isBlank c = false) (t : Text) : (trim t).count c = t.count c := by
  obtain ⟨front, back, ht, hfront, hback⟩ := exists_trim t
  calc (trim t).count c = (front ++ trim t ++ back).count c := by
        rw [List.count_append, List.count_append, count_of_blank h hfront, count_of_blank h hback, Nat.zero_add,
          Nat.add_zero]
    _ = t.count c := congrArg (List.count c) ht.symm

theorem trimStart_append_cons {c : Char} (h : isBlank c = false) (t u : Text) :
    trimStart (t ++ c :: u) = trimStart t ++ c :: u := by
  rw [trimStart, trimStart, List.dropWhile_append]
  split
  · rename_i hnone
    rw [List.isEmpty_iff.mp hnone]
    exact List.dropWhile_cons_of_neg (by rw [h]; exact Bool.false_ne_true)
  · rfl

theorem trimEnd_concat {c : Char} (h : isBlank c = false) (t : Text) : trimEnd (t ++ [c]) = t ++ [c] := by
  rw [trimEnd, List.reverse_concat, List.dropWhile_cons_of_neg (by rw [h]; exact Bool.false_ne_true), List.reverse_cons,
    List.reverse_reverse]

theorem trimEnd_append {back : Text} (h : ∀ c ∈ back, isBlank c = true) (t : Text) :
    trimEnd (t ++ back) = trimEnd t := by
  rw [trimEnd, List.reverse_append, List.dropWhile_append_of_pos fun c hc => h c (List.mem_reverse.mp hc)]
  rfl

/-- Trimming takes off blanks up to a text without white space at its ends. -/
theorem trim_append {front t back : Text} (hfront : ∀ c ∈ front, isBlank c = true)
    (hback : ∀ c ∈ back, isBlank c = true)
    (hfirst : ∀ c ∈ t.head?, isBlank c = false) (hlast : ∀ c ∈ t.getLast?, isBlank c = false) :
    trim (front ++ t ++ back) = t := by
  rcases List.eq_nil_or_concat t with rfl | ⟨before, last, rfl⟩
  · have hall : ∀ c ∈ front ++ back, isBlank c = true := List.forall_mem_append.mpr ⟨hfront, hback⟩
    have hnone : (front ++ back ++ []).dropWhile isBlank = [] := List.dropWhile_append_of_pos hall
    rw [List.append_nil] at hnone
    rw [List.append_nil, trim, trimStart, hnone]
    rfl
  · rw [List.concat_eq_append] at hfirst hlast ⊢
    have hend : isBlank last = false := hlast last (by simp)
    obtain ⟨first, rest, he⟩ := List.exists_cons_of_ne_nil (List.concat_ne_nil last before)
    have hstart : isBlank first = false := hfirst first (by rw [he]; rfl)
    have hkept : trimStart (front ++ (before ++ [last]) ++ back) = before ++ [last] ++ back := by
      rw [he, List.append_assoc, trimStart, List.dropWhile_append_of_pos hfront, List.cons_append,
        List.dropWhile_cons_of_neg (by rw [hstart]; exact Bool.false_ne_true)]
    rw [trim, hkept, trimEnd_append hback, trimEnd_concat hend]

theorem words_trim (t : Text) : words (trim t) = words t := by
  obtain ⟨front, back, ht, hfront, hback⟩ := exists_trim t
  calc words (trim t) = words (front ++ trim t) := (words_blank_append hfront _).symm
    _ = words (front ++ trim t ++ back) := (words_append_of_blank hback _).symm
    _ = words t := congrArg words ht.symm

/-- A word is its own only word. -/
theorem words_of_word {t word : Text} (h : word ∈ words t) : words word = [word] := by
  rw [words, fieldsBy, splitBy_of_free (word_not_blank h)]
  exact List.filter_eq_self.mpr fun field hf => by
    rw [List.mem_singleton.mp hf, List.isEmpty_eq_false_iff.mpr (word_ne_nil h)]
    rfl

/-- A text without blanks is one word at most. -/
theorem length_words_of_free {t : Text} (h : ∀ c ∈ t, isBlank c = false) : (words t).length ≤ 1 := by
  rw [words, fieldsBy, splitBy_of_free h]
  exact List.length_filter_le _ [t]

/-! The lines of a text, line by line. -/

theorem lines_nil : lines [] = [] :=
  rfl

/-- The lines before a line feed, and the lines after it. -/
theorem lines_append_cons (t rest : Text) :
    lines (t ++ '\n' :: rest) = (splitOn '\n' t).map dropReturn ++ lines rest := by
  have hsplit : splitOn '\n' (t ++ '\n' :: rest) = splitOn '\n' t ++ splitOn '\n' rest :=
    splitBy_append (p := (· == '\n')) rfl t rest
  unfold lines
  rw [hsplit, List.reverse_append]
  cases hr : (splitOn '\n' rest).reverse with
  | nil => exact absurd (List.reverse_eq_nil_iff.mp hr) (splitBy_ne_nil _ rest)
  | cons last before =>
    dsimp only [List.cons_append]
    rw [List.map_append, List.reverse_append, ← List.map_reverse, List.reverse_reverse]
    split
    · rfl
    · exact List.append_assoc _ _ _

/-- The line before a line feed, and the lines after it. -/
theorem lines_append_feed {line : Text} (h : '\n' ∉ line) (rest : Text) :
    lines (line ++ '\n' :: rest) = dropReturn line :: lines rest := by
  have hfree : ∀ c ∈ line, (c == '\n') = false := fun c hc => beq_eq_false_iff_ne.mpr fun he => h (he ▸ hc)
  rw [lines_append_cons, splitOn, splitBy_of_free hfree]
  rfl

/-- A text of whole lines. -/
def Whole (t : Text) : Prop :=
  t = [] ∨ ∃ before, t = before ++ ['\n']

theorem Whole.lines_append {t : Text} (h : Whole t) (rest : Text) : lines (t ++ rest) = lines t ++ lines rest := by
  rcases h with rfl | ⟨before, rfl⟩
  · rfl
  · rw [List.append_assoc, List.singleton_append, lines_append_cons, lines_append_cons, lines_nil, List.append_nil]

/-- What is before the line that a text ends in. -/
theorem whole_dropLine (t : Text) : Whole (t.reverse.dropWhile (· != '\n')).reverse := by
  cases h : t.reverse.dropWhile (· != '\n') with
  | nil => exact .inl rfl
  | cons c rest =>
    have hc := List.head?_dropWhile_not (· != '\n') t.reverse
    rw [h, List.head?_cons] at hc
    have hfeed : c = '\n' := by simpa using hc
    exact .inr ⟨rest.reverse, by rw [hfeed, List.reverse_cons]⟩

/-- A text that begins where a line of another one ends has its lines but the first. -/
theorem exists_lines_append (before t : Text) :
    ∃ dropped, lines (before ++ t.dropWhile (· != '\n')) = dropped ++ lines ((t.dropWhile (· != '\n')).drop 1) := by
  cases h : t.dropWhile (· != '\n') with
  | nil => exact ⟨lines (before ++ []), (List.append_nil _).symm⟩
  | cons c rest =>
    have hc := List.head?_dropWhile_not (· != '\n') t
    rw [h, List.head?_cons] at hc
    have hfeed : c = '\n' := by simpa using hc
    exact ⟨_, hfeed ▸ lines_append_cons before rest⟩

theorem join_singleton (separator t : Text) : join separator [t] = t := by
  simp [join]

theorem join_cons_cons (separator first second : Text) (rest : List Text) :
    join separator (first :: second :: rest) = first ++ separator ++ join separator (second :: rest) := by
  simp [join, List.intercalate]

theorem notMem_join {between : Text} {parts : List Text} {c : Char} (hbetween : c ∉ between)
    (hparts : ∀ part ∈ parts, c ∉ part) : c ∉ join between parts := by
  induction parts with
  | nil => exact List.not_mem_nil
  | cons part parts ih =>
    rw [List.forall_mem_cons] at hparts
    have hrest := ih hparts.2
    cases parts with
    | nil =>
      rw [join_singleton]
      exact hparts.1
    | cons next parts =>
      rw [join_cons_cons, List.mem_append, List.mem_append, not_or, not_or]
      exact ⟨⟨hparts.1, hbetween⟩, hrest⟩

theorem unlines_cons (line : Text) (lines : List Text) :
    unlines (line :: lines) = line ++ lines.flatMap ('\n' :: ·) := by
  induction lines generalizing line with
  | nil => simp [unlines, join]
  | cons next lines ih =>
    rw [unlines, join_cons_cons, ← unlines, ih, List.flatMap_cons]
    simp

theorem unlines_append_feed {lines : List Text} (h : lines ≠ []) :
    unlines lines ++ ['\n'] = lines.flatMap (· ++ ['\n']) := by
  induction lines with
  | nil => exact absurd rfl h
  | cons line lines ih =>
    cases lines with
    | nil => simp [unlines, join_singleton]
    | cons next lines =>
      have hrest := ih (List.cons_ne_nil _ _)
      rw [unlines, join_cons_cons, ← unlines, List.append_assoc, hrest]
      simp

theorem count_unlines {lines : List Text} (h : ∀ line ∈ lines, '\n' ∉ line) :
    (unlines lines).count '\n' = lines.length - 1 := by
  have hrest {lines : List Text} (h : ∀ line ∈ lines, '\n' ∉ line) :
      (lines.flatMap ('\n' :: ·)).count '\n' = lines.length := by
    induction lines with
    | nil => rfl
    | cons line lines ih =>
      obtain ⟨hline, hlines⟩ := List.forall_mem_cons.mp h
      rw [List.flatMap_cons, List.count_append, ih hlines, List.count_cons_self, List.count_eq_zero.mpr hline]
      exact Nat.add_comm 1 _
  cases lines with
  | nil => rfl
  | cons line lines =>
    obtain ⟨hline, hlines⟩ := List.forall_mem_cons.mp h
    rw [unlines_cons, List.count_append, List.count_eq_zero.mpr hline, hrest hlines]
    simp

theorem dropReturn_of_getLast? {line : Text} (h : line.getLast? ≠ some '\r') : dropReturn line = line := by
  unfold dropReturn dropEnd?
  rw [← List.head?_reverse] at h
  cases hr : line.reverse with
  | nil => rfl
  | cons last before =>
    rw [hr, List.head?_cons] at h
    have hne : ('\r' == last) = false := beq_eq_false_iff_ne.mpr fun he => h (congrArg some he.symm)
    rw [List.reverse_singleton, dropStart?, hne]
    rfl

theorem dropReturn_append_return (line : Text) : dropReturn (line ++ ['\r']) = line := by
  rw [dropReturn, dropEnd?_append]
  rfl

end RoffDocBook.Text
