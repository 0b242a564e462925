import RoffDocBook.Proofs.Expansion.Binding
import RoffDocBook.Proofs.Markup.Escape

/-! Arguments that are quoted where they need it and written with blanks between them. They are read back as they were,
unless one that stands without quotes takes the blank after it along. -/
namespace RoffDocBook.ControlLine
open Text Conditional

/-- Whether an argument ends where this text goes on. -/
def EndsArgument (rest : Text) : Prop :=
  ∀ c ∈ rest.head?, isSpaceOrTab c = true

theorem endsArgument_nil : EndsArgument [] :=
  fun _ first => nomatch first

theorem endsArgument_blank (t : Text) : EndsArgument (' ' :: t) := by
  intro c first
  obtain rfl := Option.some.inj first
  rfl

/-! An argument in quotes. -/

theorem replace_quote_cons (t : Text) : replace ('"' :: t) "\"" "\"\"" = '"' :: '"' :: replace t "\"" "\"\"" :=
  rfl

theorem replace_cons_of_ne {c : Char} (h : c ≠ '"') (t : Text) :
    replace (c :: t) "\"" "\"\"" = c :: replace t "\"" "\"\"" := by
  have plain : '"' ∉ [c] := fun mem => h (List.mem_singleton.mp mem).symm
  exact replace_append plain

theorem length_le_replace (t : Text) : t.length ≤ (replace t "\"" "\"\"").length := by
  induction t with
  | nil => exact Nat.le_refl 0
  | cons c t ih =>
    by_cases mark : c = '"'
    · rw [mark, replace_quote_cons]
      simp only [List.length_cons]
      omega
    · rw [replace_cons_of_ne mark]
      exact Nat.succ_le_succ ih

/-- An argument whose quotes are doubled ends at the quote after it. -/
theorem quotedArgument_replace (argument : Text) {rest : Text} (ends : EndsArgument rest) :
    quotedArgument (replace argument "\"" "\"\"" ++ '"' :: rest) = (argument, rest) := by
  induction argument with
  | nil =>
    cases rest with
    | nil => rfl
    | cons c rest =>
      have other : c ≠ '"' := by
        rintro rfl
        exact absurd (ends '"' rfl) (by decide)
      have read : quotedArgument ('"' :: c :: rest) = ([], c :: rest) := by
        rw [quotedArgument, if_pos (beq_self_eq_true '"')]
        rintro cs _ same
        exact other (List.cons.inj same).1
      exact read
  | cons c argument ih =>
    by_cases mark : c = '"'
    · rw [mark, replace_quote_cons, List.cons_append, List.cons_append, quotedArgument, ih]
    · have plain : '"' ∉ [c] := fun mem => mark (List.mem_singleton.mp mem).symm
      have read := quotedArgument_append plain (replace argument "\"" "\"\"" ++ '"' :: rest)
      rw [ih] at read
      rw [replace_cons_of_ne mark]
      exact read

/-! An argument without quotes. -/

section
variable {argument : Text} (unbroken : ∀ c ∈ argument, isSpaceOrTab c = false)
include unbroken

/-- An argument without blanks that no escape goes on from is part of the argument that begins the text after it. -/
theorem plainArgument_append_of_complete (complete : endsInContinuation argument = false) (rest : Text) :
    plainArgument (argument ++ rest) = (argument ++ (plainArgument rest).1, (plainArgument rest).2) := by
  induction argument using plainArgument.induct with
  | case1 => rfl
  | case2 c cs ih =>
    have pair : endsInContinuation ['\\', c] = false := by
      by_cases same : c = '\\' <;> simp [endsInContinuation, same]
    have closed : endsInContinuation cs = false := (endsInContinuation_append pair cs).symm.trans complete
    have inside : ∀ d ∈ cs, isSpaceOrTab d = false := fun d mem =>
      unbroken d (List.mem_cons_of_mem _ (List.mem_cons_of_mem _ mem))
    rw [List.cons_append, List.cons_append, plainArgument, ih inside closed]
    rfl
  | case3 c cs _ blank => exact absurd blank (by rw [unbroken c List.mem_cons_self]; decide)
  | case4 c cs single _ ih =>
    have plain : c ≠ '\\' := by
      rintro rfl
      cases cs with
      | nil => exact absurd complete (by decide)
      | cons d ds => exact single d ds rfl rfl
    have first : ∀ d ∈ [c], isSpaceOrTab d = false ∧ d ≠ '\\' :=
      List.forall_mem_singleton.mpr ⟨unbroken c List.mem_cons_self, plain⟩
    have alone : endsInContinuation [c] = false :=
      endsInContinuation_of_notMem fun mem => plain (List.mem_singleton.mp mem).symm
    have closed : endsInContinuation cs = false := (endsInContinuation_append alone cs).symm.trans complete
    have inside : ∀ d ∈ cs, isSpaceOrTab d = false := fun d mem => unbroken d (List.mem_cons_of_mem _ mem)
    have read := plainArgument_append first (cs ++ rest)
    rw [ih inside closed] at read
    exact read

theorem plainArgument_of_complete (complete : endsInContinuation argument = false) {rest : Text}
    (ends : EndsArgument rest) : plainArgument (argument ++ rest) = (argument, rest) := by
  have stops : plainArgument rest = ([], rest) := by
    cases rest with
    | nil => rfl
    | cons c rest =>
      have blank := ends c rfl
      rw [plainArgument, if_pos blank]
      rintro d ds rfl
      exact absurd blank (by decide)
  rw [plainArgument_append_of_complete unbroken complete, stops, List.append_nil]

theorem plainArgument_of_open (opened : endsInContinuation argument = true) (rest : Text) :
    plainArgument (argument ++ rest) =
      (argument.dropLast ++ (plainArgument ('\\' :: rest)).1, (plainArgument ('\\' :: rest)).2) := by
  obtain ⟨front, rfl⟩ := eq_concat_of_endsInContinuation opened
  have complete := endsInContinuation_dropLast opened
  rw [List.dropLast_concat] at complete ⊢
  have inside : ∀ c ∈ front, isSpaceOrTab c = false := fun c mem => unbroken c (List.mem_append_left _ mem)
  rw [List.append_assoc]
  exact plainArgument_append_of_complete inside complete _

end

/-! Arguments as they are written. -/

/-- Whether an argument is written with quotes around it. -/
def NeedsQuotes (argument : Text) : Prop :=
  argument = [] ∨ ∃ c ∈ argument, isSpaceOrTab c = true ∨ c = '"'

theorem quote_of_needsQuotes {argument : Text} (needs : NeedsQuotes argument) :
    quote argument = '"' :: (replace argument "\"" "\"\"" ++ ['"']) := by
  apply if_pos
  rw [Bool.or_eq_true, List.any_eq_true, List.isEmpty_iff]
  simpa [NeedsQuotes] using needs

theorem NeedsQuotes.quote_ne {argument : Text} (needs : NeedsQuotes argument) : quote argument ≠ argument := by
  intro same
  have longer := length_le_replace argument
  have written := congrArg List.length ((quote_of_needsQuotes needs).symm.trans same)
  rw [List.length_cons, List.length_append] at written
  omega

theorem quote_of_not {argument : Text} (bare : ¬ NeedsQuotes argument) : quote argument = argument := by
  apply if_neg
  rw [Bool.or_eq_true, List.any_eq_true, List.isEmpty_iff]
  simpa [NeedsQuotes] using bare

theorem ne_nil_of_not {argument : Text} (bare : ¬ NeedsQuotes argument) : argument ≠ [] :=
  fun empty => bare (.inl empty)

theorem unbroken_of_not {argument : Text} (bare : ¬ NeedsQuotes argument) : ∀ c ∈ argument, isSpaceOrTab c = false := by
  intro c mem
  rw [← Bool.not_eq_true]
  exact fun blank => bare (.inr ⟨c, mem, .inl blank⟩)

/-- What is read first where an argument stands without quotes. -/
theorem firstArgument_of_not {argument : Text} (bare : ¬ NeedsQuotes argument) (rest : Text) :
    firstArgument (argument ++ rest) = plainArgument (argument ++ rest) := by
  obtain ⟨c, cs, rfl⟩ := List.exists_cons_of_ne_nil (ne_nil_of_not bare)
  rw [List.cons_append, firstArgument]
  intro ds same
  exact bare (.inr ⟨c, List.mem_cons_self, .inr (List.cons.inj same).1⟩)

/-- A written argument is where the text begins. -/
theorem exists_quote_eq_cons (argument : Text) : ∃ c cs, quote argument = c :: cs ∧ isSpaceOrTab c = false := by
  by_cases needs : NeedsQuotes argument
  · exact ⟨'"', _, quote_of_needsQuotes needs, rfl⟩
  · obtain ⟨c, cs, rfl⟩ := List.exists_cons_of_ne_nil (ne_nil_of_not needs)
    exact ⟨c, cs, quote_of_not needs, unbroken_of_not needs c List.mem_cons_self⟩

theorem arguments_quote_append (argument rest : Text) :
    arguments (quote argument ++ rest) =
      (firstArgument (quote argument ++ rest)).1 :: arguments (firstArgument (quote argument ++ rest)).2 := by
  obtain ⟨c, cs, same, begins⟩ := exists_quote_eq_cons argument
  rw [same, List.cons_append]
  exact arguments_of_cons (List.dropWhile_cons_of_neg (by rw [begins]; exact Bool.false_ne_true))

theorem arguments_blank (t : Text) : arguments (' ' :: t) = arguments t := by
  have passed : (' ' :: t).dropWhile isSpaceOrTab = t.dropWhile isSpaceOrTab := List.dropWhile_cons_of_pos rfl
  cases first : t.dropWhile isSpaceOrTab with
  | nil => rw [arguments_of_blank first, arguments_of_blank (passed.trans first)]
  | cons c cs => rw [arguments_of_cons first, arguments_of_cons (passed.trans first)]

/-- An argument that ends where it is written to end is read as it is. -/
theorem firstArgument_quote_append {argument rest : Text} (ends : EndsArgument rest)
    (complete : quote argument = argument → endsInContinuation argument = false) :
    firstArgument (quote argument ++ rest) = (argument, rest) := by
  by_cases needs : NeedsQuotes argument
  · rw [quote_of_needsQuotes needs, List.cons_append, List.append_assoc, firstArgument]
    exact quotedArgument_replace argument ends
  · rw [quote_of_not needs, firstArgument_of_not needs]
    exact plainArgument_of_complete (unbroken_of_not needs) (complete (quote_of_not needs)) ends

/-- The last argument may end in an open escape. -/
theorem firstArgument_quote (argument : Text) : firstArgument (quote argument) = (argument, []) := by
  by_cases complete : quote argument = argument → endsInContinuation argument = false
  · have read := firstArgument_quote_append endsArgument_nil complete
    rwa [List.append_nil] at read
  · obtain ⟨same, opened⟩ := Classical.not_imp.mp complete
    rw [Bool.not_eq_false] at opened
    have bare : ¬ NeedsQuotes argument := fun needs => needs.quote_ne same
    have whole := firstArgument_of_not bare []
    have read := plainArgument_of_open (unbroken_of_not bare) opened []
    obtain ⟨front, rfl⟩ := eq_concat_of_endsInContinuation opened
    rw [List.append_nil] at whole read
    rw [List.dropLast_concat] at read
    rw [same, whole, read]
    rfl

/-- An argument that stands without quotes and ends in an open escape is not read as it is in front of a blank. -/
theorem firstArgument_quote_append_ne {argument : Text} (same : quote argument = argument)
    (opened : endsInContinuation argument = true) (rest : Text) :
    (firstArgument (quote argument ++ ' ' :: rest)).1 ≠ argument := by
  have bare : ¬ NeedsQuotes argument := fun needs => needs.quote_ne same
  rw [same, firstArgument_of_not bare, plainArgument_of_open (unbroken_of_not bare) opened]
  obtain ⟨front, rfl⟩ := eq_concat_of_endsInContinuation opened
  rw [List.dropLast_concat]
  intro taken
  have escape := List.append_cancel_left taken
  cases escape

/-- Quoted arguments are read back from a line with blanks between them, if and only if each of them but the last ends
before the blank: it stands in quotes, or it does not end in an odd number of backslashes. An argument alone is always
read back. -/
theorem arguments_join_quote_iff :
    (∀ args : List Text, arguments (join [' '] (args.map quote)) = args ↔
      ∀ argument ∈ args.dropLast, quote argument = argument → endsInContinuation argument = false) ∧
    ∀ argument, arguments (quote argument) = [argument] := by
  have alone (argument : Text) : arguments (quote argument) = [argument] := by
    have read := arguments_quote_append argument []
    rw [List.append_nil, firstArgument_quote] at read
    exact read.trans (congrArg (argument :: ·) (arguments_of_blank rfl))
  refine ⟨fun args => ?_, alone⟩
  induction args with
  | nil => exact iff_of_true (arguments_of_blank rfl) (fun _ mem => absurd mem List.not_mem_nil)
  | cons argument args ih =>
    cases args with
    | nil =>
      rw [List.map_singleton, join_singleton]
      exact iff_of_true (alone argument) (fun _ mem => absurd mem List.not_mem_nil)
    | cons next args =>
      rw [List.map_cons, List.map_cons, join_cons_cons, ← List.map_cons, List.append_assoc, List.singleton_append,
        List.dropLast_cons_cons, List.forall_mem_cons, ← ih, arguments_quote_append]
      generalize join [' '] ((next :: args).map quote) = rest
      by_cases complete : quote argument = argument → endsInContinuation argument = false
      · rw [firstArgument_quote_append (endsArgument_blank rest) complete, arguments_blank, and_iff_right complete]
        exact List.cons_inj_right argument
      · refine iff_of_false ?_ fun both => complete both.1
        obtain ⟨same, opened⟩ := Classical.not_imp.mp complete
        rw [Bool.not_eq_false] at opened
        exact fun read => firstArgument_quote_append_ne same opened rest (List.cons.inj read).1

end RoffDocBook.ControlLine
