import RoffDocBook.Formatter.State
import RoffDocBook.Proofs.Text.Search

/-! What the references on a line expand to. The text before the first escape stays as it is, and a reference to an
argument becomes that argument of the innermost macro. -/
namespace RoffDocBook.Formatter
open Text

namespace State

theorem expandOnce_cons (s : State) {c : Char} (h : c ≠ '\\') (t : Text) :
    s.expandOnce (c :: t) = c :: s.expandOnce t := by
  rw [expandOnce]
  all_goals rintro rest hc
  all_goals simp_all

theorem expandOnce_escape (s : State) {c : Char} (h : c ≠ '*' ∧ c ≠ '$') (t : Text) :
    s.expandOnce ('\\' :: c :: t) = '\\' :: c :: s.expandOnce t := by
  rw [expandOnce]
  · exact h.1
  · exact h.2

theorem expandOnce_argument {s : State} {own : Invocation} {outer : List Invocation} (hv : s.invocations = own :: outer)
    (t : Text) : s.expandOnce ('\\' :: '$' :: t) = (argumentText own t).1 ++ s.expandOnce (argumentText own t).2 := by
  rw [expandOnce, hv]

/-- Outside all macros a reference to an argument stays as it is. -/
theorem expandOnce_unbound {s : State} (hv : s.invocations = []) (t : Text) :
    s.expandOnce ('\\' :: '$' :: t) = '\\' :: '$' :: s.expandOnce t := by
  rw [expandOnce, hv]

theorem expandOnce_append (s : State) {before : Text} (h : '\\' ∉ before) (t : Text) :
    s.expandOnce (before ++ t) = before ++ s.expandOnce t := by
  induction before with
  | nil => rfl
  | cons c cs ih =>
    rw [List.mem_cons, not_or] at h
    rw [List.cons_append, s.expandOnce_cons (Ne.symm h.1), ih h.2]
    rfl

theorem mentionsStrings_append {before : Text} (h : '\\' ∉ before) (t : Text) :
    mentionsStrings (before ++ t) = mentionsStrings t := by
  have hstrings : contains (before ++ t) "\\*" = contains t "\\*" := contains_append h
  have harguments : contains (before ++ t) "\\$" = contains t "\\$" := contains_append h
  rw [mentionsStrings, mentionsStrings, hstrings, harguments]

theorem expandPasses_append (s : State) {before : Text} (h : '\\' ∉ before) (passes : Nat) (t : Text) :
    s.expandPasses passes (before ++ t) = before ++ s.expandPasses passes t := by
  induction passes generalizing t with
  | zero => rfl
  | succ passes ih =>
    have hsame : (before ++ s.expandOnce t == before ++ t) = (s.expandOnce t == t) := by
      rw [Bool.eq_iff_iff, beq_iff_eq, beq_iff_eq, List.append_cancel_left_eq]
    rw [expandPasses, expandPasses, s.expandOnce_append h, hsame, mentionsStrings_append h, ih, apply_ite (before ++ ·),
      apply_ite (before ++ ·)]

/-- What stands before the first escape is no reference. -/
theorem expand_append (s : State) {before : Text} (h : '\\' ∉ before) (t : Text) :
    s.expand (before ++ t) = before ++ s.expand t := by
  rw [expand, expand, mentionsStrings_append h, s.expandPasses_append h, apply_ite (before ++ ·)]

theorem interpolate_cons (s : State) {c : Char} (h : c ≠ '\\') (t : Text) :
    s.interpolate (c :: t) = (c :: (s.interpolate t).1, (s.interpolate t).2) := by
  rw [interpolate]
  · exact fun _ hc => absurd hc h
  · exact fun _ _ hc => absurd hc h

theorem interpolate_append (s : State) {before : Text} (h : '\\' ∉ before) (t : Text) :
    s.interpolate (before ++ t) = (before ++ (s.interpolate t).1, (s.interpolate t).2) := by
  induction before with
  | nil => rfl
  | cons c cs ih =>
    rw [List.mem_cons, not_or] at h
    rw [List.cons_append, s.interpolate_cons (Ne.symm h.1), ih h.2]
    rfl

end State

/-- How a reference names an argument: by a digit, by two characters or by a number in brackets. -/
inductive Numeral where
  | digit (c : Char) (h : c.isDigit = true ∧ c ≠ '0')
  | pair (first second : Char) (h : first ≠ '\\' ∧ second ≠ '\\')
  | bracketed (numeral : Text) (h : ']' ∉ numeral ∧ '\\' ∉ numeral)

namespace Numeral

def source : Numeral → Text
  | digit c _ => [c]
  | pair first second _ => ['(', first, second]
  | bracketed numeral _ => '[' :: (numeral ++ [']'])

def number : Numeral → Option Nat
  | digit c _ => toNat? [c]
  | pair first second _ => toNat? [first, second]
  | bracketed numeral _ => toNat? numeral

theorem notMem_source (numeral : Numeral) : '\\' ∉ numeral.source := by
  cases numeral with
  | digit c h =>
    rintro hc
    rw [source, List.mem_singleton] at hc
    subst hc
    exact absurd h.1 (by decide)
  | pair first second h =>
    have hne : '\\' ≠ '(' := by decide
    simp [source, hne, Ne.symm h.1, Ne.symm h.2]
  | bracketed numeral h =>
    have hne : '\\' ≠ '[' ∧ '\\' ≠ ']' := by decide
    simp [source, hne, h.2]

end Numeral

/-- A part of a line in which every reference is one to an argument. -/
inductive Piece where
  | char (c : Char) (h : c ≠ '\\')
  | escape (c : Char) (h : c ≠ '*' ∧ c ≠ '$')
  | argument (numeral : Numeral)

namespace Piece

def source : Piece → Text
  | char c _ => [c]
  | escape c _ => ['\\', c]
  | argument numeral => '\\' :: '$' :: numeral.source

/-- The argument with a number, counted from one; a missing one is empty. -/
def nth (arguments : List Text) (number : Option Nat) : Text :=
  match number with
  | some (n + 1) => arguments.getD n []
  | _ => []

/-- The part with the arguments of a macro filled in. -/
def filled (arguments : List Text) : Piece → Text
  | argument numeral => nth arguments numeral.number
  | piece => piece.source

def IsPlain : Piece → Prop
  | argument _ => False
  | _ => True

end Piece

/-- A line made of pieces. -/
def sourceOf (pieces : List Piece) : Text :=
  pieces.flatMap Piece.source

/-- The line with the arguments of a macro filled in. -/
def fillIn (arguments : List Text) (pieces : List Piece) : Text :=
  pieces.flatMap (Piece.filled arguments)

/-- The line with the arguments of the innermost macro filled in, if there is one. -/
def bound (invocations : List Invocation) (pieces : List Piece) : Text :=
  match invocations with
  | [] => sourceOf pieces
  | own :: _ => fillIn own.arguments pieces

/-- A text in which nothing refers to strings or arguments. -/
def Settled (t : Text) : Prop :=
  ∃ pieces, (∀ piece ∈ pieces, Piece.IsPlain piece) ∧ t = sourceOf pieces

theorem settled_of_notMem {t : Text} (h : '\\' ∉ t) : Settled t := by
  induction t with
  | nil => exact ⟨[], by simp, rfl⟩
  | cons c cs ih =>
    rw [List.mem_cons, not_or] at h
    obtain ⟨pieces, hp, rfl⟩ := ih h.2
    exact ⟨.char c (Ne.symm h.1) :: pieces, List.forall_mem_cons.mpr ⟨trivial, hp⟩, rfl⟩

theorem spanUntil_append {t : Text} {c : Char} (h : c ∉ t) (rest : Text) :
    spanUntil (· == c) (t ++ c :: rest) = (t, c :: rest) := by
  have hpass : ∀ d ∈ t, (!(d == c)) = true := by
    intro d hd
    rw [beq_false_of_ne (ne_of_mem_of_not_mem hd h)]
    rfl
  rw [spanUntil, List.takeWhile_append_of_pos hpass, List.dropWhile_append_of_pos hpass]
  simp

theorem argumentText_digit (own : Invocation) {digit : Char} (h : digit.isDigit = true ∧ digit ≠ '0') (rest : Text) :
    argumentText own (digit :: rest) = (Piece.nth own.arguments (toNat? [digit]), rest) := by
  obtain ⟨hd, hz⟩ := h
  have hne {c : Char} (hc : c.isDigit = false) : digit ≠ c := by
    rintro rfl
    rw [hd] at hc
    cases hc
  have hstar : digit ≠ '*' := hne (by decide)
  have hat : digit ≠ '@' := hne (by decide)
  have hparenthesis : digit ≠ '(' := hne (by decide)
  have hbracket : digit ≠ '[' := hne (by decide)
  unfold argumentText
  split
  · simp_all
  · simp_all
  · simp_all
  · rename_i c rest' _ _ heq
    obtain ⟨rfl, rfl⟩ := List.cons.inj heq
    simp only [beq_iff_eq, hz, hparenthesis, hbracket, hd, if_false, if_true, Bool.or_eq_true, or_self]
    rfl

/-- An argument named by two characters or in brackets. -/
theorem argumentText_named (own : Invocation) {c : Char} (hc : c = '(' ∨ c = '[') {t numeral rest : Text}
    (hname : readName (c :: t) = (String.ofList numeral, rest)) :
    argumentText own (c :: t) = (Piece.nth own.arguments (toNat? numeral), rest) := by
  rcases hc with rfl | rfl
  · simp [argumentText, hname]
    rfl
  · simp [argumentText, hname]
    rfl

theorem argumentText_source (own : Invocation) (numeral : Numeral) (rest : Text) :
    argumentText own (numeral.source ++ rest) = (Piece.nth own.arguments numeral.number, rest) := by
  cases numeral with
  | digit c h => exact argumentText_digit own h rest
  | pair first second h => exact argumentText_named own (Or.inl rfl) rfl
  | bracketed numeral h =>
    have hsource : (Numeral.bracketed numeral h).source ++ rest = '[' :: (numeral ++ ']' :: rest) := by
      simp [Numeral.source]
    have hname : readName ('[' :: (numeral ++ ']' :: rest)) = (String.ofList numeral, rest) := by
      rw [readName, spanUntil_append h.1]
      rfl
    rw [hsource]
    exact argumentText_named own (Or.inr rfl) hname

theorem bound_cons (invocations : List Invocation) (piece : Piece) (pieces : List Piece) :
    bound invocations (piece :: pieces) = bound invocations [piece] ++ bound invocations pieces := by
  cases invocations with
  | nil => simp [bound, sourceOf]
  | cons own outer => simp [bound, fillIn]

theorem fillIn_plain {pieces : List Piece} (h : ∀ piece ∈ pieces, Piece.IsPlain piece) (arguments : List Text) :
    fillIn arguments pieces = sourceOf pieces := by
  have hfilled : ∀ piece ∈ pieces, piece.filled arguments = piece.source := by
    intro piece hp
    cases piece with
    | char | escape => rfl
    | argument => exact absurd (h _ hp) id
  rw [fillIn, sourceOf, List.flatMap_def, List.flatMap_def, List.map_congr_left hfilled]

theorem bound_plain {pieces : List Piece} (h : ∀ piece ∈ pieces, Piece.IsPlain piece) (invocations : List Invocation) :
    bound invocations pieces = sourceOf pieces := by
  cases invocations with
  | nil => rfl
  | cons own outer => exact fillIn_plain h own.arguments

theorem Settled.append {t u : Text} (ht : Settled t) (hu : Settled u) : Settled (t ++ u) := by
  obtain ⟨first, hf, rfl⟩ := ht
  obtain ⟨second, hs, rfl⟩ := hu
  exact ⟨first ++ second, List.forall_mem_append.mpr ⟨hf, hs⟩, List.flatMap_append.symm⟩

theorem settled_nth {arguments : List Text} (h : ∀ argument ∈ arguments, Settled argument) (number : Option Nat) :
    Settled (Piece.nth arguments number) := by
  have hnil : Settled [] := ⟨[], by simp, rfl⟩
  unfold Piece.nth
  split
  · rename_i n
    cases hn : arguments[n]? with
    | none => rwa [List.getD_eq_getElem?_getD, hn]
    | some argument =>
      rw [List.getD_eq_getElem?_getD, hn]
      exact h argument (List.mem_of_getElem? hn)
  · exact hnil

/-- What is filled in can hold escapes, if they refer to nothing. -/
theorem settled_fillIn {arguments : List Text} (ha : ∀ argument ∈ arguments, Settled argument) (pieces : List Piece) :
    Settled (fillIn arguments pieces) := by
  induction pieces with
  | nil => exact ⟨[], by simp, rfl⟩
  | cons piece pieces ih =>
    refine Settled.append ?_ ih
    cases piece with
    | char c h => exact ⟨[.char c h], by simp [Piece.IsPlain], by simp [sourceOf, Piece.filled]⟩
    | escape c h => exact ⟨[.escape c h], by simp [Piece.IsPlain], by simp [sourceOf, Piece.filled]⟩
    | argument => exact settled_nth ha _

/-- A line with a reference in it mentions one. -/
theorem plain_of_not_mentions {pieces : List Piece} (h : State.mentionsStrings (sourceOf pieces) = false) :
    ∀ piece ∈ pieces, Piece.IsPlain piece := by
  intro piece hp
  obtain ⟨first, last, rfl⟩ := List.append_of_mem hp
  cases piece with
  | char | escape => trivial
  | argument numeral =>
    have htext : sourceOf (first ++ .argument numeral :: last) =
        sourceOf first ++ ("\\$".toList ++ (numeral.source ++ sourceOf last)) := by
      simp [sourceOf, Piece.source]
    rw [State.mentionsStrings, htext, contains_middle, Bool.or_true] at h
    cases h

namespace State

theorem expandOnce_piece (s : State) (piece : Piece) (t : Text) :
    s.expandOnce (piece.source ++ t) = bound s.invocations [piece] ++ s.expandOnce t := by
  have hplain (hp : Piece.IsPlain piece) : bound s.invocations [piece] = piece.source := by
    rw [bound_plain (List.forall_mem_singleton.mpr hp)]
    exact List.append_nil _
  cases piece with
  | char c h =>
    rw [hplain trivial]
    exact s.expandOnce_cons h t
  | escape c h =>
    rw [hplain trivial]
    exact s.expandOnce_escape h t
  | argument numeral =>
    cases hv : s.invocations with
    | nil =>
      have hkept := (expandOnce_unbound hv (numeral.source ++ t)).trans
        (congrArg ('\\' :: '$' :: ·) (s.expandOnce_append numeral.notMem_source t))
      simpa [bound, sourceOf, Piece.source] using hkept
    | cons own outer =>
      have hfilled := expandOnce_argument hv (numeral.source ++ t)
      rw [argumentText_source] at hfilled
      simpa [bound, fillIn, Piece.source, Piece.filled] using hfilled

/-- Each reference to an argument is replaced by the argument of the innermost macro. -/
theorem expandOnce_sourceOf (s : State) (pieces : List Piece) :
    s.expandOnce (sourceOf pieces) = bound s.invocations pieces := by
  induction pieces with
  | nil => rw [bound_plain (List.forall_mem_nil _), sourceOf, List.flatMap_nil, expandOnce]
  | cons piece pieces ih => rw [bound_cons, ← ih, ← expandOnce_piece, sourceOf, List.flatMap_cons, ← sourceOf]

/-- A line of a macro expands to the line with the arguments of the innermost macro filled in. -/
theorem expand_sourceOf {s : State}
    (ha : ∀ invocation ∈ s.invocations, ∀ argument ∈ invocation.arguments, Settled argument) (pieces : List Piece) :
    s.expand (sourceOf pieces) = bound s.invocations pieces := by
  -- once the arguments are filled in, nothing is left to replace
  have hsettled : s.expandOnce (bound s.invocations pieces) = bound s.invocations pieces := by
    cases hv : s.invocations with
    | nil =>
      rw [bound, expandOnce_sourceOf, hv]
      rfl
    | cons own outer =>
      obtain ⟨plain, hp, ht⟩ := settled_fillIn (ha own (by rw [hv]; exact List.mem_cons_self)) pieces
      rw [bound, ht, expandOnce_sourceOf, bound_plain hp]
  rw [expand]
  split
  · rw [expansionPasses, expandPasses, expandOnce_sourceOf]
    split
    · rename_i hsame
      exact (beq_iff_eq.mp hsame).symm
    · split
      · rw [expandPasses, hsettled, beq_self_eq_true, if_pos rfl]
      · rfl
  · rename_i hnone
    rw [Bool.not_eq_true] at hnone
    exact (bound_plain (plain_of_not_mentions hnone) _).symm

end State

end RoffDocBook.Formatter
