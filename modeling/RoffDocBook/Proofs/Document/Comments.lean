import RoffDocBook.Document.Assembly
import RoffDocBook.Proofs.Text.Words

/-! Comments in the output. Two hyphens in a row may not stand in a comment. The replacement that parts them does not
overlap, so that a third hyphen stays beside the second one. -/
namespace RoffDocBook.Text

theorem pair_cons {c : Char} {t : Text} :
    ['-', '-'] <:+: c :: t ↔ c = '-' ∧ t.head? = some '-' ∨ ['-', '-'] <:+: t := by
  rw [List.infix_cons_iff, List.cons_prefix_cons]
  cases t with
  | nil => simp
  | cons d t => simp only [List.cons_prefix_cons, List.nil_prefix, and_true, List.head?_cons, Option.some.injEq,
      eq_comm]

theorem triple_cons {c : Char} {t : Text} :
    ['-', '-', '-'] <:+: c :: t ↔ c = '-' ∧ ['-', '-'] <+: t ∨ ['-', '-', '-'] <:+: t := by
  rw [List.infix_cons_iff, List.cons_prefix_cons, eq_comm]

theorem triple_pair (t : Text) :
    ['-', '-', '-'] <:+: '-' :: '-' :: t ↔ t.head? = some '-' ∨ ['-', '-', '-'] <:+: t := by
  have hhead : ['-'] <+: t ↔ t.head? = some '-' := by
    cases t <;> simp [List.cons_prefix_cons, eq_comm]
  have hshort : ['-', '-'] <+: t → ['-'] <+: t := (List.prefix_append ['-'] ['-']).trans
  rw [triple_cons, triple_cons, List.cons_prefix_cons, ← hhead]
  constructor
  · rintro (⟨-, -, h⟩ | ⟨-, h⟩ | h)
    · exact Or.inl h
    · exact Or.inl (hshort h)
    · exact Or.inr h
  · rintro (h | h)
    · exact Or.inl ⟨rfl, rfl, h⟩
    · exact Or.inr (Or.inr h)

theorem triple_single {c : Char} {t : Text} (h : c = '-' → t.head? ≠ some '-') :
    ['-', '-', '-'] <:+: c :: t ↔ ['-', '-', '-'] <:+: t := by
  rw [triple_cons]
  constructor
  · rintro (⟨hc, after, rfl⟩ | ht)
    · exact absurd rfl (h hc)
    · exact ht
  · intro ht
    exact Or.inr ht

theorem pair_append {c : Char} (hc : c ≠ '-') (a b : Text) :
    ['-', '-'] <:+: a ++ c :: b ↔ ['-', '-'] <:+: a ∨ ['-', '-'] <:+: b := by
  induction a with
  | nil => simp [pair_cons, hc]
  | cons d a ih =>
    have hhead : (a ++ c :: b).head? = some '-' ↔ a.head? = some '-' := by
      cases a <;> simp [hc]
    rw [List.cons_append, pair_cons, hhead, ih, pair_cons, or_assoc]

theorem not_pair {t : Text} (h : '-' ∉ t) : ¬ ['-', '-'] <:+: t :=
  fun hpair => h (hpair.subset (List.mem_cons_self ..))

theorem pair_dropWhile {p : Char → Bool} (hp : p '-' = false) (t : Text) :
    ['-', '-'] <:+: t.dropWhile p ↔ ['-', '-'] <:+: t := by
  induction t with
  | nil => rfl
  | cons c t ih =>
    cases hc : p c with
    | false => simp [hc]
    | true =>
      have hne : c ≠ '-' := by
        rintro rfl
        simp [hp] at hc
      simp [hc, ih, pair_cons, hne]

theorem pair_reverse (t : Text) : ['-', '-'] <:+: t.reverse ↔ ['-', '-'] <:+: t := by
  have hpair : (['-', '-'] : Text) = List.reverse ['-', '-'] := rfl
  rw [hpair, List.reverse_infix]
  rfl

theorem pair_trim (t : Text) : ['-', '-'] <:+: trim t ↔ ['-', '-'] <:+: t := by
  have hblank : isBlank '-' = false := by decide
  rw [trim, trimEnd, pair_reverse, pair_dropWhile hblank, pair_reverse, trimStart, pair_dropWhile hblank]

/-- A text as the replacement of pairs of hyphens reads it: two hyphens at once where they are found, or else one
character. -/
theorem hyphens_induction {motive : Text → Prop} (nil : motive [])
    (pair : ∀ rest, motive rest → motive ('-' :: '-' :: rest))
    (single : ∀ c rest, (c = '-' → rest.head? ≠ some '-') → motive rest → motive (c :: rest)) (t : Text) :
    motive t := by
  induction hn : t.length using Nat.strongRecOn generalizing t with
  | ind n ih =>
    subst hn
    cases t with
    | nil => exact nil
    | cons c rest =>
      have hrest : motive rest := ih _ (by simp) rest rfl
      by_cases hc : c = '-' → rest.head? ≠ some '-'
      · exact single c rest hc hrest
      · obtain ⟨rfl, hd⟩ : c = '-' ∧ rest.head? = some '-' := by simpa using hc
        obtain ⟨rest, rfl⟩ := List.head?_eq_some_iff.mp hd
        have hless : rest.length < ('-' :: '-' :: rest).length := by
          simp only [List.length_cons]
          omega
        exact pair rest (ih _ hless rest rfl)

theorem replace_pair (rest : Text) :
    replace ('-' :: '-' :: rest) "--" "- -" = '-' :: ' ' :: '-' :: replace rest "--" "- -" :=
  rfl

theorem replace_single {c : Char} {rest : Text} (h : c = '-' → rest.head? ≠ some '-') :
    replace (c :: rest) "--" "- -" = c :: replace rest "--" "- -" := by
  have hs : startsWith (c :: rest) "--".toList = false := by
    rw [← Bool.not_eq_true, startsWith, dropStart?_isSome_iff]
    intro hp
    obtain ⟨hc, hp⟩ := List.cons_prefix_cons.mp hp
    obtain ⟨after, rfl⟩ := hp
    exact h hc.symm rfl
  rw [replace, replaceFrom, hs]
  rfl

theorem head?_replace_hyphens (t : Text) : (replace t "--" "- -").head? = t.head? := by
  induction t using hyphens_induction with
  | nil => rfl
  | pair rest ih => rfl
  | single c rest h ih => rw [replace_single h, List.head?_cons, List.head?_cons]

/-- The replacement leaves two hyphens in a row exactly where there were three. -/
theorem pair_replace_hyphens (t : Text) : ['-', '-'] <:+: replace t "--" "- -" ↔ ['-', '-', '-'] <:+: t := by
  induction t using hyphens_induction with
  | nil => decide
  | pair rest ih =>
    rw [replace_pair, pair_cons, pair_cons, pair_cons, head?_replace_hyphens, ih, triple_pair]
    simp
  | single c rest h ih =>
    rw [replace_single h, pair_cons, head?_replace_hyphens, ih, triple_single h]
    simpa using fun hc hhead => absurd hhead (h hc)

/-- The hyphens at the end of a text left out. -/
def dropEndHyphens (t : Text) : Text :=
  (t.reverse.dropWhile (· == '-')).reverse

theorem dropEndHyphens_cons (c : Char) (t : Text) :
    dropEndHyphens (c :: t) = if c = '-' ∧ dropEndHyphens t = [] then [] else c :: dropEndHyphens t := by
  unfold dropEndHyphens
  rw [List.reverse_cons, List.dropWhile_append]
  by_cases hc : c = '-' <;> by_cases ht : t.reverse.dropWhile (· == '-') = [] <;> simp [hc, ht]

theorem pair_dropEndHyphens_cons (c : Char) (t : Text) :
    ['-', '-'] <:+: dropEndHyphens (c :: t) ↔ c = '-' ∧ (dropEndHyphens t).head? = some '-' ∨
      ['-', '-'] <:+: dropEndHyphens t := by
  rw [← pair_cons, dropEndHyphens_cons]
  split
  · rename_i h
    rw [h.2, pair_cons]
    simp
  · rfl

theorem head?_dropEndHyphens_replace (t : Text) :
    (dropEndHyphens (replace t "--" "- -")).head? = some '-' ↔ t.dropLast.head? = some '-' := by
  induction t using hyphens_induction with
  | nil => decide
  | pair rest ih =>
    rw [replace_pair, dropEndHyphens_cons, dropEndHyphens_cons]
    simp
  | single c rest h ih =>
    rw [replace_single h, dropEndHyphens_cons]
    cases rest with
    | nil => by_cases hc : c = '-' <;> simp [hc, replace, replaceFrom, dropEndHyphens]
    | cons d rest =>
      -- the hyphen in front stays, since no second one follows it
      have hkept : ¬ (c = '-' ∧ dropEndHyphens (replace (d :: rest) "--" "- -") = []) := by
        rintro ⟨hc, hnil⟩
        have hd : d ≠ '-' := fun hd => h hc (by rw [hd, List.head?_cons])
        rw [replace_single (fun he => absurd he hd), dropEndHyphens_cons] at hnil
        simp [hd] at hnil
      rw [if_neg hkept]
      simp

/-- With the hyphens at the end left out, two hyphens in a row are left exactly where there were three before the
last character. -/
theorem pair_dropEndHyphens_replace (t : Text) :
    ['-', '-'] <:+: dropEndHyphens (replace t "--" "- -") ↔ ['-', '-', '-'] <:+: t.dropLast := by
  induction t using hyphens_induction with
  | nil => decide
  | pair rest ih =>
    rw [replace_pair, pair_dropEndHyphens_cons, pair_dropEndHyphens_cons, pair_dropEndHyphens_cons, ih,
      head?_dropEndHyphens_replace, dropEndHyphens_cons ' ']
    cases rest with
    | nil => decide
    | cons d rest => simp [List.dropLast_cons_of_ne_nil, triple_pair]
  | single c rest h ih =>
    rw [replace_single h, pair_dropEndHyphens_cons, ih, head?_dropEndHyphens_replace]
    cases rest with
    | nil => simp
    | cons d rest =>
      have hlast : c = '-' → (d :: rest).dropLast.head? ≠ some '-' := by
        intro hc hhead
        apply h hc
        cases rest with
        | nil => simp at hhead
        | cons e rest => simpa using hhead
      rw [List.dropLast_cons_of_ne_nil (List.cons_ne_nil d rest), triple_single hlast]
      simpa using fun hc hhead => absurd hhead (hlast hc)

end RoffDocBook.Text

namespace RoffDocBook.Document
open Text

/-- A comment with a text in it. -/
def comment (inner : Text) : Text :=
  "<!--" ++ inner ++ "-->"

/-- Whether a text can stand in a comment: it has no two hyphens in a row and does not end in a hyphen. -/
def Commentary (inner : Text) : Prop :=
  ¬ ['-', '-'] <:+: inner ∧ inner.getLast? ≠ some '-'

/-- A text with a blank on either side of it can stand in a comment if it has no two hyphens in a row. -/
theorem commentary_spaced (t : Text) : Commentary (' ' :: (t ++ [' '])) ↔ ¬ ['-', '-'] <:+: t := by
  have hblank : ' ' ≠ '-' := by decide
  have hpair : ['-', '-'] <:+: ' ' :: (t ++ [' ']) ↔ ['-', '-'] <:+: t := by
    rw [pair_cons, pair_append hblank]
    simp [hblank]
  have hlast : (' ' :: (t ++ [' '])).getLast? ≠ some '-' := by
    rw [← List.cons_append, List.getLast?_concat]
    decide
  rw [Commentary, hpair]
  exact and_iff_left hlast

theorem commentary_commentable (t : Text) :
    Commentary (' ' :: (commentable t ++ [' '])) ↔ ¬ ['-', '-', '-'] <:+: t.dropLast := by
  rw [commentary_spaced, ← pair_dropEndHyphens_replace]
  rfl

theorem commentary_trim_commentable (t : Text) :
    Commentary (' ' :: (trim (commentable t) ++ [' '])) ↔ ¬ ['-', '-', '-'] <:+: t.dropLast := by
  rw [commentary_spaced, pair_trim, ← pair_dropEndHyphens_replace]
  rfl

theorem notMem_firedNames (doc : Document) : '-' ∉ (", ".intercalate doc.firedNames).toList := by
  have hnames : ∀ package ∈ Package.all, '-' ∉ package.name.toList := by decide
  rw [String.toList_intercalate]
  apply notMem_join (by decide)
  intro part hpart
  obtain ⟨name, hname, rfl⟩ := List.mem_map.mp hpart
  obtain ⟨package, hpackage, rfl⟩ := List.mem_map.mp (List.mem_mergeSort.mp hname)
  exact hnames package (List.mem_filter.mp hpackage).1

/-- The remark on the origin of the document is a comment. -/
theorem commentary_origin (doc : Document) :
    ∃ inner, doc.origin = comment inner ++ ['\n'] ∧
      (Commentary inner ↔ ¬ ['-', '-', '-'] <:+: doc.name.toList) := by
  have hfired := notMem_firedNames doc
  unfold origin
  generalize (", ".intercalate doc.firedNames).toList = names at hfired ⊢
  let program : Text := "Converted by rofflift 0.1.24 from"
  let spaced : Text := replace doc.name.toList "--" "- -"
  refine ⟨' ' :: (program ++ ' ' :: (spaced ++ ':' :: ' ' :: names) ++ [' ']), ?_, ?_⟩
  · simp [comment, programVersion, program, spaced]
  · have hblank : ' ' ≠ '-' := by decide
    have hcolon : ':' ≠ '-' := by decide
    have hprogram : ¬ ['-', '-'] <:+: program := not_pair (by decide)
    have hnames : ¬ ['-', '-'] <:+: names := not_pair hfired
    rw [commentary_spaced, pair_append hblank, pair_append hcolon, pair_cons, pair_replace_hyphens]
    simp only [hprogram, hnames, hblank, false_and, false_or, or_false]

/-- Every comment is closed where its text ends exactly if no three hyphens in a row are in what it is made from: in
the text without its last character, or in the name of the document. -/
theorem comments_closed (doc : Document) (text body : Text) (h : doc.settings.comments = true) :
    (∃ inner, doc.emitComment text = doc.emit (comment inner) ∧
      (Commentary inner ↔ ¬ ['-', '-', '-'] <:+: text.dropLast)) ∧
    (∃ inner, doc.emitUnhandled text = doc.emit (comment inner) ∧
      (Commentary inner ↔ ¬ ['-', '-', '-'] <:+: text.dropLast)) ∧
    doc.origin <:+ doc.assemble body ∧
    ∃ inner, doc.origin = comment inner ++ ['\n'] ∧
      (Commentary inner ↔ ¬ ['-', '-', '-'] <:+: doc.name.toList) := by
  refine ⟨⟨_, ?_, commentary_trim_commentable text⟩, ⟨_, ?_, commentary_commentable text⟩,
    List.suffix_append .., commentary_origin doc⟩
  · rw [emitComment, if_pos h]
    simp [comment]
  · rw [emitUnhandled]
    simp [comment]

/-- Three hyphens in a row leave two in a comment that was to hold none. -/
theorem comments_closed_unless_triple :
    let doc := start "a---b.1" { comments := true } {}
    doc.settings.comments = true ∧
      (∃ inner, doc.emitComment "a---b" = doc.emit (comment inner) ∧ ¬ Commentary inner) ∧
      (∃ inner, doc.emitUnhandled ".x a--b-" = doc.emit (comment inner) ∧ Commentary inner) ∧
      ∃ inner, doc.origin = comment inner ++ ['\n'] ∧ ¬ Commentary inner := by
  intro doc
  have hcomments : doc.settings.comments = true := rfl
  obtain ⟨⟨inner, hcomment, hi⟩, -, -, last, horigin, hl⟩ := comments_closed doc "a---b" [] hcomments
  obtain ⟨-, ⟨other, hother, ho⟩, -⟩ := comments_closed doc ".x a--b-" [] hcomments
  have hrun : ['-', '-', '-'] <:+: ['a', '-', '-', '-'] := ⟨['a'], [], rfl⟩
  have hname : ['-', '-', '-'] <:+: doc.name.toList := by
    have hlist : doc.name.toList = ['a'] ++ ['-', '-', '-'] ++ ['b', '.', '1'] := by decide
    rw [hlist]
    exact List.infix_append ..
  have hnone : ¬ ['-', '-', '-'] <:+: ['.', 'x', ' ', 'a', '-', '-', 'b'] := by
    simp [triple_cons, List.cons_prefix_cons]
  exact ⟨hcomments, ⟨inner, hcomment, fun h => hi.mp h hrun⟩, ⟨other, hother, ho.mpr hnone⟩,
    last, horigin, fun h => hl.mp h hname⟩

end RoffDocBook.Document
