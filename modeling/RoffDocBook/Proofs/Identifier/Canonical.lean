import Mathlib.Data.List.Basic
import RoffDocBook.Proofs.Markup.Nesting
import RoffDocBook.Proofs.Slug
import RoffDocBook.Proofs.Text.Words

/-! The canonical form of identifiers. Every title gives an identifier of this form, and the texts of this form are the
ones that are their own identifiers. -/
namespace RoffDocBook.Slug
open Text

/-- A small letter or a digit. -/
def IsSmall (c : Char) : Prop :=
  c.isLower = true ∨ c.isDigit = true

instance (c : Char) : Decidable (IsSmall c) :=
  inferInstanceAs (Decidable (_ ∨ _))

/-- A small letter with small letters and digits after it, and then groups of at least one small letter or digit, with a
hyphen in front of each. -/
inductive Canonical : Text → Prop
  | intro {letter : Char} {first : Text} {groups : List Text} (hletter : letter.isLower = true)
    (hfirst : ∀ c ∈ first, IsSmall c) (hgroups : ∀ group ∈ groups, group ≠ [] ∧ ∀ c ∈ group, IsSmall c) :
    Canonical (letter :: (first ++ groups.flatMap ('-' :: ·)))

/-- A text that goes on an identifier and may end it, where `dashed` tells that a hyphen or nothing comes before it. -/
inductive Completes : Bool → Text → Prop
  | nil : Completes false []
  | small {dashed : Bool} {c : Char} {t : Text} (hc : IsSmall c) (h : Completes false t) : Completes dashed (c :: t)
  | hyphen {t : Text} (h : Completes true t) : Completes false ('-' :: t)

/-! Small letters and digits. -/

theorem isAlpha_of_isLower {c : Char} (h : c.isLower = true) : c.isAlpha = true := by
  change (c.isUpper || c.isLower) = true
  rw [h, Bool.or_true]

theorem isAlphanum_of_isSmall {c : Char} (h : IsSmall c) : c.isAlphanum = true := by
  rcases h with h | h
  · rw [Char.isAlphanum, isAlpha_of_isLower h, Bool.true_or]
  · rw [Char.isAlphanum, h, Bool.or_true]

theorem isSmall_toLower {c : Char} (h : c.isAlphanum = true) : IsSmall c.toLower :=
  forall_isAlphanum (p := fun c => IsSmall c.toLower) (by decide) c h

theorem toLower_of_isSmall {c : Char} (h : IsSmall c) : c.toLower = c :=
  forall_isAlphanum (p := fun c => IsSmall c → c.toLower = c) (by decide) c (isAlphanum_of_isSmall h) h

theorem isLower_of_isAlpha {c : Char} (h : IsSmall c) (ha : c.isAlpha = true) : c.isLower = true :=
  forall_isAlphanum (p := fun c => IsSmall c → c.isAlpha = true → c.isLower = true) (by decide) c
    (isAlphanum_of_isSmall h) h ha

theorem isBlank_of_allowed {c : Char} (h : Allowed c) : isBlank c = false := by
  rcases h with rfl | h
  · decide
  · exact forall_isAlphanum (p := fun c => isBlank c = false) (by decide) c h

theorem not_isSmall_hyphen : ¬ IsSmall '-' := by
  decide

/-! What is left of a title. -/

/-- All characters but a hyphen at the end go on an identifier. -/
theorem squeeze_completes (dashed : Bool) (t : Text) :
    squeeze dashed t = [] ∨ Completes dashed (squeeze dashed t) ∨
      ∃ body, Completes dashed body ∧ squeeze dashed t = body ++ ['-'] := by
  induction t generalizing dashed with
  | nil => exact .inl rfl
  | cons c cs ih =>
    rw [squeeze]
    split
    · rename_i hc
      have hsmall := isSmall_toLower hc
      right
      rcases ih false with hnone | hrest | ⟨body, hbody, he⟩
      · rw [hnone]
        exact .inl (.small hsmall .nil)
      · exact .inl (.small hsmall hrest)
      · rw [he]
        exact .inr ⟨c.toLower :: body, .small hsmall hbody, rfl⟩
    · split
      · rename_i hopen
        obtain rfl : dashed = false := by
          cases dashed
          · rfl
          · cases hopen
        right
        rcases ih true with hnone | hrest | ⟨body, hbody, he⟩
        · rw [hnone]
          exact .inr ⟨[], .nil, rfl⟩
        · exact .inl (.hyphen hrest)
        · rw [he]
          exact .inr ⟨'-' :: body, .hyphen hbody, rfl⟩
      · exact ih dashed

namespace Completes
variable {dashed : Bool} {t : Text}

theorem not_concat_hyphen : ¬ Completes dashed (t ++ ['-']) := by
  intro h
  induction t generalizing dashed with
  | nil =>
    cases h with
    | small hc _ => exact not_isSmall_hyphen hc
    | hyphen h => cases h
  | cons c cs ih =>
    cases h with
    | small _ h => exact ih h
    | hyphen h => exact ih h

theorem dropEnd?_eq_none (h : Completes dashed t) : dropEnd? ['-'] t = none := by
  cases hd : dropEnd? ['-'] t with
  | none => rfl
  | some before =>
    rw [dropEnd?_eq_some hd] at h
    exact absurd h not_concat_hyphen

theorem allowed (h : Completes dashed t) : ∀ c ∈ t, Allowed c := by
  induction h with
  | nil => exact fun _ hc => absurd hc List.not_mem_nil
  | small hc _ ih => exact List.forall_mem_cons.mpr ⟨.inr (isAlphanum_of_isSmall hc), ih⟩
  | hyphen _ ih => exact List.forall_mem_cons.mpr ⟨.inl rfl, ih⟩

theorem squeeze_eq (h : Completes dashed t) : squeeze dashed t = t := by
  induction h with
  | nil => rfl
  | small hc _ ih => rw [squeeze, if_pos (isAlphanum_of_isSmall hc), toLower_of_isSmall hc, ih]
  | hyphen _ ih => rw [squeeze, if_neg (by decide), if_pos (by decide), ih]

theorem append {first : Text} (hfirst : ∀ c ∈ first, IsSmall c) (h : Completes false t) :
    Completes false (first ++ t) := by
  induction first with
  | nil => exact h
  | cons c cs ih =>
    rw [List.forall_mem_cons] at hfirst
    exact .small hfirst.1 (ih hfirst.2)

theorem of_groups {groups : List Text} (hgroups : ∀ group ∈ groups, group ≠ [] ∧ ∀ c ∈ group, IsSmall c) :
    Completes false (groups.flatMap ('-' :: ·)) := by
  induction groups with
  | nil => exact .nil
  | cons group groups ih =>
    obtain ⟨⟨hne, hgroup⟩, hrest⟩ := List.forall_mem_cons.mp hgroups
    obtain ⟨c, cs, rfl⟩ := List.exists_cons_of_ne_nil hne
    rw [List.forall_mem_cons] at hgroup
    exact .hyphen (.small hgroup.1 (append hgroup.2 (ih hrest)))

theorem exists_groups (h : Completes dashed t) :
    ∃ first, ∃ groups : List Text, t = first ++ groups.flatMap ('-' :: ·) ∧ (dashed = true → first ≠ []) ∧
      (∀ c ∈ first, IsSmall c) ∧ ∀ group ∈ groups, group ≠ [] ∧ ∀ c ∈ group, IsSmall c := by
  induction h with
  | nil => exact ⟨[], [], rfl, nofun, nofun, nofun⟩
  | @small _ c _ hc _ ih =>
    obtain ⟨first, groups, rfl, _, hfirst, hgroups⟩ := ih
    exact ⟨c :: first, groups, rfl, fun _ => List.cons_ne_nil c first,
      List.forall_mem_cons.mpr ⟨hc, hfirst⟩, hgroups⟩
  | hyphen _ ih =>
    obtain ⟨first, groups, rfl, hne, hfirst, hgroups⟩ := ih
    exact ⟨[], first :: groups, rfl, nofun, nofun, List.forall_mem_cons.mpr ⟨⟨hne rfl, hfirst⟩, hgroups⟩⟩

theorem canonical_cons (h : Completes false t) {letter : Char} (hletter : letter.isLower = true) :
    Canonical (letter :: t) := by
  obtain ⟨first, groups, rfl, _, hfirst, hgroups⟩ := h.exists_groups
  exact .intro hletter hfirst hgroups

end Completes

theorem Canonical.exists_completes {t : Text} (h : Canonical t) :
    ∃ letter rest, t = letter :: rest ∧ letter.isLower = true ∧ Completes false rest := by
  obtain ⟨hletter, hfirst, hgroups⟩ := h
  exact ⟨_, _, rfl, hletter, .append hfirst (.of_groups hgroups)⟩

theorem canonical_ofTitle (title : Text) : Canonical (ofTitle title) := by
  have hbody : ∀ body, (dropEnd? ['-'] (squeeze true (trim (Markup.stripTags title)))).getD
      (squeeze true (trim (Markup.stripTags title))) = body → body = [] ∨ Completes true body := by
    rintro _ rfl
    rcases squeeze_completes true (trim (Markup.stripTags title)) with hnone | hall | ⟨body, hbody, he⟩
    · rw [hnone]
      exact .inl rfl
    · rw [hall.dropEnd?_eq_none]
      exact .inr hall
    · rw [he, dropEnd?_append]
      exact .inr hbody
  unfold ofTitle
  dsimp only
  generalize (dropEnd? ['-'] (squeeze true (trim (Markup.stripTags title)))).getD
    (squeeze true (trim (Markup.stripTags title))) = body at hbody
  rcases hbody body rfl with rfl | hcompletes
  · exact Completes.nil.canonical_cons (by decide)
  · cases hcompletes with
    | small hc hrest =>
      dsimp only
      split
      · rename_i ha
        exact hrest.canonical_cons (isLower_of_isAlpha hc ha)
      · exact (Completes.small hc hrest).canonical_cons (by decide)

/-- The texts of the canonical form are the ones that are their own identifiers. -/
theorem ofTitle_eq_self_iff {t : Text} : ofTitle t = t ↔ Canonical t := by
  refine ⟨fun h => h ▸ canonical_ofTitle t, fun h => ?_⟩
  obtain ⟨letter, rest, rfl, hletter, hrest⟩ := h.exists_completes
  have hwhole : Completes true (letter :: rest) := .small (.inl hletter) hrest
  have hless : '<' ∉ letter :: rest := fun hc => absurd (hwhole.allowed _ hc) (by unfold Allowed; decide)
  have hvisible : ∀ c ∈ letter :: rest, isBlank c = false := fun c hc => isBlank_of_allowed (hwhole.allowed c hc)
  have hstrip : Markup.stripTags (letter :: rest) = letter :: rest := by
    have htags := Markup.stripTags_append hless []
    rwa [List.append_nil, show Markup.stripTags [] = [] from rfl, List.append_nil] at htags
  have htrim : trim (letter :: rest) = letter :: rest := by
    have hends : trim ([] ++ (letter :: rest) ++ []) = letter :: rest :=
      trim_append nofun nofun (fun c hc => hvisible c (List.mem_of_mem_head? hc))
        (fun c hc => hvisible c (List.mem_of_mem_getLast? hc))
    rwa [List.nil_append, List.append_nil] at hends
  rw [ofTitle, hstrip, htrim, hwhole.squeeze_eq, hwhole.dropEnd?_eq_none]
  exact if_pos (isAlpha_of_isLower hletter)

/-- The identifier of every title is in the canonical form, and it is its own identifier. -/
theorem ofTitle_canonical_idempotent (title : Text) :
    Canonical (ofTitle title) ∧ ofTitle (ofTitle title) = ofTitle title :=
  ⟨canonical_ofTitle title, ofTitle_eq_self_iff.mpr (canonical_ofTitle title)⟩

/-- A hyphen is taken off at the end, and a letter is put before a digit. -/
example : ofTitle "1. A__b -" = "x1-a-b" := by
  decide

end RoffDocBook.Slug
