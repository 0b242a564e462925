import RoffDocBook.Markup.Scan

/-! What becomes of a text when the things that a recogniser finds in it are replaced. -/
namespace RoffDocBook.Markup
open Text

variable {recognise : Option Char → Text → Option (Text × Nat)}

theorem replaceFoundFrom_skip (recognise : Option Char → Text → Option (Text × Nat)) (previous : Option Char)
    (passed rest : Text) :
    ∃ last, replaceFoundFrom recognise passed.length previous (passed ++ rest) =
      replaceFoundFrom recognise 0 last rest := by
  induction passed generalizing previous with
  | nil => exact ⟨previous, rfl⟩
  | cons c passed ih => exact ih (some c)

/-- A recogniser that finds the same whatever the character before is. -/
def Memoryless (recognise : Option Char → Text → Option (Text × Nat)) : Prop :=
  ∀ a b t, recognise a t = recognise b t

namespace Memoryless
variable (h : Memoryless recognise)
include h

theorem replaceFoundFrom (skip : Nat) (a b : Option Char) (t : Text) :
    replaceFoundFrom recognise skip a t = replaceFoundFrom recognise skip b t := by
  cases t with
  | nil => cases skip <;> rfl
  | cons c t =>
    cases skip with
    | zero => rw [Markup.replaceFoundFrom, Markup.replaceFoundFrom, h a b]
    | succ => rfl

theorem replaceFound_of_none {c : Char} {rest : Text} (hn : recognise none (c :: rest) = none) :
    replaceFound recognise (c :: rest) = c :: replaceFound recognise rest := by
  rw [replaceFound, Markup.replaceFoundFrom, hn]
  exact congrArg (c :: ·) (h.replaceFoundFrom 0 (some c) none rest)

theorem replaceFound_text {t : Text} (hn : ∀ c ∈ t, ∀ rest, recognise none (c :: rest) = none) (rest : Text) :
    replaceFound recognise (t ++ rest) = t ++ replaceFound recognise rest := by
  induction t with
  | nil => rfl
  | cons c t ih =>
    rw [List.forall_mem_cons] at hn
    rw [List.cons_append, h.replaceFound_of_none (hn.1 _), ih hn.2]
    rfl

theorem replaceFound_found {found new : Text} (hne : found ≠ []) {rest : Text}
    (hf : recognise none (found ++ rest) = some (new, found.length)) :
    replaceFound recognise (found ++ rest) = new ++ replaceFound recognise rest := by
  cases found with
  | nil => exact absurd rfl hne
  | cons c found =>
    obtain ⟨last, hskip⟩ := replaceFoundFrom_skip recognise (some c) found rest
    rw [replaceFound, List.cons_append, Markup.replaceFoundFrom, ← List.cons_append, hf]
    exact congrArg (new ++ ·) (hskip.trans (h.replaceFoundFrom 0 last none rest))

end Memoryless

/-- A text and what it becomes, part by part: a character that nothing begins with is kept, and what is found is
replaced. -/
inductive Rewrites (recognise : Option Char → Text → Option (Text × Nat)) : Option Char → Text → Text → Prop where
  | nil {previous : Option Char} : Rewrites recognise previous [] []
  | keep {previous : Option Char} {c : Char} {rest out : Text} (h : recognise previous (c :: rest) = none)
      (hr : Rewrites recognise (some c) rest out) : Rewrites recognise previous (c :: rest) (c :: out)
  | swap {previous last : Option Char} {found rest new out : Text}
      (h : recognise previous (found ++ rest) = some (new, found.length)) (hr : Rewrites recognise last rest out) :
      Rewrites recognise previous (found ++ rest) (new ++ out)

namespace Rewrites

/-- So a text is rewritten by a recogniser that finds what the text begins with. -/
theorem replaceFoundFrom
    (h : ∀ {previous t new length}, recognise previous t = some (new, length) →
      ∃ found rest, found ≠ [] ∧ t = found ++ rest ∧ length = found.length)
    (previous : Option Char) (t : Text) : Rewrites recognise previous t (replaceFoundFrom recognise 0 previous t) := by
  induction hn : t.length using Nat.strongRecOn generalizing previous t with
  | ind n ih =>
    cases t with
    | nil => exact .nil
    | cons c rest =>
      rw [List.length_cons] at hn
      rw [Markup.replaceFoundFrom]
      cases hc : recognise previous (c :: rest) with
      | none => exact .keep hc (ih rest.length (by omega) (some c) rest rfl)
      | some answer =>
        obtain ⟨new, length⟩ := answer
        obtain ⟨found, after, hne, hshape, rfl⟩ := h hc
        obtain ⟨d, found, rfl⟩ := List.exists_cons_of_ne_nil hne
        rw [List.cons_append] at hshape
        obtain ⟨rfl, rfl⟩ := List.cons.inj hshape
        obtain ⟨last, hskip⟩ := replaceFoundFrom_skip recognise (some c) found after
        have hlt : after.length < n := by
          rw [List.length_append] at hn
          omega
        have hafter := ih after.length hlt last after rfl
        rw [← hskip] at hafter
        rw [← List.cons_append] at hc ⊢
        exact .swap hc hafter

/-- Where nothing is found in the first part of a text, that part is kept. -/
theorem kept {previous : Option Char} {t rest out : Text}
    (h : ∀ c s, c :: s <:+ t → ∀ before, recognise before (c :: s ++ rest) = none)
    (hr : Rewrites recognise previous (t ++ rest) out) :
    ∃ last more, out = t ++ more ∧ Rewrites recognise last rest more := by
  induction t generalizing previous out with
  | nil => exact ⟨previous, out, rfl, hr⟩
  | cons c t ih =>
    have hnone := h c t List.suffix_rfl previous
    generalize ht : c :: t ++ rest = whole at hr hnone
    cases hr with
    | nil => cases ht
    | keep _ hr =>
      obtain ⟨rfl, rfl⟩ := List.cons.inj ht
      obtain ⟨last, more, rfl, hmore⟩ := ih (fun d s hs => h d s (hs.trans (List.suffix_cons _ _))) hr
      exact ⟨last, more, rfl, hmore⟩
    | swap hs _ =>
      rw [hs] at hnone
      cases hnone

end Rewrites
end RoffDocBook.Markup
