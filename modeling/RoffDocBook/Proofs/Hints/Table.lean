import RoffDocBook.Hints
import RoffDocBook.Markup.Emphasis

/-! Tables of hints: what a token stands for after a change, and the order of the tokens. -/
namespace RoffDocBook.HintTable
open Text

theorem get?_cons (entry : Text × HintTag) (table : HintTable) (token : Text) :
    get? (entry :: table) token = if token = entry.1 then some entry.2 else get? table token := by
  rw [get?, List.lookup_cons]
  by_cases h : token = entry.1
  · rw [if_pos h, h, beq_self_eq_true]
  · rw [if_neg h, beq_eq_false_iff_ne.mpr h]
    rfl

@[simp] theorem get?_put (token : Text) (tag : HintTag) (table : HintTable) (other : Text) :
    get? (put token tag table) other = if other = token then some tag else get? table other := by
  induction table with
  | nil => exact get?_cons (token, tag) [] other
  | cons entry rest ih =>
    rw [put]
    split
    · rename_i hsame
      rw [get?_cons, get?_cons, ← hsame]
      split <;> rfl
    · split
      · exact get?_cons ..
      · rename_i hne _
        rw [get?_cons, ih, get?_cons]
        by_cases ho : other = token
        · rw [if_pos ho, if_pos ho, if_neg fun h => hne (ho.symm.trans h)]
        · rw [if_neg ho, if_neg ho]

/-- A token that a table has is one that it has overridden by any other. -/
theorem isSome_get?_override {table : HintTable} {token : Text} (h : (get? table token).isSome) (newer : HintTable) :
    (get? (table.override newer) token).isSome := by
  induction newer generalizing table with
  | nil => exact h
  | cons entry newer ih =>
    refine ih ?_
    rw [get?_put]
    split
    · rfl
    · exact h

theorem override_append (table first second : HintTable) :
    table.override (first ++ second) = (table.override first).override second :=
  List.foldl_append

/-- The tokens stand in ascending order, so that no two are the same. -/
def Ascending (table : HintTable) : Prop :=
  table.Pairwise fun a b => a.1 < b.1

theorem mem_put {token : Text} {tag : HintTag} {table : HintTable} {entry : Text × HintTag}
    (h : entry ∈ put token tag table) : entry = (token, tag) ∨ entry ∈ table := by
  induction table with
  | nil => exact .inl (List.mem_singleton.mp h)
  | cons first rest ih =>
    rw [put] at h
    split at h
    · exact (List.mem_cons.mp h).imp_right (List.mem_cons_of_mem first)
    · split at h
      · exact List.mem_cons.mp h
      · rcases List.mem_cons.mp h with rfl | h
        · exact .inr List.mem_cons_self
        · exact (ih h).imp_right (List.mem_cons_of_mem first)

theorem ascending_put (token : Text) (tag : HintTag) {table : HintTable} (h : table.Ascending) :
    Ascending (put token tag table) := by
  induction table with
  | nil => exact List.pairwise_singleton _ _
  | cons first rest ih =>
    obtain ⟨hfirst, hrest⟩ := List.pairwise_cons.mp h
    rw [put]
    split
    · rename_i hsame
      exact List.pairwise_cons.mpr ⟨fun entry he => hsame ▸ hfirst entry he, hrest⟩
    · rename_i hne
      split
      · rename_i hlt
        refine List.pairwise_cons.mpr ⟨fun entry he => ?_, h⟩
        rcases List.mem_cons.mp he with rfl | he
        · exact hlt
        · exact List.lt_trans hlt (hfirst entry he)
      · rename_i hnlt
        refine List.pairwise_cons.mpr ⟨fun entry he => ?_, ih hrest⟩
        rcases mem_put he with rfl | he
        · exact (List.le_iff_lt_or_eq.mp (List.not_lt.mp hnlt)).resolve_right (Ne.symm hne)
        · exact hfirst entry he

theorem ascending_override {table : HintTable} (h : table.Ascending) (newer : HintTable) :
    (table.override newer).Ascending := by
  induction newer generalizing table with
  | nil => exact h
  | cons entry newer ih => exact ih (ascending_put _ _ h)

/-- A token after all others is added at the end. -/
theorem put_of_forall_lt {token : Text} {tag : HintTag} {table : HintTable} (h : ∀ entry ∈ table, entry.1 < token) :
    put token tag table = table ++ [(token, tag)] := by
  induction table with
  | nil => rfl
  | cons first rest ih =>
    obtain ⟨hfirst, hrest⟩ := List.forall_mem_cons.mp h
    rw [put, if_neg fun hs => List.lt_irrefl _ (hs ▸ hfirst), if_neg (List.lt_asymm hfirst), ih hrest]
    rfl

theorem override_of_ascending {table newer : HintTable} (h : Ascending (table ++ newer)) :
    table.override newer = table ++ newer := by
  induction newer generalizing table with
  | nil => exact (List.append_nil table).symm
  | cons entry newer ih =>
    have hput : put entry.1 entry.2 table = table ++ [entry] :=
      put_of_forall_lt fun before hb => (List.pairwise_append.mp h).2.2 before hb entry List.mem_cons_self
    have hmore : Ascending (table ++ [entry] ++ newer) := by
      rwa [List.append_assoc]
    rw [override, List.foldl_cons, hput]
    exact (ih hmore).trans (List.append_assoc ..)

/-- A table in order is what its entries make of an empty one. -/
theorem override_nil_of_ascending {table : HintTable} (h : table.Ascending) : override [] table = table :=
  override_of_ascending h

end RoffDocBook.HintTable

/-! Hints that a document adds while it is converted: only tokens without a hint get one, and the hints of the run stay as
they are. -/
namespace RoffDocBook.Hints
open Text Markup

theorem get?_eq_none_iff (hints : Hints) (token : Text) :
    hints.get? token = none ↔
      HintTable.get? hints.document token = none ∧ HintTable.get? hints.global token = none := by
  unfold get?
  cases HintTable.get? hints.document token with
  | none => exact ⟨fun h => ⟨rfl, h⟩, fun h => h.2⟩
  | some tag => exact ⟨fun h => (by cases h), fun h => (by cases h.1)⟩

/-- The second hints are the first ones with more of them for the document. -/
structure Learns (a b : Hints) : Prop where
  global : b.global = a.global
  document : ∃ learned : HintTable, b.document = a.document.override learned ∧
    ∀ entry ∈ learned, a.get? entry.1 = none

namespace Learns
variable {a b c : Hints}

theorem refl (a : Hints) : Learns a a :=
  ⟨rfl, [], rfl, by simp⟩

/-- A token that has no hint after others are learned had none before. -/
theorem get?_eq_none (h : Learns a b) {token : Text} (hb : b.get? token = none) : a.get? token = none := by
  obtain ⟨learned, hlearned, -⟩ := h.document
  obtain ⟨hdocument, hglobal⟩ := (get?_eq_none_iff b token).mp hb
  refine (get?_eq_none_iff a token).mpr ⟨?_, h.global ▸ hglobal⟩
  cases ha : HintTable.get? a.document token with
  | none => rfl
  | some tag =>
    have hkept := HintTable.isSome_get?_override (Option.isSome_iff_exists.mpr ⟨tag, ha⟩) learned
    rw [← hlearned, hdocument] at hkept
    cases hkept

theorem trans (h : Learns a b) (k : Learns b c) : Learns a c := by
  obtain ⟨first, hfirst, hunknown⟩ := h.document
  obtain ⟨second, hsecond, hunknown'⟩ := k.document
  refine ⟨k.global.trans h.global, first ++ second, ?_, ?_⟩
  · rw [hsecond, hfirst, HintTable.override_append]
  · intro entry he
    rcases List.mem_append.mp he with he | he
    · exact hunknown entry he
    · exact h.get?_eq_none (hunknown' entry he)

/-- A token without a hint gets one. -/
theorem set {token : Text} (h : a.get? token = none) (tag : HintTag) : Learns a (a.set .document token tag) := by
  unfold Hints.set
  split
  · exact .refl a
  · refine ⟨rfl, [(token, tag)], rfl, ?_⟩
    intro entry he
    rwa [List.mem_singleton.mp he]

end Learns

/-- Guesses are made only for tokens without a hint. -/
theorem learns_inferHints (body : Text) (hints : Hints) : Learns hints (inferHints body hints) := by
  unfold inferHints
  generalize items Emphasized.read? body = found
  induction found generalizing hints with
  | nil => exact .refl hints
  | cons item rest ih =>
    refine Learns.trans ?_ (ih _)
    cases item with
    | char c => exact .refl hints
    | found emphasized =>
      dsimp only
      split
      · exact .refl hints
      · rename_i hunknown
        split
        · refine Learns.set ?_ _
          rw [Bool.or_eq_true, not_or] at hunknown
          exact Option.not_isSome_iff_eq_none.mp hunknown.1
        · exact .refl hints

end RoffDocBook.Hints
