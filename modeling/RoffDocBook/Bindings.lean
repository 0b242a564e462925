/-! Names bound to values, the most recent binding first. A name is bound at most once. -/
namespace RoffDocBook

/-- A finite map from names, kept as the list of its bindings. -/
abbrev Bindings (α : Type) := List (String × α)

namespace Bindings
variable {α : Type}

def get? (table : Bindings α) (name : String) : Option α :=
  List.lookup name table

def contains (table : Bindings α) (name : String) : Bool :=
  (table.get? name).isSome

/-- The bindings of all other names. -/
def remove (table : Bindings α) (name : String) : Bindings α :=
  table.filter fun binding => binding.1 != name

/-- The table in which the name stands for the value. -/
def put (table : Bindings α) (name : String) (value : α) : Bindings α :=
  (name, value) :: table.remove name

end Bindings

end RoffDocBook

/-! What a name stands for after names have been bound and removed. -/
namespace RoffDocBook

namespace Bindings
variable {α : Type}

theorem get?_cons (table : Bindings α) (name other : String) (value : α) :
    get? ((name, value) :: table) other = if other = name then some value else table.get? other := by
  rw [get?, List.lookup_cons]
  by_cases h : other = name
  · rw [if_pos h, h, beq_self_eq_true]
  · rw [if_neg h, beq_eq_false_iff_ne.mpr h]
    rfl

@[simp] theorem get?_remove (table : Bindings α) (name other : String) :
    (table.remove name).get? other = if other = name then none else table.get? other := by
  induction table with
  | nil => exact (ite_self _).symm
  | cons binding rest ih =>
    obtain ⟨bound, value⟩ := binding
    rw [remove, List.filter_cons, get?_cons]
    by_cases hb : bound = name
    · rw [if_neg (by simp [hb]), ← remove, ih]
      by_cases ho : other = name
      · rw [if_pos ho, if_pos ho]
      · rw [if_neg ho, if_neg ho, if_neg fun h => ho (h.trans hb)]
    · rw [if_pos (by simpa using hb), ← remove, get?_cons, ih]
      by_cases ho : other = name
      · rw [if_pos ho, if_pos ho, if_neg fun h => hb (h.symm.trans ho)]
      · rw [if_neg ho, if_neg ho]

@[simp] theorem get?_put (table : Bindings α) (name other : String) (value : α) :
    (table.put name value).get? other = if other = name then some value else table.get? other := by
  rw [put, get?_cons, get?_remove]
  by_cases h : other = name
  · rw [if_pos h, if_pos h]
  · rw [if_neg h, if_neg h, if_neg h]

/-- What is found in a table stands in it. -/
theorem mem_of_get? {table : Bindings α} {name : String} {value : α} (h : table.get? name = some value) :
    (name, value) ∈ table := by
  obtain ⟨before, after, rfl, _⟩ := List.lookup_eq_some_iff.mp h
  exact List.mem_append_right _ List.mem_cons_self

end Bindings

end RoffDocBook
