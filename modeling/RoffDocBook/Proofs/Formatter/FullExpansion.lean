import RoffDocBook.Bindings
import RoffDocBook.Proofs.Formatter.References
import RoffDocBook.Proofs.Text.Words

/-! Repeated replacement of the references on a line is its full expansion. A pass replaces the references that it
finds, so that they nest once less in what is left, and the full expansion stays what it was. -/
namespace RoffDocBook.Formatter
open Text
variable {s : State} {t : Text}

namespace State

theorem expandOnce_kept {c : Char} (hc : c ≠ '*' ∧ (c = '$' → s.invocations = [])) (t : Text) :
    s.expandOnce ('\\' :: c :: t) = '\\' :: c :: s.expandOnce t := by
  by_cases hargument : c = '$'
  · subst hargument
    exact expandOnce_unbound (hc.2 rfl) t
  · exact s.expandOnce_escape ⟨hc.1, hargument⟩ t

theorem expandOnce_string {name rest : Text} (h : Named t name rest) :
    s.expandOnce ('\\' :: '*' :: t) = s.stringValue name ++ s.expandOnce rest := by
  rw [expandOnce, h.readName]
  rfl

theorem expandOnce_argued {own : Invocation} {outer : List Invocation} {value rest : Text}
    (hi : s.invocations = own :: outer) (h : Argued own t value rest) :
    s.expandOnce ('\\' :: '$' :: t) = value ++ s.expandOnce rest := by
  rw [expandOnce_argument hi, h.argumentText]

theorem expandOnce_backslash : s.expandOnce ['\\'] = ['\\'] := by
  simp [expandOnce]

/-- The strings nest in fifteen steps at most, so that a line nests in no more steps than there are passes. What a
reference is replaced by ends outside all references; and arguments and the name of a macro hold no escapes. -/
structure Expandable (s : State) : Prop where
  nested : ∀ name value, s.strings.get? name = some value → Nests s 15 value
  whole : ∀ name value, s.strings.get? name = some value → Whole s value
  arguments : ∀ own ∈ s.invocations.head?, ∀ argument ∈ own.arguments, '\\' ∉ argument
  name : ∀ own ∈ s.invocations.head?, '\\' ∉ own.name.toList

theorem Expandable.whole_stringValue (h : s.Expandable) (name : Text) : Whole s (s.stringValue name) := by
  rw [stringValue]
  cases hget : s.strings.get? (stringName (String.ofList name)) with
  | none => exact .nil
  | some value => exact h.whole _ value hget

end State

theorem notMem_nth {arguments : List Text} {c : Char} (h : ∀ argument ∈ arguments, c ∉ argument)
    (number : Option Nat) : c ∉ Piece.nth arguments number := by
  unfold Piece.nth
  split
  · rename_i n
    rw [List.getD_eq_getElem?_getD]
    cases hn : arguments[n]? with
    | none => exact List.not_mem_nil
    | some argument => exact h argument (List.mem_of_getElem? hn)
  · exact List.not_mem_nil

/-- What a reference to an argument stands for holds no escapes. -/
theorem Argued.notMem (h : s.Expandable) {own : Invocation} {outer : List Invocation}
    (hi : s.invocations = own :: outer) {value rest : Text} (ha : Argued own t value rest) : '\\' ∉ value := by
  have hown : own ∈ s.invocations.head? := by
    rw [hi]
    rfl
  cases ha with
  | all => exact notMem_join (by decide) (h.arguments own hown)
  | quoted =>
    refine notMem_join (by decide) (List.forall_mem_map.mpr fun argument hargument => ?_)
    have hclean := h.arguments own hown argument hargument
    simp [hclean]
  | name => exact h.name own hown
  | digit | numbered => exact notMem_nth (h.arguments own hown) _
  | other | missing => exact List.not_mem_nil

/-! One pass. -/

theorem Nests.expandOnce_eq (h : Nests s 0 t) : s.expandOnce t = t := by
  generalize hn : 0 = n at h
  induction h with
  | nil => rw [State.expandOnce]
  | char hc _ ih => rw [s.expandOnce_cons hc, ih hn]
  | backslash => exact State.expandOnce_backslash
  | escape hc _ ih => rw [State.expandOnce_kept hc, ih hn]
  | string | argument => cases hn

/-- A pass leaves references that nest once less. -/
theorem Nests.expandOnce (hs : s.Expandable) {n : Nat} (h : Nests s (n + 1) t) : Nests s n (s.expandOnce t) := by
  generalize hn : n + 1 = m at h
  induction h with
  | nil =>
    rw [State.expandOnce]
    exact .nil
  | char hc _ ih =>
    rw [s.expandOnce_cons hc]
    exact .char hc (ih hn)
  | backslash =>
    rw [State.expandOnce_backslash]
    exact .backslash
  | escape hc _ ih =>
    rw [State.expandOnce_kept hc]
    exact .escape hc (ih hn)
  | string hname hvalue _ _ ih =>
    rw [State.expandOnce_string hname]
    rw [Nat.add_right_cancel_iff] at hn
    subst hn
    exact .append (hs.whole_stringValue _) hvalue (ih rfl)
  | argument hi ha _ ih =>
    have hclean := ha.notMem hs hi
    rw [State.expandOnce_argued hi ha]
    exact .append (whole_of_notMem hclean) (nests_of_notMem hclean n) (ih hn)

/-- A pass does not change what the full expansion is. -/
theorem Expands.of_expandOnce (hs : s.Expandable) {u : Text} (h : Expands s (s.expandOnce t) u) : Expands s t u := by
  have hnests : Nests s 16 t := nests_of_strings hs.nested t
  generalize 16 = n at hnests
  induction hnests generalizing u with
  | nil => rwa [State.expandOnce] at h
  | char hc _ ih =>
    rw [s.expandOnce_cons hc] at h
    obtain ⟨v, rfl, hv⟩ := h.of_char hc
    exact .char hc (ih hv)
  | backslash => rwa [State.expandOnce_backslash] at h
  | escape hc _ ih =>
    rw [State.expandOnce_kept hc] at h
    obtain ⟨v, rfl, hv⟩ := h.of_escape hc
    exact .escape hc (ih hv)
  | string hname _ _ _ ih =>
    rw [State.expandOnce_string hname] at h
    obtain ⟨v, w, rfl, hv, hw⟩ := h.split (hs.whole_stringValue _)
    exact .string hname hv (ih hw)
  | argument hi ha _ ih =>
    have hclean := ha.notMem hs hi
    rw [State.expandOnce_argued hi ha] at h
    obtain ⟨v, w, rfl, hv, hw⟩ := h.split (whole_of_notMem hclean)
    rw [hv.unique (nests_of_notMem hclean 0).expands]
    exact .argument hi ha (ih hw)

/-- Nothing nests in a text that a pass leaves as it is. -/
theorem Nests.of_fixed (hs : s.Expandable) {n : Nat} (h : Nests s n t) (hfixed : s.expandOnce t = t) : Nests s 0 t := by
  induction n with
  | zero => exact h
  | succ n ih => exact ih (hfixed ▸ h.expandOnce hs)

theorem State.mentionsStrings_of_cons {c : Char} (h : State.mentionsStrings (c :: t) = false) :
    State.mentionsStrings t = false := by
  have hcons (piece : Text) (h : contains (c :: t) piece = false) : contains t piece = false := by
    rw [contains, breakOn?] at h
    split at h
    · cases h
    · rwa [Option.isSome_map] at h
  rw [State.mentionsStrings, Bool.or_eq_false_iff] at h ⊢
  exact h.imp (hcons _) (hcons _)

/-- Nothing nests in a text that mentions no reference. -/
theorem Nests.of_not_mentions {n : Nat} (h : Nests s n t) (hnone : State.mentionsStrings t = false) : Nests s 0 t := by
  induction h with
  | nil => exact .nil
  | char hc _ ih => exact .char hc (ih (State.mentionsStrings_of_cons hnone))
  | backslash => exact .backslash
  | escape hc _ ih => exact .escape hc (ih (State.mentionsStrings_of_cons (State.mentionsStrings_of_cons hnone)))
  | @string _ t =>
    have hmention : contains ('\\' :: '*' :: t) "\\*" = true := contains_middle [] "\\*" t
    rw [State.mentionsStrings, hmention] at hnone
    cases hnone
  | @argument _ own outer t =>
    have hmention : contains ('\\' :: '$' :: t) "\\$" = true := contains_middle [] "\\$" t
    rw [State.mentionsStrings, hmention, Bool.or_true] at hnone
    cases hnone

namespace State

/-! All passes. -/

theorem expandPasses_full (hs : s.Expandable) (passes : Nat) (h : Nests s passes t) :
    Nests s 0 (s.expandPasses passes t) ∧ Expands s t (s.expandPasses passes t) := by
  induction passes generalizing t with
  | zero => exact ⟨h, h.expands⟩
  | succ passes ih =>
    have hnext := h.expandOnce hs
    rw [expandPasses]
    split
    · rename_i hfixed
      have hplain := h.of_fixed hs (beq_iff_eq.mp hfixed)
      exact ⟨hplain, hplain.expands⟩
    · split
      · obtain ⟨hplain, hfull⟩ := ih hnext
        exact ⟨hplain, .of_expandOnce hs hfull⟩
      · rename_i hnone
        have hplain := hnext.of_not_mentions (Bool.not_eq_true _ ▸ hnone)
        exact ⟨hplain, .of_expandOnce hs hplain.expands⟩

theorem expand_expands (hs : s.Expandable) (line : Text) :
    Nests s 0 (s.expand line) ∧ Expands s line (s.expand line) := by
  have hnests : Nests s 16 line := nests_of_strings hs.nested line
  rw [expand]
  split
  · exact expandPasses_full hs expansionPasses hnests
  · rename_i hnone
    have hplain := hnests.of_not_mentions (Bool.not_eq_true _ ▸ hnone)
    exact ⟨hplain, hplain.expands⟩

/-- A line expands to its full expansion and to nothing else, which holds no reference and expands to itself. -/
theorem expand_full (hs : s.Expandable) (line : Text) :
    (∀ u, Expands s line u ↔ u = s.expand line) ∧ Nests s 0 (s.expand line) ∧
      s.expand (s.expand line) = s.expand line := by
  obtain ⟨hplain, hfull⟩ := expand_expands hs line
  have hagain := (expand_expands hs (s.expand line)).2
  refine ⟨fun u => ⟨fun h => h.unique hfull, fun h => h ▸ hfull⟩, hplain, ?_⟩
  exact hagain.unique hplain.expands

/-- A macro with one argument. -/
def calling : Invocation :=
  { name := "M", arguments := ["one"], line := 1 }

/-- Two strings in that macro, of which one refers to the other and that to the argument. -/
def referring : State :=
  { strings := [("a", ['<', '\\', '*', '[', 'b', ']', '>']), ("b", ['\\', '$', '1', '\\', '\\'])]
    invocations := [calling] }

theorem expand_full_referring :
    referring.Expandable ∧
      referring.expand ['\\', '*', 'a', '\\', '*', '(', 'u', 'n', '\\', '$', '0'] = "<one\\\\>M" := by
  have hname (more : Text) : Named (['[', 'b', ']', '>'] ++ more) ['b'] (['>'] ++ more) :=
    @Named.bracketed ['b'] ('>' :: more) (by decide)
  have hargument (more : Text) : Argued calling (['1', '\\', '\\'] ++ more) "one" (['\\', '\\'] ++ more) :=
    .digit (by decide)
  have hpair : '\\' ≠ '*' ∧ ('\\' = '$' → referring.invocations = []) := by decide
  have hready : referring.Expandable := by
    have hwhole : ∀ binding ∈ referring.strings, Whole referring binding.2 :=
      List.forall_mem_cons.mpr ⟨.char (by decide) (.string hname (whole_of_notMem (by decide))),
        List.forall_mem_singleton.mpr (.argument rfl hargument (.escape hpair .nil))⟩
    have hb : Nests referring 1 ['\\', '$', '1', '\\', '\\'] := .argument rfl (hargument []) (.escape hpair .nil)
    have ha : Nests referring 2 ['<', '\\', '*', '[', 'b', ']', '>'] :=
      .char (by decide) (.string (hname []) hb (nests_of_notMem (by decide) 2))
    have hnested : ∀ binding ∈ referring.strings, Nests referring 15 binding.2 :=
      List.forall_mem_cons.mpr ⟨ha.mono (by decide), List.forall_mem_singleton.mpr (hb.mono (by decide))⟩
    exact
      { nested := fun _ _ h => hnested _ (Bindings.mem_of_get? h)
        whole := fun _ _ h => hwhole _ (Bindings.mem_of_get? h)
        arguments := by decide
        name := by decide }
  have hb : Expands referring ['\\', '$', '1', '\\', '\\'] ("one".toList ++ ['\\', '\\']) :=
    .argument rfl (hargument []) (.escape hpair .nil)
  have ha : Expands referring ['<', '\\', '*', '[', 'b', ']', '>'] ('<' :: ("one".toList ++ ['\\', '\\'] ++ ['>'])) :=
    .char (by decide) (.string (hname []) hb (.char (by decide) .nil))
  have hown : Expands referring ['\\', '$', '0'] ("M".toList ++ []) := .argument rfl .name .nil
  have hrest := Expands.string (.two (a := 'u') (b := 'n')) .nil hown
  have hline := Expands.string (.one (c := 'a') (by decide)) ha hrest
  exact ⟨hready, (((expand_full hready _).1 _).mp hline).symm⟩

/-- A string that ends within a reference, and one that has the name which that becomes with what follows. -/
def cutting : State :=
  { strings := [("v", ['\\', '*', '(', 'a']), ("ab", ['Z'])] }

/-- A macro that has a backslash at the end of its name. -/
def marked : State :=
  { strings := [("a", ['p'])], invocations := [{ name := "X\\", arguments := [], line := 1 }] }

/-- Sixteen strings, each of which refers to the next one, and the last one to the argument of a macro. -/
def chained : State :=
  { strings := ("p", ['\\', '$', '1']) ::
      ("abcdefghijklmno".toList.zip "bcdefghijklmnop".toList).map fun (name, next) =>
        (String.singleton name, ['\\', '*', next])
    invocations := [calling] }

/-- A string that does not end in a backslash can run together with what follows it, and so can the name of a macro;
and a reference to an argument takes a pass of its own. -/
theorem expand_short_of_full :
    (∀ binding ∈ cutting.strings ++ marked.strings ++ chained.strings, binding.2.getLast? ≠ some '\\') ∧
      (∀ own ∈ marked.invocations ++ chained.invocations, ∀ argument ∈ own.arguments, '\\' ∉ argument) ∧
      (Nests cutting 2 ['\\', '*', 'v', 'b'] ∧
        ¬ Expands cutting ['\\', '*', 'v', 'b'] (cutting.expand ['\\', '*', 'v', 'b'])) ∧
      ¬ Expands marked ['\\', '$', '0', '*', 'a'] (marked.expand ['\\', '$', '0', '*', 'a']) ∧
      Nests { chained with invocations := [] } 16 ['\\', '*', 'a'] ∧
        ¬ Expands chained ['\\', '*', 'a'] (chained.expand ['\\', '*', 'a']) := by
  refine ⟨by decide, by decide, ⟨?_, fun h => ?_⟩, fun h => ?_, ?_, fun h => ?_⟩
  · have hname : Named ['(', 'a'] ['a'] [] := .short (by decide)
    have hshort : Nests cutting 1 ['\\', '*', '(', 'a'] := .string hname .nil .nil
    exact .string (.one (by decide)) hshort (nests_of_notMem (by decide) 2)
  · have hname : Named ['(', 'a'] ['a'] [] := .short (by decide)
    have hshort : Expands cutting ['\\', '*', '(', 'a'] ([] ++ []) := .string hname .nil .nil
    have hfull := Expands.string (.one (c := 'v') (by decide)) hshort (.char (c := 'b') (by decide) .nil)
    have hread : cutting.expand ['\\', '*', 'v', 'b'] = ['Z'] := by decide +kernel
    exact absurd (hread ▸ h.unique hfull) (by decide)
  · have hfull : Expands marked ['\\', '$', '0', '*', 'a'] ("X\\".toList ++ ['*', 'a']) :=
      .argument rfl .name (nests_of_notMem (by decide) 0).expands
    have hread : marked.expand ['\\', '$', '0', '*', 'a'] = ['X', 'p'] := by decide +kernel
    exact absurd (hread ▸ h.unique hfull) (by decide)
  · have hlast : Nests { chained with invocations := [] } 0 ['\\', '$', '1'] :=
      .escape ⟨by decide, fun _ => rfl⟩ (nests_of_notMem (by decide) 0)
    have hnext {n : Nat} {c : Char} {t : Text} (hc : c ≠ '(' ∧ c ≠ '[') (hvalue : chained.stringValue [c] = t)
        (h : Nests { chained with invocations := [] } n t) :
        Nests { chained with invocations := [] } (n + 1) ['\\', '*', c] :=
      .string (.one hc) (hvalue ▸ h) .nil
    iterate 15 refine hnext (by decide) rfl ?_
    exact hnext (by decide) rfl hlast
  · have hlast : Expands chained ['\\', '$', '1'] ("one".toList ++ []) := .argument rfl (.digit (by decide)) .nil
    have hnext {c : Char} {t : Text} (hc : c ≠ '(' ∧ c ≠ '[') (hvalue : chained.stringValue [c] = t)
        (h : Expands chained t "one") : Expands chained ['\\', '*', c] "one" :=
      .string (.one hc) (hvalue ▸ h) .nil
    have hfull : Expands chained ['\\', '*', 'a'] "one" := by
      iterate 15 refine hnext (by decide) rfl ?_
      exact hnext (by decide) rfl hlast
    have hread : chained.expand ['\\', '*', 'a'] = ['\\', '$', '1'] := by decide +kernel
    exact absurd (hread ▸ h.unique hfull) (by decide)

end State

end RoffDocBook.Formatter
