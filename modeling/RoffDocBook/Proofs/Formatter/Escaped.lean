import Mathlib.Logic.Function.Iterate
import RoffDocBook.Bindings
import RoffDocBook.Proofs.Formatter.FullExpansion
import RoffDocBook.Proofs.Markup.Escape

/-! What a formatter makes of escaped text when its strings, its registers and their names are escaped too: the escaped
form of what it makes of the text itself, if each name that a reference writes without brackets holds no character that
is escaped. Such a name is read as one character or two, and its escaped form is longer. -/
namespace RoffDocBook.Formatter
open Text Markup

def Invocation.escaped (own : Invocation) : Invocation :=
  { own with name := escapeName own.name, arguments := own.arguments.map escape }

/-- What one formatter remembers, another one remembers in its escaped form. -/
structure Escapes (raw escaped : State) : Prop where
  strings : ∀ name, escaped.strings.get? (escapeName name) = (raw.strings.get? name).map escape
  registers : ∀ name, escaped.registers.get? (escapeName name) = raw.registers.get? name
  invocations : escaped.invocations = raw.invocations.map Invocation.escaped
  control : escaped.control = raw.control ∧ escaped.noBreak = raw.noBreak
  fill : escaped.fill = raw.fill

/-- The name at the start of a text is in brackets, or it holds no character that is escaped. -/
def Legible (t : Text) : Prop :=
  t.head? = some '[' ∨ ∀ name rest, Named t name rest → ∀ c ∈ name, c ∉ marks

/-- The names of strings and arguments to which a text refers are legible. -/
inductive Readable (s : State) : Text → Prop where
  | nil : Readable s []
  | char {c : Char} {t : Text} (h : c ≠ '\\') (ht : Readable s t) : Readable s (c :: t)
  | backslash : Readable s ['\\']
  | escape {c : Char} {t : Text} (h : c ≠ '*' ∧ (c = '$' → s.invocations = [])) (ht : Readable s t) :
      Readable s ('\\' :: c :: t)
  | string {t name rest : Text} (h : Named t name rest) (hl : Legible t) (hr : Readable s rest) :
      Readable s ('\\' :: '*' :: t)
  | argument {own : Invocation} {outer : List Invocation} {t value rest : Text} (hi : s.invocations = own :: outer)
      (h : Argued own t value rest) (hl : t.head? = some '(' → Legible t) (hr : Readable s rest) :
      Readable s ('\\' :: '$' :: t)

/-- A text without the sign by which a reference steps a register. -/
def unsigned : Text → Text
  | '+' :: t => t
  | '-' :: t => t
  | t => t

theorem unsigned_of_ne {t : Text} (hplus : ∀ u, t = '+' :: u → False) (hminus : ∀ u, t = '-' :: u → False) :
    unsigned t = t := by
  unfold unsigned
  split
  · exact (hplus _ rfl).elim
  · exact (hminus _ rfl).elim
  · rfl

/-- The names of number registers to which a text refers are legible. -/
inductive Countable : Text → Prop where
  | nil : Countable []
  | char {c : Char} {t : Text} (h : c ≠ '\\') (ht : Countable t) : Countable (c :: t)
  | backslash : Countable ['\\']
  | escape {c : Char} {t : Text} (h : c ≠ 'n') (ht : Countable t) : Countable ('\\' :: c :: t)
  | register {t name rest : Text} (h : Named (unsigned t) name rest) (hl : Legible (unsigned t)) (hr : Countable rest) :
      Countable ('\\' :: 'n' :: t)

variable {t name rest : Text}

/-- A legible name stays the name at the start once the text is escaped. -/
theorem Named.escape (h : Named t name rest) (hl : Legible t) :
    Named (Markup.escape t) (Markup.escape name) (Markup.escape rest) := by
  have hplain : t.head? = some '[' ∨ ∀ c ∈ name, c ∉ marks := hl.imp_right fun hl => hl name rest h
  cases h with
  | @one c rest hc =>
    have hmark : c ∉ marks :=
      hplain.elim (fun hb => absurd (Option.some.inj hb) hc.2) fun hl => hl c List.mem_cons_self
    rw [escape_cons_of_notMem hmark, escape_cons_of_notMem hmark]
    exact .one hc
  | @two a b rest =>
    have hall : ∀ c ∈ [a, b], c ∉ marks := hplain.resolve_left fun hb => absurd (Option.some.inj hb) (by decide)
    rw [List.forall_mem_cons, List.forall_mem_singleton] at hall
    rw [escape_cons_of_notMem (by decide), escape_cons_of_notMem hall.1, escape_cons_of_notMem hall.2,
      escape_cons_of_notMem hall.1, escape_cons_of_notMem hall.2]
    exact .two
  | bracketed hn =>
    rw [escape_cons_of_notMem (by decide), escape_append, escape_cons_of_notMem (by decide)]
    exact .bracketed (notMem_escape (by decide) hn)
  | missing => exact .missing
  | short hn =>
    have hall := hplain.resolve_left fun hb => absurd (Option.some.inj hb) (by decide)
    rw [escape_cons_of_notMem (by decide), escape_of_forall hall]
    exact .short hn
  | unclosed hn =>
    rw [escape_cons_of_notMem (by decide)]
    exact .unclosed (notMem_escape (by decide) hn)

theorem readName_escape (hl : Legible t) :
    readName (Markup.escape t) = (escapeName (readName t).1, Markup.escape (readName t).2) := by
  obtain ⟨name, rest, h⟩ := exists_named t
  rw [(h.escape hl).readName, h.readName, escapeName_ofList]

/-- Of a name that is a single character which is escaped, the ampersand is read alone. The rest of its escaped form
stays in the text. -/
theorem readName_escape_mark {c : Char} (hc : c ∈ marks) (t : Text) :
    readName (Markup.escape (c :: t)) = ("&", (escapeChar c).drop 1 ++ Markup.escape t) := by
  obtain ⟨name, hname⟩ := exists_reference hc
  rw [escape_cons, hname]
  rfl

theorem nth_escaped (arguments : List Text) (number : Option Nat) :
    Piece.nth (arguments.map Markup.escape) number = Markup.escape (Piece.nth arguments number) := by
  unfold Piece.nth
  split
  · rename_i n
    rw [List.getD_eq_getElem?_getD, List.getD_eq_getElem?_getD, List.getElem?_map]
    cases arguments[n]? <;> rfl
  · rfl

/-- A reference to an argument stands for the escaped argument once the text is escaped. -/
theorem Argued.escape {own : Invocation} {value : Text} (h : Argued own t value rest)
    (hl : t.head? = some '(' → Legible t) :
    Argued own.escaped (Markup.escape t) (Markup.escape value) (Markup.escape rest) := by
  cases h with
  | all =>
    rw [escape_cons_of_notMem (by decide), ← join_escape]
    exact .all
  | quoted =>
    have hquoted : (own.arguments.map fun a => '"' :: a ++ ['"']).map Markup.escape =
        own.escaped.arguments.map fun a => '"' :: a ++ ['"'] := by
      rw [List.map_map, Invocation.escaped, List.map_map]
      exact List.map_congr_left fun a _ => escape_append _ _
    rw [escape_cons_of_notMem (by decide), ← join_escape, hquoted]
    exact .quoted
  | name =>
    have hname : Markup.escape own.name.toList = own.escaped.name.toList := String.toList_ofList.symm
    rw [escape_cons_of_notMem (by decide), hname]
    exact .name
  | @digit c rest h =>
    have hmark : c ∉ marks := fun hm => by
      rw [isDigit_of_mem_marks hm] at h
      cases h.1
    rw [escape_cons_of_notMem hmark, ← nth_escaped]
    exact .digit h
  | @numbered c t numeral rest hc hn =>
    have hlegible : Legible (c :: t) := hc.elim (fun hc => hl (congrArg some hc)) fun hc => .inl (congrArg some hc)
    have hescaped := hn.escape hlegible
    have hmark : c ∉ marks := by rcases hc with rfl | rfl <;> decide
    rw [escape_cons_of_notMem hmark] at hescaped ⊢
    rw [← nth_escaped, ← toNat?_escape]
    exact .numbered hc hescaped
  | @other c rest h =>
    by_cases hmark : c ∈ marks
    · obtain ⟨name, hname⟩ := exists_reference hmark
      rw [escape_cons, hname]
      exact .other (by decide)
    · rw [escape_cons_of_notMem hmark]
      exact .other h
  | missing => exact .missing

theorem notMem_escapeChar {c : Char} (hc : c ≠ '\\') : '\\' ∉ escapeChar c := by
  rw [← escape_singleton]
  exact notMem_escape (by decide) fun hm => hc (List.mem_singleton.mp hm).symm

theorem exists_clean_reference {c : Char} (h : c ∈ marks) : ∃ name, escapeChar c = '&' :: name ∧ '\\' ∉ name := by
  obtain ⟨name, hname⟩ := exists_reference h
  have hc : c ≠ '\\' := fun hc => absurd (hc ▸ h) (by decide)
  exact ⟨name, hname, fun hm => notMem_escapeChar hc (hname ▸ List.mem_cons_of_mem _ hm)⟩

namespace Escapes
variable {raw escaped : State} (h : Escapes raw escaped)
include h

theorem stringValue (name : Text) :
    escaped.stringValue (Markup.escape name) = Markup.escape (raw.stringValue name) := by
  have hname : stringName (String.ofList (Markup.escape name)) = escapeName (stringName (String.ofList name)) := by
    rw [stringName, stringName, String.toList_ofList, String.toList_ofList, words_escape, escapeName_ofList]
    cases words name <;> rfl
  rw [State.stringValue, State.stringValue, hname, h.strings]
  cases raw.strings.get? (stringName (String.ofList name)) <;> rfl

theorem invocations_nil (hi : raw.invocations = []) : escaped.invocations = [] := by
  rw [h.invocations, hi]
  rfl

theorem invocations_cons {own : Invocation} {outer : List Invocation} (hi : raw.invocations = own :: outer) :
    escaped.invocations = own.escaped :: outer.map Invocation.escaped := by
  rw [h.invocations, hi]
  rfl

theorem expandOnce (ht : Readable raw t) :
    escaped.expandOnce (Markup.escape t) = Markup.escape (raw.expandOnce t) := by
  induction ht with
  | nil => rw [State.expandOnce, Markup.escape, List.flatMap_nil, State.expandOnce]
  | char hc _ ih =>
    rw [escape_cons, escaped.expandOnce_append (notMem_escapeChar hc), ih, raw.expandOnce_cons hc, escape_cons]
  | backslash =>
    rw [State.expandOnce_backslash]
    exact State.expandOnce_backslash
  | @escape c t hc _ ih =>
    have hpair (t : Text) : Markup.escape ('\\' :: c :: t) = '\\' :: (escapeChar c ++ Markup.escape t) := rfl
    rw [State.expandOnce_kept hc, hpair, hpair, ← ih]
    by_cases hmark : c ∈ marks
    · obtain ⟨name, hname, hclean⟩ := exists_clean_reference hmark
      rw [hname, List.cons_append, escaped.expandOnce_escape (by decide), escaped.expandOnce_append hclean]
      rfl
    · rw [escapeChar_of_notMem hmark]
      exact State.expandOnce_kept ⟨hc.1, fun he => h.invocations_nil (hc.2 he)⟩ _
  | string hn hl _ ih =>
    rw [State.expandOnce_string hn, escape_cons_of_notMem (by decide), escape_cons_of_notMem (by decide),
      State.expandOnce_string (hn.escape hl), h.stringValue, ih, escape_append]
  | argument hi ha hl _ ih =>
    rw [State.expandOnce_argued hi ha, escape_cons_of_notMem (by decide), escape_cons_of_notMem (by decide),
      State.expandOnce_argued (h.invocations_cons hi) (ha.escape hl), ih, escape_append]

omit h in
theorem mentionsStrings (t : Text) : State.mentionsStrings (Markup.escape t) = State.mentionsStrings t := by
  have hstrings := contains_escape (c := '*') (by decide) t
  have harguments := contains_escape (c := '$') (by decide) t
  exact congrArg₂ (· || ·) hstrings harguments

theorem expandPasses (passes : Nat) (ht : ∀ pass < passes, Readable raw (raw.expandOnce^[pass] t)) :
    escaped.expandPasses passes (Markup.escape t) = Markup.escape (raw.expandPasses passes t) := by
  induction passes generalizing t with
  | zero => rfl
  | succ passes ih =>
    have hfirst : Readable raw t := ht 0 (Nat.succ_pos passes)
    have hlater := ih fun pass hpass => ht (pass + 1) (Nat.succ_lt_succ hpass)
    have hsame : (Markup.escape (raw.expandOnce t) == Markup.escape t) = (raw.expandOnce t == t) := by
      rw [Bool.eq_iff_iff, beq_iff_eq, beq_iff_eq]
      exact ⟨escape_injective, congrArg Markup.escape⟩
    rw [State.expandPasses, State.expandPasses, h.expandOnce hfirst, hsame, mentionsStrings]
    split
    · rfl
    · split
      · exact hlater
      · rfl

/-- A line whose references to strings and arguments are legible in every pass. -/
theorem expand {line : Text} (hl : ∀ pass < expansionPasses, Readable raw (raw.expandOnce^[pass] line)) :
    escaped.expand (Markup.escape line) = Markup.escape (raw.expand line) := by
  rw [State.expand, State.expand, mentionsStrings]
  split
  · exact h.expandPasses expansionPasses hl
  · rfl

theorem register (name : String) : escaped.register (escapeName name) = raw.register name := by
  have hcount : escaped.invocations.head?.map (fun own => (own.arguments.length : Int)) =
      raw.invocations.head?.map fun own => (own.arguments.length : Int) := by
    rw [h.invocations, List.head?_map, Option.map_map]
    exact congrArg (Option.map · _) (funext fun own => congrArg Nat.cast (List.length_map _))
  rw [State.register, State.register, h.registers, hcount, h.fill]

theorem setRegister (name : String) (value step : Int64) :
    Escapes (raw.setRegister name value step) (escaped.setRegister (escapeName name) value step) := by
  refine { h with registers := fun other => ?_ }
  have hsame : escapeName other = escapeName name ↔ other = name := ⟨escapeName_injective, congrArg escapeName⟩
  rw [State.setRegister, State.setRegister, Bindings.get?_put, Bindings.get?_put, h.registers]
  exact if_congr hsame rfl rfl

theorem stepRegister (name : String) (sign : Int64) :
    (escaped.stepRegister (escapeName name) sign).1 = (raw.stepRegister name sign).1 ∧
      Escapes (raw.stepRegister name sign).2 (escaped.stepRegister (escapeName name) sign).2 := by
  rw [State.stepRegister, State.stepRegister, h.registers, h.register]
  split
  · exact ⟨rfl, h.setRegister name _ _⟩
  · exact ⟨rfl, h⟩

theorem readRegister (hl : Legible (unsigned t)) :
    (escaped.readRegister (Markup.escape t)).1 = (raw.readRegister t).1 ∧
      (escaped.readRegister (Markup.escape t)).2.1 = Markup.escape (raw.readRegister t).2.1 ∧
      Escapes (raw.readRegister t).2.2 (escaped.readRegister (Markup.escape t)).2.2 := by
  have hname := readName_escape hl
  unfold State.readRegister
  split
  · rename_i u hu
    obtain ⟨v, rfl, rfl⟩ := exists_of_escape_eq_cons (by decide) hu
    have hstep := h.stepRegister (readName v).1 1
    dsimp only
    rw [show readName (Markup.escape v) = _ from hname]
    exact ⟨hstep.1, rfl, hstep.2⟩
  · rename_i u hu
    obtain ⟨v, rfl, rfl⟩ := exists_of_escape_eq_cons (by decide) hu
    have hstep := h.stepRegister (readName v).1 (-1)
    dsimp only
    rw [show readName (Markup.escape v) = _ from hname]
    exact ⟨hstep.1, rfl, hstep.2⟩
  · rename_i hplus hminus
    split
    · rename_i v
      exact (hplus _ (escape_cons_of_notMem (by decide) v)).elim
    · rename_i v
      exact (hminus _ (escape_cons_of_notMem (by decide) v)).elim
    · rename_i hplus hminus
      rw [unsigned_of_ne hplus hminus] at hname
      dsimp only
      rw [hname]
      exact ⟨h.register _, rfl, h⟩

omit h in
theorem suffix_unsigned (t : Text) : unsigned t <:+ t := by
  unfold unsigned
  split
  · exact List.suffix_cons ..
  · exact List.suffix_cons ..
  · exact List.suffix_refl _

omit h in
theorem readRegister_rest (s : State) (t : Text) : (s.readRegister t).2.1 = (readName (unsigned t)).2 := by
  unfold State.readRegister
  split
  · rfl
  · rfl
  · rename_i hplus hminus
    rw [unsigned_of_ne hplus hminus]

/-- A text whose references to registers are legible, and the formatter after it. -/
theorem interpolate (ht : Countable t) :
    (escaped.interpolate (Markup.escape t)).1 = Markup.escape (raw.interpolate t).1 ∧
      Escapes (raw.interpolate t).2 (escaped.interpolate (Markup.escape t)).2 := by
  have hpair (s : State) {c : Char} (hc : c ≠ 'n') (t : Text) :
      s.interpolate ('\\' :: c :: t) = ('\\' :: c :: (s.interpolate t).1, (s.interpolate t).2) := by
    rw [State.interpolate]
    exact hc
  induction ht generalizing raw escaped with
  | nil =>
    rw [Markup.escape, List.flatMap_nil, State.interpolate, State.interpolate]
    exact ⟨rfl, h⟩
  | char hc _ ih =>
    rw [escape_cons, escaped.interpolate_append (notMem_escapeChar hc), raw.interpolate_cons hc, escape_cons, (ih h).1]
    exact ⟨rfl, (ih h).2⟩
  | backslash =>
    have hlast (s : State) : s.interpolate ['\\'] = (['\\'], s) := by simp [State.interpolate]
    have hsame : Markup.escape ['\\'] = ['\\'] := rfl
    rw [hsame, hlast, hlast]
    exact ⟨rfl, h⟩
  | @escape c t hc _ ih =>
    have hescaped (t : Text) : Markup.escape ('\\' :: c :: t) = '\\' :: (escapeChar c ++ Markup.escape t) := rfl
    rw [hpair raw hc, hescaped, hescaped, ← (ih h).1]
    by_cases hmark : c ∈ marks
    · obtain ⟨name, hname, hclean⟩ := exists_clean_reference hmark
      rw [hname, List.cons_append, hpair escaped (by decide), escaped.interpolate_append hclean]
      exact ⟨rfl, (ih h).2⟩
    · rw [escapeChar_of_notMem hmark, List.singleton_append, hpair escaped hc]
      exact ⟨rfl, (ih h).2⟩
  | @register t name rest hn hl _ ih =>
    obtain ⟨hvalue, hrest, hstate⟩ := h.readRegister hl
    have hafter : (raw.readRegister t).2.1 = rest := by rw [readRegister_rest, hn.readName]
    rw [State.interpolate, escape_cons_of_notMem (by decide), escape_cons_of_notMem (by decide), State.interpolate]
    dsimp only
    rw [hvalue, hrest, hafter, escape_append, escape_ofInt, (ih hstate).1]
    exact ⟨rfl, (ih hstate).2⟩

end Escapes

end RoffDocBook.Formatter
