import RoffDocBook.ControlLine
import RoffDocBook.Markup.Escape
import RoffDocBook.Proofs.Text.Search
import RoffDocBook.Proofs.Text.Words

/-! Text is taken apart at the same places before and after it is escaped, as long as it is told apart by characters
that stand in no reference. -/
namespace RoffDocBook
open Text

namespace Markup

theorem escape_append (t u : Text) : escape (t ++ u) = escape t ++ escape u :=
  List.flatMap_append

theorem escape_singleton (c : Char) : escape [c] = escapeChar c :=
  List.append_nil _

theorem escape_cons (c : Char) (t : Text) : escape (c :: t) = escapeChar c ++ escape t :=
  List.flatMap_cons

theorem escapeChar_ne_nil (c : Char) : escapeChar c ≠ [] := by
  unfold escapeChar
  split <;> simp

theorem unescape_of_notMem {t : Text} (h : '&' ∉ t) : unescape t = t := by
  have hreplace (ps new : Text) : replace t ('&' :: ps) new = t := by
    have happend : replace (t ++ []) ('&' :: ps) new = t ++ replace [] ('&' :: ps) new := replace_append h
    have hnil : replace [] ('&' :: ps) new = [] := rfl
    rwa [List.append_nil, hnil, List.append_nil] at happend
  have hlt := hreplace "lt;" "<"
  have hgt := hreplace "gt;" ">"
  have hquot := hreplace "quot;" "\""
  have hapos := hreplace "apos;" "'"
  have hamp := hreplace "amp;" "&"
  unfold unescape
  exact (congrArg (fun t => replace (replace (replace (replace t "&gt;" ">") "&quot;" "\"") "&apos;" "'") "&amp;" "&") hlt).trans <|
    (congrArg (fun t => replace (replace (replace t "&quot;" "\"") "&apos;" "'") "&amp;" "&") hgt).trans <|
    (congrArg (fun t => replace (replace t "&apos;" "'") "&amp;" "&") hquot).trans <|
    (congrArg (fun t => replace t "&amp;" "&") hapos).trans hamp

/-- The characters that are escaped. -/
def marks : Text :=
  ['&', '<', '>']

theorem isDigit_of_mem_marks {c : Char} (h : c ∈ marks) : c.isDigit = false := by
  have hall : ∀ c ∈ marks, c.isDigit = false := forall_mem_of_all (by decide)
  exact hall c h

theorem escapeChar_of_notMem {c : Char} (h : c ∉ marks) : escapeChar c = [c] := by
  simp only [marks, List.mem_cons, List.not_mem_nil, or_false, not_or] at h
  rw [escapeChar]
  · exact h.1
  · exact h.2.1
  · exact h.2.2

theorem escape_cons_of_notMem {c : Char} (h : c ∉ marks) (t : Text) : escape (c :: t) = c :: escape t := by
  rw [escape_cons, escapeChar_of_notMem h]
  rfl

/-- What a character is escaped by begins with an ampersand. -/
theorem open_notMem_escape (t : Text) : '<' ∉ escape t := by
  intro hm
  obtain ⟨c, _, hc⟩ := List.mem_flatMap.mp hm
  unfold escapeChar at hc
  split at hc
  · exact absurd hc (by decide)
  · exact absurd hc (by decide)
  · exact absurd hc (by decide)
  · rename_i hne _
    exact hne (List.mem_singleton.mp hc).symm

theorem exists_reference {c : Char} (h : c ∈ marks) : ∃ name, escapeChar c = '&' :: name := by
  simp only [marks, List.mem_cons, List.not_mem_nil, or_false] at h
  rcases h with rfl | rfl | rfl <;> exact ⟨_, rfl⟩

theorem escape_of_forall {t : Text} (h : ∀ c ∈ t, c ∉ marks) : escape t = t := by
  induction t with
  | nil => rfl
  | cons c t ih =>
    obtain ⟨hc, ht⟩ := List.forall_mem_cons.mp h
    rw [escape_cons_of_notMem hc, ih ht]

/-- The characters that are escaped, and those of the references to them. -/
def referenceChars : Text :=
  ['&', '<', '>', 'l', 't', 'g', 'a', 'm', 'p', ';']

/-- A class that has no character of a reference, nor one that is escaped. -/
def Unmarked (p : Char → Bool) : Prop :=
  ∀ c ∈ referenceChars, p c = false

instance (p : Char → Bool) : Decidable (Unmarked p) :=
  decidable_of_iff ((referenceChars.all fun c => !p c) = true) (by simp [Unmarked])

variable {p : Char → Bool}

theorem Unmarked.escapeChar (h : Unmarked p) {c : Char} (hc : p c = true) : escapeChar c = [c] := by
  apply escapeChar_of_notMem
  intro hmark
  have hsub : marks ⊆ referenceChars := by decide
  rw [h c (hsub hmark)] at hc
  cases hc

theorem Unmarked.free (h : Unmarked p) {c : Char} (hc : p c = false) : ∀ d ∈ Markup.escapeChar c, p d = false := by
  by_cases hmark : c ∈ marks
  · have hsub : ∀ c ∈ marks, Markup.escapeChar c ⊆ referenceChars := forall_mem_of_all (by decide)
    exact fun d hd => h d (hsub c hmark hd)
  · rw [escapeChar_of_notMem hmark]
    exact List.forall_mem_singleton.mpr hc

theorem Unmarked.free_escape (h : Unmarked p) {t : Text} (ht : ∀ c ∈ t, p c = false) : ∀ d ∈ escape t, p d = false := by
  intro d hd
  obtain ⟨c, hc, hd⟩ := List.mem_flatMap.mp hd
  exact h.free (ht c hc) d hd

theorem notMem_escape {c : Char} (hc : Unmarked (· == c)) {t : Text} (h : c ∉ t) : c ∉ escape t := by
  have hfree : ∀ d ∈ t, (d == c) = false := fun d hd => beq_false_of_ne (ne_of_mem_of_not_mem hd h)
  intro hmem
  have hsame := hc.free_escape hfree c hmem
  rw [beq_self_eq_true] at hsame
  cases hsame

theorem length_escape_le {t u : Text} (h : u <:+ t) : (escape u).length ≤ (escape t).length := by
  obtain ⟨before, rfl⟩ := h
  rw [escape_append, List.length_append]
  omega

theorem length_escape_lt {t u : Text} (h : u <:+ t) (hlength : u.length < t.length) :
    (escape u).length < (escape t).length := by
  obtain ⟨before, rfl⟩ := h
  cases before with
  | nil => exact absurd hlength (Nat.lt_irrefl _)
  | cons c before =>
    have hpositive := List.length_pos_iff.mpr (escapeChar_ne_nil c)
    rw [escape_append, escape_cons, List.length_append, List.length_append]
    omega

/-! Where a text is cut. -/

theorem dropWhile_escape (h : Unmarked p) (t : Text) : (escape t).dropWhile p = escape (t.dropWhile p) := by
  induction t with
  | nil => rfl
  | cons c t ih =>
    cases hc : p c with
    | true =>
      rw [escape_cons, h.escapeChar hc, List.singleton_append, List.dropWhile_cons_of_pos hc, ih,
        List.dropWhile_cons_of_pos hc]
    | false =>
      obtain ⟨d, ds, hd⟩ := List.exists_cons_of_ne_nil (escapeChar_ne_nil c)
      have hfirst : p d = false := h.free hc d (hd ▸ List.mem_cons_self)
      have hkept : ¬ p c = true := by rw [hc]; decide
      have hstays : ¬ p d = true := by rw [hfirst]; decide
      rw [List.dropWhile_cons_of_neg hkept, escape_cons, hd, List.cons_append, List.dropWhile_cons_of_neg hstays]

theorem takeWhile_escape (h : Unmarked p) (t : Text) : (escape t).takeWhile p = t.takeWhile p := by
  induction t with
  | nil => rfl
  | cons c t ih =>
    cases hc : p c with
    | true =>
      rw [escape_cons, h.escapeChar hc, List.singleton_append, List.takeWhile_cons_of_pos hc, ih,
        List.takeWhile_cons_of_pos hc]
    | false =>
      obtain ⟨d, ds, hd⟩ := List.exists_cons_of_ne_nil (escapeChar_ne_nil c)
      have hfirst : p d = false := h.free hc d (hd ▸ List.mem_cons_self)
      have hkept : ¬ p c = true := by rw [hc]; decide
      have hstays : ¬ p d = true := by rw [hfirst]; decide
      rw [List.takeWhile_cons_of_neg hkept, escape_cons, hd, List.cons_append, List.takeWhile_cons_of_neg hstays]

theorem spanUntil_escape (h : Unmarked p) (t : Text) :
    spanUntil p (escape t) = (escape (spanUntil p t).1, escape (spanUntil p t).2) := by
  induction t with
  | nil => rfl
  | cons c t ih =>
    rw [spanUntil, Prod.mk.injEq] at ih
    cases hc : p c with
    | true =>
      rw [escape_cons, h.escapeChar hc]
      simp [spanUntil, hc, escape, h.escapeChar hc]
    | false =>
      have hfree : ∀ d ∈ escapeChar c, (!p d) = true := fun d hd => by rw [h.free hc d hd]; rfl
      rw [escape_cons, spanUntil, List.takeWhile_append_of_pos hfree, List.dropWhile_append_of_pos hfree, ih.1, ih.2]
      simp [spanUntil, hc, escape]

theorem drop_one_escape {t : Text} (h : ∀ c ∈ t.head?, c ∉ marks) : (escape t).drop 1 = escape (t.drop 1) := by
  cases t with
  | nil => rfl
  | cons c t =>
    rw [escape_cons_of_notMem (h c rfl)]
    rfl

theorem isEmpty_escape (t : Text) : (escape t).isEmpty = t.isEmpty := by
  cases t with
  | nil => rfl
  | cons c t => simp [escape, escapeChar_ne_nil]

theorem splitBy_escape (h : Unmarked p) (t : Text) : splitBy p (escape t) = (splitBy p t).map escape := by
  induction t with
  | nil => rfl
  | cons c t ih =>
    obtain ⟨field, fields, ht, hfields⟩ := splitBy_cons p c t
    rw [ht] at ih
    rw [hfields, escape_cons]
    cases hc : p c with
    | true =>
      rw [h.escapeChar hc]
      exact (splitBy_append hc [] (escape t)).trans (congrArg ([[]] ++ ·) ih)
    | false => exact splitBy_append_of_free (h.free hc) ih

theorem words_escape (t : Text) : words (escape t) = (words t).map escape := by
  rw [words, fieldsBy, splitBy_escape (by decide), List.filter_map, words, fieldsBy]
  congr 1
  exact List.filter_congr fun field _ => congrArg (!·) (isEmpty_escape field)

theorem dropStart?_escape {piece : Text} (h : ∀ c ∈ piece, c ∉ marks) (t : Text) :
    dropStart? piece (escape t) = (dropStart? piece t).map escape := by
  induction piece generalizing t with
  | nil => rfl
  | cons q piece ih =>
    obtain ⟨hq, hpiece⟩ := List.forall_mem_cons.mp h
    cases t with
    | nil => rfl
    | cons c t =>
      by_cases hc : c ∈ marks
      · obtain ⟨name, hname⟩ := exists_reference hc
        have hamp : q ≠ '&' := fun he => hq (he ▸ by decide)
        rw [escape_cons, hname, dropStart?_of_ne (ne_of_mem_of_not_mem hc hq).symm]
        exact dropStart?_of_ne hamp _ _
      · rw [escape_cons_of_notMem hc, dropStart?, dropStart?]
        split
        · exact ih hpiece t
        · rfl

/-- A character that begins no reference is where it was. -/
theorem exists_of_escape_eq_cons {c : Char} (hc : c ≠ '&') {t rest : Text} (h : escape t = c :: rest) :
    ∃ u, t = c :: u ∧ rest = escape u := by
  cases t with
  | nil => cases h
  | cons d t =>
    by_cases hd : d ∈ marks
    · obtain ⟨name, hname⟩ := exists_reference hd
      rw [escape_cons, hname] at h
      exact absurd (List.cons.inj h).1.symm hc
    · rw [escape_cons_of_notMem hd] at h
      obtain ⟨rfl, rfl⟩ := List.cons.inj h
      exact ⟨t, rfl, rfl⟩

theorem escapeChar_append_inj {c d : Char} {t u : Text} (h : escapeChar c ++ t = escapeChar d ++ u) :
    c = d ∧ t = u := by
  by_cases hc : c ∈ marks
  · by_cases hd : d ∈ marks
    · simp only [marks, List.mem_cons, List.not_mem_nil, or_false] at hc hd
      rcases hc with rfl | rfl | rfl <;> rcases hd with rfl | rfl | rfl <;> simp_all [escapeChar]
    · obtain ⟨name, hname⟩ := exists_reference hc
      rw [hname, escapeChar_of_notMem hd] at h
      exact absurd ((List.cons.inj h).1 ▸ by decide) hd
  · by_cases hd : d ∈ marks
    · obtain ⟨name, hname⟩ := exists_reference hd
      rw [hname, escapeChar_of_notMem hc] at h
      exact absurd ((List.cons.inj h).1 ▸ by decide) hc
    · rw [escapeChar_of_notMem hc, escapeChar_of_notMem hd] at h
      exact List.cons.inj h

/-- Different texts are escaped differently. -/
theorem escape_injective {t u : Text} (h : escape t = escape u) : t = u := by
  induction t generalizing u with
  | nil =>
    cases u with
    | nil => rfl
    | cons d u => exact absurd (List.append_eq_nil_iff.mp h.symm).1 (escapeChar_ne_nil d)
  | cons c t ih =>
    cases u with
    | nil => exact absurd (List.append_eq_nil_iff.mp h).1 (escapeChar_ne_nil c)
    | cons d u =>
      obtain ⟨rfl, ht⟩ := escapeChar_append_inj h
      rw [ih ht]

theorem contains_escape {c : Char} (hc : c ∉ marks) (t : Text) :
    contains (escape t) ['\\', c] = contains t ['\\', c] := by
  induction t with
  | nil => rfl
  | cons d t ih =>
    by_cases hd : d = '\\'
    · subst hd
      have hplain : ∀ d ∈ [c], d ∉ marks := List.forall_mem_singleton.mpr hc
      have hnext := dropStart?_escape hplain t
      rw [contains, contains] at ih
      rw [escape_cons_of_notMem (by decide), contains, contains, breakOn?, breakOn?, dropStart?, dropStart?, hnext]
      cases dropStart? [c] t with
      | none => simpa using ih
      | some rest => rfl
    · have hkept : '\\' ∉ [d] := fun h => hd (List.mem_singleton.mp h).symm
      have hfree : '\\' ∉ escapeChar d := escape_singleton d ▸ notMem_escape (by decide) hkept
      rw [escape_cons, contains_append hfree, ih]
      exact (contains_append hkept).symm

theorem join_escape (parts : List Text) : join [' '] (parts.map escape) = escape (join [' '] parts) := by
  induction parts with
  | nil => rfl
  | cons part parts ih =>
    cases parts with
    | nil => rw [List.map_singleton, join_singleton, join_singleton]
    | cons next parts =>
      rw [List.map_cons] at ih
      rw [List.map_cons, List.map_cons, join_cons_cons, join_cons_cons, escape_append, escape_append, ih]
      rfl

/-- A name as it is known once the source is escaped. -/
def escapeName (name : String) : String :=
  String.ofList (escape name.toList)

theorem escapeName_ofList (t : Text) : escapeName (String.ofList t) = String.ofList (escape t) := by
  rw [escapeName, String.toList_ofList]

theorem escapeName_injective {first second : String} (h : escapeName first = escapeName second) : first = second :=
  String.toList_inj.mp (escape_injective (String.ofList_inj.mp h))

/-! Numerals hold no character that is escaped, and what holds one is no numeral. -/

theorem toNat?_of_mem {t : Text} {c : Char} (hc : c ∈ marks) (h : c ∈ t) : toNat? t = none := by
  have hdigits : c ∈ (dropStart? ['+'] t).getD t := by
    cases hd : dropStart? ['+'] t with
    | none => exact h
    | some rest =>
      rw [dropStart?_eq_some hd, List.singleton_append, List.mem_cons] at h
      exact h.resolve_left fun he => absurd (he ▸ hc) (by decide)
  have hall : ((dropStart? ['+'] t).getD t).all Char.isDigit = false :=
    List.all_eq_false.mpr ⟨c, hdigits, by rw [isDigit_of_mem_marks hc]; decide⟩
  rw [toNat?]
  simp only [hall, Bool.not_false, Bool.or_true, if_true]

theorem toWord?_of_mem {t : Text} {c : Char} (hc : c ∈ marks) (h : c ∈ t) : toWord? t = none := by
  unfold toWord?
  split
  · rename_i digits
    have hdigits : c ∈ digits := (List.mem_cons.mp h).resolve_left fun he => absurd (he ▸ hc) (by decide)
    rw [toNat?_of_mem hc hdigits]
    exact ite_self _
  · rw [toNatBelow?, toNat?_of_mem hc h]
    rfl

/-- A text with a character that is escaped has an ampersand once it is. -/
theorem amp_mem_escape {t : Text} {c : Char} (hc : c ∈ marks) (h : c ∈ t) : '&' ∈ escape t := by
  obtain ⟨name, hname⟩ := exists_reference hc
  exact List.mem_flatMap.mpr ⟨c, h, hname ▸ List.mem_cons_self⟩

theorem toNat?_escape (t : Text) : toNat? (escape t) = toNat? t := by
  by_cases h : ∃ c ∈ t, c ∈ marks
  · obtain ⟨c, ht, hc⟩ := h
    rw [toNat?_of_mem hc ht, toNat?_of_mem (by decide) (amp_mem_escape hc ht)]
  · rw [escape_of_forall fun c ht hc => h ⟨c, ht, hc⟩]

theorem toWord?_escape (t : Text) : toWord? (escape t) = toWord? t := by
  by_cases h : ∃ c ∈ t, c ∈ marks
  · obtain ⟨c, ht, hc⟩ := h
    rw [toWord?_of_mem hc ht, toWord?_of_mem (by decide) (amp_mem_escape hc ht)]
  · rw [escape_of_forall fun c ht hc => h ⟨c, ht, hc⟩]

theorem escape_ofInt (n : Int) : escape (ofInt n) = ofInt n := by
  have hnat (n : Nat) : ∀ c ∈ ofNat n, c ∉ marks := by
    intro c hc hmark
    have hdigit := Nat.isDigit_of_mem_toDigits (by decide) (by decide) hc
    rw [isDigit_of_mem_marks hmark] at hdigit
    cases hdigit
  apply escape_of_forall
  rw [ofInt]
  split
  · exact List.forall_mem_cons.mpr ⟨by decide, hnat _⟩
  · exact hnat _

end Markup

namespace ControlLine
open Markup

theorem plainArgument_append {t : Text} (h : ∀ c ∈ t, isSpaceOrTab c = false ∧ c ≠ '\\') (rest : Text) :
    plainArgument (t ++ rest) = (t ++ (plainArgument rest).1, (plainArgument rest).2) := by
  induction t with
  | nil => rfl
  | cons c t ih =>
    obtain ⟨⟨hblank, hescape⟩, ht⟩ := List.forall_mem_cons.mp h
    rw [List.cons_append, plainArgument, ih ht, if_neg (by rw [hblank]; decide)]
    · rfl
    · rintro d ds rfl
      exact fun _ => hescape rfl

theorem plainArgument_escape (t : Text) :
    plainArgument (escape t) = (escape (plainArgument t).1, escape (plainArgument t).2) := by
  have hblanks : Unmarked isSpaceOrTab := by decide
  have hescapes : Unmarked (· == '\\') := by decide
  induction t using plainArgument.induct with
  | case1 => rfl
  | case2 c cs ih =>
    have hpair (t : Text) : escape ('\\' :: c :: t) = '\\' :: (escapeChar c ++ escape t) := rfl
    have hread : plainArgument ('\\' :: c :: cs) = ('\\' :: c :: (plainArgument cs).1, (plainArgument cs).2) := rfl
    rw [hread, hpair, hpair]
    by_cases hc : c ∈ marks
    · obtain ⟨name, hname⟩ := exists_reference hc
      have hpassed : ∀ c ∈ marks, ((escapeChar c).drop 1).all (fun d => isSpaceOrTab d = false ∧ d ≠ '\\') = true :=
        forall_mem_of_all (by decide)
      have hfree : ∀ d ∈ name, isSpaceOrTab d = false ∧ d ≠ '\\' := by
        have hall := hpassed c hc
        rw [hname] at hall
        exact forall_mem_of_all hall
      rw [hname, List.cons_append, plainArgument, plainArgument_append hfree, ih]
      rfl
    · rw [escapeChar_of_notMem hc, List.singleton_append, plainArgument, ih]
      rfl
  | case3 c cs hlast hblank =>
    have hread {t : Text} (ht : ∀ d ds, c = '\\' → t = d :: ds → False) : plainArgument (c :: t) = ([], c :: t) := by
      rw [plainArgument, if_pos hblank]
      exact ht
    rw [hread hlast, escape_cons, hblanks.escapeChar hblank]
    exact hread fun _ _ hc => absurd (hc ▸ hblank) (by decide)
  | case4 c cs hlast hblank ih =>
    rw [Bool.not_eq_true] at hblank
    have hkept : plainArgument (c :: cs) = (c :: (plainArgument cs).1, (plainArgument cs).2) := by
      rw [plainArgument, if_neg (by rw [hblank]; decide)]
      exact hlast
    rw [hkept, escape_cons, escape_cons]
    by_cases hc : c = '\\'
    · cases cs with
      | nil =>
        subst hc
        rfl
      | cons d ds => exact (hlast d ds hc rfl).elim
    · have hfree : ∀ d ∈ escapeChar c, isSpaceOrTab d = false ∧ d ≠ '\\' := fun d hd =>
        ⟨hblanks.free hblank d hd, ne_of_beq_false (hescapes.free (beq_false_of_ne hc) d hd)⟩
      rw [plainArgument_append hfree, ih]

theorem quotedArgument_append {t : Text} (h : '"' ∉ t) (rest : Text) :
    quotedArgument (t ++ rest) = (t ++ (quotedArgument rest).1, (quotedArgument rest).2) := by
  induction t with
  | nil => rfl
  | cons c t ih =>
    rw [List.mem_cons, not_or] at h
    have hc : c ≠ '"' := Ne.symm h.1
    rw [List.cons_append, quotedArgument, ih h.2, if_neg (by simpa using hc)]
    · rfl
    · exact fun _ he => absurd he hc

theorem quotedArgument_escape (t : Text) :
    quotedArgument (escape t) = (escape (quotedArgument t).1, escape (quotedArgument t).2) := by
  induction t using quotedArgument.induct with
  | case1 => rfl
  | case2 cs ih =>
    rw [escape_cons_of_notMem (by decide), escape_cons_of_notMem (by decide), quotedArgument, quotedArgument, ih,
      escape_cons_of_notMem (by decide)]
  | case3 c cs hpair hquote =>
    obtain rfl := eq_of_beq hquote
    rw [quotedArgument, if_pos hquote, escape_cons_of_notMem (by decide), quotedArgument, if_pos hquote]
    · rfl
    · intro ds _ hds
      obtain ⟨u, rfl, _⟩ := exists_of_escape_eq_cons (by decide) hds
      exact hpair u rfl rfl
    · exact hpair
  | case4 c cs hpair hquote ih =>
    have hfree : '"' ∉ escapeChar c := by
      rw [← escape_singleton]
      exact notMem_escape (by decide) fun h => hquote (beq_iff_eq.mpr (List.mem_singleton.mp h).symm)
    rw [quotedArgument, if_neg hquote, escape_cons, quotedArgument_append hfree, ih, escape_cons]
    exact hpair

theorem firstArgument_escape (t : Text) :
    firstArgument (escape t) = (escape (firstArgument t).1, escape (firstArgument t).2) := by
  unfold firstArgument
  split
  · rename_i ds hds
    obtain ⟨u, rfl, rfl⟩ := exists_of_escape_eq_cons (by decide) hds
    exact quotedArgument_escape u
  · rename_i hother
    split
    · rename_i u
      exact (hother _ (escape_cons_of_notMem (by decide) u)).elim
    · exact plainArgument_escape t

theorem arguments_of_blank {t : Text} (h : t.dropWhile isSpaceOrTab = []) : arguments t = [] := by
  rw [arguments]
  split
  · rfl
  · simp_all

/-- The first argument of a text, and the arguments after it. -/
theorem arguments_of_cons {t : Text} {c : Char} {cs : Text} (h : t.dropWhile isSpaceOrTab = c :: cs) :
    arguments t = (firstArgument (c :: cs)).1 :: arguments (firstArgument (c :: cs)).2 := by
  rw [arguments]
  split <;> simp_all

theorem arguments_escape (t : Text) : arguments (escape t) = (arguments t).map escape := by
  induction t using arguments.induct with
  | case1 t ht =>
    have hescaped := dropWhile_escape (p := isSpaceOrTab) (by decide) t
    rw [arguments_of_blank ht, arguments_of_blank (by rw [hescaped, ht]; rfl)]
    rfl
  | case2 t c cs ht ih =>
    have hescaped := dropWhile_escape (p := isSpaceOrTab) (by decide) t
    have hfirst : escape (c :: cs) ≠ [] := fun h => escapeChar_ne_nil c (List.append_eq_nil_iff.mp h).1
    obtain ⟨d, ds, hd⟩ := List.exists_cons_of_ne_nil hfirst
    rw [ht, hd] at hescaped
    rw [arguments_of_cons ht, arguments_of_cons hescaped, ← hd, firstArgument_escape, ih]
    rfl

/-- The name of a request and what follows it, both escaped. -/
theorem split?_escape {control noBreak : Char} (hc : control ∉ marks) (hn : noBreak ∉ marks) (line : Text) :
    split? (escape line) control noBreak =
      (split? line control noBreak).map fun found => (escapeName found.1, escape found.2) := by
  cases line with
  | nil => rfl
  | cons c rest =>
    by_cases hmark : c ∈ marks
    · obtain ⟨name, hname⟩ := exists_reference hmark
      have hfirst {d : Char} (hd : d ∉ marks) : (c == d) = false ∧ ('&' == d) = false :=
        ⟨beq_false_of_ne (ne_of_mem_of_not_mem hmark hd), beq_false_of_ne (ne_of_mem_of_not_mem (by decide) hd)⟩
      rw [escape_cons, hname, List.cons_append, split?, split?]
      simp [hfirst hc, hfirst hn]
    · rw [escape_cons_of_notMem hmark, split?, split?]
      dsimp only
      rw [dropWhile_escape (by decide), spanUntil_escape (by decide)]
      generalize spanUntil (fun c => isBlank c || c == '\\') (rest.dropWhile isSpaceOrTab) = found
      dsimp only
      rw [isEmpty_escape]
      split
      · split
        · rfl
        · rw [Option.map_some, escapeName_ofList]
          refine congrArg some (Prod.ext rfl ?_)
          dsimp only
          split
          · rename_i r hr
            obtain ⟨u, hu, rfl⟩ := exists_of_escape_eq_cons (by decide) hr
            rw [hu]
            rfl
          · rename_i r hr
            obtain ⟨u, hu, rfl⟩ := exists_of_escape_eq_cons (by decide) hr
            rw [hu]
            rfl
          · rename_i hspace htab
            split
            · rename_i r hr
              exact (hspace (escape r) (hr ▸ escape_cons_of_notMem (by decide) r)).elim
            · rename_i r hr
              exact (htab (escape r) (hr ▸ escape_cons_of_notMem (by decide) r)).elim
            · rfl
      · rfl

end ControlLine

end RoffDocBook

/-! Escaped text is restored by one kind of reference after the other. -/
namespace RoffDocBook.Markup
open Text

/-- The form of a character where some of the marks are restored. -/
def restoredChar (restored : Text) (c : Char) : Text :=
  if c ∈ restored then [c] else escapeChar c

theorem restoredChar_of_notMem {c : Char} (h : c ∉ marks) (restored : Text) : restoredChar restored c = [c] := by
  rw [restoredChar, escapeChar_of_notMem h, ite_self]

section
variable {name new restored after : Text}
  (marked : ∀ c ∈ marks, ∀ u, replace (restoredChar restored c ++ u) ('&' :: name) new =
    restoredChar after c ++ replace u ('&' :: name) new)
include marked

/-- A replacement that makes of each mark what it should makes it of the whole text, whatever follows. -/
theorem replace_restored (t u : Text) :
    replace (t.flatMap (restoredChar restored) ++ u) ('&' :: name) new =
      t.flatMap (restoredChar after) ++ replace u ('&' :: name) new := by
  induction t with
  | nil => rfl
  | cons c t ih =>
    have first (u : Text) : replace (restoredChar restored c ++ u) ('&' :: name) new =
        restoredChar after c ++ replace u ('&' :: name) new := by
      by_cases mark : c ∈ marks
      · exact marked c mark u
      · rw [restoredChar_of_notMem mark, restoredChar_of_notMem mark]
        have other : '&' ≠ c := fun same => mark (same ▸ List.mem_cons_self)
        exact replace_append fun mem => other (List.mem_singleton.mp mem)
    rw [List.flatMap_cons, List.append_assoc, first, ih, List.flatMap_cons, List.append_assoc]

end

theorem forall_mem_marks {p : Char → Prop} (amp : p '&') (lt : p '<') (gt : p '>') : ∀ c ∈ marks, p c :=
  List.forall_mem_cons.mpr ⟨amp, List.forall_mem_cons.mpr ⟨lt, List.forall_mem_singleton.mpr gt⟩⟩

/-- No reference is restored twice, and none is made with the text that follows. -/
theorem unescape_escape_append (t u : Text) : unescape (escape t ++ u) = t ++ unescape u := by
  have lt (u : Text) : replace (t.flatMap (restoredChar []) ++ u) "&lt;" "<" =
      t.flatMap (restoredChar ['<']) ++ replace u "&lt;" "<" :=
    replace_restored (forall_mem_marks (fun _ => rfl) (fun _ => rfl) (fun _ => rfl)) t u
  have gt (u : Text) : replace (t.flatMap (restoredChar ['<']) ++ u) "&gt;" ">" =
      t.flatMap (restoredChar ['<', '>']) ++ replace u "&gt;" ">" :=
    replace_restored (forall_mem_marks (fun _ => rfl) (fun _ => rfl) (fun _ => rfl)) t u
  have quot (u : Text) : replace (t.flatMap (restoredChar ['<', '>']) ++ u) "&quot;" "\"" =
      t.flatMap (restoredChar ['<', '>']) ++ replace u "&quot;" "\"" :=
    replace_restored (forall_mem_marks (fun _ => rfl) (fun _ => rfl) (fun _ => rfl)) t u
  have apos (u : Text) : replace (t.flatMap (restoredChar ['<', '>']) ++ u) "&apos;" "'" =
      t.flatMap (restoredChar ['<', '>']) ++ replace u "&apos;" "'" :=
    replace_restored (forall_mem_marks (fun _ => rfl) (fun _ => rfl) (fun _ => rfl)) t u
  have amp (u : Text) : replace (t.flatMap (restoredChar ['<', '>']) ++ u) "&amp;" "&" =
      t.flatMap (restoredChar marks) ++ replace u "&amp;" "&" :=
    replace_restored (forall_mem_marks (fun _ => rfl) (fun _ => rfl) (fun _ => rfl)) t u
  have plain : t.flatMap (restoredChar marks) = t := by
    have single : restoredChar marks = fun c => [c] := by
      funext c
      rw [restoredChar]
      split
      · rfl
      · rename_i other
        exact escapeChar_of_notMem other
    rw [single, List.flatMap_singleton']
  have start : escape t = t.flatMap (restoredChar []) := rfl
  rw [unescape, start, lt, gt, quot, apos, amp, plain]
  rfl

/-- Escaped text is restored to what it was, whatever looks like a reference in it, so that no two texts have one
escaped form. -/
theorem unescape_leftInverse_escape : Function.LeftInverse unescape escape ∧ Function.Injective escape := by
  have restored : Function.LeftInverse unescape escape := by
    intro t
    have whole := unescape_escape_append t []
    rwa [List.append_nil, unescape_of_notMem List.not_mem_nil, List.append_nil] at whole
  exact ⟨restored, restored.injective⟩

end RoffDocBook.Markup
