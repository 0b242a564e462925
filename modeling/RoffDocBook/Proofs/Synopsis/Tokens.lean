import Mathlib.Data.List.TakeWhile
import RoffDocBook.Synopsis.Declaration
import RoffDocBook.Proofs.Text.Search
import RoffDocBook.Proofs.Text.Words

/-! The tokens of a declaration, read back from every text in which they are written. -/
namespace RoffDocBook.Synopsis
open Text

/-- The code points of white space. -/
def blanks : List Nat :=
  [9, 10, 11, 12, 13, 32, 0x85, 0xA0, 0x1680, 0x2000, 0x2001, 0x2002, 0x2003, 0x2004, 0x2005, 0x2006, 0x2007, 0x2008,
   0x2009, 0x200A, 0x2028, 0x2029, 0x202F, 0x205F, 0x3000]

theorem toNat_mem_blanks {c : Char} (h : isBlank c = true) : c.toNat ∈ blanks := by
  simp only [isBlank, Bool.or_eq_true, Bool.and_eq_true, decide_eq_true_eq, beq_iff_eq] at h
  simp only [blanks, List.mem_cons, List.not_mem_nil, or_false]
  rcases h with ((((((((((rfl | h) | h) | h) | h) | h) | h) | h) | h) | h) | h)
  · decide
  all_goals omega

theorem isNameChar_of_isBlank {c : Char} (h : isBlank c = true) : isNameChar c = false := by
  have hall : ∀ n ∈ blanks, isNameChar (Char.ofNat n) = false := by decide +kernel
  have hc := hall _ (toNat_mem_blanks h)
  rwa [Char.ofNat_toNat] at hc

section
variable {word t u rest : Text} {c : Char}

theorem tokensFrom_nameChar (h : isNameChar c = true) (cs : Text) :
    tokensFrom word (c :: cs) = tokensFrom (c :: word) cs := by
  rw [tokensFrom]
  · exact if_pos h
  · rintro rest rfl rfl
    exact absurd h (by decide)

theorem tokensFrom_blank (h : isBlank c = true) (cs : Text) :
    tokensFrom word (c :: cs) = flushWord word ++ tokens cs := by
  rw [tokensFrom, isNameChar_of_isBlank h, h]
  · rfl
  · rintro rest rfl rfl
    exact absurd h (by decide)

theorem tokensFrom_mark (hn : isNameChar c = false) (hb : isBlank c = false) {cs : Text}
    (hd : ¬ (['.', '.', '.'] <+: c :: cs)) :
    tokensFrom word (c :: cs) = flushWord word ++ [c] :: tokens cs := by
  rw [tokensFrom, hn, hb]
  · rfl
  · rintro rest rfl rfl
    exact hd ⟨rest, rfl⟩

/-- A word goes on as far as there are characters of names. -/
theorem tokensFrom_word (h : ∀ c ∈ t, isNameChar c = true) :
    tokensFrom word (t ++ rest) = tokensFrom (t.reverse ++ word) rest := by
  induction t generalizing word with
  | nil => rfl
  | cons c t ih =>
    obtain ⟨hc, ht⟩ := List.forall_mem_cons.mp h
    rw [List.cons_append, tokensFrom_nameChar hc, ih ht, List.reverse_cons, List.append_assoc]
    rfl

theorem tokensFrom_flush (h : ∀ c ∈ rest.head?, isNameChar c = false) :
    tokensFrom word rest = flushWord word ++ tokens rest := by
  have hflush : flushWord [] = [] := rfl
  cases rest with
  | nil => exact (List.append_nil _).symm
  | cons c cs =>
    have hn := h c rfl
    by_cases hd : ['.', '.', '.'] <+: c :: cs
    · obtain ⟨rest, hrest⟩ := hd
      rw [← hrest]
      rfl
    · cases hb : isBlank c with
      | true => rw [tokens, tokensFrom_blank hb, tokensFrom_blank hb, hflush, List.nil_append]
      | false => rw [tokens, tokensFrom_mark hn hb hd, tokensFrom_mark hn hb hd, hflush, List.nil_append]

/-- A character that is in no word and in no ellipsis ends a token. -/
theorem tokensFrom_append_cons (hn : isNameChar c = false) (hd : c ≠ '.') (word t u : Text) :
    tokensFrom word (t ++ c :: u) = tokensFrom word t ++ tokens (c :: u) := by
  have hfirst : ∀ d ∈ (c :: u).head?, isNameChar d = false := by
    rintro d ⟨⟩
    exact hn
  fun_induction tokensFrom word t with
  | case1 word => exact tokensFrom_flush hfirst
  | case2 word rest ih =>
    change flushWord word ++ ("..." : Text) :: tokensFrom [] (rest ++ c :: u) = _
    rw [ih, List.append_assoc]
    rfl
  | case3 word d ds hdots hn ih => rw [List.cons_append, tokensFrom_nameChar hn, ih]
  | case4 word d ds hdots hn hb ih => rw [List.cons_append, tokensFrom_blank hb, tokens, ih, List.append_assoc]
  | case5 word d ds hdots hn hb ih =>
    have hnone : ¬ (['.', '.', '.'] <+: d :: (ds ++ c :: u)) := by
      rintro ⟨rest, hrest⟩
      match ds with
      | [] => exact hd (List.cons.inj (List.cons.inj hrest).2).1.symm
      | [_] => exact hd (List.cons.inj (List.cons.inj (List.cons.inj hrest).2).2).1.symm
      | _ :: _ :: more =>
        obtain ⟨hfirst, hothers⟩ := List.cons.inj hrest
        obtain ⟨hsecond, hothers⟩ := List.cons.inj hothers
        obtain ⟨hthird, _⟩ := List.cons.inj hothers
        exact hdots more hfirst.symm (by rw [← hsecond, ← hthird])
    rw [List.cons_append, tokensFrom_mark (by simpa using hn) (by simpa using hb) hnone, tokens, ih, List.append_assoc]
    rfl

theorem tokens_append_blank (h : isBlank c = true) (t u : Text) : tokens (t ++ c :: u) = tokens t ++ tokens u := by
  have hd : c ≠ '.' := by
    rintro rfl
    exact absurd h (by decide)
  rw [tokens, tokensFrom_append_cons (isNameChar_of_isBlank h) hd, tokens, tokensFrom_blank h]
  rfl

theorem tokens_append_mark (hn : isNameChar c = false) (hb : isBlank c = false) (hd : c ≠ '.') (t u : Text) :
    tokens (t ++ c :: u) = tokens t ++ [c] :: tokens u := by
  have hdots : ¬ (['.', '.', '.'] <+: c :: u) := fun ⟨_, he⟩ => hd (List.cons.inj he).1.symm
  rw [tokens, tokensFrom_append_cons hn hd, tokens, tokensFrom_mark hn hb hdots]
  rfl

theorem tokens_blank_append (h : ∀ c ∈ t, isBlank c = true) (u : Text) : tokens (t ++ u) = tokens u := by
  induction t with
  | nil => rfl
  | cons c t ih =>
    obtain ⟨hc, ht⟩ := List.forall_mem_cons.mp h
    rw [List.cons_append, tokens, tokensFrom_blank hc, ih ht]
    rfl

theorem tokens_append_of_blank (h : ∀ c ∈ u, isBlank c = true) (t : Text) : tokens (t ++ u) = tokens t := by
  cases u with
  | nil => rw [List.append_nil]
  | cons c gap =>
    obtain ⟨hc, hgap⟩ := List.forall_mem_cons.mp h
    have hnone := tokens_blank_append hgap []
    rw [List.append_nil] at hnone
    rw [tokens_append_blank hc, hnone]
    exact List.append_nil _

theorem tokens_trimStart (t : Text) : tokens (trimStart t) = tokens t := by
  have hblank : ∀ c ∈ t.takeWhile isBlank, isBlank c = true := fun _ => List.mem_takeWhile_imp
  calc tokens (trimStart t) = tokens (t.takeWhile isBlank ++ trimStart t) := (tokens_blank_append hblank _).symm
    _ = tokens t := congrArg tokens List.takeWhile_append_dropWhile

theorem tokens_trim (t : Text) : tokens (trim t) = tokens t := by
  obtain ⟨front, back, ht, hfront, hback⟩ := exists_trim t
  calc tokens (trim t) = tokens (front ++ trim t) := (tokens_blank_append hfront _).symm
    _ = tokens (front ++ trim t ++ back) := (tokens_append_of_blank hback _).symm
    _ = tokens t := congrArg tokens ht.symm

/-- The tokens of lines are those of the text that they are the lines of. -/
theorem tokens_splitOn (t : Text) : (splitOn '\n' t).flatMap tokens = tokens t := by
  induction hn : t.length using Nat.strongRecOn generalizing t with
  | _ n ih =>
    by_cases hm : '\n' ∈ t
    · obtain ⟨before, after, rfl⟩ := List.append_of_mem hm
      have hsplit : splitOn '\n' (before ++ '\n' :: after) = splitOn '\n' before ++ splitOn '\n' after :=
        splitBy_append (by decide) before after
      simp only [List.length_append, List.length_cons] at hn
      rw [hsplit, List.flatMap_append, ih _ (by omega) before rfl, ih _ (by omega) after rfl,
        tokens_append_blank (by decide)]
    · have hone : splitOn '\n' t = [t] :=
        splitBy_of_free fun c hc => beq_eq_false_iff_ne.mpr fun he => hm (he ▸ hc)
      rw [hone, List.flatMap_singleton]

end

/-- A text that is one token: a word, an ellipsis or a mark. -/
inductive Token : Text → Prop where
  | word {w : Text} (hne : w ≠ []) (h : ∀ c ∈ w, isNameChar c = true) : Token w
  | ellipsis : Token "..."
  | mark {c : Char} (hn : isNameChar c = false) (hb : isBlank c = false) (hd : c ≠ '.') : Token [c]

/-- A text in which tokens are written with white space before and after them, as much as it takes to keep two words
apart. -/
inductive Spells : List Text → Text → Prop where
  | nil {gap : Text} (hg : ∀ c ∈ gap, isBlank c = true) : Spells [] gap
  | cons {gap token rest : Text} {ts : List Text} (hg : ∀ c ∈ gap, isBlank c = true) (ht : Token token)
      (apart : ∀ c ∈ token.getLast?, ∀ d ∈ rest.head?, isNameChar c = true → isNameChar d = false)
      (h : Spells ts rest) : Spells (token :: ts) (gap ++ token ++ rest)

/-- Whether a text is one token. -/
def isToken : Text → Bool
  | [] => false
  | [c] => isNameChar c || !isBlank c && c != '.'
  | c :: cs => (c :: cs).all isNameChar || c :: cs == ("..." : Text)

theorem token_of_isToken {token : Text} (h : isToken token = true) : Token token := by
  unfold isToken at h
  split at h
  · cases h
  · rename_i c
    cases hn : isNameChar c with
    | true => exact .word (List.cons_ne_nil c []) (by simpa using hn)
    | false =>
      rw [hn, Bool.false_or, Bool.and_eq_true, Bool.not_eq_true', bne_iff_ne] at h
      exact .mark hn h.1 h.2
  · rcases Bool.or_eq_true_iff.mp h with h | h
    · exact .word (List.cons_ne_nil _ _) (List.all_eq_true.mp h)
    · rw [beq_iff_eq.mp h]
      exact .ellipsis

/-- Whether tokens are what is written in a text. -/
def spelled : List Text → Text → Bool
  | [], t => t.all isBlank
  | token :: ts, t =>
    match dropStart? token (trimStart t) with
    | none => false
    | some rest =>
      isToken token && !(token.getLast?.any isNameChar && rest.head?.any isNameChar) && spelled ts rest

theorem Spells.of_spelled {ts : List Text} {t : Text} (h : spelled ts t = true) : Spells ts t := by
  induction ts generalizing t with
  | nil => exact .nil (List.all_eq_true.mp h)
  | cons token ts ih =>
    rw [spelled] at h
    split at h
    · cases h
    · rename_i rest hrest
      rw [Bool.and_eq_true, Bool.and_eq_true] at h
      have hgap : t = t.takeWhile isBlank ++ token ++ rest := by
        rw [List.append_assoc, ← dropStart?_eq_some hrest]
        exact List.takeWhile_append_dropWhile.symm
      have hapart : ∀ c ∈ token.getLast?, ∀ d ∈ rest.head?, isNameChar c = true → isNameChar d = false := by
        intro c hc d hd hn
        have hnone := h.1.2
        rw [hc, hd] at hnone
        simpa [hn] using hnone
      rw [hgap]
      exact .cons (fun _ => List.mem_takeWhile_imp) (token_of_isToken h.1.1) hapart (ih h.2)

theorem Token.tokens_append {token rest : Text} (ht : Token token)
    (apart : ∀ c ∈ token.getLast?, ∀ d ∈ rest.head?, isNameChar c = true → isNameChar d = false) :
    tokens (token ++ rest) = token :: tokens rest := by
  cases ht with
  | word hne h =>
    have hlast : ∀ d ∈ rest.head?, isNameChar d = false := fun d hd =>
      apart _ (List.getLast?_eq_some_getLast hne) d hd (h _ (List.getLast_mem hne))
    rw [tokens, tokensFrom_word h, tokensFrom_flush hlast, List.append_nil, flushWord, List.reverse_reverse,
      List.isEmpty_reverse, List.isEmpty_eq_false_iff.mpr hne]
    rfl
  | ellipsis => rfl
  | @mark c hn hb hd =>
    have hdots : ¬ (['.', '.', '.'] <+: c :: rest) := fun ⟨_, he⟩ => hd (List.cons.inj he).1.symm
    exact tokensFrom_mark hn hb hdots

/-- Tokens are read back from every text that spells them. -/
theorem Spells.tokens {ts : List Text} {t : Text} (h : Spells ts t) : tokens t = ts := by
  induction h with
  | nil hg =>
    have hnone := tokens_blank_append hg []
    rwa [List.append_nil] at hnone
  | cons hg ht apart _ ih => rw [List.append_assoc, tokens_blank_append hg, ht.tokens_append apart, ih]

/-- What is not white space stands in the tokens. -/
theorem Spells.count {ts : List Text} {t : Text} (h : Spells ts t) {c : Char} (hc : isBlank c = false) :
    t.count c = ts.flatten.count c := by
  induction h with
  | nil hg => exact count_of_blank hc hg
  | cons hg _ _ _ ih =>
    rw [List.count_append, List.count_append, count_of_blank hc hg, ih, List.flatten_cons, List.count_append,
      Nat.zero_add]

theorem Spells.notMem {ts : List Text} {t : Text} (h : Spells ts t) {c : Char} (hc : isBlank c = false)
    (hts : ∀ token ∈ ts, c ∉ token) : c ∉ t := by
  rw [← List.count_eq_zero, h.count hc, List.count_eq_zero, List.mem_flatten]
  rintro ⟨token, htoken, hm⟩
  exact hts token htoken hm

/-- A word that can name something. -/
abbrev Identifier := { word : Text // isIdentifier word = true }

/-- A word of a type, or the mark of a pointer. -/
abbrev Specifier := { token : Text // isIdentifier token = true ∨ token = ("*" : Text) }

def Identifier.specifier (word : Identifier) : Specifier :=
  ⟨word.1, .inl word.2⟩

/-- Marks that stand in no word. -/
theorem Identifier.notMem (word : Identifier) {c : Char} (h : c.isAlphanum = false) (hc : c ≠ '_') : c ∉ word.1 := by
  obtain ⟨word, hw⟩ := word
  intro hm
  cases word with
  | nil => cases hm
  | cons d ds =>
    rw [isIdentifier, Bool.and_eq_true, Bool.or_eq_true, List.all_eq_true] at hw
    rcases List.mem_cons.mp hm with rfl | hm
    · rcases hw.1 with ha | ha
      · rw [Char.isAlphanum, ha] at h
        cases h
      · exact hc (beq_iff_eq.mp ha)
    · have hin := hw.2 c hm
      rw [h, Bool.false_or, beq_iff_eq] at hin
      exact hc hin

theorem Identifier.ne (word : Identifier) {c : Char} {cs : Text} (h : c.isAlphanum = false) (hc : c ≠ '_') :
    word.1 ≠ c :: cs :=
  fun he => word.notMem h hc (he ▸ List.mem_cons_self)

theorem Identifier.ne_nil (word : Identifier) : word.1 ≠ [] := by
  intro he
  have hw := word.2
  rw [he] at hw
  cases hw

theorem Specifier.notMem (token : Specifier) {c : Char} (h : c.isAlphanum = false) (hc : c ≠ '_') (hs : c ≠ '*') :
    c ∉ token.1 := by
  obtain ⟨token, ht | rfl⟩ := token
  · exact Identifier.notMem ⟨token, ht⟩ h hc
  · exact fun hm => hs (List.mem_singleton.mp hm)

theorem Specifier.ne (token : Specifier) {c : Char} {cs : Text} (h : c.isAlphanum = false) (hc : c ≠ '_')
    (hs : c ≠ '*') : token.1 ≠ c :: cs :=
  fun he => token.notMem h hc hs (he ▸ List.mem_cons_self)

/-! The parts of a list. -/

/-- Parts with a comma between neighbours. -/
def separated : List (List Text) → List Text
  | [] => []
  | [part] => part
  | part :: parts => part ++ ("," : Text) :: separated parts

/-- Tokens in front of the first of several parts. -/
def prepend (ts : List Text) : List (List Text) → List (List Text)
  | [] => [ts]
  | part :: parts => (ts ++ part) :: parts

/-- Tokens that stay together where a list is split at its commas. -/
def Inseparable (ts : List Text) : Prop :=
  ∀ rest, splitCommas 0 (ts ++ rest) = prepend ts (splitCommas 0 rest)

theorem splitCommas_cons (depth : Nat) (token : Text) (rest : List Text) :
    splitCommas depth (token :: rest) =
      if token == "(" || token == "[" then prepend [token] (splitCommas (depth + 1) rest)
      else if token == ")" || token == "]" then prepend [token] (splitCommas (depth - 1) rest)
      else if token == "," && depth == 0 then [] :: splitCommas depth rest
      else prepend [token] (splitCommas depth rest) := by
  rw [splitCommas]
  rfl

theorem prepend_ne_nil (ts : List Text) (parts : List (List Text)) : prepend ts parts ≠ [] := by
  cases parts <;> exact List.cons_ne_nil _ _

theorem splitCommas_ne_nil (depth : Nat) (ts : List Text) : splitCommas depth ts ≠ [] := by
  cases ts with
  | nil => exact List.cons_ne_nil _ _
  | cons token rest =>
    rw [splitCommas_cons]
    split
    · exact prepend_ne_nil _ _
    · split
      · exact prepend_ne_nil _ _
      · split
        · exact List.cons_ne_nil _ _
        · exact prepend_ne_nil _ _

theorem prepend_prepend (ts us : List Text) {parts : List (List Text)} (h : parts ≠ []) :
    prepend ts (prepend us parts) = prepend (ts ++ us) parts := by
  cases parts with
  | nil => exact absurd rfl h
  | cons part parts => exact congrArg (· :: parts) (List.append_assoc ts us part).symm

namespace Inseparable
variable {ts us : List Text}

theorem nil : Inseparable [] := by
  intro rest
  obtain ⟨part, parts, h⟩ := List.exists_cons_of_ne_nil (splitCommas_ne_nil 0 rest)
  rw [List.nil_append, h]
  rfl

theorem append (h : Inseparable ts) (k : Inseparable us) : Inseparable (ts ++ us) := by
  intro rest
  rw [List.append_assoc, h, k, prepend_prepend _ _ (splitCommas_ne_nil 0 rest)]

theorem cons {token : Text} (h : token ∉ (["(", "[", ")", "]", ","] : List Text)) (k : Inseparable ts) :
    Inseparable (token :: ts) := by
  intro rest
  simp only [List.mem_cons, List.not_mem_nil, or_false, not_or] at h
  rw [List.cons_append, splitCommas_cons, k, prepend_prepend _ _ (splitCommas_ne_nil 0 rest)]
  simp only [beq_eq_false_iff_ne.mpr h.1, beq_eq_false_iff_ne.mpr h.2.1, beq_eq_false_iff_ne.mpr h.2.2.1,
    beq_eq_false_iff_ne.mpr h.2.2.2.1, beq_eq_false_iff_ne.mpr h.2.2.2.2]
  rfl

/-- Commas do not count between brackets, and there is none between these. -/
theorem brackets (k : Inseparable ts) : Inseparable ("[" :: "]" :: ts) := by
  intro rest
  have hopened : splitCommas 0 ("[" :: "]" :: (ts ++ rest)) =
      prepend ["["] (prepend ["]"] (splitCommas 0 (ts ++ rest))) := by
    rw [splitCommas_cons, splitCommas_cons]
    rfl
  rw [List.cons_append, List.cons_append, hopened, k, prepend_prepend _ _ (splitCommas_ne_nil 0 rest),
    prepend_prepend _ _ (splitCommas_ne_nil 0 rest)]
  rfl

theorem of_specifiers (h : ∀ token ∈ ts, ∃ specifier : Specifier, specifier.1 = token) : Inseparable ts := by
  induction ts with
  | nil => exact .nil
  | cons token ts ih =>
    obtain ⟨⟨specifier, rfl⟩, hts⟩ := List.forall_mem_cons.mp h
    refine .cons ?_ (ih hts)
    simp only [List.mem_cons, List.not_mem_nil, or_false, not_or]
    refine ⟨?_, ?_, ?_, ?_, ?_⟩ <;> exact specifier.ne (by decide) (by decide) (by decide)

end Inseparable

theorem Identifier.inseparable (word : Identifier) : Inseparable [word.1] :=
  .of_specifiers fun _ hm => ⟨word.specifier, (List.mem_singleton.mp hm).symm⟩

/-- A list is split where its parts have been put together. -/
theorem splitCommas_separated {parts : List (List Text)} (hne : parts ≠ []) (h : ∀ part ∈ parts, Inseparable part) :
    splitCommas 0 (separated parts) = parts := by
  induction parts with
  | nil => exact absurd rfl hne
  | cons part parts ih =>
    obtain ⟨hpart, hparts⟩ := List.forall_mem_cons.mp h
    cases parts with
    | nil =>
      have halone := hpart []
      rw [List.append_nil] at halone
      rw [separated, halone, splitCommas, prepend, List.append_nil]
    | cons second parts =>
      have hcomma (rest : List Text) : splitCommas 0 ("," :: rest) = [] :: splitCommas 0 rest := by
        rw [splitCommas_cons]
        rfl
      rw [separated, hpart, hcomma, ih (List.cons_ne_nil _ _) hparts, prepend, List.append_nil]
      exact fun h => absurd h (List.cons_ne_nil _ _)

/-- Tokens of a list come from one of its parts, or are commas. -/
theorem mem_separated {parts : List (List Text)} {token : Text} (h : token ∈ separated parts) :
    token = "," ∨ ∃ part ∈ parts, token ∈ part := by
  fun_induction separated parts with
  | case1 => cases h
  | case2 part => exact .inr ⟨part, List.mem_singleton_self part, h⟩
  | case3 part parts _ ih =>
    rcases List.mem_append.mp h with h | h
    · exact .inr ⟨part, List.mem_cons_self, h⟩
    · rcases List.mem_cons.mp h with rfl | h
      · exact .inl rfl
      · rcases ih h with rfl | ⟨other, hother, hm⟩
        · exact .inl rfl
        · exact .inr ⟨other, List.mem_cons_of_mem _ hother, hm⟩

theorem breakAt?_append {mark : Text} {before : List Text} (h : mark ∉ before) (after : List Text) :
    breakAt? mark (before ++ mark :: after) = some (before, after) := by
  induction before with
  | nil => rw [List.nil_append, breakAt?, beq_self_eq_true, if_pos rfl]
  | cons token before ih =>
    rw [List.mem_cons, not_or] at h
    rw [List.cons_append, breakAt?, beq_eq_false_iff_ne.mpr (Ne.symm h.1), if_neg Bool.false_ne_true, ih h.2]
    rfl

theorem breakAt?_eq_none {mark : Text} {ts : List Text} (h : mark ∉ ts) : breakAt? mark ts = none := by
  induction ts with
  | nil => rfl
  | cons token ts ih =>
    rw [List.mem_cons, not_or] at h
    rw [breakAt?, beq_eq_false_iff_ne.mpr (Ne.symm h.1), if_neg Bool.false_ne_true, ih h.2]
    rfl

theorem closing?_append {inside : List Text} (ho : ("(" : Text) ∉ inside) (hc : (")" : Text) ∉ inside)
    (after : List Text) : closing? 0 (inside ++ (")" : Text) :: after) = some (inside, after) := by
  induction inside with
  | nil => rfl
  | cons token inside ih =>
    rw [List.mem_cons, not_or] at ho hc
    rw [List.cons_append, closing?, beq_eq_false_iff_ne.mpr (Ne.symm ho.1), beq_eq_false_iff_ne.mpr (Ne.symm hc.1),
      if_neg Bool.false_ne_true, if_neg Bool.false_ne_true, ih ho.2 hc.2]
    rfl

end RoffDocBook.Synopsis
