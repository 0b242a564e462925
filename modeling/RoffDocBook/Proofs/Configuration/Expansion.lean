import Mathlib.Data.List.Basic
import RoffDocBook.Configuration.File
import RoffDocBook.Proofs.Text.Search

/-! References to variables in the values of a configuration. The text besides them stays as it is in every environment
exactly if no reference opens in the value or no dollar sign of this text stands before a dollar sign or the character
of a name. In any other value there are variables with which it changes. -/
namespace RoffDocBook.Variables
open Text

/-- A reference to a variable in braces: its name, and the text to take where it is not set. -/
structure Reference where
  name : Text
  fallback : Option Text
  name_ne_nil : name ≠ []
  name_closed : '\x7d' ∉ name
  name_undivided : contains name ":-" = false
  fallback_closed : ∀ text ∈ fallback, '\x7d' ∉ text
  deriving DecidableEq

namespace Reference

/-- What stands between the braces. -/
def inner (reference : Reference) : Text :=
  reference.name ++ reference.fallback.elim [] (':' :: '-' :: ·)

end Reference

/-- The value of a variable, or else the text to take where it is not set; the error is its name. -/
def get (env : Variables) (name : Text) (fallback : Option Text) : Except Text Text :=
  (env.lookup name <|> fallback).elim (.error name) .ok

/-- A part of a value: a reference in braces, or a character of the other text. -/
inductive Part where
  | reference (reference : Reference)
  | char (c : Char)
  deriving DecidableEq

def Part.write : Part → Text
  | reference r => '$' :: '\x7b' :: (r.inner ++ ['\x7d'])
  | char c => [c]

def write (parts : List Part) : Text :=
  parts.flatMap Part.write

/-- A value with each reference replaced by what it stands for, and nothing else. -/
def fill (env : Variables) : List Part → Except Text Text
  | [] => .ok []
  | .reference reference :: parts => do
    return (← env.get reference.name reference.fallback) ++ (← fill env parts)
  | .char c :: parts => do return c :: (← fill env parts)

/-- A text before which a dollar sign opens a reference. -/
def Opens (t : Text) : Prop :=
  t.head? = some '\x7b' ∧ '\x7d' ∈ t

/-- A text that begins with neither a dollar sign nor the character of a name, so that a dollar sign before it has no
meaning of its own. -/
def Quiet (t : Text) : Prop :=
  ∀ c ∈ t.head?, c ≠ '$' ∧ isNameChar c = false

/-- Each dollar sign of the other text stands before a text of a kind. -/
def EachDollar (kind : Text → Prop) (parts : List Part) : Prop :=
  ∀ rest, .char '$' :: rest <:+ parts → kind (write rest)

/-- The other text holds no reference of its own. -/
def Separate (parts : List Part) : Prop :=
  EachDollar (¬ Opens ·) parts

theorem write_reference (r : Reference) (parts : List Part) :
    write (.reference r :: parts) = '$' :: '\x7b' :: (r.inner ++ '\x7d' :: write parts) := by
  simp [write, Part.write]

theorem write_char (c : Char) (parts : List Part) : write (.char c :: parts) = c :: write parts :=
  rfl

theorem eachDollar_cons {kind : Text → Prop} {part : Part} {parts : List Part} :
    EachDollar kind (part :: parts) ↔ (part = .char '$' → kind (write parts)) ∧ EachDollar kind parts := by
  constructor
  · intro h
    refine ⟨?_, fun rest hrest => h rest (hrest.trans (List.suffix_cons part parts))⟩
    rintro rfl
    exact h parts List.suffix_rfl
  · rintro ⟨hfirst, hrest⟩ rest hsuffix
    rcases List.suffix_cons_iff.mp hsuffix with he | hs
    · obtain ⟨rfl, rfl⟩ := List.cons.inj he
      exact hfirst rfl
    · exact hrest rest hs

instance : DecidablePred Opens :=
  fun t => inferInstanceAs (Decidable (t.head? = some '\x7b' ∧ '\x7d' ∈ t))

instance : DecidablePred Quiet
  | [] => isTrue nofun
  | c :: _ => decidable_of_iff (c ≠ '$' ∧ isNameChar c = false) ⟨fun h _ hd => Option.some.inj hd ▸ h, fun h => h c rfl⟩

instance decidableEachDollar (kind : Text → Prop) [DecidablePred kind] : DecidablePred (EachDollar kind)
  | [] => isTrue fun _ hrest => absurd (List.suffix_nil.mp hrest) (List.cons_ne_nil _ _)
  | part :: parts =>
    have := decidableEachDollar kind parts
    decidable_of_iff ((part = .char '$' → kind (write parts)) ∧ EachDollar kind parts) eachDollar_cons.symm

instance : DecidablePred Separate :=
  fun parts => inferInstanceAs (Decidable (EachDollar (¬ Opens ·) parts))

/-! What stands between braces. -/

section
variable {env : Variables} {n : Nat} {t : Text}

theorem substitute_plain {c : Char} (h : c ≠ '$') :
    substitute env (n + 1) (c :: t) = do return c :: (← substitute env n t) := by
  rw [substitute]
  exact h

theorem substitute_doubled : substitute env (n + 1) ('$' :: '$' :: t) = do return '$' :: (← substitute env n t) :=
  rfl

variable (env) in
theorem substitute_name {c : Char} (h : isNameChar c = true) : ∃ name rest,
    substitute env (n + 1) ('$' :: c :: t) = do return (← env.get name none) ++ (← substitute env n rest) := by
  refine ⟨(c :: t).takeWhile isNameChar, (c :: t).drop ((c :: t).takeWhile isNameChar).length, ?_⟩
  have hne : ((c :: t).takeWhile isNameChar).isEmpty = false := by simp [h]
  have hother {d : Char} (hd : isNameChar d = false) : ∀ rest, c :: t = d :: rest → False := by
    rintro _ he
    rw [← (List.cons.inj he).1, h] at hd
    cases hd
  rw [substitute]
  · rw [get, Option.orElse_eq_orElse, Option.orElse_eq_or, Option.or_none]
    simp only [hne, Bool.false_eq_true, if_false]
    cases env.lookup ((c :: t).takeWhile isNameChar) <;> rfl
  · exact hother (by decide)
  · exact hother (by decide)

variable (env) in
/-- A dollar sign without a meaning of its own stays, and what comes after it is expanded as it is on its own. -/
theorem substitute_quiet (hlength : t.length ≤ n) (hquiet : Quiet t) (hplain : ¬ Opens t) :
    ∃ m, t.length ≤ m ∧ substitute env (n + 1) ('$' :: t) = do return '$' :: (← substitute env m t) := by
  cases t with
  | nil => exact ⟨n, hlength, rfl⟩
  | cons c cs =>
    obtain ⟨hdollar, hname⟩ := hquiet c rfl
    by_cases hc : c = '\x7b'
    · subst hc
      have hunclosed : '\x7d' ∉ cs := fun hm => hplain ⟨rfl, List.mem_cons_of_mem _ hm⟩
      have hnone : breakOn? "\x7d" cs = none := breakOn?_of_notMem hunclosed
      refine ⟨n + 1, Nat.le_succ_of_le hlength, ?_⟩
      rw [substitute_plain (c := '\x7b') (by decide), substitute]
      simp only [hnone]
      cases substitute env n cs <;> rfl
    · have hempty : ((c :: cs).takeWhile isNameChar).isEmpty = true := by simp [hname]
      refine ⟨n, hlength, ?_⟩
      rw [substitute]
      · simp only [hempty, if_true]
      · exact fun rest he => hc (List.cons.inj he).1
      · exact fun rest he => hdollar (List.cons.inj he).1

end

/-- All variables that are set have a mark for their value, and the references of a value are among them. -/
structure Marks (env : Variables) (parts : List Part) : Prop where
  set : ∀ r, .reference r ∈ parts → env.get r.name r.fallback = .ok ['!']
  only : ∀ {name value}, env.get name none = .ok value → value = ['!']

/-- What is expected of a part where all references stand for a mark. -/
def Part.mark : Part → Char
  | reference _ => '!'
  | char c => c

theorem exists_of_return_eq_ok {x : Except Text Text} {f : Text → Text} {out : Text}
    (h : (do return f (← x)) = Except.ok out) : ∃ rest, x = .ok rest ∧ out = f rest := by
  cases x with
  | error name => cases h
  | ok rest => exact ⟨rest, rfl, (Except.ok.inj h).symm⟩

theorem exists_of_not_quiet {t : Text} (h : ¬ Quiet t) :
    ∃ c cs, t = c :: cs ∧ (c = '$' ∨ isNameChar c = true) := by
  cases t with
  | nil => exact absurd nofun h
  | cons c cs =>
    refine ⟨c, cs, rfl, ?_⟩
    by_contra hc
    rw [not_or, Bool.not_eq_true] at hc
    refine h fun d hd => ?_
    obtain rfl := Option.some.inj hd
    exact hc

/-- What is made of a character of the other text and the parts after it, where all variables stand for marks. -/
inductive Outcome (env : Variables) (c : Char) : List Part → Text → Prop
  | kept {parts : List Part} {m : Nat} {rest : Text} (hm : (write parts).length ≤ m)
    (hrest : substitute env m (write parts) = .ok rest) (hquiet : c = '$' → Quiet (write parts)) :
    Outcome env c parts (c :: rest)
  | named {parts : List Part} {rest : Text} (hc : c = '$') : Outcome env c parts ('!' :: rest)
  | braced {r : Reference} {others : List Part} {rest : Text} (hc : c = '$') :
    Outcome env c (.reference r :: others) ('$' :: '\x7b' :: rest)
  | doubled {others : List Part} {m : Nat} {rest : Text} (hc : c = '$') (hm : (write others).length ≤ m)
    (hrest : substitute env m (write others) = .ok rest) : Outcome env c (.char '$' :: others) ('$' :: rest)

namespace Marks
variable {env : Variables} {part : Part} {parts : List Part} {n : Nat} {t out : Text}

theorem tail (h : Marks env (part :: parts)) : Marks env parts :=
  ⟨fun r hr => h.set r (List.mem_cons_of_mem part hr), h.only⟩

theorem substitute_name (h : Marks env parts) {c : Char} (hc : isNameChar c = true)
    (hout : substitute env (n + 1) ('$' :: c :: t) = .ok out) : ∃ rest, out = '!' :: rest := by
  obtain ⟨name, rest, he⟩ := Variables.substitute_name env (n := n) (t := t) hc
  rw [he] at hout
  cases hvalue : env.get name none with
  | error name =>
    rw [hvalue] at hout
    cases hout
  | ok value =>
    rw [hvalue, h.only hvalue] at hout
    obtain ⟨rest, _, rfl⟩ := exists_of_return_eq_ok hout
    exact ⟨rest, rfl⟩

theorem outcome {c : Char} (h : Marks env parts) (hseparate : Separate (.char c :: parts))
    (hn : (write (.char c :: parts)).length ≤ n) (hout : substitute env n (write (.char c :: parts)) = .ok out) :
    Outcome env c parts out := by
  have hplain := (eachDollar_cons.mp hseparate).1
  rw [write_char, List.length_cons] at hn
  rw [write_char] at hout
  obtain ⟨n, rfl⟩ := Nat.exists_eq_succ_of_ne_zero (Nat.ne_zero_of_lt hn)
  rw [Nat.succ_le_succ_iff] at hn
  by_cases hc : c = '$'
  · subst hc
    by_cases hquiet : Quiet (write parts)
    · obtain ⟨m, hm, he⟩ := substitute_quiet env hn hquiet (hplain rfl)
      rw [he] at hout
      obtain ⟨rest, hrest, rfl⟩ := exists_of_return_eq_ok hout
      exact .kept hm hrest fun _ => hquiet
    · obtain ⟨d, t, ht, hd | hd⟩ := exists_of_not_quiet hquiet
      · subst hd
        match parts with
        | .reference r :: others =>
          rw [write_reference, substitute_doubled] at hout
          obtain ⟨rest, hrest, rfl⟩ := exists_of_return_eq_ok hout
          rw [write_reference, List.length_cons] at hn
          obtain ⟨n, rfl⟩ := Nat.exists_eq_succ_of_ne_zero (Nat.ne_zero_of_lt hn)
          rw [substitute_plain (by decide)] at hrest
          obtain ⟨rest, -, rfl⟩ := exists_of_return_eq_ok hrest
          exact .braced rfl
        | .char d :: others =>
          obtain ⟨rfl, rfl⟩ := List.cons.inj ht
          rw [write_char, substitute_doubled] at hout
          obtain ⟨rest, hrest, rfl⟩ := exists_of_return_eq_ok hout
          exact .doubled rfl (Nat.le_of_succ_le hn) hrest
      · rw [ht] at hout
        obtain ⟨rest, rfl⟩ := h.substitute_name hd hout
        exact .named rfl
  · rw [substitute_plain hc] at hout
    obtain ⟨rest, hrest, rfl⟩ := exists_of_return_eq_ok hout
    exact .kept hn hrest fun he => absurd he hc

end Marks

end RoffDocBook.Variables

namespace RoffDocBook.ConfigurationFile
open Text Variables

/-- A command of a variable, with arguments that are written as they are. -/
private def command (arguments : Text) : List Part :=
  .reference ⟨"TOOL", some "sed", by decide, by decide, by decide, by decide⟩ :: arguments.map .char

end RoffDocBook.ConfigurationFile
