import Mathlib.Data.List.Nodup
import RoffDocBook.Proofs.Text.Search
import RoffDocBook.Slug

/-! Identifiers consist of letters, digits and hyphens, whatever the titles are. -/
namespace RoffDocBook
open Text

theorem toNat_lt_of_isAlphanum {c : Char} (h : c.isAlphanum = true) : c.toNat < 123 := by
  unfold Char.isAlphanum Char.isAlpha Char.isUpper Char.isLower Char.isDigit at h
  simp only [Bool.or_eq_true, Bool.and_eq_true, decide_eq_true_eq, UInt32.le_iff_toNat_le, ge_iff_le] at h
  change ((65 ≤ c.toNat ∧ c.toNat ≤ 90) ∨ (97 ≤ c.toNat ∧ c.toNat ≤ 122)) ∨ (48 ≤ c.toNat ∧ c.toNat ≤ 57) at h
  omega

theorem forall_isAlphanum {p : Char → Prop} (h : ∀ n < 123, (Char.ofNat n).isAlphanum = true → p (Char.ofNat n)) :
    ∀ c : Char, c.isAlphanum = true → p c := by
  intro c hc
  have hlt := toNat_lt_of_isAlphanum hc
  rw [← Char.ofNat_toNat c] at hc ⊢
  exact h c.toNat hlt hc

theorem isAlphanum_toLower {c : Char} (h : c.isAlphanum = true) : c.toLower.isAlphanum = true :=
  forall_isAlphanum (p := fun c => c.toLower.isAlphanum = true) (by decide) c h

namespace Slug

/-- A character that an identifier may have. -/
def Allowed (c : Char) : Prop :=
  c = '-' ∨ c.isAlphanum = true

theorem allowed_of_mem_squeeze {dashed : Bool} {t : Text} {c : Char} (h : c ∈ squeeze dashed t) : Allowed c := by
  induction t generalizing dashed with
  | nil => cases h
  | cons d ds ih =>
    unfold squeeze at h
    split at h
    · rename_i hd
      rcases List.mem_cons.mp h with rfl | h
      · exact Or.inr (isAlphanum_toLower hd)
      · exact ih h
    · split at h
      · rcases List.mem_cons.mp h with rfl | h
        · exact Or.inl rfl
        · exact ih h
      · exact ih h

theorem mem_of_mem_dropEnd {piece t : Text} {c : Char} (h : c ∈ (dropEnd? piece t).getD t) : c ∈ t := by
  cases hd : dropEnd? piece t with
  | none =>
    rw [hd] at h
    exact h
  | some before =>
    rw [hd] at h
    rw [dropEnd?_eq_some hd]
    exact List.mem_append_left piece h

theorem allowed_of_mem_ofTitle {title : Text} {c : Char} (h : c ∈ ofTitle title) : Allowed c := by
  unfold ofTitle at h
  have hbody {d : Char} : d ∈ (dropEnd? ['-'] (squeeze true (trim (Markup.stripTags title)))).getD
      (squeeze true (trim (Markup.stripTags title))) → Allowed d :=
    fun hd => allowed_of_mem_squeeze (mem_of_mem_dropEnd hd)
  dsimp only at h
  generalize (dropEnd? ['-'] (squeeze true (trim (Markup.stripTags title)))).getD
    (squeeze true (trim (Markup.stripTags title))) = body at h hbody
  cases body with
  | nil =>
    obtain rfl := List.mem_singleton.mp h
    exact Or.inr (by decide)
  | cons first rest =>
    dsimp only at h
    split at h
    · exact hbody h
    · rcases List.mem_cons.mp h with rfl | h
      · exact Or.inr (by decide)
      · exact hbody h

end Slug

theorem IdRegistry.allowed_of_mem_make (ids : IdRegistry) {title : Text} {c : Char} (h : c ∈ (ids.make title).1) :
    Slug.Allowed c := by
  unfold make at h
  dsimp only at h
  split at h
  · exact Slug.allowed_of_mem_ofTitle h
  · rcases List.mem_append.mp h with h | h
    · rcases List.mem_append.mp h with h | h
      · exact Slug.allowed_of_mem_ofTitle h
      · exact Or.inl (List.mem_singleton.mp h)
    · have hdigit := Nat.isDigit_of_mem_toDigits (by decide) (by decide) h
      exact Or.inr (by rw [Char.isAlphanum, hdigit, Bool.or_true])

end RoffDocBook

/-! Identifiers are numbered for each base on its own. Two of them are the same exactly where one base is another base
with the number of one of its repeats. -/
namespace RoffDocBook
open Text

/-- The identifier of a use of a base; the first use has no number. -/
def Slug.numbered (base : Text) (n : Nat) : Text :=
  if n = 0 then base else base ++ "-" ++ ofNat n

namespace Slug

theorem ofNat_injective {m n : Nat} (h : ofNat m = ofNat n) : m = n := by
  have hread := congrArg (fun digits => Nat.ofDigitChars 10 digits 0) h
  simpa [ofNat] using hread

theorem hyphen_notMem_ofNat (n : Nat) : '-' ∉ ofNat n := by
  intro h
  have hdigit := Nat.isDigit_of_mem_toDigits (by decide) (by decide) h
  exact absurd hdigit (by decide)

theorem numbered_zero (base : Text) : numbered base 0 = base :=
  rfl

theorem numbered_of_pos (base : Text) {n : Nat} (hn : 0 < n) : numbered base n = base ++ '-' :: ofNat n := by
  rw [numbered, if_neg (Nat.ne_of_gt hn), List.append_assoc]
  rfl

/-- What comes after the last hyphen tells texts apart. -/
theorem append_hyphen_inj {a b s t : Text} (hs : '-' ∉ s) (ht : '-' ∉ t) (h : a ++ '-' :: s = b ++ '-' :: t) :
    a = b ∧ s = t := by
  rcases List.append_eq_append_iff.mp h with ⟨_ | ⟨c, rest⟩, hb, hrest⟩ | ⟨_ | ⟨c, rest⟩, ha, hrest⟩
  · rw [List.append_nil] at hb
    exact ⟨hb.symm, (List.cons.inj hrest).2⟩
  · rw [(List.cons.inj hrest).2] at hs
    exact absurd (List.mem_append_right rest List.mem_cons_self) hs
  · rw [List.append_nil] at ha
    exact ⟨ha, (List.cons.inj hrest).2.symm⟩
  · rw [(List.cons.inj hrest).2] at ht
    exact absurd (List.mem_append_right rest List.mem_cons_self) ht

/-- Two uses with a number have the same identifier only if they are the same use of one base. -/
theorem numbered_inj_of_pos {b c : Text} {m n : Nat} (hm : 0 < m) (hn : 0 < n) (h : numbered b m = numbered c n) :
    b = c ∧ m = n := by
  rw [numbered_of_pos b hm, numbered_of_pos c hn] at h
  obtain ⟨hbase, hnumber⟩ := append_hyphen_inj (hyphen_notMem_ofNat m) (hyphen_notMem_ofNat n) h
  exact ⟨hbase, ofNat_injective hnumber⟩

end Slug

namespace IdRegistry

/-- The identifiers of titles, one after the other. -/
def makeAll (ids : IdRegistry) : List Text → List Text
  | [] => []
  | title :: titles => (ids.make title).1 :: makeAll (ids.make title).2 titles

/-- Bases in turn, each with the number of its uses before. -/
def ranked (ids : IdRegistry) : List Text → List (Text × Nat)
  | [] => []
  | base :: bases => (base, ids.uses base) :: ranked ((base, ids.uses base + 1) :: ids) bases

theorem uses_cons (base other : Text) (n : Nat) (ids : IdRegistry) :
    uses ((base, n) :: ids) other = if other = base then n else ids.uses other := by
  unfold uses
  rw [List.lookup_cons]
  by_cases h : other = base
  · rw [if_pos h, beq_iff_eq.mpr h]
    rfl
  · rw [if_neg h, beq_eq_false_iff_ne.mpr h]

theorem makeAll_eq (ids : IdRegistry) (titles : List Text) :
    ids.makeAll titles = (ids.ranked (titles.map Slug.ofTitle)).map fun use => Slug.numbered use.1 use.2 := by
  induction titles generalizing ids with
  | nil => rfl
  | cons title titles ih =>
    rw [makeAll, ih, List.map_cons, ranked, List.map_cons]
    congr 1
    simp [make, Slug.numbered]

/-- Each base is used with the numbers that follow on those before. -/
theorem mem_ranked (ids : IdRegistry) (bases : List Text) (base : Text) (n : Nat) :
    (base, n) ∈ ids.ranked bases ↔ ids.uses base ≤ n ∧ n < ids.uses base + bases.count base := by
  induction bases generalizing ids with
  | nil =>
    simp [ranked]
  | cons first bases ih =>
    rw [ranked, List.mem_cons, ih, uses_cons, List.count_cons, Prod.mk.injEq]
    by_cases h : base = first
    · subst h
      simp
      omega
    · have hne : (first == base) = false := beq_eq_false_iff_ne.mpr (Ne.symm h)
      simp [h, hne]

theorem nodup_ranked (ids : IdRegistry) (bases : List Text) : (ids.ranked bases).Nodup := by
  induction bases generalizing ids with
  | nil => exact List.nodup_nil
  | cons base bases ih =>
    refine List.nodup_cons.mpr ⟨?_, ih _⟩
    intro hm
    rw [mem_ranked, uses_cons, if_pos rfl] at hm
    omega

end IdRegistry

namespace Slug

/-- The identifier of a repeat of one base is given out as that of another use, where a first identifier comes before
the uses of the bases. -/
def Collides (first : Text) (bases : List Text) : Prop :=
  first ∈ bases ∨ ∃ base ∈ bases, ∃ n < bases.count base, 0 < n ∧ numbered base n ∈ first :: bases

end Slug

open Slug in
/-- Identifiers that are numbered for each base are distinct exactly where no base is a repeat of another one. -/
theorem IdRegistry.nodup_makeAll_iff (first : Text) (titles : List Text) :
    (first :: makeAll [] titles).Nodup ↔ ¬Collides first (titles.map Slug.ofTitle) := by
  rw [makeAll_eq]
  generalize titles.map Slug.ofTitle = bases
  have hmem (base : Text) (n : Nat) : (base, n) ∈ ranked [] bases ↔ n < bases.count base := by
    rw [mem_ranked]
    simp [uses]
  rw [List.nodup_cons, List.nodup_map_iff_inj_on (nodup_ranked [] bases)]
  constructor
  · rintro ⟨hfirst, hinj⟩ (hm | ⟨base, hbase, n, hn, hpos, hm⟩)
    · apply hfirst
      exact List.mem_map.mpr ⟨(first, 0), (hmem first 0).mpr (List.count_pos_iff.mpr hm), rfl⟩
    · rcases List.mem_cons.mp hm with hm | hm
      · apply hfirst
        exact List.mem_map.mpr ⟨(base, n), (hmem base n).mpr hn, hm⟩
      · have hsame := hinj (base, n) ((hmem base n).mpr hn) (numbered base n, 0)
          ((hmem _ 0).mpr (List.count_pos_iff.mpr hm)) rfl
        exact absurd (Prod.mk.inj hsame).2 (Nat.ne_of_gt hpos)
  · intro hfree
    have hrepeat {base : Text} {n : Nat} (hn : n < bases.count base) (hpos : 0 < n) :
        numbered base n ∉ first :: bases := by
      intro hm
      have hbase : base ∈ bases := List.count_pos_iff.mp (Nat.lt_of_le_of_lt (Nat.zero_le n) hn)
      exact hfree (Or.inr ⟨base, hbase, n, hn, hpos, hm⟩)
    refine ⟨?_, ?_⟩
    · intro hm
      obtain ⟨⟨base, n⟩, huse, hid⟩ := List.mem_map.mp hm
      rw [hmem] at huse
      rcases Nat.eq_zero_or_pos n with rfl | hpos
      · have hbase : base ∈ bases := List.count_pos_iff.mp huse
        exact hfree (Or.inl (hid ▸ hbase))
      · exact hrepeat huse hpos (by rw [← hid]; exact List.mem_cons_self)
    · rintro ⟨b, m⟩ hb ⟨c, n⟩ hc hid
      rw [hmem] at hb hc
      dsimp only at hid
      rcases Nat.eq_zero_or_pos m with rfl | hm
      · rcases Nat.eq_zero_or_pos n with rfl | hn
        · rw [numbered_zero, numbered_zero] at hid
          rw [hid]
        · rw [numbered_zero] at hid
          exact absurd (List.mem_cons_of_mem first (hid ▸ List.count_pos_iff.mp hb)) (hrepeat hc hn)
      · rcases Nat.eq_zero_or_pos n with rfl | hn
        · rw [numbered_zero] at hid
          exact absurd (List.mem_cons_of_mem first (hid ▸ List.count_pos_iff.mp hc)) (hrepeat hb hm)
        · obtain ⟨rfl, rfl⟩ := numbered_inj_of_pos hm hn hid
          rfl

/-- A title that looks like the repeat of another one takes its identifier. -/
example : IdRegistry.makeAll [] ["A", "A", "A 1"] = ["a", "a-1", "a-1"] := by
  decide

end RoffDocBook
