import Mathlib.Data.List.TakeWhile
import RoffDocBook.Markup.Scan
import RoffDocBook.Proofs.Text.Search

/-! The font tags in a text. What is put behind a text, or in place of its escapes, leaves its font tags as they are,
unless a tag is cut off by an escape or by the end of the text. -/
namespace RoffDocBook.Markup
open Text

/-- A start tag or an end tag of a font element. -/
structure FontTag where
  element : Text
  isEnd : Bool
  deriving DecidableEq

namespace FontTag

/-- What a tag begins with after its angle bracket. -/
def lead (tag : FontTag) : Text :=
  if tag.isEnd then '/' :: tag.element else tag.element

def all : List FontTag :=
  fontElements.flatMap fun element => [⟨element, false⟩, ⟨element, true⟩]

/-- Whether the name in a tag ends before a character. -/
def endsName (c : Char) : Bool :=
  isBlank c || c == '>' || c == '/'

/-- Whether a text goes on as a tag after its angle bracket. -/
def continues (rest : Text) (tag : FontTag) : Bool :=
  match dropStart? tag.lead rest with
  | some (c :: _) => endsName c
  | _ => false

/-- The font tag at the start of a text. -/
def at? : Text → Option FontTag
  | '<' :: rest => all.find? (continues rest)
  | _ => none

end FontTag

/-- The font tags in a text, in order. -/
def fontTags : Text → List FontTag
  | [] => []
  | c :: rest => (FontTag.at? (c :: rest)).toList ++ fontTags rest

/-- The text before the first escape. -/
def beforeEscape (t : Text) : Text :=
  t.takeWhile (· != '\\')

/-- Whether a text begins with what may become a font tag: it is cut off by an escape or by the end of the text. -/
def cutOff : Text → Bool
  | '<' :: rest => FontTag.all.any fun tag => (beforeEscape rest).isPrefixOf tag.lead
  | _ => false

/-- Whether no font tag in a text is cut off. -/
def uncut : Text → Bool
  | [] => true
  | c :: rest => !cutOff (c :: rest) && uncut rest

/-- Whether a text has no font tags, not even such that are cut off. -/
def fontless (t : Text) : Bool :=
  uncut t && (fontTags t).isEmpty

section
variable {t u w v : Text} {c : Char}

theorem FontTag.continues_iff {rest : Text} {tag : FontTag} :
    continues rest tag = true ↔ ∃ c, endsName c = true ∧ tag.lead ++ [c] <+: rest := by
  unfold continues
  constructor
  · intro h
    split at h
    · rename_i c more hdrop
      rw [dropStart?_eq_some hdrop]
      exact ⟨c, h, more, by rw [List.append_assoc]; rfl⟩
    · cases h
  · rintro ⟨c, hc, more, rfl⟩
    rw [List.append_assoc, dropStart?_append]
    exact hc

theorem FontTag.escape_notMem_lead {tag : FontTag} (h : tag ∈ all) : '\\' ∉ tag.lead := by
  revert tag
  decide

theorem isPrefix_beforeEscape (t : Text) : beforeEscape t <+: t :=
  List.takeWhile_prefix _

theorem escape_notMem_beforeEscape (t : Text) : '\\' ∉ beforeEscape t := fun h =>
  absurd (List.mem_takeWhile_imp h) (by decide)

/-- What a text begins with stands before its first escape, if it has none in it. -/
theorem isPrefix_beforeEscape_of_notMem (h : '\\' ∉ w) (hw : w <+: t) : w <+: beforeEscape t := by
  obtain ⟨rest, rfl⟩ := hw
  have hall : ∀ c ∈ w, (c != '\\') = true := fun c hc => bne_iff_ne.mpr fun he => h (he ▸ hc)
  rw [beforeEscape, List.takeWhile_append_of_pos hall]
  exact List.prefix_append w _

/-- Whether a font tag begins a text, and whether one is cut off there, shows before the first escape. -/
theorem cutOff_of_isPrefix (h : cutOff ('<' :: w) = false) (hv : beforeEscape w <+: v) : cutOff ('<' :: v) = false := by
  rw [cutOff, List.any_eq_false] at h ⊢
  intro tag htag hp
  have hw := isPrefix_beforeEscape_of_notMem (escape_notMem_beforeEscape w) hv
  exact h tag htag (List.isPrefixOf_iff_prefix.mpr (hw.trans (List.isPrefixOf_iff_prefix.mp hp)))

theorem at?_of_isPrefix (h : cutOff ('<' :: w) = false) (hv : beforeEscape w <+: v) :
    FontTag.at? ('<' :: v) = FontTag.at? ('<' :: w) := by
  rw [cutOff, List.any_eq_false] at h
  have hsame : ∀ tag ∈ FontTag.all, FontTag.continues v tag = FontTag.continues w tag := by
    intro tag htag
    rw [Bool.eq_iff_iff, FontTag.continues_iff, FontTag.continues_iff]
    constructor
    · rintro ⟨c, hc, hlead⟩
      refine ⟨c, hc, ?_⟩
      rcases List.prefix_or_prefix_of_prefix hlead hv with hp | hp
      · exact hp.trans (isPrefix_beforeEscape w)
      · rcases List.prefix_concat_iff.mp hp with he | hp
        · exact he ▸ isPrefix_beforeEscape w
        · exact absurd (List.isPrefixOf_iff_prefix.mpr hp) (h tag htag)
    · rintro ⟨c, hc, hlead⟩
      refine ⟨c, hc, (isPrefix_beforeEscape_of_notMem ?_ hlead).trans hv⟩
      rw [List.mem_append, List.mem_singleton, not_or]
      refine ⟨FontTag.escape_notMem_lead htag, ?_⟩
      rintro rfl
      exact absurd hc (by decide)
  change List.find? _ _ = List.find? _ _
  rw [← List.head?_filter, ← List.head?_filter, List.filter_congr hsame]

theorem at?_of_ne (h : c ≠ '<') (t : Text) : FontTag.at? (c :: t) = none := by
  unfold FontTag.at?
  split
  · rename_i he
    exact absurd (List.cons.inj he).1 h
  · rfl

theorem cutOff_of_ne (h : c ≠ '<') (t : Text) : cutOff (c :: t) = false := by
  unfold cutOff
  split
  · rename_i he
    exact absurd (List.cons.inj he).1 h
  · rfl

theorem at?_cons_of_isPrefix (h : cutOff (c :: w) = false) (hv : beforeEscape w <+: v) :
    FontTag.at? (c :: v) = FontTag.at? (c :: w) := by
  by_cases hc : c = '<'
  · subst hc
    exact at?_of_isPrefix h hv
  · rw [at?_of_ne hc, at?_of_ne hc]

theorem cutOff_cons_of_isPrefix (h : cutOff (c :: w) = false) (hv : beforeEscape w <+: v) :
    cutOff (c :: v) = false := by
  by_cases hc : c = '<'
  · subst hc
    exact cutOff_of_isPrefix h hv
  · exact cutOff_of_ne hc v

theorem uncut_cons : uncut (c :: t) = true ↔ cutOff (c :: t) = false ∧ uncut t = true := by
  rw [uncut, Bool.and_eq_true, Bool.not_eq_true']

theorem uncut_suffix (h : uncut t = true) (hs : u <:+ t) : uncut u = true := by
  obtain ⟨before, rfl⟩ := hs
  induction before with
  | nil => exact h
  | cons c before ih => exact ih (uncut_cons.mp h).2

theorem uncut_append (ht : uncut t = true) (hu : uncut u = true) : uncut (t ++ u) = true := by
  induction t with
  | nil => exact hu
  | cons c t ih =>
    obtain ⟨hc, ht⟩ := uncut_cons.mp ht
    exact uncut_cons.mpr ⟨cutOff_cons_of_isPrefix hc ((isPrefix_beforeEscape t).trans (List.prefix_append t u)), ih ht⟩

theorem fontTags_append (ht : uncut t = true) (u : Text) : fontTags (t ++ u) = fontTags t ++ fontTags u := by
  induction t with
  | nil => rfl
  | cons c t ih =>
    obtain ⟨hc, ht⟩ := uncut_cons.mp ht
    have hat := at?_cons_of_isPrefix hc ((isPrefix_beforeEscape t).trans (List.prefix_append t u))
    rw [List.cons_append, fontTags, hat, ih ht, fontTags, List.append_assoc]

theorem uncut_of_notMem (h : '<' ∉ t) : uncut t = true := by
  induction t with
  | nil => rfl
  | cons c t ih =>
    rw [List.mem_cons, not_or] at h
    exact uncut_cons.mpr ⟨cutOff_of_ne (Ne.symm h.1) t, ih h.2⟩

theorem fontTags_of_notMem (h : '<' ∉ t) : fontTags t = [] := by
  induction t with
  | nil => rfl
  | cons c t ih =>
    rw [List.mem_cons, not_or] at h
    rw [fontTags, at?_of_ne (Ne.symm h.1), ih h.2]
    rfl

theorem fontless_iff : fontless t = true ↔ uncut t = true ∧ fontTags t = [] := by
  rw [fontless, Bool.and_eq_true, List.isEmpty_iff]

theorem fontless_of_notMem (h : '<' ∉ t) : fontless t = true :=
  fontless_iff.mpr ⟨uncut_of_notMem h, fontTags_of_notMem h⟩

theorem fontTags_cons_eq_nil : fontTags (c :: t) = [] ↔ FontTag.at? (c :: t) = none ∧ fontTags t = [] := by
  rw [fontTags, List.append_eq_nil_iff]
  cases FontTag.at? (c :: t) <;> simp

theorem fontless_suffix (h : fontless t = true) (hs : u <:+ t) : fontless u = true := by
  obtain ⟨before, rfl⟩ := hs
  obtain ⟨huncut, htags⟩ := fontless_iff.mp h
  refine fontless_iff.mpr ⟨uncut_suffix huncut (List.suffix_append before u), ?_⟩
  clear h huncut
  induction before with
  | nil => exact htags
  | cons c before ih => exact ih (fontTags_cons_eq_nil.mp htags).2

/-- A suffix has all font tags of a text if it holds whatever begins with one. -/
theorem fontTags_suffix (hs : u <:+ t)
    (h : ∀ rest, rest <:+ t → (FontTag.at? rest).isSome = true → rest <:+ u) : fontTags t = fontTags u := by
  obtain ⟨before, rfl⟩ := hs
  induction before with
  | nil => rfl
  | cons c before ih =>
    have hnone : FontTag.at? (c :: (before ++ u)) = none := by
      cases hat : FontTag.at? (c :: (before ++ u)) with
      | none => rfl
      | some tag =>
        have hlonger := (h _ (List.suffix_refl _) (by rw [List.cons_append, hat]; rfl)).length_le
        simp only [List.cons_append, List.length_cons, List.length_append] at hlonger
        omega
    rw [List.cons_append, fontTags, hnone, ih fun rest hrest => h rest (hrest.trans (List.suffix_cons c _))]
    rfl

end

/-- A text that goes on as another one does up to its first escape, and has the same font tags. -/
structure KeepsTags (t u : Text) : Prop where
  start : beforeEscape t <+: u
  uncut : uncut u = true
  tags : fontTags u = fontTags t

/-- What is read at the beginning of a text has come to its end wherever a font tag begins. -/
def EndsBeforeTags (ended : Text → Bool) (t : Text) : Prop :=
  ∀ before rest, t = before ++ rest → (FontTag.at? rest).isSome = true → ended before = true

section
variable {t u rest : Text} {c : Char} {ended : Text → Bool}

theorem isPrefix_cons (h : beforeEscape t <+: u) (c : Char) : beforeEscape (c :: t) <+: c :: u := by
  by_cases hc : c = '\\'
  · subst hc
    exact List.nil_prefix
  · rw [beforeEscape, List.takeWhile_cons_of_pos (by simpa using hc)]
    exact List.cons_prefix_cons.mpr ⟨rfl, h⟩

theorem KeepsTags.refl (h : Markup.uncut t = true) : KeepsTags t t :=
  ⟨isPrefix_beforeEscape t, h, rfl⟩

theorem KeepsTags.cons (h : Markup.uncut (c :: t) = true) (k : KeepsTags t u) : KeepsTags (c :: t) (c :: u) where
  start := isPrefix_cons k.start c
  uncut := uncut_cons.mpr ⟨cutOff_cons_of_isPrefix (uncut_cons.mp h).1 k.start, k.uncut⟩
  tags := by
    rw [fontTags, at?_cons_of_isPrefix (uncut_cons.mp h).1 k.start, k.tags]
    rfl

/-- An escape with its argument may be replaced by something without tags. -/
theorem KeepsTags.replace (k : KeepsTags rest u) (ht : fontTags ('\\' :: t) = fontTags rest) (put : Text)
    (hp : '<' ∉ put) : KeepsTags ('\\' :: t) (put ++ u) where
  start := List.nil_prefix
  uncut := uncut_append (uncut_of_notMem hp) k.uncut
  tags := by
    rw [fontTags_append (uncut_of_notMem hp), fontTags_of_notMem hp, k.tags, ht]
    rfl

theorem EndsBeforeTags.drop (first : Text) (h : EndsBeforeTags ended (first ++ t))
    (hf : ∀ before, ended (first ++ before) = ended before) : EndsBeforeTags ended t :=
  fun before rest ht hat => (hf before) ▸ h (first ++ before) rest (by rw [ht, List.append_assoc]) hat

theorem EndsBeforeTags.nil : EndsBeforeTags ended [] := by
  intro before rest ht hat
  obtain ⟨rfl, rfl⟩ := List.append_eq_nil_iff.mp ht.symm
  cases hat

/-- A character that begins no escape is passed over alone. -/
theorem EndsBeforeTags.tail (h : EndsBeforeTags ended (c :: t)) (hc : ∀ d rest, c = '\\' → t = d :: rest → False)
    (hstep : c ≠ '\\' → ∀ before, ended (c :: before) = ended before) : EndsBeforeTags ended t := by
  by_cases he : c = '\\'
  · cases t with
    | nil => exact .nil
    | cons d rest => exact (hc d rest he rfl).elim
  · exact h.drop [c] (hstep he)

/-- Where an escape with its argument is passed over, no font tag is. -/
theorem EndsBeforeTags.skip {e : Char} (after : Text → Text) (h : EndsBeforeTags ended ('\\' :: e :: t)) (he : e ≠ '<')
    (hsuffix : after t <:+ t)
    (hstep : ∀ before rest, ended ('\\' :: e :: before) = true →
      after (before ++ '<' :: rest) = after before ++ '<' :: rest ∧ ended (after before) = true) :
    fontTags ('\\' :: e :: t) = fontTags (after t) ∧ EndsBeforeTags ended (after t) := by
  have hopen {rest : Text} (hat : (FontTag.at? rest).isSome = true) : ∃ more, rest = '<' :: more := by
    unfold FontTag.at? at hat
    split at hat
    · exact ⟨_, rfl⟩
    · cases hat
  -- A tag behind the escape stands behind its argument, since the argument has ended before the tag.
  have hbehind {rest : Text} (hr : rest <:+ t) (hat : (FontTag.at? rest).isSome = true) :
      ∃ before, after t = after before ++ rest ∧ ended (after before) = true := by
    obtain ⟨before, rfl⟩ := hr
    obtain ⟨more, rfl⟩ := hopen hat
    obtain ⟨hafter, hended⟩ := hstep before more (h ('\\' :: e :: before) _ rfl hat)
    exact ⟨before, hafter, hended⟩
  constructor
  · have hends : after t <:+ '\\' :: e :: t :=
      hsuffix.trans ((List.suffix_cons e t).trans (List.suffix_cons '\\' _))
    refine fontTags_suffix hends fun rest hr hat => ?_
    obtain ⟨more, rfl⟩ := hopen hat
    rcases List.suffix_cons_iff.mp hr with heq | hr
    · cases heq
    · rcases List.suffix_cons_iff.mp hr with heq | hr
      · exact absurd (List.cons.inj heq).1.symm he
      · obtain ⟨before, hafter, _⟩ := hbehind hr hat
        exact ⟨after before, hafter.symm⟩
  · intro before rest ht hat
    obtain ⟨skipped, hafter, hended⟩ := hbehind ((ht ▸ List.suffix_append before rest).trans hsuffix) hat
    rw [ht, List.append_cancel_right_eq] at hafter
    exact hafter ▸ hended

end

/-- Start tags and end tags take turns, and each end tag closes the element that the start tag before it opens. Of the
two elements one is open before the tags, if any, and the other after them. -/
def Alternate : Option Text → List FontTag → Option Text → Prop
  | opened, [], last => opened = last
  | none, tag :: rest, last => tag.isEnd = false ∧ Alternate (some tag.element) rest last
  | some element, tag :: rest, last => tag = ⟨element, true⟩ ∧ Alternate none rest last

instance decidableAlternate : (first : Option Text) → (tags : List FontTag) → (last : Option Text) →
    Decidable (Alternate first tags last)
  | none, [], last => inferInstanceAs (Decidable (none = last))
  | some element, [], last => inferInstanceAs (Decidable (some element = last))
  | none, tag :: rest, last =>
    have := decidableAlternate (some tag.element) rest last
    inferInstanceAs (Decidable (tag.isEnd = false ∧ Alternate (some tag.element) rest last))
  | some element, tag :: rest, last =>
    have := decidableAlternate none rest last
    inferInstanceAs (Decidable (tag = ⟨element, true⟩ ∧ Alternate none rest last))

namespace Alternate
variable {a b c : Option Text} {x y : List FontTag}

theorem refl (a : Option Text) : Alternate a [] a := by
  cases a <;> rfl

theorem append (h : Alternate a x b) (k : Alternate b y c) : Alternate a (x ++ y) c := by
  induction x generalizing a with
  | nil =>
    obtain rfl : a = b := by cases a <;> exact h
    exact k
  | cons tag x ih =>
    cases a with
    | none => exact ⟨h.1, ih h.2⟩
    | some element => exact ⟨h.1, ih h.2⟩

/-- At any point no more than one of the elements is open that were opened here. -/
theorem starts_le (h : Alternate a x b) {part : List FontTag} (hp : part <+: x) :
    part.countP (!·.isEnd) ≤ part.countP (·.isEnd) + if a = none then 1 else 0 := by
  induction x generalizing a part with
  | nil =>
    rw [List.prefix_nil.mp hp]
    exact Nat.zero_le _
  | cons tag x ih =>
    cases part with
    | nil => exact Nat.zero_le _
    | cons first part =>
      obtain ⟨rfl, hpart⟩ := List.cons_prefix_cons.mp hp
      cases a with
      | none =>
        have hrest := ih h.2 hpart
        simp only [List.countP_cons, h.1, reduceCtorEq, if_false, if_true, Bool.not_false, Bool.false_eq_true]
          at hrest ⊢
        omega
      | some element =>
        have hrest := ih h.2 hpart
        simp only [List.countP_cons, h.1, reduceCtorEq, if_false, if_true, Bool.not_true, Bool.false_eq_true]
          at hrest ⊢
        omega

end Alternate

end RoffDocBook.Markup
