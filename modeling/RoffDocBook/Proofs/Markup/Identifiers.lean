import RoffDocBook.Document.Assembly
import RoffDocBook.Proofs.Markup.Replacement
import RoffDocBook.Proofs.Markup.Tags

/-! The identifiers of elements, as the tags of markup give them. The form of the fifth edition has the same ones. -/
namespace RoffDocBook.Markup
open Text

/-- The value of the attribute with the identifier, which has one of two names. -/
def identifierIn? : Text → Option Text
  | [] => none
  | c :: cs =>
    match dropStart? " id='" (c :: cs) <|> dropStart? " xml:id='" (c :: cs) with
    | some rest => some (rest.takeWhile (· != '\''))
    | none => identifierIn? cs

def Tag.identifier? (tag : Tag) : Option Text :=
  identifierIn? tag.written

/-- The identifiers in markup, in order. -/
def identifiers (markup : Text) : List Text :=
  (tags markup).filterMap Tag.identifier?

theorem identifierIn?_append {before : Text} (h : ' ' ∉ before) (t : Text) :
    identifierIn? (before ++ t) = identifierIn? t := by
  induction before with
  | nil => rfl
  | cons c before ih =>
    rw [List.mem_cons, not_or] at h
    rw [List.cons_append, identifierIn?]
    have hid : dropStart? " id='" (c :: (before ++ t)) = none := dropStart?_of_ne h.1 _ _
    have hxml : dropStart? " xml:id='" (c :: (before ++ t)) = none := dropStart?_of_ne h.1 _ _
    rw [hid, hxml]
    exact ih h.2

theorem identifierIn?_id (t : Text) : identifierIn? (" id='" ++ t) = some (t.takeWhile (· != '\'')) := by
  rfl

theorem identifierIn?_xml (t : Text) : identifierIn? (" xml:id='" ++ t) = some (t.takeWhile (· != '\'')) := by
  rfl

theorem identifiers_append {t : Text} (h : Tagged t) (rest : Text) :
    identifiers (t ++ rest) = identifiers t ++ identifiers rest := by
  rw [identifiers, tags, items_append h, List.filterMap_append, List.filterMap_append]
  rfl

theorem identifiers_cons {c : Char} (h : c ≠ '<') (rest : Text) : identifiers (c :: rest) = identifiers rest := by
  rw [identifiers, tags, items_char h]
  rfl

/-- Text without tags has no identifiers. -/
theorem identifiers_text {t : Text} (h : '<' ∉ t) (rest : Text) : identifiers (t ++ rest) = identifiers rest := by
  induction t with
  | nil => rfl
  | cons c t ih =>
    rw [List.mem_cons, not_or] at h
    rw [List.cons_append, identifiers_cons (Ne.symm h.1), ih h.2]

theorem identifiers_tag {tag : Tag} (h : tag.WellFormed) (rest : Text) :
    identifiers (tag.written ++ rest) = tag.identifier?.toList ++ identifiers rest := by
  rw [identifiers, tags, items_tag h, List.filterMap_cons, Item.tag?, List.filterMap_cons]
  cases tag.identifier? <;> rfl

/-- A declaration or a comment is no tag. -/
theorem identifiers_declaration {c : Char} (hc : c = '?' ∨ c = '!') {t : Text} (h : '<' ∉ t) (rest : Text) :
    identifiers ('<' :: c :: t ++ rest) = identifiers rest := by
  have hread : Tag.read? ('<' :: c :: (t ++ rest)) = none := by
    rcases hc with rfl | rfl <;> rfl
  have hitems : items Tag.read? ('<' :: c :: (t ++ rest)) = .char '<' :: items Tag.read? (c :: (t ++ rest)) := by
    rw [items, itemsFrom, hread]
    rfl
  have hne : c ≠ '<' := by
    rcases hc with rfl | rfl <;> decide
  rw [List.cons_append, List.cons_append, identifiers, tags, hitems]
  change identifiers (c :: (t ++ rest)) = _
  rw [identifiers_cons hne, identifiers_text h]

/-- Markup in the form of the fifth edition. -/
def fifthForm (markup : Text) : Text :=
  replaceFound Document.fifthIdentifier? markup

theorem memoryless_fifthIdentifier? : Memoryless Document.fifthIdentifier? :=
  fun _ _ _ => rfl

theorem fifthForm_of_none {c : Char} {rest : Text} (h : Document.fifthIdentifier? none (c :: rest) = none) :
    fifthForm (c :: rest) = c :: fifthForm rest :=
  memoryless_fifthIdentifier?.replaceFound_of_none h

theorem fifthForm_text {t : Text} (h : '<' ∉ t) (rest : Text) : fifthForm (t ++ rest) = t ++ fifthForm rest := by
  refine memoryless_fifthIdentifier?.replaceFound_text ?_ rest
  intro c hc rest
  have hne : '<' ≠ c := by
    rintro rfl
    exact h hc
  rw [Document.fifthIdentifier?, show dropStart? "<" (c :: rest) = none from dropStart?_of_ne hne _ _]
  rfl

/-- What is replaced is the beginning of a start tag with an identifier. -/
theorem fifthIdentifier?_eq_some {t replacement : Text} {length : Nat}
    (h : Document.fifthIdentifier? none t = some (replacement, length)) :
    ∃ name rest, t = '<' :: (name ++ (" id='".toList ++ rest)) ∧ (∀ c ∈ name, isTagNameChar c = true) ∧
      name.head?.any Char.isAlpha = true ∧ replacement = '<' :: (name ++ " xml:id='".toList) ∧
      length = name.length + 6 := by
  unfold Document.fifthIdentifier? at h
  simp only [Option.bind_eq_bind, Option.bind_eq_some_iff] at h
  obtain ⟨t, hopen, rest, hrest, hfound⟩ := h
  obtain rfl := dropStart?_eq_some hopen
  have hspan := List.prefix_iff_eq_append.mp
    (List.takeWhile_prefix (l := t) fun c => isWordChar c || c == ':' || c == '-')
  have hname : ∀ c ∈ t.takeWhile (fun c => isWordChar c || c == ':' || c == '-'), isTagNameChar c = true := by
    intro c hc
    have hclass := List.mem_takeWhile_imp hc
    rw [Bool.or_eq_true] at hclass
    unfold isTagNameChar
    rcases hclass with hclass | hclass <;> simp [hclass]
  generalize t.takeWhile (fun c => isWordChar c || c == ':' || c == '-') = name at *
  split at hfound
  · rename_i halpha
    obtain ⟨rfl, rfl⟩ := Prod.mk.inj (Option.some.inj hfound)
    refine ⟨name, rest, ?_, hname, halpha, by simp, rfl⟩
    rw [← dropStart?_eq_some hrest, hspan]
    rfl
  · cases hfound

/-- A tag that begins so is a start tag, of which the identifier is the first attribute. -/
theorem Tag.WellFormed.of_identifier {tag : Tag} (h : tag.WellFormed) {name after rest : Text}
    (hn : ∀ c ∈ name, isTagNameChar c = true) (ha : name.head?.any Char.isAlpha = true)
    (ht : tag.written ++ rest = '<' :: (name ++ (" id='".toList ++ after))) :
    ∃ value, '>' ∉ value ∧ tag.written = '<' :: (name ++ (" id='".toList ++ value) ++ ['>']) := by
  cases h with
  | @intro c first ending isEmpty isEnd hc hf he =>
    cases name with
    | nil => cases ha
    | cons d name =>
      have hd : d.isAlpha = true := ha
      have hshape : (if isEnd then ['/'] else []) ++ (c :: first) ++ (ending ++ '>' :: rest) =
          d :: name ++ (" id='".toList ++ after) := by
        simpa [Tag.make] using ht
      cases isEnd with
      | true =>
        have hslash : '/' = d := (List.cons.inj hshape).1
        exact absurd hslash.symm (Tag.ne_slash_of_isAlpha hd)
      | false =>
        have hleft := Tag.span_name hf (he.notName rest)
        have hblank : ∀ e es, " id='".toList ++ after = e :: es → isTagNameChar e = false := by
          intro e es hes
          rw [← (List.cons.inj hes).1]
          decide
        have hright := Tag.span_name hn hblank
        rw [if_neg Bool.false_ne_true, List.nil_append] at hshape
        rw [hshape, hright.1, hright.2] at hleft
        obtain ⟨hname, hending⟩ := hleft
        cases he with
        | bare => exact absurd (List.cons.inj hending).1 (by decide)
        | slash => exact absurd (List.cons.inj hending).1 (by decide)
        | @spaced b inside _ _ hi =>
          have hall : ' ' :: ("id='".toList ++ after) = b :: (inside ++ '>' :: rest) := hending
          obtain ⟨rfl, hinside⟩ := List.cons.inj hall
          have hvalue : ∃ value, inside = "id='".toList ++ value := by
            rcases List.append_eq_append_iff.mp hinside.symm with ⟨_ | ⟨e, value⟩, hid, hrest⟩ | ⟨value, hv, _⟩
            · exact ⟨[], by rw [hid, List.append_nil, List.append_nil]⟩
            · have hmem : '>' ∈ "id='".toList := by
                rw [hid, (List.cons.inj hrest).1]
                simp
              exact absurd hmem (by decide)
            · exact ⟨value, hv⟩
          obtain ⟨value, rfl⟩ := hvalue
          refine ⟨value, fun hm => hi (List.mem_append_right _ hm), ?_⟩
          rw [hname]
          simp [Tag.make]

/-- In the form of the fifth edition a tag stays a tag, with the same identifier. -/
theorem fifthForm_tag {tag : Tag} (h : tag.WellFormed) (hi : '<' ∉ tag.written.tail) (rest : Text) :
    ∃ other : Tag, other.WellFormed ∧ '<' ∉ other.written.tail ∧ other.identifier? = tag.identifier? ∧
      fifthForm (tag.written ++ rest) = other.written ++ fifthForm rest := by
  cases hf : Document.fifthIdentifier? none (tag.written ++ rest) with
  | none =>
    refine ⟨tag, h, hi, rfl, ?_⟩
    cases hw : tag.written with
    | nil => rfl
    | cons c inner =>
      rw [hw] at hi hf
      have hfirst : fifthForm (c :: (inner ++ rest)) = c :: fifthForm (inner ++ rest) := fifthForm_of_none hf
      rw [List.tail_cons] at hi
      rw [List.cons_append, hfirst, fifthForm_text hi]
      rfl
  | some found =>
    obtain ⟨replacement, length⟩ := found
    obtain ⟨name, after, ht, hn, ha, rfl, rfl⟩ := fifthIdentifier?_eq_some hf
    obtain ⟨value, hv, hw⟩ := h.of_identifier hn ha ht
    have hblank : ' ' ∉ '<' :: name := by
      intro hm
      rcases List.mem_cons.mp hm with hm | hm
      · exact absurd hm (by decide)
      · exact absurd (hn ' ' hm) (by decide)
    have hvalue : '<' ∉ value ++ ['>'] := by
      intro hm
      apply hi
      rw [hw, List.tail_cons]
      simp only [List.mem_append] at hm ⊢
      exact hm.imp_left fun hm => Or.inr (Or.inr hm)
    have hshape : tag.written ++ rest = '<' :: ((name ++ " id='".toList) ++ (value ++ ['>'] ++ rest)) := by
      rw [hw]
      simp
    let other := Tag.make false name (" xml:id='" ++ value) (("xml:id='".toList ++ value).getLast? == some '/')
    have hother : other.written = ('<' :: name) ++ (" xml:id='".toList ++ (value ++ ['>'])) := by
      simp [other, Tag.make]
    refine ⟨other, ?_, ?_, ?_, ?_⟩
    · cases name with
      | nil => cases ha
      | cons d name =>
        have hending : Tag.Ending (' ' :: ("xml:id='".toList ++ value))
            (("xml:id='".toList ++ value).getLast? == some '/') := by
          refine .spaced (by decide) (by decide) ?_
          rw [List.mem_append, not_or]
          exact ⟨by decide, hv⟩
        exact .intro false ha hn hending
    · rw [hother, List.cons_append, List.tail_cons]
      have hname : '<' ∉ name := fun hm => absurd (hn '<' hm) (by decide)
      simp only [List.mem_append, not_or] at hvalue ⊢
      exact ⟨hname, by decide, hvalue⟩
    · rw [Tag.identifier?, hother, identifierIn?_append hblank, identifierIn?_xml]
      have htag : tag.written = ('<' :: name) ++ (" id='".toList ++ (value ++ ['>'])) := by
        rw [hw]
        simp
      rw [Tag.identifier?, htag, identifierIn?_append hblank, identifierIn?_id]
    · rw [hshape] at hf ⊢
      have hlength : name.length + 6 = ('<' :: (name ++ " id='".toList)).length := by simp
      rw [hlength] at hf
      rw [fifthForm, ← List.cons_append, memoryless_fifthIdentifier?.replaceFound_found (List.cons_ne_nil _ _) hf]
      change _ ++ fifthForm (value ++ ['>'] ++ rest) = _
      rw [fifthForm_text hvalue, hother]
      simp

/-- Markup that has certain identifiers. -/
structure Gives (markup : Text) (ids : List Text) : Prop where
  tagged : Tagged markup
  ids : identifiers markup = ids

instance (markup : Text) (ids : List Text) : Decidable (Gives markup ids) :=
  decidable_of_iff (Tagged markup ∧ identifiers markup = ids) ⟨fun h => ⟨h.1, h.2⟩, fun h => ⟨h.1, h.2⟩⟩

section
variable {t u : Text} {ids more : List Text}

theorem Gives.append (ht : Gives t ids) (hu : Gives u more) : Gives (t ++ u) (ids ++ more) :=
  ⟨ht.tagged.append hu.tagged, by rw [identifiers_append ht.tagged, ht.ids, hu.ids]⟩

/-- Markup without identifiers adds none. -/
theorem Gives.before (ht : Gives t ids) (hu : Gives u []) : Gives (t ++ u) ids := by
  have h := ht.append hu
  rwa [List.append_nil] at h

theorem gives_text (h : '<' ∉ t) : Gives t [] := by
  refine ⟨tagged_of_notMem h, ?_⟩
  have hids := identifiers_text h []
  rwa [List.append_nil] at hids

theorem gives_tag {tag : Tag} (h : tag.WellFormed) (hi : '<' ∉ tag.written.tail) :
    Gives tag.written tag.identifier?.toList := by
  refine ⟨h.tagged hi, ?_⟩
  have hids := identifiers_tag h []
  rwa [List.append_nil, show identifiers [] = [] from rfl, List.append_nil] at hids

/-- The form of the fifth edition has the identifiers of the form that it is made of. -/
theorem Gives.fifthForm (h : Gives t ids) : Gives (fifthForm t) ids := by
  obtain ⟨ht, rfl⟩ := h
  induction t, ht using Tagged.reading with
  | nil => exact ⟨trivial, rfl⟩
  | @char c rest hc _ _ ih =>
    have htext : '<' ∉ [c] := by simpa using Ne.symm hc
    rw [← List.singleton_append, fifthForm_text htext, identifiers_text htext]
    exact (gives_text htext).append ih
  | @tag tag rest hformed hinner _ _ ih =>
    obtain ⟨other, hother, hotherInner, hid, hform⟩ := fifthForm_tag hformed hinner rest
    rw [hform, identifiers_tag hformed, ← hid]
    exact (gives_tag hother hotherInner).append ih

/-- A name that a tag may have. -/
def IsTagName (name : Text) : Prop :=
  name.head?.any Char.isAlpha = true ∧ ∀ c ∈ name, isTagNameChar c = true

instance (name : Text) : Decidable (IsTagName name) :=
  have : Decidable (∀ c ∈ name, isTagNameChar c = true) := List.decidableBAll _ name
  inferInstanceAs (Decidable (_ ∧ _))

theorem IsTagName.notMem {name : Text} (h : IsTagName name) {c : Char} (hc : isTagNameChar c = false) : c ∉ name := by
  intro hm
  rw [h.2 c hm] at hc
  cases hc

theorem IsTagName.wellFormed {name ending : Text} {isEmpty : Bool} (h : IsTagName name) (isEnd : Bool)
    (he : Tag.Ending ending isEmpty) : (Tag.make isEnd name ending isEmpty).WellFormed := by
  cases name with
  | nil => cases h.1
  | cons c name => exact .intro isEnd h.1 h.2 he

/-- What an identifier that was made of a title may hold. -/
theorem notMem_of_allowed {id : Text} (h : ∀ c ∈ id, Slug.Allowed c) {c : Char} (hc : ¬Slug.Allowed c) : c ∉ id :=
  fun hm => hc (h c hm)

/-- The value of an attribute ends at the quotation mark. -/
theorem takeWhile_value {id : Text} (h : ∀ c ∈ id, Slug.Allowed c) (rest : Text) :
    (id ++ '\'' :: rest).takeWhile (· != '\'') = id := by
  have hne : ∀ c ∈ id, (c != '\'') = true := by
    intro c hc
    apply bne_iff_ne.mpr
    rintro rfl
    exact notMem_of_allowed h (by unfold Slug.Allowed; decide) hc
  rw [List.takeWhile_append_of_pos hne, List.takeWhile_cons_of_neg (by decide), List.append_nil]

/-- A start tag whose last attribute is the identifier. -/
theorem gives_start {name before id : Text} (hn : IsTagName name) (hb : '<' ∉ before ∧ '>' ∉ before)
    (hbefore : ∀ t, identifierIn? (' ' :: before ++ t) = some (t.takeWhile (· != '\'')))
    (hid : ∀ c ∈ id, Slug.Allowed c) :
    Gives ("<" ++ name ++ (' ' :: before) ++ id ++ "'>") [id] := by
  have htagless : '<' ∉ before ++ id ++ ['\''] ∧ '>' ∉ before ++ id ++ ['\''] := by
    have hless := notMem_of_allowed hid (c := '<') (by unfold Slug.Allowed; decide)
    have hmore := notMem_of_allowed hid (c := '>') (by unfold Slug.Allowed; decide)
    simp [hb.1, hb.2, hless, hmore]
  have hformed := hn.wellFormed false (.spaced (b := ' ') (by decide) (by decide) htagless.2)
  generalize hisEmpty : ((before ++ id ++ ['\'']).getLast? == some '/') = isEmpty at hformed
  have hwritten : (Tag.make false name (' ' :: (before ++ id ++ ['\''])) isEmpty).written =
      "<" ++ name ++ (' ' :: before) ++ id ++ "'>" := by
    simp [Tag.make]
  have hopened : ' ' ∉ '<' :: name := by
    rw [List.mem_cons, not_or]
    exact ⟨by decide, hn.notMem (by decide)⟩
  have hidentifier : (Tag.make false name (' ' :: (before ++ id ++ ['\''])) isEmpty).identifier? = some id := by
    have hshape : ("<" ++ name ++ (' ' :: before) ++ id ++ "'>" : Text) =
        ('<' :: name) ++ (' ' :: before ++ (id ++ '\'' :: ['>'])) := by
      simp
    rw [Tag.identifier?, hwritten, hshape, identifierIn?_append hopened, hbefore, takeWhile_value hid]
  have hname := hn.notMem (c := '<') (by decide)
  have hgives := gives_tag hformed (by
    simp only [List.mem_append, not_or] at htagless
    simp [Tag.make, hname, htagless])
  rwa [hidentifier, hwritten] at hgives

end

end RoffDocBook.Markup
