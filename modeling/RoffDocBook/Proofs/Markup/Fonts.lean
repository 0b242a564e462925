import RoffDocBook.Markup.Scan
import RoffDocBook.Proofs.Markup.Tags

/-! The repair of font elements. Whatever stands open before a part of markup, the repaired part closes fonts from the
innermost one outwards and before everything that is not inline, and only the tags of fonts differ. -/
namespace RoffDocBook.Markup
open Text

/-- Whether a tag opens or closes a font. The tag of an empty font element does neither. -/
def Tag.switchesFont (tag : Tag) : Bool :=
  fontElements.contains tag.name && !tag.isEmpty

/-- Every end tag of a font closes the innermost open one, and no font is open at the other tags that are not inline,
nor at the end. -/
def FontsNested : List Text → List Tag → Prop
  | opened, [] => opened = []
  | opened, tag :: rest =>
    if tag.switchesFont then
      if tag.isEnd then opened.head? = some tag.name ∧ FontsNested opened.tail rest
      else FontsNested (tag.name :: opened) rest
    else (inlineElements.contains tag.name = false → opened = []) ∧ FontsNested opened rest

def Item.switchesFont : Item Tag → Bool
  | .char _ => false
  | .found tag => tag.switchesFont

/-- Markup without the tags that open or close fonts. -/
def withoutFonts (markup : Text) : Text :=
  written ((items Tag.read? markup).filter (!·.switchesFont))

/-- The end tag of an element. -/
def Tag.closing (name : Text) : Tag :=
  .make true name [] false

/-- The tags that stand for one tag after the repair. -/
def replacement (opened : List Text) (tag : Tag) : List Tag :=
  if tag.switchesFont then
    if !tag.isEnd then [tag]
    else if opened.contains tag.name then (opened.takeWhile (· != tag.name)).map .closing ++ [tag]
    else []
  else if inlineElements.contains tag.name then [tag]
  else opened.map .closing ++ [tag]

/-- The repair of markup as the parts that it reads. -/
def repairedParts : List Text → List (Item Tag) → List (Item Tag)
  | opened, [] => (opened.map .closing).map .found
  | opened, .char c :: rest => .char c :: repairedParts opened rest
  | opened, .found tag :: rest => (replacement opened tag).map .found ++ repairedParts (repairTag opened tag).2 rest

theorem written_closings (opened : List Text) :
    written ((opened.map Tag.closing).map .found) = endTags opened := by
  unfold written endTags
  rw [List.flatMap_map, List.flatMap_map]
  congr 1
  funext name
  simp [Item.written, Tag.closing, Tag.make, Tag.endOf]

theorem written_replacement (opened : List Text) (tag : Tag) :
    written ((replacement opened tag).map .found) = (repairTag opened tag).1 := by
  have hclosings (names : List Text) : written ((names.map Tag.closing ++ [tag]).map .found) =
      endTags names ++ tag.written := by
    rw [List.map_append, written_append, written_closings]
    simp [written, Item.written]
  have hsingle : written ([tag].map .found) = tag.written := by
    simp [written, Item.written]
  unfold replacement repairTag
  rw [Tag.switchesFont]
  split
  · split
    · exact hsingle
    · split
      · exact hclosings _
      · rfl
  · split
    · exact hsingle
    · exact hclosings _

theorem repairItems_eq (opened : List Text) (parts : List (Item Tag)) :
    repairItems opened parts = written (repairedParts opened parts) := by
  induction parts generalizing opened with
  | nil => exact (written_closings opened).symm
  | cons part parts ih =>
    cases part with
    | char c =>
      rw [repairItems, repairedParts, ih]
      rfl
    | found tag => rw [repairItems, repairedParts, written_append, written_replacement, ih]

/-- Only fonts are open. -/
def FontNames (opened : List Text) : Prop :=
  ∀ name ∈ opened, fontElements.contains name = true

theorem closing_switchesFont {name : Text} (h : fontElements.contains name = true) :
    (Tag.closing name).switchesFont = true := by
  rw [Tag.switchesFont]
  exact Bool.and_eq_true_iff.mpr ⟨h, rfl⟩

theorem closing_wellFormed {name : Text} (h : fontElements.contains name = true) : (Tag.closing name).WellFormed := by
  have hname : name = "emphasis".toList ∨ name = "literal".toList := by simpa [fontElements] using h
  rcases hname with rfl | rfl
  · exact .intro true (by decide) (List.all_eq_true.mp (by decide)) .bare
  · exact .intro true (by decide) (List.all_eq_true.mp (by decide)) .bare

/-- What is open after a tag is what was open before it, less what it closes, with the font that it opens. -/
theorem fontNames_repairTag {opened : List Text} (h : FontNames opened) (tag : Tag) :
    FontNames (repairTag opened tag).2 := by
  unfold repairTag
  split
  · rename_i hs
    split
    · intro name hm
      rcases List.mem_cons.mp hm with rfl | hm
      · exact (Bool.and_eq_true_iff.mp hs).1
      · exact h name hm
    · split
      · exact fun name hm => h name (List.mem_of_mem_drop hm)
      · exact h
  · split
    · exact h
    · exact fun name hm => by cases hm

theorem FontNames.tail {name : Text} {opened : List Text} (h : FontNames (name :: opened)) : FontNames opened :=
  fun other hm => h other (List.mem_cons_of_mem name hm)

/-- End tags of the innermost fonts leave the others open. -/
theorem fontsNested_closings {inner outer : List Text} (h : FontNames inner) {rest : List Tag}
    (hr : FontsNested outer rest) : FontsNested (inner ++ outer) (inner.map .closing ++ rest) := by
  induction inner with
  | nil => exact hr
  | cons name inner ih =>
    rw [List.map_cons, List.cons_append, List.cons_append, FontsNested,
      if_pos (closing_switchesFont (h name List.mem_cons_self))]
    exact ⟨rfl, ih h.tail⟩

/-- The fonts inside the innermost open one of a name, that one, and the fonts around it. -/
theorem split_opened {opened : List Text} {name : Text} (h : name ∈ opened) :
    opened = opened.takeWhile (· != name) ++ name :: opened.drop ((opened.takeWhile (· != name)).length + 1) := by
  induction opened with
  | nil => cases h
  | cons first opened ih =>
    by_cases hf : first = name
    · rw [hf, List.takeWhile_cons_of_neg (by simp)]
      rfl
    · have hm : name ∈ opened := (List.mem_cons.mp h).resolve_left (Ne.symm hf)
      rw [List.takeWhile_cons_of_pos (by simpa using hf)]
      exact congrArg (first :: ·) (ih hm)

/-- What stands for a tag after the repair leads from the fonts open before it to those open after it. -/
theorem fontsNested_replacement {opened : List Text} (h : FontNames opened) (tag : Tag) {rest : List Tag}
    (hr : FontsNested (repairTag opened tag).2 rest) : FontsNested opened (replacement opened tag ++ rest) := by
  unfold repairTag at hr
  rw [← Tag.switchesFont] at hr
  unfold replacement
  by_cases hs : tag.switchesFont = true
  · rw [if_pos hs] at hr ⊢
    cases he : tag.isEnd with
    | false =>
      rw [he] at hr
      rw [Bool.not_false, if_pos rfl, List.singleton_append, FontsNested, if_pos hs, he]
      exact hr
    | true =>
      rw [he, Bool.not_true, if_neg Bool.false_ne_true] at hr
      rw [Bool.not_true, if_neg Bool.false_ne_true]
      by_cases hm : opened.contains tag.name = true
      · rw [if_pos hm] at hr ⊢
        have hsplit := split_opened (List.contains_iff_mem.mp hm)
        have hinner : FontNames (opened.takeWhile (· != tag.name)) :=
          fun name hn => h name ((List.takeWhile_prefix _).subset hn)
        generalize opened.takeWhile (· != tag.name) = inner at hr hsplit hinner
        rw [List.append_assoc, hsplit]
        apply fontsNested_closings hinner
        rw [List.singleton_append, FontsNested, if_pos hs, he, if_pos rfl]
        exact ⟨rfl, hr⟩
      · rw [if_neg hm] at hr ⊢
        exact hr
  · rw [if_neg hs] at hr ⊢
    by_cases hi : inlineElements.contains tag.name = true
    · rw [if_pos hi] at hr ⊢
      rw [List.singleton_append, FontsNested, if_neg hs]
      exact ⟨fun hn => absurd (hi.symm.trans hn) (by decide), hr⟩
    · rw [if_neg hi] at hr ⊢
      have hend : FontsNested [] ([tag] ++ rest) := by
        rw [List.singleton_append, FontsNested, if_neg hs]
        exact ⟨fun _ => rfl, hr⟩
      have hall := fontsNested_closings h hend
      rw [List.append_nil] at hall
      rw [List.append_assoc]
      exact hall

/-- After the repair fonts are nested, whatever markup is repaired. -/
theorem fontsNested_repairedParts {opened : List Text} (h : FontNames opened) (parts : List (Item Tag)) :
    FontsNested opened ((repairedParts opened parts).filterMap Item.tag?) := by
  induction parts generalizing opened with
  | nil =>
    have hend := fontsNested_closings h (show FontsNested [] [] from rfl)
    rw [List.append_nil, List.append_nil] at hend
    rw [repairedParts, List.filterMap_map]
    simpa [Function.comp_def, Item.tag?] using hend
  | cons part parts ih =>
    cases part with
    | char c => exact ih h
    | found tag =>
      rw [repairedParts, List.filterMap_append, List.filterMap_map]
      have hrest := fontsNested_replacement h tag (ih (fontNames_repairTag h tag))
      simpa [Function.comp_def, Item.tag?] using hrest

theorem filter_closings {opened : List Text} (h : FontNames opened) :
    ((opened.map Tag.closing).map Item.found).filter (!·.switchesFont) = [] := by
  apply List.filter_eq_nil_iff.mpr
  intro part hm
  obtain ⟨tag, ht, rfl⟩ := List.mem_map.mp hm
  obtain ⟨name, hn, rfl⟩ := List.mem_map.mp ht
  simp [Item.switchesFont, closing_switchesFont (h name hn)]

theorem filter_replacement {opened : List Text} (h : FontNames opened) (tag : Tag) :
    ((replacement opened tag).map .found).filter (!·.switchesFont) = [Item.found tag].filter (!·.switchesFont) := by
  have hclosings {names : List Text} (hn : FontNames names) :
      ((names.map Tag.closing ++ [tag]).map .found).filter (!·.switchesFont) =
        [Item.found tag].filter (!·.switchesFont) := by
    rw [List.map_append, List.filter_append, filter_closings hn]
    rfl
  unfold replacement
  by_cases hs : tag.switchesFont = true
  · rw [if_pos hs]
    split
    · rfl
    · split
      · exact hclosings fun name hm => h name ((List.takeWhile_prefix _).subset hm)
      · simp [Item.switchesFont, hs]
  · rw [if_neg hs]
    split
    · rfl
    · exact hclosings h

/-- The repair only takes away and adds tags that open or close fonts. -/
theorem filter_repairedParts {opened : List Text} (h : FontNames opened) (parts : List (Item Tag)) :
    (repairedParts opened parts).filter (!·.switchesFont) = parts.filter (!·.switchesFont) := by
  induction parts generalizing opened with
  | nil => exact filter_closings h
  | cons part parts ih =>
    cases part with
    | char c => exact congrArg (.char c :: ·) (ih h)
    | found tag =>
      rw [repairedParts, List.filter_append, filter_replacement h, ih (fontNames_repairTag h tag), ← List.filter_append]
      rfl

theorem replacement_of_nested {opened : List Text} {tag : Tag} {rest : List Tag}
    (h : FontsNested opened (tag :: rest)) :
    replacement opened tag = [tag] ∧ FontsNested (repairTag opened tag).2 rest := by
  rw [FontsNested] at h
  unfold replacement repairTag
  rw [← Tag.switchesFont]
  by_cases hs : tag.switchesFont = true
  · rw [if_pos hs] at h
    rw [if_pos hs, if_pos hs]
    cases he : tag.isEnd with
    | false =>
      rw [he] at h
      exact ⟨rfl, h⟩
    | true =>
      rw [he, if_pos rfl] at h
      obtain ⟨outer, rfl⟩ : ∃ outer, opened = tag.name :: outer := by
        cases opened with
        | nil => cases h.1
        | cons name outer =>
          obtain rfl := Option.some.inj h.1
          exact ⟨outer, rfl⟩
      have htake : (tag.name :: outer).takeWhile (· != tag.name) = [] :=
        List.takeWhile_cons_of_neg (by simp)
      rw [htake]
      simpa using h.2
  · rw [if_neg hs] at h
    rw [if_neg hs, if_neg hs]
    by_cases hi : inlineElements.contains tag.name = true
    · rw [if_pos hi, if_pos hi]
      exact ⟨rfl, h.2⟩
    · obtain rfl := h.1 (Bool.eq_false_iff.mpr hi)
      rw [if_neg hi, if_neg hi]
      exact ⟨rfl, h.2⟩

/-- Markup whose fonts are nested stands as it is. -/
theorem repairedParts_of_nested {opened : List Text} {parts : List (Item Tag)}
    (h : FontsNested opened (parts.filterMap Item.tag?)) : repairedParts opened parts = parts := by
  induction parts generalizing opened with
  | nil =>
    rw [show opened = [] from h]
    rfl
  | cons part parts ih =>
    cases part with
    | char c => exact congrArg (.char c :: ·) (ih h)
    | found tag =>
      obtain ⟨htag, hrest⟩ := replacement_of_nested h
      rw [repairedParts, htag, ih hrest]
      rfl

theorem mem_replacement {opened : List Text} {tag other : Tag} (h : other ∈ replacement opened tag) :
    other = tag ∨ ∃ name ∈ opened, other = .closing name := by
  have hclosings {names : List Text} (hn : names ⊆ opened) (hm : other ∈ names.map Tag.closing ++ [tag]) :
      other = tag ∨ ∃ name ∈ opened, other = .closing name := by
    rcases List.mem_append.mp hm with hm | hm
    · obtain ⟨name, hname, rfl⟩ := List.mem_map.mp hm
      exact Or.inr ⟨name, hn hname, rfl⟩
    · exact Or.inl (List.mem_singleton.mp hm)
  unfold replacement at h
  split at h
  · split at h
    · exact Or.inl (List.mem_singleton.mp h)
    · split at h
      · exact hclosings (List.takeWhile_prefix _).subset h
      · cases h
  · split at h
    · exact Or.inl (List.mem_singleton.mp h)
    · exact hclosings (List.Subset.refl opened) h

/-- The repaired parts are read as they are written. -/
theorem readable_repairedParts {opened : List Text} (h : FontNames opened) {parts : List (Item Tag)}
    (hp : ∀ part ∈ parts, part.Readable) : ∀ part ∈ repairedParts opened parts, part.Readable := by
  induction parts generalizing opened with
  | nil =>
    intro part hm
    obtain ⟨tag, ht, rfl⟩ := List.mem_map.mp hm
    obtain ⟨name, hn, rfl⟩ := List.mem_map.mp ht
    exact closing_wellFormed (h name hn)
  | cons part parts ih =>
    have hfirst := hp part List.mem_cons_self
    have hothers : ∀ other ∈ parts, other.Readable := fun other hm => hp other (List.mem_cons_of_mem part hm)
    cases part with
    | char c =>
      intro other hm
      rcases List.mem_cons.mp hm with rfl | hm
      · exact hfirst
      · exact ih h hothers other hm
    | found tag =>
      intro other hm
      rcases List.mem_append.mp hm with hm | hm
      · obtain ⟨found, hf, rfl⟩ := List.mem_map.mp hm
        rcases mem_replacement hf with rfl | ⟨name, hn, rfl⟩
        · exact hfirst
        · exact closing_wellFormed (h name hn)
      · exact ih (fontNames_repairTag h tag) hothers other hm

theorem fontNames_nil : FontNames [] :=
  fun _ hm => by cases hm

theorem items_closeTags {body : Text} (h : Tagged body) :
    items Tag.read? (closeTags body) = repairedParts [] (items Tag.read? body) := by
  rw [closeTags, repairItems_eq]
  exact items_written (readable_repairedParts fontNames_nil h.parts.1)

/-- Repaired markup stands as it is. -/
theorem closeTags_of_nested {body : Text} (h : Tagged body) (hn : FontsNested [] (tags body)) :
    closeTags body = body := by
  rw [closeTags, repairItems_eq, repairedParts_of_nested hn, h.parts.2]

/-- After the repair fonts are nested in markup. Only tags that open or close fonts have changed, and none where fonts
were nested before. -/
theorem closeTags_repairs {body : Text} (h : Tagged body) :
    FontsNested [] (tags (closeTags body)) ∧ withoutFonts (closeTags body) = withoutFonts body ∧
      (closeTags body = body ↔ FontsNested [] (tags body)) ∧ closeTags (closeTags body) = closeTags body := by
  have hitems := items_closeTags h
  have hnested : FontsNested [] (tags (closeTags body)) := by
    rw [tags, hitems]
    exact fontsNested_repairedParts fontNames_nil _
  refine ⟨hnested, ?_, ⟨fun he => he ▸ hnested, closeTags_of_nested h⟩, ?_⟩
  · rw [withoutFonts, withoutFonts, hitems, filter_repairedParts fontNames_nil]
  · rw [closeTags, hitems, repairItems_eq]
    rw [repairedParts_of_nested (fontsNested_repairedParts fontNames_nil _), closeTags, repairItems_eq]

/-- Fonts that overlap, and an end tag that nothing was opened for. -/
theorem closeTags_repairs_overlapping :
    let body : Text := "<para><emphasis>a<literal>b</emphasis>c</literal> <option>-x</option><emphasis>d</para>"
    Tagged body ∧ FontsNested [] (tags (closeTags body)) ∧ withoutFonts (closeTags body) = withoutFonts body ∧
      (closeTags body = body ↔ FontsNested [] (tags body)) ∧ closeTags (closeTags body) = closeTags body := by
  intro body
  have h : Tagged body := by decide
  exact ⟨h, closeTags_repairs h⟩

end RoffDocBook.Markup
