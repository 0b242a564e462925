import RoffDocBook.Proofs.Document.Balance
import RoffDocBook.Proofs.Document.Rendering

/-! The tags in a line of output. What character data is rendered as, with fonts, glyphs and registers in it, has no tags
of sections in it. -/
namespace RoffDocBook.Document
open Text Markup

/-- A text in which no section begins or ends. -/
def SectionFree (t : Text) : Prop :=
  ∀ name ∈ sectionNames, ¬ ("<" ++ name : Text) <:+: t ∧ ¬ ("</" ++ name : Text) <:+: t

/-- Whether a text begins with a letter that no section is named with. -/
def startsOther (t : Text) : Bool :=
  t.head?.any fun c => c.isAlpha && c != 'r' && c != 's'

/-- Whether a text goes on as a start tag or an end tag that is none of a section. -/
def startsTag (t : Text) : Bool :=
  startsOther t || (t.head? == some '/' && startsOther t.tail)

/-- Whether the tags in a text are none of sections. -/
def tagsOther : Text → Bool
  | [] => true
  | c :: rest => (c != '<' || startsTag rest) && tagsOther rest

section
variable {t u rest : Text} {c : Char}

theorem startsOther_append (h : startsOther t = true) : startsOther (t ++ u) = true := by
  cases t with
  | nil => cases h
  | cons c t => exact h

theorem startsTag_append (h : startsTag t = true) : startsTag (t ++ u) = true := by
  cases t with
  | nil => cases h
  | cons c t =>
    unfold startsTag at h ⊢
    rw [Bool.or_eq_true, Bool.and_eq_true] at h ⊢
    exact h.imp startsOther_append fun h => ⟨h.1, startsOther_append h.2⟩

theorem tagsOther_append (ht : tagsOther t = true) (hu : tagsOther u = true) : tagsOther (t ++ u) = true := by
  induction t with
  | nil => exact hu
  | cons c t ih =>
    rw [tagsOther, Bool.and_eq_true, Bool.or_eq_true] at ht
    rw [List.cons_append, tagsOther, ih ht.2, Bool.and_true, Bool.or_eq_true]
    exact ht.1.imp_right startsTag_append

theorem tagsOther_of_notMem (h : '<' ∉ t) : tagsOther t = true := by
  induction t with
  | nil => rfl
  | cons c t ih =>
    rw [List.mem_cons, not_or] at h
    have hc : (c != '<') = true := bne_iff_ne.mpr (Ne.symm h.1)
    rw [tagsOther, ih h.2, hc]
    rfl

theorem tagsOther_suffix (h : tagsOther t = true) (hs : rest <:+ t) : tagsOther rest = true := by
  obtain ⟨before, rfl⟩ := hs
  induction before with
  | nil => exact h
  | cons c before ih =>
    rw [List.cons_append, tagsOther, Bool.and_eq_true] at h
    exact ih h.2

theorem sectionFree_of_tagsOther (h : tagsOther t = true) : SectionFree t := by
  have hnames : ∀ name ∈ sectionNames, ∀ rest,
      startsTag (name ++ rest) = false ∧ startsTag ('/' :: (name ++ rest)) = false := by
    unfold sectionNames
    simp [startsTag, startsOther]
  have hnone {name : Text} (hn : ∀ rest, startsTag (name ++ rest) = false) : ¬ ('<' :: name) <:+: t := by
    rintro ⟨before, rest, rfl⟩
    rw [List.append_assoc] at h
    have hlast := tagsOther_suffix h (List.suffix_append before _)
    rw [List.cons_append, tagsOther, hn] at hlast
    cases hlast
  intro name hname
  exact ⟨hnone fun rest => (hnames name hname rest).1, hnone fun rest => (hnames name hname rest).2⟩

/-- A text that goes on from the start as another one does, with the tags of that one or fewer. -/
structure Follows (t u : Text) : Prop where
  tags : tagsOther t = true → tagsOther u = true
  name : startsOther t = true → startsOther u = true
  start : startsTag t = true → startsTag u = true

theorem Follows.refl (t : Text) : Follows t t :=
  ⟨id, id, id⟩

theorem Follows.trans {v : Text} (h : Follows t u) (k : Follows u v) : Follows t v :=
  ⟨k.tags ∘ h.tags, k.name ∘ h.name, k.start ∘ h.start⟩

theorem Follows.cons (h : Follows t u) (c : Char) : Follows (c :: t) (c :: u) where
  tags ht := by
    rw [tagsOther, Bool.and_eq_true, Bool.or_eq_true] at ht ⊢
    exact ⟨ht.1.imp_right h.start, h.tags ht.2⟩
  name := id
  start ht := by
    unfold startsTag at ht ⊢
    rw [Bool.or_eq_true, Bool.and_eq_true] at ht ⊢
    exact ht.imp_right fun ht => ⟨ht.1, h.name ht.2⟩

/-- Something that begins no tag and is in no tag's name may be replaced. -/
theorem Follows.replace (h : Follows rest u) (pre : Text) (hs : rest <:+ c :: t)
    (hc : startsTag (c :: t) = false) (hp : '<' ∉ pre) : Follows (c :: t) (pre ++ u) where
  tags ht := tagsOther_append (tagsOther_of_notMem hp) (h.tags (tagsOther_suffix ht hs))
  name ht := by
    rw [startsTag, ht] at hc
    cases hc
  start ht := by
    rw [hc] at ht
    cases ht

end

theorem spanUntil_suffix (p : Char → Bool) (t : Text) : (spanUntil p t).2.drop 1 <:+ t :=
  (List.drop_suffix _ _).trans (List.dropWhile_suffix _)

theorem readDelimited_suffix (t : Text) : (Inline.readDelimited t).2 <:+ t := by
  cases t with
  | nil => exact List.suffix_refl _
  | cons d rest => exact (spanUntil_suffix _ rest).trans (List.suffix_cons d rest)

theorem logicalChar?_suffix {t rest : Text} {c : Char} (h : Inline.logicalChar? t = some (c, rest)) : rest <:+ t := by
  unfold Inline.logicalChar? at h
  split at h
  · cases h
  all_goals
    obtain ⟨_, rfl⟩ := Prod.mk.inj (Option.some.inj h)
    simp [List.suffix_cons_iff]

theorem readName_suffix (t : Text) : (Inline.readName t).2 <:+ t := by
  unfold Inline.readName
  split
  · exact List.suffix_refl _
  · rename_i rest
    refine List.IsSuffix.trans ?_ (List.suffix_cons _ rest)
    split
    · exact List.suffix_refl _
    · rename_i a after ha
      have hfirst := logicalChar?_suffix ha
      split
      · exact hfirst
      · rename_i b more hb
        exact (logicalChar?_suffix hb).trans hfirst
  · rename_i rest
    exact (spanUntil_suffix _ rest).trans (List.suffix_cons _ rest)
  · split
    · rename_i a after ha
      exact logicalChar?_suffix ha
    · exact List.nil_suffix

theorem afterSize_suffix (t : Text) : Inline.afterSize t <:+ t := by
  have hsign : Inline.afterSign t <:+ t := by
    unfold Inline.afterSign
    split
    · exact List.suffix_cons _ _
    · exact List.suffix_cons _ _
    · exact List.suffix_refl _
  refine List.IsSuffix.trans ?_ hsign
  unfold Inline.afterSize
  split
  · rename_i rest h
    rw [h]
    exact (List.drop_suffix _ _).trans (List.suffix_cons _ _)
  · rename_i rest h
    rw [h]
    exact (spanUntil_suffix _ rest).trans (List.suffix_cons _ _)
  · rename_i rest h
    rw [h]
    exact (spanUntil_suffix _ rest).trans (List.suffix_cons _ _)
  · rename_i c rest _ _ _ h
    rw [h]
    split
    · split
      · split
        · exact ⟨[c, _], rfl⟩
        · exact List.suffix_cons _ _
      · exact List.nil_suffix
    · exact List.suffix_refl _
  · exact List.nil_suffix

theorem readRegister_suffix (s : Formatter.State) (t : Text) : (s.readRegister t).2.1 <:+ t := by
  have hname (t : Text) : (Formatter.readName t).2 <:+ t := by
    unfold Formatter.readName
    split
    · exact List.suffix_refl _
    · exact (List.drop_suffix _ _).trans (List.suffix_cons _ _)
    · exact (spanUntil_suffix _ _).trans (List.suffix_cons _ _)
    · exact List.suffix_cons _ _
  unfold Formatter.State.readRegister
  split
  · exact (hname _).trans (List.suffix_cons _ _)
  · exact (hname _).trans (List.suffix_cons _ _)
  · exact hname t

theorem notMem_ofNat {c : Char} (hc : c.isDigit = false) (n : Nat) : c ∉ ofNat n := by
  intro hm
  have hdigit := Nat.isDigit_of_mem_toDigits (by decide) (by decide) hm
  rw [hc] at hdigit
  cases hdigit

theorem notMem_ofInt (n : Int) : '<' ∉ ofInt n := by
  unfold ofInt
  split
  · rw [List.mem_cons, not_or]
    exact ⟨by decide, notMem_ofNat (by decide) _⟩
  · exact notMem_ofNat (by decide) _

theorem angle_notMem_escape (t : Text) : '<' ∉ escape t := by
  intro hm
  obtain ⟨c, _, hc⟩ := List.mem_flatMap.mp hm
  unfold escapeChar at hc
  split at hc
  · exact absurd hc (by decide)
  · exact absurd hc (by decide)
  · exact absurd hc (by decide)
  · rename_i hne _
    exact hne (List.mem_singleton.mp hc).symm

/-- The values of registers are numbers, so they add no tags. -/
theorem follows_interpolate (s : Formatter.State) (t : Text) : Follows t (s.interpolate t).1 := by
  fun_induction Formatter.State.interpolate s t with
  | case1 s => exact .refl _
  | case2 s rest found result ih =>
    have hrest : found.2.1 <:+ '\\' :: 'n' :: rest :=
      (readRegister_suffix s rest).trans ((List.suffix_cons _ _).trans (List.suffix_cons _ _))
    exact ih.replace _ hrest rfl (notMem_ofInt _)
  | case3 s c rest _ result ih => exact (ih.cons c).cons '\\'
  | case4 s c rest _ _ result ih => exact ih.cons c

theorem follows_stripMotions (t : Text) : Follows t (Inline.stripMotions t) := by
  fun_induction Inline.stripMotions t with
  | case1 => exact .refl _
  | case2 rest ih =>
    have hrest : Inline.afterSize rest <:+ '\\' :: 's' :: rest :=
      (afterSize_suffix rest).trans ((List.suffix_cons _ _).trans (List.suffix_cons _ _))
    exact ih.replace [] hrest rfl List.not_mem_nil
  | case3 rest ih =>
    have hrest : (Inline.readDelimited rest).2 <:+ '\\' :: 'v' :: rest :=
      (readDelimited_suffix rest).trans ((List.suffix_cons _ _).trans (List.suffix_cons _ _))
    exact ih.replace [] hrest rfl List.not_mem_nil
  | case4 rest ih =>
    have hrest : (Inline.readDelimited rest).2 <:+ '\\' :: 'h' :: rest :=
      (readDelimited_suffix rest).trans ((List.suffix_cons _ _).trans (List.suffix_cons _ _))
    exact ih.replace [' '] hrest rfl (by decide)
  | case5 c rest _ _ _ ih => exact (ih.cons c).cons '\\'
  | case6 c rest _ _ _ _ ih => exact ih.cons c

theorem follows_expandTabsFrom (stops : List Nat) (scan : ColumnScan) (t : Text) :
    Follows t (expandTabsFrom stops scan t) := by
  induction t generalizing scan with
  | nil => exact .refl _
  | cons c rest ih =>
    unfold expandTabsFrom
    split
    · exact (ih _).cons c
    · split
      · exact (ih _).cons c
      · split
        · exact (ih _).cons c
        · split
          · exact (ih _).cons c
          · split
            · rename_i htab
              rw [Bool.and_eq_true, beq_iff_eq] at htab
              rw [htab.1]
              refine (ih _).replace _ (List.suffix_cons _ _) (by rfl) fun hm => ?_
              exact absurd (List.eq_of_mem_replicate hm) (by decide)
            · split
              · exact (ih _).cons c
              · exact (ih _).cons c

theorem afterAmpersand_suffix (t : Text) : Inline.afterAmpersand t <:+ t := by
  unfold Inline.afterAmpersand
  split
  · simp [List.suffix_cons_iff]
  · exact List.suffix_refl _

/-- Text that is written as it is begins no tag. -/
def Bracketless : Inline.Piece → Prop
  | .plain text => '<' ∉ text
  | _ => True

/-- What is written as it is comes from the line, or is one of a few characters. -/
theorem bracketless_of_mem_pieces {t : Text} (h : '<' ∉ t) : ∀ piece ∈ Inline.pieces t, Bracketless piece := by
  have later {c : Char} {rest after : Text} (hn : '<' ∉ '\\' :: c :: rest) (hs : after <:+ c :: rest) : '<' ∉ after :=
    fun hm => hn (List.mem_cons_of_mem _ (hs.subset hm))
  have behind {c : Char} {rest after : Text} (hs : after <:+ rest) : after <:+ c :: rest :=
    hs.trans (List.suffix_cons c rest)
  fun_induction Inline.pieces t with
  | case1 | case2 | case8 => exact fun _ hm => by cases hm
  | case3 =>
    rename_i ih
    exact List.forall_mem_cons.mpr ⟨trivial, ih (later h (behind (readName_suffix _)))⟩
  | case4 =>
    rename_i ih
    exact List.forall_mem_cons.mpr ⟨trivial, ih (later h (readName_suffix _))⟩
  | case5 | case6 | case15 =>
    rename_i ih
    exact List.forall_mem_cons.mpr ⟨trivial, ih (later h (behind (readDelimited_suffix _)))⟩
  | case7 =>
    rename_i ih
    exact ih (later h (behind (afterAmpersand_suffix _)))
  | case9 =>
    rename_i ih
    exact ih (later h (List.suffix_cons _ _))
  | case10 | case11 | case12 | case13 =>
    rename_i ih
    refine List.forall_mem_cons.mpr ⟨?_, ih (later h (List.suffix_cons _ _))⟩
    unfold Bracketless
    decide
  | case14 =>
    rename_i ih
    refine List.forall_mem_cons.mpr ⟨fun hm => h ?_, ih (later h (List.suffix_cons _ _))⟩
    change _ ∈ ['\\', _] ++ _
    exact List.mem_append_left _ hm
  | case16 =>
    rename_i ih
    exact ih (later h (behind (readDelimited_suffix _)))
  | case17 =>
    rename_i ih
    exact ih (later h (behind (readName_suffix _)))
  | case18 =>
    rename_i ih
    refine List.forall_mem_cons.mpr ⟨fun hm => h ?_, ih (later h (List.suffix_cons _ _))⟩
    refine List.mem_cons_of_mem _ ?_
    change _ ∈ [_] ++ _
    exact List.mem_append_left _ hm
  | case19 =>
    rename_i ih
    refine List.forall_mem_cons.mpr ⟨fun hm => h ?_, ih fun hm => h (List.mem_cons_of_mem _ hm)⟩
    change _ ∈ [_] ++ _
    exact List.mem_append_left _ hm

section
variable {doc : Document}

theorem tagsOther_closing (fonts : FontState) : tagsOther fonts.closing = true := by
  unfold FontState.closing
  split
  · cases fonts.current <;> decide
  · rfl

theorem tagsOther_openTag (font : Font) : tagsOther font.openTag = true := by
  cases font <;> decide

/-- A glyph is written as the source defines it, or without tags. -/
theorem namedGlyph_written (name : Text) :
    (∃ entry ∈ doc.formatter.glyphs, (doc.namedGlyph name).1 = entry.2) ∨ '<' ∉ (doc.namedGlyph name).1 := by
  have hentities : ∀ glyph ∈ Glyph.all, ∀ entity ∈ glyph.entity, '<' ∉ entity.toList := by decide +kernel
  unfold namedGlyph
  split
  · rename_i definition hdefinition
    exact Or.inl ⟨_, Bindings.mem_of_get? hdefinition, rfl⟩
  · refine Or.inr ?_
    split
    · rename_i glyph hglyph
      split
      · rename_i entity hentity
        have hname := hentities glyph (List.mem_of_find?_eq_some hglyph) entity hentity
        simp only [List.mem_append, not_or]
        exact ⟨⟨by decide, hname⟩, by decide⟩
      · exact angle_notMem_escape _
    · split
      · exact angle_notMem_escape _
      · exact angle_notMem_escape _

theorem glyphMarkup_written (name : Text) :
    (∃ entry ∈ doc.formatter.glyphs, (doc.glyphMarkup name).1 = entry.2) ∨ '<' ∉ (doc.glyphMarkup name).1 := by
  unfold glyphMarkup
  split
  · rename_i digits
    split
    · rename_i hcode
      have hdigits : '<' ∉ (spanUntil (· == '_') digits).1 := by
        intro hm
        unfold isCodeName at hcode
        rw [Bool.and_eq_true, List.all_eq_true] at hcode
        exact absurd (hcode.2 _ ((List.takeWhile_prefix _).subset hm)) (by decide)
      refine Or.inr ?_
      simp only [List.mem_append, not_or]
      exact ⟨⟨by decide, hdigits⟩, by decide⟩
    · exact namedGlyph_written _
  · exact namedGlyph_written name

/-- What is neither text as it is nor a change of font is written as a glyph is, or without tags. -/
theorem renderPiece_written {piece : Inline.Piece} (hplain : ∀ text, piece ≠ .plain text)
    (hfont : ∀ name, piece ≠ .font name) :
    (∃ entry ∈ doc.formatter.glyphs, (doc.renderPiece piece).1 = entry.2) ∨ '<' ∉ (doc.renderPiece piece).1 := by
  cases piece with
  | plain text => exact absurd rfl (hplain text)
  | font name => exact absurd rfl (hfont name)
  | glyph name => exact glyphMarkup_written name
  | numbered number =>
    refine Or.inr ?_
    unfold renderPiece
    dsimp only
    split
    · split
      · simp only [List.mem_append, not_or]
        exact ⟨⟨by decide, notMem_ofNat (by decide) _⟩, by decide⟩
      · exact List.not_mem_nil
    · exact List.not_mem_nil
  | width text => exact Or.inr (notMem_ofNat (by decide) _)

theorem tagsOther_renderPiece (hg : doc.formatter.glyphs = []) {piece : Inline.Piece} (hp : Bracketless piece) :
    tagsOther (doc.renderPiece piece).1 = true := by
  have hother (h : (∃ entry ∈ doc.formatter.glyphs, (doc.renderPiece piece).1 = entry.2) ∨
      '<' ∉ (doc.renderPiece piece).1) : tagsOther (doc.renderPiece piece).1 = true := by
    rcases h with ⟨entry, hm, _⟩ | h
    · rw [hg] at hm
      cases hm
    · exact tagsOther_of_notMem h
  cases piece with
  | plain text => exact tagsOther_of_notMem hp
  | font name =>
    unfold renderPiece
    dsimp only
    split
    · exact tagsOther_append (tagsOther_closing _) (tagsOther_openTag _)
    · rfl
  | _ => exact hother (renderPiece_written (fun _ he => by cases he) fun _ he => by cases he)

theorem Renders.glyphs {after : Document} (h : Renders doc after) : after.formatter.glyphs = doc.formatter.glyphs := by
  obtain ⟨_, _, _, _, rfl⟩ := h
  rfl

theorem tagsOther_renderPieces (hg : doc.formatter.glyphs = []) {pieces : List Inline.Piece}
    (hp : ∀ piece ∈ pieces, Bracketless piece) : tagsOther (doc.renderPieces pieces).1 = true := by
  induction pieces generalizing doc with
  | nil => rfl
  | cons piece pieces ih =>
    obtain ⟨hfirst, hothers⟩ := List.forall_mem_cons.mp hp
    have hafter := (doc.renders_renderPiece piece).glyphs.trans hg
    exact tagsOther_append (tagsOther_renderPiece hg hfirst) (ih hafter hothers)

theorem tagsOther_renderInline (hg : doc.formatter.glyphs = []) {line : Text} (h : '<' ∉ line) :
    tagsOther (doc.renderInline line).1 = true := by
  have hpieces := bracketless_of_mem_pieces h
  have hopen (opens : Bool) : tagsOther (if opens then doc.fonts.current.openTag else []) = true := by
    split
    · exact tagsOther_openTag _
    · rfl
  unfold renderInline
  refine tagsOther_append (hopen _) (tagsOther_renderPieces ?_ hpieces)
  split <;> exact hg

/-- The last steps of writing a line leave its tags as they are. -/
theorem tagsOther_finishLine (hs : doc.substitutes = []) {text : Text} (h : tagsOther text = true) :
    tagsOther (doc.finishLine text).1 = true := by
  have hstripped := (follows_stripMotions _).tags ((follows_interpolate doc.formatter text).tags h)
  unfold finishLine interpolate
  dsimp only
  rw [hs, substituteChars_nil]
  split
  · exact hstripped
  · exact (follows_expandTabsFrom _ _ _).tags hstripped

end

end RoffDocBook.Document
