import RoffDocBook.Proofs.Document.KeptTags

/-! The font tags of the running text: each one is closed before the next one opens, whatever calls write the text. -/
namespace RoffDocBook
open Text Markup

/-- The element that a font opens. -/
def Font.element? : Font → Option Text
  | .roman => none
  | .bold | .italic | .boldItalic => some "emphasis"
  | .constant | .constantBold | .constantItalic => some "literal"

/-- The font element that is open. -/
def FontState.element? (fonts : FontState) : Option Text :=
  if fonts.opened then fonts.current.element? else none

theorem Font.uncut_openTag (font : Font) : uncut font.openTag = true := by
  cases font <;> decide

theorem Font.alternate_openTag (font : Font) : Alternate none (fontTags font.openTag) font.element? := by
  cases font <;> decide

theorem Font.uncut_closeTag (font : Font) : uncut font.closeTag = true := by
  cases font <;> decide

theorem Font.alternate_closeTag (font : Font) : Alternate font.element? (fontTags font.closeTag) none := by
  cases font <;> decide

namespace FontState
variable (fonts : FontState)

theorem uncut_closing : uncut fonts.closing = true := by
  unfold closing
  split
  · exact fonts.current.uncut_closeTag
  · rfl

theorem alternate_closing : Alternate fonts.element? (fontTags fonts.closing) none := by
  unfold closing element?
  split
  · exact fonts.current.alternate_closeTag
  · rfl

theorem element?_of_closed (h : fonts.opened = false) : fonts.element? = none := by
  rw [element?, h]
  rfl

theorem element?_switchTo (font : Font) : (fonts.switchTo font).1.element? = font.element? := by
  cases font <;> rfl

theorem uncut_switchTo (font : Font) : uncut (fonts.switchTo font).2 = true :=
  uncut_append fonts.uncut_closing font.uncut_openTag

theorem alternate_switchTo (font : Font) :
    Alternate fonts.element? (fontTags (fonts.switchTo font).2) (fonts.switchTo font).1.element? := by
  rw [element?_switchTo, switchTo, fontTags_append fonts.uncut_closing]
  exact fonts.alternate_closing.append font.alternate_openTag

end FontState

namespace Document

/-- The source defines no glyph by markup with font tags. -/
def PlainGlyphs (doc : Document) : Prop :=
  ∀ entry ∈ doc.formatter.glyphs, fontless entry.2 = true

/-- The markup of a text without font tags: the only font tags in it are those of changes of font. -/
structure RendersTags (doc : Document) (source markup : Text) (after : Document) : Prop where
  start : beforeEscape source <+: markup
  uncut : uncut markup = true
  alternate : Alternate doc.fonts.element? (fontTags markup) after.fonts.element?

section
variable {doc middle after : Document} {source rest markup written : Text} {c : Char}

theorem RendersTags.cons (k : RendersTags doc source markup after) (h : fontless (c :: source) = true) :
    RendersTags doc (c :: source) (c :: markup) after where
  start := isPrefix_cons k.start c
  uncut := uncut_cons.mpr ⟨cutOff_cons_of_isPrefix (uncut_cons.mp (fontless_iff.mp h).1).1 k.start, k.uncut⟩
  alternate := by
    obtain ⟨huncut, htags⟩ := fontless_iff.mp h
    rw [fontTags, at?_cons_of_isPrefix (uncut_cons.mp huncut).1 k.start, (fontTags_cons_eq_nil.mp htags).1]
    exact k.alternate

/-- What is written for an escape stands in front of the markup of the rest. -/
theorem RendersTags.escape (k : RendersTags middle rest markup after) (hp : Markup.uncut written = true)
    (ha : Alternate doc.fonts.element? (fontTags written) middle.fonts.element?) :
    RendersTags doc ('\\' :: source) (written ++ markup) after where
  start := List.nil_prefix
  uncut := uncut_append hp k.uncut
  alternate := by
    rw [fontTags_append hp]
    exact ha.append k.alternate

theorem RendersTags.put (k : RendersTags doc rest markup after) (written : Text) (hp : '<' ∉ written) :
    RendersTags doc ('\\' :: source) (written ++ markup) after :=
  k.escape (uncut_of_notMem hp) (by rw [fontTags_of_notMem hp]; exact .refl _)

theorem RendersTags.escaped (k : RendersTags doc rest markup after) : RendersTags doc ('\\' :: source) markup after :=
  k.put [] List.not_mem_nil

theorem RendersTags.empty (doc : Document) (h : beforeEscape source = []) : RendersTags doc source [] doc :=
  ⟨h ▸ List.nil_prefix, rfl, .refl _⟩

theorem PlainGlyphs.of_renders (h : PlainGlyphs doc) (k : Renders doc after) : PlainGlyphs after := by
  unfold PlainGlyphs
  rw [k.glyphs]
  exact h

/-- A glyph is looked up in the formatter, which stays as it is, and the font does too. -/
theorem glyphMarkup_leaves (doc : Document) (name : Text) :
    ∃ diagnostics entities, (doc.glyphMarkup name).2 = { doc with diagnostics, entities } := by
  have hrecord (name : String) :
      ∃ diagnostics entities, doc.recordEntity name = { doc with diagnostics, entities } := by
    unfold recordEntity
    split
    · exact ⟨_, _, rfl⟩
    · exact ⟨_, _, rfl⟩
  have hnamed (name : Text) : ∃ diagnostics entities, (doc.namedGlyph name).2 = { doc with diagnostics, entities } := by
    unfold namedGlyph
    split
    · exact ⟨_, _, rfl⟩
    · split
      · split
        · exact hrecord _
        · exact ⟨_, _, rfl⟩
      · split
        · exact ⟨_, _, rfl⟩
        · exact ⟨_, _, rfl⟩
  unfold glyphMarkup
  split
  · split
    · exact ⟨_, _, rfl⟩
    · exact hnamed _
  · exact hnamed name

/-- Rendering a piece changes the font at most, besides what is noted about the document. -/
theorem renderPiece_leaves (doc : Document) (piece : Inline.Piece) :
    ∃ fonts diagnostics entities, (doc.renderPiece piece).2 = { doc with fonts, diagnostics, entities } ∧
      ((∀ name, piece ≠ .font name) → fonts = doc.fonts) := by
  have hsame {after : Document} (h : ∃ diagnostics entities, after = { doc with diagnostics, entities }) :
      ∃ fonts diagnostics entities, after = { doc with fonts, diagnostics, entities } ∧
        ((∀ name, piece ≠ .font name) → fonts = doc.fonts) := by
    obtain ⟨diagnostics, entities, rfl⟩ := h
    exact ⟨doc.fonts, _, _, rfl, fun _ => rfl⟩
  cases piece with
  | plain text => exact hsame ⟨_, _, rfl⟩
  | font name =>
    unfold renderPiece
    dsimp only
    split
    · exact ⟨_, _, _, rfl, fun h => absurd rfl (h name)⟩
    · exact hsame ⟨_, _, rfl⟩
  | glyph name => exact hsame (doc.glyphMarkup_leaves name)
  | numbered number =>
    unfold renderPiece
    dsimp only
    split
    · split
      · exact hsame ⟨_, _, rfl⟩
      · exact hsame ⟨_, _, rfl⟩
    · exact hsame ⟨_, _, rfl⟩
  | width text => exact hsame ⟨_, _, rfl⟩

theorem renderPieces_formatter (doc : Document) (pieces : List Inline.Piece) :
    (doc.renderPieces pieces).2.formatter = doc.formatter := by
  induction pieces generalizing doc with
  | nil => rfl
  | cons piece pieces ih =>
    obtain ⟨_, _, _, he, _⟩ := doc.renderPiece_leaves piece
    rw [renderPieces, ih, he]

theorem renderInline_formatter (doc : Document) (text : Text) :
    (doc.renderInline text).2.formatter = doc.formatter := by
  unfold renderInline
  refine (renderPieces_formatter _ _).trans ?_
  split <;> rfl

/-- Only a change of font writes font tags. -/
theorem alternate_renderPiece (hg : PlainGlyphs doc) {piece : Inline.Piece} (hp : ∀ text, piece ≠ .plain text) :
    Markup.uncut (doc.renderPiece piece).1 = true ∧
      Alternate doc.fonts.element? (fontTags (doc.renderPiece piece).1) (doc.renderPiece piece).2.fonts.element? := by
  have hother (hfont : ∀ name, piece ≠ .font name) :
      Markup.uncut (doc.renderPiece piece).1 = true ∧
        Alternate doc.fonts.element? (fontTags (doc.renderPiece piece).1) (doc.renderPiece piece).2.fonts.element? := by
    have hfree : fontless (doc.renderPiece piece).1 = true := by
      rcases renderPiece_written hp hfont with ⟨entry, hm, he⟩ | h
      · rw [he]
        exact hg entry hm
      · exact fontless_of_notMem h
    obtain ⟨huncut, htags⟩ := fontless_iff.mp hfree
    obtain ⟨fonts, _, _, he, hfonts⟩ := doc.renderPiece_leaves piece
    rw [htags, he, hfonts hfont]
    exact ⟨huncut, .refl _⟩
  cases piece with
  | plain text => exact absurd rfl (hp text)
  | font name =>
    unfold renderPiece
    dsimp only
    split
    · exact ⟨doc.fonts.uncut_switchTo _, doc.fonts.alternate_switchTo _⟩
    · exact ⟨rfl, .refl _⟩
  | _ => exact hother fun _ he => by cases he

theorem RendersTags.piece (hg : PlainGlyphs doc) {piece : Inline.Piece} (hp : ∀ text, piece ≠ .plain text)
    {pieces : List Inline.Piece} (k : RendersTags (doc.renderPiece piece).2 rest
      ((doc.renderPiece piece).2.renderPieces pieces).1 ((doc.renderPiece piece).2.renderPieces pieces).2) :
    RendersTags doc ('\\' :: source) (doc.renderPieces (piece :: pieces)).1 (doc.renderPieces (piece :: pieces)).2 := by
  obtain ⟨huncut, ha⟩ := alternate_renderPiece hg hp
  exact k.escape huncut ha

theorem rendersTags_pieces (hg : PlainGlyphs doc) (h : fontless source = true) :
    RendersTags doc source (doc.renderPieces (Inline.pieces source)).1 (doc.renderPieces (Inline.pieces source)).2 := by
  have behind {e : Char} {t rest : Text} (h : fontless ('\\' :: e :: t) = true) (hs : rest <:+ e :: t) :
      fontless rest = true :=
    fontless_suffix h (hs.trans (List.suffix_cons '\\' _))
  have later {e : Char} {t rest : Text} (hs : rest <:+ t) : rest <:+ e :: t :=
    hs.trans (List.suffix_cons e t)
  have plainGlyphs {doc : Document} (hg : PlainGlyphs doc) (piece : Inline.Piece) :
      PlainGlyphs (doc.renderPiece piece).2 :=
    hg.of_renders (doc.renders_renderPiece piece)
  fun_induction Inline.pieces source generalizing doc with
  | case1 => exact .empty doc rfl
  | case2 => exact .empty doc rfl
  | case3 =>
    rename_i ih
    exact .piece hg (fun _ he => by cases he) (ih (plainGlyphs hg _) (behind h (later (readName_suffix _))))
  | case4 =>
    rename_i ih
    exact .piece hg (fun _ he => by cases he) (ih (plainGlyphs hg _) (behind h (readName_suffix _)))
  | case5 | case6 | case15 =>
    rename_i ih
    exact .piece hg (fun _ he => by cases he) (ih (plainGlyphs hg _) (behind h (later (readDelimited_suffix _))))
  | case7 =>
    rename_i ih
    exact (ih hg (behind h (later (afterAmpersand_suffix _)))).escaped
  | case8 => exact .empty doc rfl
  | case9 =>
    rename_i ih
    exact (ih hg (behind h (List.suffix_cons _ _))).escaped
  | case10 | case11 | case12 | case13 =>
    rename_i ih
    refine (ih hg (behind h (List.suffix_cons _ _))).put _ ?_
    rw [renderPiece]
    dsimp only
    decide
  | case14 =>
    rename_i ih
    exact ((ih hg (behind h (List.suffix_cons _ _))).cons (behind h (List.suffix_refl _))).cons h
  | case16 =>
    rename_i ih
    exact (ih hg (behind h (later (readDelimited_suffix _)))).escaped
  | case17 =>
    rename_i ih
    exact (ih hg (behind h (later (readName_suffix _)))).escaped
  | case18 =>
    rename_i ih
    exact ((ih hg (behind h (List.suffix_cons _ _))).cons (behind h (List.suffix_refl _))).escaped
  | case19 =>
    rename_i ih
    exact (ih hg (fontless_suffix h (List.suffix_cons _ _))).cons h

/-- A line has the tags of its changes of font, and in front of them the tag of a font that no tag was written for. -/
theorem alternate_renderInline (hg : PlainGlyphs doc) (h : fontless source = true) :
    Markup.uncut (doc.renderInline source).1 = true ∧
      Alternate doc.fonts.element? (fontTags (doc.renderInline source).1)
        (doc.renderInline source).2.fonts.element? := by
  unfold renderInline
  dsimp only
  split
  · rename_i hreopens
    rw [Bool.and_eq_true, Bool.and_eq_true, Bool.not_eq_true'] at hreopens
    have hopened : ({ doc.fonts with opened := true } : FontState).element? = doc.fonts.current.element? := rfl
    have hrest := @rendersTags_pieces { doc with fonts := { doc.fonts with opened := true } } source hg h
    have hfirst := doc.fonts.current.alternate_openTag
    rw [doc.fonts.element?_of_closed hreopens.1.2, fontTags_append doc.fonts.current.uncut_openTag]
    exact ⟨uncut_append doc.fonts.current.uncut_openTag hrest.uncut, (hopened ▸ hfirst).append hrest.alternate⟩
  · have hrest := rendersTags_pieces hg h
    exact ⟨hrest.uncut, hrest.alternate⟩

/-- What is written at the end of the output between two states of a document. -/
def appended (before after : Document) : Text :=
  (after.lines.headD []).drop (before.lines.headD []).length

theorem appended_append (doc : Document) (text : Text) : appended doc (doc.append text) = text := by
  unfold appended append
  split
  · rename_i h
    rw [h]
    rfl
  · rename_i last before h
    rw [h]
    exact List.drop_left

theorem setFont_eq (doc : Document) (name : String) :
    ∃ fonts diagnostics, doc.setFont name =
      { (if doc.fonts.closing.isEmpty then doc else doc.append doc.fonts.closing) with fonts, diagnostics } ∧
        fonts.opened = false := by
  unfold setFont
  dsimp only
  cases doc.fonts.target? name with
  | none => exact ⟨_, _, rfl, rfl⟩
  | some font => exact ⟨_, _, rfl, rfl⟩

/-- A change of font between lines writes the tag that closes the open font, and leaves none open. -/
theorem setFont_closes (doc : Document) (name : String) :
    appended doc (doc.setFont name) = doc.fonts.closing ∧ (doc.setFont name).fonts.element? = none := by
  obtain ⟨fonts, _, he, hclosed⟩ := doc.setFont_eq name
  rw [he]
  refine ⟨?_, fonts.element?_of_closed hclosed⟩
  split
  · rename_i hempty
    rw [List.isEmpty_iff.mp hempty]
    exact List.drop_length
  · exact doc.appended_append _

theorem setFont_glyphs (doc : Document) (name : String) :
    (doc.setFont name).formatter.glyphs = doc.formatter.glyphs := by
  obtain ⟨_, _, he, _⟩ := doc.setFont_eq name
  rw [he]
  split
  · rfl
  · rw [append_eq]

/-- The markup of a text that stands alone, with its references and motions still in it. -/
def fragment (doc : Document) (text : Text) : Text :=
  let rendered := { doc with fonts := {} }.renderInline text
  rendered.1 ++ rendered.2.fonts.closing

/-- The references and the motions of a text that stands alone have come to their end where a font tag begins. -/
structure EscapesEnd (doc : Document) (text : Text) : Prop where
  references : EndsBeforeTags Formatter.referencesEnd (doc.fragment text)
  motions : EndsBeforeTags Inline.motionsEnd (doc.formatter.interpolate (doc.fragment text)).1

theorem EscapesEnd.of_notMem {doc : Document} {text : Text} (h : '\\' ∉ doc.fragment text) : EscapesEnd doc text where
  references := by
    intro before rest he _
    exact Formatter.referencesEnd_of_notMem fun hm => h (he ▸ List.mem_append_left rest hm)
  motions := by
    have hsame : (doc.formatter.interpolate (doc.fragment text)).1 = doc.fragment text := by
      have happend := doc.formatter.interpolate_append h []
      rw [List.append_nil, Formatter.State.interpolate, List.append_nil] at happend
      rw [happend]
    intro before rest he _
    rw [hsame] at he
    exact Inline.motionsEnd_of_notMem fun hm => h (he ▸ List.mem_append_left rest hm)

theorem renderIsolated_eq (doc : Document) (text : Text) :
    (doc.renderIsolated text).1 = Inline.stripMotions (doc.formatter.interpolate (doc.fragment text)).1 := by
  have hformatter := renderInline_formatter { doc with fonts := {} } text
  unfold renderIsolated interpolate
  dsimp only
  rw [hformatter]
  rfl

/-- A text that stands alone has the font tags of its fragment, in which they take turns from the first to the last. -/
theorem alternate_renderIsolated (hg : PlainGlyphs doc) (h : fontless source = true) (he : EscapesEnd doc source) :
    Alternate none (fontTags (doc.renderIsolated source).1) none := by
  obtain ⟨huncut, ha⟩ := @alternate_renderInline { doc with fonts := {} } source hg h
  have hfragment : Markup.uncut (doc.fragment source) = true := uncut_append huncut (FontState.uncut_closing _)
  have hreferences := doc.formatter.keepsTags_interpolate hfragment he.references
  have hmotions := Inline.keepsTags_stripMotions hreferences.uncut he.motions
  rw [renderIsolated_eq, hmotions.tags, hreferences.tags, fragment, fontTags_append huncut]
  exact ha.append (FontState.alternate_closing _)

/-- A call that writes text or changes the font. -/
inductive FontCall where
  | inline (text : Text)
  | font (name : String)
  | close
  | isolated (text : Text)

namespace FontCall

/-- The text that is rendered. -/
def text? : FontCall → Option Text
  | inline text | isolated text => some text
  | font _ | close => none

/-- What a call adds to the running text, and the document after it. A text that stands alone is no part of it. -/
def perform (doc : Document) : FontCall → Text × Document
  | inline text => doc.renderInline text
  | font name => (appended doc (doc.setFont name), doc.setFont name)
  | close => doc.takeFontClose
  | isolated text => ([], (doc.renderIsolated text).2)

end FontCall

/-- The running text that a sequence of calls adds up to, and the document after them. -/
def performFontCalls (doc : Document) : List FontCall → Text × Document
  | [] => ([], doc)
  | call :: calls =>
    let first := call.perform doc
    let others := performFontCalls first.2 calls
    (first.1 ++ others.1, others.2)

theorem renderIsolated_glyphs (doc : Document) (text : Text) :
    (doc.renderIsolated text).2.formatter.glyphs = doc.formatter.glyphs := by
  have hrecounts (s : Formatter.State) (t : Text) : (s.interpolate t).2.glyphs = s.glyphs := by
    rw [s.recounts_interpolate t]
  exact (hrecounts _ _).trans (congrArg _ (renderInline_formatter { doc with fonts := {} } text))

theorem plainGlyphs_of_formatter (hg : PlainGlyphs doc) (h : after.formatter.glyphs = doc.formatter.glyphs) :
    PlainGlyphs after := by
  unfold PlainGlyphs
  rw [h]
  exact hg

/-- A call keeps the tags of the running text in turn, and leaves the defined glyphs as they are. -/
theorem alternate_perform (hg : PlainGlyphs doc) {call : FontCall} (h : ∀ text ∈ call.text?, fontless text = true) :
    Markup.uncut (call.perform doc).1 = true ∧
      Alternate doc.fonts.element? (fontTags (call.perform doc).1) (call.perform doc).2.fonts.element? ∧
      PlainGlyphs (call.perform doc).2 := by
  have hclosing : Markup.uncut doc.fonts.closing = true ∧
      Alternate doc.fonts.element? (fontTags doc.fonts.closing) none :=
    ⟨doc.fonts.uncut_closing, doc.fonts.alternate_closing⟩
  cases call with
  | inline text =>
    obtain ⟨huncut, ha⟩ := alternate_renderInline hg (h text rfl)
    exact ⟨huncut, ha, plainGlyphs_of_formatter hg (congrArg _ (doc.renderInline_formatter text))⟩
  | font name =>
    obtain ⟨happended, hnone⟩ := doc.setFont_closes name
    rw [FontCall.perform, happended, hnone]
    exact ⟨hclosing.1, hclosing.2, plainGlyphs_of_formatter hg (doc.setFont_glyphs name)⟩
  | close => exact ⟨hclosing.1, hclosing.2, hg⟩
  | isolated text =>
    have hfonts : (doc.renderIsolated text).2.fonts = doc.fonts := rfl
    refine ⟨rfl, ?_, plainGlyphs_of_formatter hg (doc.renderIsolated_glyphs text)⟩
    rw [FontCall.perform, hfonts]
    exact .refl _

theorem alternate_performFontCalls (hg : PlainGlyphs doc) {calls : List FontCall}
    (h : ∀ call ∈ calls, ∀ text ∈ call.text?, fontless text = true) :
    Markup.uncut (doc.performFontCalls calls).1 = true ∧
      Alternate doc.fonts.element? (fontTags (doc.performFontCalls calls).1)
        (doc.performFontCalls calls).2.fonts.element? ∧
      PlainGlyphs (doc.performFontCalls calls).2 := by
  induction calls generalizing doc with
  | nil => exact ⟨rfl, .refl _, hg⟩
  | cons call calls ih =>
    obtain ⟨hfirst, hothers⟩ := List.forall_mem_cons.mp h
    obtain ⟨huncut, ha, hglyphs⟩ := alternate_perform hg hfirst
    obtain ⟨hrest, hb, hlast⟩ := ih hglyphs hothers
    refine ⟨uncut_append huncut hrest, ?_, hlast⟩
    rw [performFontCalls, fontTags_append huncut]
    exact ha.append hb

theorem performFontCalls_append (doc : Document) (first second : List FontCall) :
    doc.performFontCalls (first ++ second) =
      ((doc.performFontCalls first).1 ++ ((doc.performFontCalls first).2.performFontCalls second).1,
        ((doc.performFontCalls first).2.performFontCalls second).2) := by
  induction first generalizing doc with
  | nil => rfl
  | cons call first ih =>
    rw [List.cons_append, performFontCalls, ih, performFontCalls]
    simp only [List.append_assoc]

/-- Font tags take turns in the running text that any calls add up to, so that no more than one font element is open at
any point, and none where the font has been closed. A text that stands alone leaves the font as it is; its own tags take
turns from the first to the last, if its references and motions do not reach into a font tag. -/
theorem fontRuns_alternate (hd : doc.fonts.opened = false) (hg : PlainGlyphs doc) {calls : List FontCall}
    (h : ∀ call ∈ calls, ∀ text ∈ call.text?, fontless text = true) :
    Alternate none (fontTags (doc.performFontCalls calls).1) (doc.performFontCalls calls).2.fonts.element? ∧
      (∀ part, part <+: fontTags (doc.performFontCalls calls).1 →
        part.countP (!·.isEnd) ≤ part.countP (·.isEnd) + 1) ∧
      Alternate none (fontTags (doc.performFontCalls (calls ++ [.close])).1) none ∧
      ∀ text, fontless text = true →
        ((doc.performFontCalls calls).2.renderIsolated text).2.fonts = (doc.performFontCalls calls).2.fonts ∧
          (EscapesEnd (doc.performFontCalls calls).2 text →
            Alternate none (fontTags ((doc.performFontCalls calls).2.renderIsolated text).1) none) := by
  obtain ⟨_, hcalls, hglyphs⟩ := alternate_performFontCalls hg h
  have hclose : ∀ call ∈ calls ++ [FontCall.close], ∀ text ∈ call.text?, fontless text = true := by
    intro call hm
    rcases List.mem_append.mp hm with hm | hm
    · exact h call hm
    · rw [List.mem_singleton.mp hm]
      exact fun _ ht => by cases ht
  have hclosed := (alternate_performFontCalls hg hclose).2.1
  have hnone : (doc.performFontCalls (calls ++ [.close])).2.fonts.element? = none := by
    rw [performFontCalls_append]
    rfl
  rw [doc.fonts.element?_of_closed hd] at hcalls hclosed
  rw [hnone] at hclosed
  refine ⟨hcalls, fun part hp => hcalls.starts_le hp, hclosed, fun text ht => ⟨rfl, fun he => ?_⟩⟩
  exact alternate_renderIsolated hglyphs ht he

end

/-- Bold text that is left for italics between two lines, with a text that stands alone and a defined glyph. -/
private def boldThenItalic : Document × List FontCall :=
  ({ name := "page", formatter := { glyphs := [("note", "<xref linkend='note'/>")] }
     diagnostics := { file := "page", portability := false } },
    [.inline "\\fBbold", .font "I", .isolated "\\fCcode", .inline "a \\fPb <ulink url='c'>d</ulink> \\[note]"])

theorem fontRuns_alternate_boldThenItalic :
    boldThenItalic.1.fonts.opened = false ∧ PlainGlyphs boldThenItalic.1 ∧
      (∀ call ∈ boldThenItalic.2, ∀ text ∈ call.text?, fontless text = true) ∧
      Alternate none (fontTags (boldThenItalic.1.performFontCalls (boldThenItalic.2 ++ [.close])).1) none ∧
      EscapesEnd (boldThenItalic.1.performFontCalls boldThenItalic.2).2 "\\fCcode" ∧
      Alternate none
        (fontTags ((boldThenItalic.1.performFontCalls boldThenItalic.2).2.renderIsolated "\\fCcode").1) none := by
  have hg : PlainGlyphs boldThenItalic.1 := by
    intro entry hm
    rw [List.mem_singleton.mp hm]
    decide
  have h : ∀ call ∈ boldThenItalic.2, ∀ text ∈ call.text?, fontless text = true := by decide
  have hends : EscapesEnd (boldThenItalic.1.performFontCalls boldThenItalic.2).2 "\\fCcode" :=
    .of_notMem (by decide +kernel)
  obtain ⟨_, _, hclosed, halone⟩ := fontRuns_alternate rfl hg h
  exact ⟨rfl, hg, h, hclosed, hends, (halone _ (by decide)).2 hends⟩

end Document

end RoffDocBook
