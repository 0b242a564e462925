import RoffDocBook.Proofs.Document.Lists
import RoffDocBook.Proofs.Expansion.LookAhead
import RoffDocBook.Proofs.Place.Reading
import RoffDocBook.Proofs.Text.Words

/-! Equations and diagrams that no converter turns into markup. They become literal text: the lines of the block in
their order, but without those that are empty. -/
namespace RoffDocBook

/-- The lines in a stretch of input. -/
def Input.texts (input : Input) : List Text :=
  input.filterMap fun
    | .line text _ => some text
    | _ => none

namespace Document
open Text Markup

/-- Items inside a block: lines that do not close it, and the ends of macros. -/
def Inside (doc : Document) (closer : String) : WorkItem → Prop
  | .line text _ => doc.isRequest text [closer] = false
  | .finish _ => True
  | _ => False

/-- A block ends at the line that closes it, or else where no line follows. -/
def EndsBlock (doc : Document) (closer : String) : Input → Prop
  | .line text _ :: _ => doc.isRequest text [closer] = true
  | .finish _ :: _ => False
  | _ => True

instance (doc : Document) (closer : String) : DecidablePred (doc.Inside closer)
  | .line _ _ => inferInstanceAs (Decidable (_ = false))
  | .finish _ => .isTrue trivial
  | .markup _ | .paragraphEnd => .isFalse id

instance (doc : Document) (closer : String) : DecidablePred (doc.EndsBlock closer)
  | .line _ _ :: _ => inferInstanceAs (Decidable (_ = true))
  | .finish _ :: _ => .isFalse id
  | [] | .markup _ :: _ | .paragraphEnd :: _ => .isTrue trivial

/-- The lines of a block are read up to its end. -/
theorem readUntil_go_block {doc base : Document} {closer : String} {block rest : Input} {left : Nat}
    (hinput : doc.input = block ++ rest) (hblock : ∀ item ∈ block, base.Inside closer item)
    (hrest : base.EndsBlock closer rest) (hleft : doc.input.length ≤ left) :
    (readUntil.go (fun line => base.isRequest line [closer]) left doc).1 = block.texts := by
  induction block generalizing doc left with
  | nil =>
    rw [List.nil_append] at hinput
    cases left with
    | zero => rfl
    | succ left =>
      rw [readUntil.go, nextRawLine, hinput]
      cases rest with
      | nil => rfl
      | cons item rest =>
        cases item with
        | markup text => rfl
        | paragraphEnd => rfl
        | finish mark => exact hrest.elim
        | line text number =>
          have hcloses : base.isRequest text [closer] = true := hrest
          dsimp only [nextRawLine.go]
          rw [if_pos hcloses]
          rfl
  | cons item block ih =>
    obtain ⟨hitem, hinside⟩ := List.forall_mem_cons.mp hblock
    rw [List.cons_append] at hinput
    have hpass := pass_input hinput
    have hbound : (doc.pass item).input.length + 1 ≤ left := by
      rw [hinput] at hleft
      rwa [hpass]
    obtain ⟨left, rfl⟩ := Nat.exists_eq_succ_of_ne_zero (Nat.ne_zero_of_lt hbound)
    cases item with
    | line text number =>
      rw [readUntil.go, nextRawLine_line hinput]
      dsimp only
      rw [if_neg (Bool.eq_false_iff.mp hitem), ih hpass hinside (Nat.le_of_succ_le_succ hbound)]
      rfl
    | finish mark =>
      rw [readUntil.go, nextRawLine_finish hinput, ← readUntil.go, ih hpass hinside (Nat.le_of_succ_le hbound)]
      rfl
    | markup text => exact hitem.elim
    | paragraphEnd => exact hitem.elim

theorem gatherBlock_lines {doc : Document} {closer : String} {block rest : Input} (hinput : doc.input = block ++ rest)
    (hblock : ∀ item ∈ block, doc.Inside closer item) (hrest : doc.EndsBlock closer rest) :
    (doc.gatherBlock closer).1 = block.texts :=
  readUntil_go_block hinput hblock hrest (Nat.le_refl _)

/-- A line is written as it is, and an empty one not at all. -/
theorem emitMarkup_line (doc : Document) {line : Text} (h : '\n' ∉ line) :
    doc.emitMarkup line = if line.isEmpty then doc else doc.emit line := by
  have hsplit : splitOn '\n' line = [line] := splitOn_of_notMem h
  unfold emitMarkup Text.lines
  rw [hsplit]
  cases line <;> rfl

theorem emitMarkup_lines (doc : Document) {lines : List Text} (h : ∀ line ∈ lines, '\n' ∉ line) :
    lines.foldl emitMarkup doc = (lines.filter fun line => !line.isEmpty).foldl emit doc := by
  induction lines generalizing doc with
  | nil => rfl
  | cons line lines ih =>
    obtain ⟨hline, hlines⟩ := List.forall_mem_cons.mp h
    rw [List.foldl_cons, emitMarkup_line doc hline, ih _ hlines, List.filter_cons]
    cases line <;> rfl

/-- Pieces of output that nothing joins stand on lines of their own. -/
theorem body_foldl_emit {doc : Document} {lines : List Text} (hjoin : doc.joinNext = false) (hne : doc.lines ≠ []) :
    body (lines.foldl emit doc).lines = body doc.lines ++ lines.flatMap ('\n' :: ·) := by
  induction lines generalizing doc with
  | nil => exact (List.append_nil _).symm
  | cons line lines ih =>
    rw [List.foldl_cons, emit_eq, hjoin, ih rfl (List.cons_ne_nil _ _), List.flatMap_cons]
    dsimp only
    have hgap : gap doc.lines = ['\n'] := if_neg (by simpa using hne)
    rw [addLine, if_neg Bool.false_ne_true, body_cons, hgap]
    simp

/-- The first piece of output in a display joins its start tag. -/
theorem body_foldl_emit_join {doc : Document} {lines : List Text} (hjoin : doc.joinNext = true) :
    body (lines.foldl emit doc).lines = body doc.lines ++ unlines lines := by
  cases lines with
  | nil => exact (List.append_nil _).symm
  | cons line lines =>
    have hne : (doc.emit line).lines ≠ [] := by
      rw [emit_eq]
      unfold addLine lengthen
      cases doc.lines <;> simp [hjoin]
    rw [List.foldl_cons, body_foldl_emit (by rw [emit_eq]) hne, unlines_cons, emit_eq, hjoin]
    dsimp only
    rw [addLine, if_pos rfl, body_lengthen, List.append_assoc]

theorem foldl_emit_blocks (doc : Document) (lines : List Text) : (lines.foldl emit doc).blocks = doc.blocks := by
  induction lines generalizing doc with
  | nil => rfl
  | cons line lines ih => rw [List.foldl_cons, ih, emit_eq]

theorem foldl_emit_fonts (doc : Document) (lines : List Text) : (lines.foldl emit doc).fonts = doc.fonts := by
  induction lines generalizing doc with
  | nil => rfl
  | cons line lines ih => rw [List.foldl_cons, ih, emit_eq]

/-- A display without open lists in it is closed at once. -/
theorem endDisplay_of_blocks {doc : Document} {frame : DisplayFrame} {rest : List OpenBlock}
    (h : doc.blocks = .display frame :: rest) :
    doc.endDisplay.2 = { doc with blocks := rest }.writeDisplayEnd frame := by
  rcases doc.endDisplay_cases with ⟨hnone, -⟩ | ⟨lists, inner, outer, hblocks, -, hended⟩
  · rw [openDisplays, h] at hnone
    cases hnone
  · cases lists with
    | cons list lists =>
      rw [h] at hblocks
      cases hblocks
    | nil =>
      rw [h] at hblocks
      cases hblocks
      exact hended

/-- The text of a kept block after its start tag: its lines without the empty ones, the end of the font that was open
before it, and the end tag. -/
theorem body_keepBlock (doc : Document) (opener : String) {lines : List Text} (h : ∀ line ∈ lines, '\n' ∉ line) :
    body (Run.keepBlock doc opener lines).lines =
      body (doc.beginDisplay .literal opener).lines ++
        (unlines (lines.filter fun line => !line.isEmpty) ++ (doc.beginDisplay .literal opener).fonts.closing) ++
          "</literallayout>" := by
  rw [Run.keepBlock, emitMarkup_lines _ h]
  generalize lines.filter (fun line => !line.isEmpty) = kept
  have hjoin : (doc.beginDisplay .literal opener).joinNext = true := rfl
  have hblocks := foldl_emit_blocks (doc.beginDisplay .literal opener) kept
  rw [endDisplay_of_blocks hblocks, writeDisplayEnd_eq]
  dsimp only
  rw [body_lengthen, body_lengthen, body_foldl_emit_join hjoin, foldl_emit_fonts]
  simp only [List.append_assoc]
  rfl

/-- What tells how the next display is written. -/
def layout (doc : Document) : List Text × FontState × Bool × Bool × Option Trap :=
  (doc.lines, doc.fonts, doc.inParagraph, doc.joinNext, doc.trap)

theorem layout_closeParagraph {a b : Document} (h : a.layout = b.layout) :
    a.closeParagraph.layout = b.closeParagraph.layout := by
  simp only [layout, Prod.mk.injEq] at h
  obtain ⟨hlines, hfonts, hparagraph, hjoin, htrap⟩ := h
  rw [closeParagraph_eq, closeParagraph_eq, layout, layout, hparagraph]
  split <;> simp [hlines, hfonts, hparagraph, hjoin, htrap]

theorem layout_flushTrap {a b : Document} (h : a.layout = b.layout) : a.flushTrap.layout = b.flushTrap.layout := by
  simp only [layout, Prod.mk.injEq] at h
  obtain ⟨hlines, hfonts, hparagraph, hjoin, htrap⟩ := h
  rw [flushTrap_eq, flushTrap_eq, layout, layout, htrap]
  split <;> simp [hlines, hfonts, hparagraph, hjoin, htrap]

/-- The start tag of a display. -/
def displayStart (kind : DisplayKind) (opener : String) : Text :=
  "<" ++ kind.element ++ " remap='" ++ escapeAttribute opener.toList ++ "'>"

theorem beginDisplay_layout (doc : Document) (kind : DisplayKind) (opener : String) :
    (doc.beginDisplay kind opener).layout =
      (addLine doc.flushTrap.closeParagraph.joinNext (displayStart kind opener) doc.flushTrap.closeParagraph.lines,
        doc.flushTrap.closeParagraph.fonts, doc.flushTrap.closeParagraph.inParagraph, true,
        doc.flushTrap.closeParagraph.trap) := by
  unfold beginDisplay layout
  dsimp only
  rw [emit_eq]
  rfl

theorem layout_beginDisplay {a b : Document} (h : a.layout = b.layout) (kind : DisplayKind) (opener : String) :
    (a.beginDisplay kind opener).layout = (b.beginDisplay kind opener).layout := by
  have hbefore := layout_closeParagraph (layout_flushTrap h)
  simp only [layout, Prod.mk.injEq] at hbefore
  obtain ⟨hlines, hfonts, hparagraph, hjoin, htrap⟩ := hbefore
  rw [beginDisplay_layout, beginDisplay_layout, hlines, hfonts, hparagraph, hjoin, htrap]

theorem layout_gatherBlock (doc : Document) (closer : String) : (doc.gatherBlock closer).2.layout = doc.layout := by
  obtain ⟨input, line, invocations, hrest⟩ := elsewhere_readUntil doc fun line => doc.isRequest line [closer]
  unfold gatherBlock
  dsimp only
  rw [hrest]
  split <;> rfl

theorem body_beginDisplay (doc : Document) (kind : DisplayKind) (opener : String) :
    ∃ before, body (doc.beginDisplay kind opener).lines = before ++ displayStart kind opener := by
  rw [show (doc.beginDisplay kind opener).lines = _ from congrArg Prod.fst (beginDisplay_layout doc kind opener)]
  dsimp only
  unfold addLine
  split
  · exact ⟨_, body_lengthen _ _⟩
  · exact ⟨_, by rw [body_cons, ← List.append_assoc]⟩

theorem closing_cases (fonts : FontState) : fonts.closing = [] ∨ '<' ∈ fonts.closing := by
  unfold FontState.closing
  split
  · cases fonts.current <;> decide
  · exact .inl rfl

/-- Lines are kept as they are if none of them is empty, and no font is closed among them. A single empty line leaves
nothing in either form. -/
theorem kept_eq_iff {lines : List Text} {fonts : FontState} (hfeed : ∀ line ∈ lines, '\n' ∉ line)
    (hopen : ∀ line ∈ lines, '<' ∉ line) :
    unlines (lines.filter fun line => !line.isEmpty) ++ fonts.closing = unlines lines ↔
      fonts.closing = [] ∧ (lines = [[]] ∨ [] ∉ lines) := by
  constructor
  · intro heq
    have hclosing : fonts.closing = [] := by
      refine (closing_cases fonts).resolve_right fun hm => ?_
      have htag : '<' ∈ unlines lines := heq ▸ List.mem_append_right _ hm
      exact notMem_join (by decide) hopen htag
    refine ⟨hclosing, ?_⟩
    by_cases hempty : [] ∈ lines
    · left
      rw [hclosing, List.append_nil] at heq
      have hcount := congrArg (List.count '\n') heq
      rw [count_unlines hfeed, count_unlines fun line hl => hfeed line (List.mem_of_mem_filter hl)] at hcount
      have hless : (lines.filter fun line => !line.isEmpty).length < lines.length :=
        List.length_filter_lt_length_iff_exists.mpr ⟨[], hempty, by simp⟩
      obtain ⟨line, rfl⟩ := List.length_eq_one_iff.mp (by omega : lines.length = 1)
      rw [List.mem_singleton.mp hempty]
    · exact .inr hempty
  · rintro ⟨hclosing, rfl | hempty⟩
    · rw [hclosing]
      rfl
    · have hall : lines.filter (fun line => !line.isEmpty) = lines :=
        List.filter_eq_self.mpr fun line hl => by cases line with
          | nil => exact absurd hl hempty
          | cons => rfl
      rw [hall, hclosing, List.append_nil]

end Document

namespace Run
open Text Markup Document

/-- Where no converter gives markup, there is none. -/
theorem convertBlock_ne_markup {converters : List Converter} {kind : BlockKind} {source : Text}
    (h : ∀ converter ∈ converters, ∀ files markup, (converter files kind source).1 ≠ .markup markup)
    (files : FileTree) (markup : Text) : (convertBlock converters files kind source).1 ≠ .markup markup := by
  induction converters generalizing files with
  | nil => exact fun hn => by cases hn
  | cons converter converters ih =>
    obtain ⟨hfirst, hothers⟩ := List.forall_mem_cons.mp h
    rw [convertBlock]
    split
    · exact ih hothers _
    · exact hfirst files markup

/-- An equation or a diagram that no converter gives markup for is written as literal text. Its lines stand there in
their order with line feeds between them, except the empty ones, which are lost; a font that is open outside a paragraph
is closed after them. -/
theorem embeddedBlock_literal {run : Run} {kind : BlockKind} {request : Request} {block rest : Input}
    (hinput : run.doc.input = block ++ rest) (hblock : ∀ item ∈ block, run.doc.Inside kind.closer item)
    (hrest : run.doc.EndsBlock kind.closer rest) (hfeed : ∀ line ∈ block.texts, '\n' ∉ line)
    (hconverters : ∀ converter ∈ run.converters, ∀ files markup,
      (converter files kind (unescape (unlines block.texts))).1 ≠ .markup markup) :
    let opened := run.doc.closeParagraph.beginDisplay .literal request.name
    let content := unlines (block.texts.filter fun line => !line.isEmpty) ++ opened.fonts.closing
    (∃ before, body opened.lines = before ++ displayStart .literal request.name) ∧
      body (run.embeddedBlock kind request).doc.lines = body opened.lines ++ content ++ "</literallayout>" ∧
      ((∀ line ∈ block.texts, '<' ∉ line) →
        (content = unlines block.texts ↔
          opened.fonts.closing = [] ∧ (block.texts = [[]] ∨ [] ∉ block.texts))) := by
  intro opened content
  refine ⟨body_beginDisplay _ _ _, ?_, kept_eq_iff hfeed⟩
  -- Neither reading the block nor what the converters and the complaints leave behind shows in the display.
  have hkept (doc : Document) (hdoc : doc.layout = (run.doc.gatherBlock kind.closer).2.closeParagraph.layout) :
      body (keepBlock doc request.name block.texts).lines = body opened.lines ++ content ++ "</literallayout>" := by
    have hread := layout_closeParagraph (layout_gatherBlock run.doc kind.closer)
    have hopened := layout_beginDisplay (hdoc.trans hread) .literal request.name
    have hlines : (doc.beginDisplay .literal request.name).lines = opened.lines := congrArg Prod.fst hopened
    have hfonts : (doc.beginDisplay .literal request.name).fonts = opened.fonts :=
      congrArg (fun layout => layout.2.1) hopened
    rw [body_keepBlock doc request.name hfeed, hlines, hfonts]
  unfold embeddedBlock
  dsimp only
  rw [gatherBlock_lines hinput hblock hrest]
  cases hresult : (convertBlock run.converters (run.doc.gatherBlock kind.closer).2.closeParagraph.files kind
      (unescape (unlines block.texts))).1 with
  | markup text => exact absurd hresult (convertBlock_ne_markup hconverters _ text)
  | failed reason => exact hkept _ rfl
  | passed =>
    refine hkept _ ?_
    split <;> rfl

/-- An equation with an empty line in it, before its end, where one converter passes it on and one fails. -/
private def emptyLineRun : Run :=
  { doc := { Document.start "foo.1" {} {} with input := ["x", "", "y", ".EN"].map fun line => .line line.toList none }
    converters := [fun files _ _ => (.passed, files), fun files _ _ => (.failed "no such program", files)] }

/-- The empty line is lost. -/
theorem embeddedBlock_literal_empty :
    (∀ converter ∈ emptyLineRun.converters, ∀ files markup,
      (converter files .equation "x\n\ny").1 ≠ .markup markup) ∧
    body (emptyLineRun.embeddedBlock .equation { name := "EQ", arguments := [], rest := [], line := ".EQ" }).doc.lines =
      "<literallayout remap='EQ'>x\ny</literallayout>" := by
  have hconverters : ∀ converter ∈ emptyLineRun.converters, ∀ files markup,
      (converter files .equation "x\n\ny").1 ≠ .markup markup := by
    intro converter hconverter files markup hmarkup
    simp only [emptyLineRun, List.mem_cons, List.not_mem_nil, or_false] at hconverter
    rcases hconverter with rfl | rfl <;> cases hmarkup
  refine ⟨hconverters, ?_⟩
  obtain ⟨-, hbody, -⟩ := @embeddedBlock_literal emptyLineRun .equation
    { name := "EQ", arguments := [], rest := [], line := ".EQ" }
    [.line "x" none, .line "" none, .line "y" none] [.line ".EN" none] rfl
    (by decide +kernel) (by decide +kernel) (by decide) hconverters
  rw [hbody]
  decide +kernel

end Run

end RoffDocBook
