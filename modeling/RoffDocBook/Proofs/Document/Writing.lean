import RoffDocBook.Proofs.Document.Balance

/-! Paragraphs and traps keep the output in agreement with what is open. -/
namespace RoffDocBook.Document
open Text Markup

section
variable {s : List Text} (name : Text)

theorem adds_start (hn : IsName name) (hf : Fits s name) : Adds s (tag name) (name :: s) := by
  have h := adds_tag (.start hn isAttributes_nil hf)
  rwa [List.append_nil] at h

theorem adds_close (hn : IsName name) : Adds (name :: s) (tag ('/' :: name)) s :=
  adds_tag (.close hn)

theorem adds_empty (hn : IsName name) : Adds s (tag (name ++ ['/'])) s :=
  adds_tag (.empty hn)

end

/-- An element that is no term fits everywhere. -/
theorem fits_of_ne {name : Text} (h : name ≠ "term") (s : List Text) : Fits s name :=
  fun hn => absurd hn h

section
variable {doc : Document}

theorem Balanced.closing (h : Balanced doc) : doc.fonts.closing = [] := by
  rw [h.fonts]
  rfl

/-- Where text is filled, output does not join the last line. -/
theorem Aligned.joinNext_of_fill (h : Aligned doc) (hf : doc.formatter.fill = true) : doc.joinNext = false := by
  cases hj : doc.joinNext with
  | false => rfl
  | true =>
    obtain ⟨frame, rest, hb⟩ := h.joins hj
    have hfill := h.filling
    rw [hb, hf] at hfill
    cases hfill.1

theorem balanced_closeParagraph (h : Balanced doc) : Balanced doc.closeParagraph := by
  rw [closeParagraph_eq]
  split
  · rename_i hp
    have hleaves := h.leaves
    rw [stack, if_pos hp] at hleaves
    have hclosed := leaves_lengthen hleaves (adds_text (show Tagless doc.fonts.closing by rw [h.closing]; decide))
    exact {
      leaves := leaves_lengthen hclosed (adds_close "para" (by decide))
      founded := h.founded.keeps ((Keeps.lengthen _ _).trans (.lengthen _ _))
      filling := h.filling
      paragraph := fun hn => by cases hn
      trap := h.trap
      joins := fun hn => by cases hn
      sections := h.sections
      fonts := rfl
      substitutes := h.substitutes
      suspended := h.suspended }
  · exact h

@[simp] theorem closeParagraph_inParagraph (doc : Document) : doc.closeParagraph.inParagraph = false := by
  rw [closeParagraph_eq]
  split
  · rfl
  · rename_i h
    simpa using h

@[simp] theorem closeParagraph_blocks (doc : Document) : doc.closeParagraph.blocks = doc.blocks := by
  rw [closeParagraph_eq]
  split <;> rfl

@[simp] theorem closeParagraph_sections (doc : Document) : doc.closeParagraph.sections = doc.sections := by
  rw [closeParagraph_eq]
  split <;> rfl

@[simp] theorem closeParagraph_trap (doc : Document) : doc.closeParagraph.trap = doc.trap := by
  rw [closeParagraph_eq]
  split <;> rfl

theorem closeParagraph_of_false (h : doc.inParagraph = false) : doc.closeParagraph = doc := by
  rw [closeParagraph_eq, h]
  rfl

/-- A term, with the tags around it, opens the list item after it. -/
theorem adds_term {s : List Text} (hs : s.head? = some "varlistentry") {t : Text} (ht : Tagless t) :
    Adds s (termTrap.before ++ t ++ termTrap.after) ("listitem" :: s) := by
  have hopen : Adds s termTrap.before ("term" :: s) := adds_start "term" (by decide) fun _ => hs
  have hclose : Adds ("term" :: s) termTrap.after ("listitem" :: s) :=
    (adds_close "term" (by decide)).append (adds_start "listitem" (by decide) (fits_of_ne (by decide) s))
  exact (hopen.append (adds_text ht)).append hclose

/-- Where a term is awaited, the innermost open element is the entry that it belongs to. -/
theorem Balanced.stack_of_trap (h : Balanced doc) {trap : Trap} (ht : doc.trap = some trap) :
    trap = termTrap ∧ ∃ outer, doc.stack = ("varlistentry" : Text) :: outer ∧
      stack { doc with trap := none } = ("listitem" : Text) :: ("varlistentry" : Text) :: outer := by
  obtain ⟨rfl, frame, rest, hb, hk, ho⟩ := h.trap trap ht
  have hp : doc.inParagraph = false := by
    cases hp : doc.inParagraph with
    | false => rfl
    | true =>
      rw [(h.paragraph hp).2] at ht
      cases ht
  refine ⟨rfl, frame.kind.element :: (blockElements false rest ++ sectionElements doc.sections), ?_⟩
  simp [stack, hp, ht, hb, blockElements, OpenBlock.elements, ListFrame.elements, ListFrame.item, hk, ho]

/-- A term that is written takes the place of the trap for it. -/
theorem Balanced.write_term (h : Balanced doc) {trap : Trap} (ht : doc.trap = some trap) {t : Text}
    (htext : Tagless t) :
    Balanced { doc with
      trap := none
      fonts := {}
      joinNext := false
      lines := addLine doc.joinNext (trap.before ++ t ++ trap.after) doc.lines } := by
  obtain ⟨rfl, outer, hs, hn⟩ := h.stack_of_trap ht
  have hleaves := h.leaves
  rw [hs] at hleaves
  have hadded := leaves_addLine hleaves doc.joinNext (adds_term rfl htext)
  rw [← hn] at hadded
  exact {
    leaves := hadded
    founded := h.founded.keeps (.addLine _ _ _)
    filling := h.filling
    paragraph := fun hp => ⟨(h.paragraph hp).1, rfl⟩
    trap := fun _ hn => by cases hn
    joins := fun hn => by cases hn
    sections := h.sections
    fonts := rfl
    substitutes := h.substitutes
    suspended := h.suspended }

theorem flushTrap_eq (doc : Document) :
    doc.flushTrap =
      match doc.trap with
      | some trap =>
        { doc with
          trap := none
          joinNext := false
          lines := addLine doc.joinNext (trap.before ++ trap.after) doc.lines }
      | none => doc := by
  unfold flushTrap
  cases doc.trap with
  | some trap => exact emit_eq _ _
  | none => rfl

theorem balanced_flushTrap (h : Balanced doc) : Balanced doc.flushTrap := by
  rw [flushTrap_eq]
  cases ht : doc.trap with
  | some trap =>
    have hwritten := h.write_term ht (show Tagless [] by decide)
    rw [List.append_nil, ← h.fonts] at hwritten
    exact hwritten
  | none => exact h

@[simp] theorem flushTrap_trap (doc : Document) : doc.flushTrap.trap = none := by
  rw [flushTrap_eq]
  cases ht : doc.trap with
  | some trap => rfl
  | none => exact ht

@[simp] theorem flushTrap_blocks (doc : Document) : doc.flushTrap.blocks = doc.blocks := by
  rw [flushTrap_eq]
  cases doc.trap <;> rfl

@[simp] theorem flushTrap_sections (doc : Document) : doc.flushTrap.sections = doc.sections := by
  rw [flushTrap_eq]
  cases doc.trap <;> rfl

/-- A document that is balanced, with no paragraph open and no term awaited. -/
structure Settled (doc : Document) : Prop extends Balanced doc where
  closed : doc.inParagraph = false
  untrapped : doc.trap = none

theorem Settled.leaves_outside (h : Settled doc) :
    Leaves (blockElements false doc.blocks ++ sectionElements doc.sections) (body doc.lines) := by
  have hleaves := h.leaves
  rw [stack, h.closed, h.untrapped] at hleaves
  exact hleaves

/-- What is known of a document, told by its open blocks. -/
theorem Settled.of_blocks (h : Settled doc) {blocks : List OpenBlock} (hb : doc.blocks = blocks) :
    Leaves (blockElements false blocks ++ sectionElements doc.sections) (body doc.lines) ∧
      Founded doc.lines (marks doc.sections blocks) ∧ Filling doc.formatter.fill blocks := by
  rw [← hb]
  exact ⟨h.leaves_outside, h.founded, h.filling⟩

/-- Blocks and sections may be opened and closed together with their tags. -/
theorem Settled.rewrite (h : Settled doc) {blocks : List OpenBlock} {sections : List OpenSection}
    {formatter : Formatter.State} {joinNext : Bool} {lines : List Text}
    (hl : Leaves (blockElements false blocks ++ sectionElements sections) (body lines))
    (hm : Founded lines (marks sections blocks)) (hf : Filling formatter.fill blocks)
    (hj : joinNext = true → ∃ frame rest, blocks = .display frame :: rest)
    (hs : ∀ mark ∈ sections, mark.element ∈ sectionNames) :
    Settled { doc with blocks, sections, formatter, joinNext, lines } where
  leaves := by
    rw [stack]
    dsimp only
    rw [h.closed, h.untrapped]
    exact hl
  founded := hm
  filling := hf
  paragraph hn := by
    rw [h.closed] at hn
    cases hn
  trap _ hn := by
    rw [h.untrapped] at hn
    cases hn
  joins := hj
  sections := hs
  fonts := h.fonts
  substitutes := h.substitutes
  suspended := h.suspended
  closed := h.closed
  untrapped := h.untrapped

/-- A trap may be set where an entry has been opened for its term. -/
theorem Settled.await (h : Settled doc) {blocks rest : List OpenBlock} {frame : ListFrame} {joinNext : Bool}
    {lines : List Text} (hb : blocks = .list frame :: rest) (hk : frame.kind = .terms) (ho : frame.itemOpen = true)
    (hl : Leaves (("varlistentry" : Text) :: frame.kind.element ::
      (blockElements false rest ++ sectionElements doc.sections)) (body lines))
    (hm : Founded lines (marks doc.sections blocks)) (hf : Filling doc.formatter.fill blocks)
    (hj : joinNext = true → ∃ frame rest, blocks = .display frame :: rest) :
    Balanced { doc with blocks, trap := some termTrap, joinNext, lines } where
  leaves := by
    rw [stack, hb]
    dsimp only
    rw [h.closed, blockElements, OpenBlock.elements, ListFrame.elements, ListFrame.item, ho, hk]
    rw [hk] at hl
    exact hl
  founded := hm
  filling := hf
  paragraph hn := by
    rw [h.closed] at hn
    cases hn
  trap _ hn := ⟨(Option.some.inj hn).symm, frame, rest, hb, hk, ho⟩
  joins := hj
  sections := h.sections
  fonts := h.fonts
  substitutes := h.substitutes
  suspended := h.suspended

theorem settled_closeParagraph (h : Balanced doc) (ht : doc.trap = none) : Settled doc.closeParagraph :=
  { balanced_closeParagraph h with
    closed := closeParagraph_inParagraph doc
    untrapped := by rw [closeParagraph_trap, ht] }

theorem settled_flushTrap_closeParagraph (h : Balanced doc) : Settled doc.flushTrap.closeParagraph :=
  settled_closeParagraph (balanced_flushTrap h) (flushTrap_trap doc)

/-- A piece of output that leaves open what was open. -/
theorem Balanced.write (h : Balanced doc) {piece : Text} (hp : Adds doc.stack piece doc.stack) (joins : Bool) :
    Balanced { doc with joinNext := false, lines := addLine joins piece doc.lines } where
  leaves := leaves_addLine h.leaves joins hp
  founded := h.founded.keeps (.addLine _ _ _)
  filling := h.filling
  paragraph := h.paragraph
  trap := h.trap
  joins hn := by cases hn
  sections := h.sections
  fonts := h.fonts
  substitutes := h.substitutes
  suspended := h.suspended

theorem balanced_emit (h : Balanced doc) {piece : Text} (hp : Adds doc.stack piece doc.stack) :
    Balanced (doc.emit piece) := by
  rw [emit_eq]
  exact h.write hp doc.joinNext

/-- Where text is filled, a paragraph is opened on a line of its own. -/
theorem Balanced.open_paragraph (h : Balanced doc) (hf : doc.formatter.fill = true) (hp : doc.inParagraph = false)
    (ht : doc.trap = none) :
    Balanced { doc with inParagraph := true, joinNext := false, lines := "<para>" :: doc.lines } where
  leaves := by
    have hleaves := h.leaves
    rw [stack, hp, if_neg Bool.false_ne_true] at hleaves
    exact leaves_cons hleaves (adds_start "para" (by decide) (fits_of_ne (by decide) _))
  founded := h.founded.keeps (.cons _ _)
  filling := h.filling
  paragraph _ := ⟨hf, ht⟩
  trap := h.trap
  joins hn := by cases hn
  sections := h.sections
  fonts := h.fonts
  substitutes := h.substitutes
  suspended := h.suspended

end

/-! Displays are closed from the innermost one outwards, each by its own end tag. -/

theorem tagless_escapeAttribute (t : Text) : Tagless (escapeAttribute t) := by
  have hchar (c : Char) : Tagless (escapeAttributeChar c) := by
    unfold escapeAttributeChar
    split
    · decide
    · decide
    · decide
    · decide
    · rename_i hlt hgt
      constructor
      · rw [List.mem_singleton]
        exact fun h => hlt h.symm
      · rw [List.mem_singleton]
        exact fun h => hgt h.symm
  constructor
  · intro h
    obtain ⟨c, _, hc⟩ := List.mem_flatMap.mp h
    exact (hchar c).1 hc
  · intro h
    obtain ⟨c, _, hc⟩ := List.mem_flatMap.mp h
    exact (hchar c).2 hc

/-- A quoted value at the end makes further attributes ones that can stand in a start tag. -/
theorem isAttributes_quoted {attributes value : Text} (ha : Tagless attributes) (hv : Tagless value)
    (hb : ∃ rest, attributes = ' ' :: rest) : IsAttributes (attributes ++ value ++ "'") where
  apart := by
    obtain ⟨rest, rfl⟩ := hb
    exact Or.inr ⟨rest ++ value ++ "'", rfl⟩
  tagless := tagless_append (tagless_append ha hv) (show Tagless "'" by decide)
  started := by simp

/-- The start tag of a list or a display names the request that opened it. -/
theorem adds_opening {s : List Text} {name attributes : Text} (hn : IsName name) (hf : Fits s name)
    (ha : attributes = [] ∨ ∃ rest, attributes = ' ' :: rest) (ht : Tagless attributes) (opener : Text) :
    Adds s ("<" ++ name ++ attributes ++ " remap='" ++ escapeAttribute opener ++ "'>") (name :: s) := by
  have hremap : Tagless (attributes ++ " remap='") := tagless_append ht (show Tagless " remap='" by decide)
  have hblank : ∃ rest, attributes ++ " remap='" = ' ' :: rest := by
    rcases ha with rfl | ⟨rest, rfl⟩
    · exact ⟨_, rfl⟩
    · exact ⟨_, rfl⟩
  have htag : ("<" ++ name ++ attributes ++ " remap='" ++ escapeAttribute opener ++ "'>" : Text) =
      tag (name ++ (attributes ++ " remap='" ++ escapeAttribute opener ++ "'")) := by
    simp [tag]
  rw [htag]
  exact adds_tag (.start hn (isAttributes_quoted hremap (tagless_escapeAttribute opener) hblank) hf)

/-- The element of a display is no term. -/
theorem displayKind_element (kind : DisplayKind) : IsName kind.element ∧ kind.element ≠ "term" := by
  cases kind <;> decide

theorem endTag_eq (name : Text) : ("</" ++ name ++ ">" : Text) = tag ('/' :: name) := by
  simp [tag]

section
variable {doc : Document}

theorem writeDisplayEnd_eq (doc : Document) (frame : DisplayFrame) :
    doc.writeDisplayEnd frame =
      { doc with
        fonts := {}
        joinNext := false
        lines := lengthen ("</" ++ frame.kind.element ++ ">") (lengthen doc.fonts.closing doc.lines)
        formatter := { doc.formatter with fill := frame.fillAfter } } := by
  rw [writeDisplayEnd, closeFont_eq, append_eq]

@[simp] theorem writeDisplayEnd_blocks (doc : Document) (frame : DisplayFrame) :
    (doc.writeDisplayEnd frame).blocks = doc.blocks := by
  rw [writeDisplayEnd_eq]

/-- In a display there is neither a paragraph nor a term to come. -/
theorem Balanced.settled_of_display (h : Balanced doc) {frame : DisplayFrame} {rest : List OpenBlock}
    (hb : doc.blocks = .display frame :: rest) : Settled doc := by
  have hfill := h.filling
  rw [hb] at hfill
  refine { h with closed := ?_, untrapped := ?_ }
  · cases hp : doc.inParagraph with
    | false => rfl
    | true =>
      rw [(h.paragraph hp).1] at hfill
      cases hfill.1
  · cases ht : doc.trap with
    | none => rfl
    | some trap =>
      obtain ⟨_, _, _, hlist, _⟩ := h.trap trap ht
      rw [hb] at hlist
      cases hlist

theorem settled_closeDisplay (h : Balanced doc) {frame : DisplayFrame} {rest : List OpenBlock}
    (hb : doc.blocks = .display frame :: rest) : Settled ({ doc with blocks := rest }.writeDisplayEnd frame) := by
  have hs := h.settled_of_display hb
  obtain ⟨hleaves, hfounded, hfill⟩ := hs.of_blocks hb
  have hclosed := leaves_lengthen hleaves (adds_text (show Tagless [] by decide))
  have hended := leaves_lengthen hclosed (adds_close frame.kind.element (displayKind_element frame.kind).1)
  rw [writeDisplayEnd_eq, endTag_eq]
  dsimp only
  rw [h.closing, ← h.fonts]
  exact hs.rewrite hended (hfounded.keeps ((Keeps.lengthen _ _).trans (.lengthen _ _))) hfill.2
    (fun hn => by cases hn) h.sections

theorem balanced_closeInnerDisplays (h : Balanced doc) : Balanced doc.closeInnerDisplays := by
  unfold closeInnerDisplays
  generalize hb : doc.blocks = blocks
  induction blocks generalizing doc with
  | nil => exact h
  | cons block rest ih =>
    cases block with
    | list frame => exact h
    | display frame => exact ih (settled_closeDisplay h hb).toBalanced (writeDisplayEnd_blocks _ frame)

/-- What closing displays changes of the state, and what it does not. -/
theorem closeInnerDisplays_state (doc : Document) :
    doc.closeInnerDisplays.blocks = doc.blocks.dropWhile OpenBlock.isDisplay ∧
      doc.closeInnerDisplays.sections = doc.sections ∧ doc.closeInnerDisplays.trap = doc.trap ∧
      doc.closeInnerDisplays.inParagraph = doc.inParagraph := by
  unfold closeInnerDisplays
  generalize hb : doc.blocks = blocks
  induction blocks generalizing doc with
  | nil => exact ⟨hb, rfl, rfl, rfl⟩
  | cons block rest ih =>
    cases block with
    | list frame => exact ⟨hb, rfl, rfl, rfl⟩
    | display frame =>
      have hrest := ih ({ doc with blocks := rest }.writeDisplayEnd frame) (writeDisplayEnd_blocks _ frame)
      rw [writeDisplayEnd_eq] at hrest
      rw [closeInnerDisplays.go, List.dropWhile_cons_of_pos rfl, writeDisplayEnd_eq]
      exact hrest

@[simp] theorem closeInnerDisplays_blocks (doc : Document) :
    doc.closeInnerDisplays.blocks = doc.blocks.dropWhile OpenBlock.isDisplay :=
  (closeInnerDisplays_state doc).1

@[simp] theorem closeInnerDisplays_sections (doc : Document) : doc.closeInnerDisplays.sections = doc.sections :=
  (closeInnerDisplays_state doc).2.1

@[simp] theorem closeInnerDisplays_trap (doc : Document) : doc.closeInnerDisplays.trap = doc.trap :=
  (closeInnerDisplays_state doc).2.2.1

@[simp] theorem closeInnerDisplays_inParagraph (doc : Document) :
    doc.closeInnerDisplays.inParagraph = doc.inParagraph :=
  (closeInnerDisplays_state doc).2.2.2

theorem settled_closeInnerDisplays (h : Settled doc) : Settled doc.closeInnerDisplays :=
  { balanced_closeInnerDisplays h.toBalanced with
    closed := by rw [closeInnerDisplays_inParagraph, h.closed]
    untrapped := by rw [closeInnerDisplays_trap, h.untrapped] }

theorem beginDisplay_eq (doc : Document) (kind : DisplayKind) (opener : String) :
    doc.beginDisplay kind opener =
      let ready := doc.flushTrap.closeParagraph
      { ready with
        joinNext := true
        lines := addLine ready.joinNext
          ("<" ++ kind.element ++ " remap='" ++ escapeAttribute opener.toList ++ "'>") ready.lines
        blocks := .display { kind, opener, fillAfter := ready.formatter.fill } :: ready.blocks
        formatter := { ready.formatter with fill := false } } := by
  rw [beginDisplay, emit_eq]

theorem balanced_beginDisplay (h : Balanced doc) (kind : DisplayKind) (opener : String) :
    Balanced (doc.beginDisplay kind opener) := by
  have hs := settled_flushTrap_closeParagraph h
  rw [beginDisplay_eq]
  generalize doc.flushTrap.closeParagraph = ready at hs
  obtain ⟨hn, ht⟩ := displayKind_element kind
  have hadds := adds_opening hn (fits_of_ne ht (blockElements false ready.blocks ++ sectionElements ready.sections))
    (Or.inl rfl) (show Tagless [] by decide) opener.toList
  rw [List.append_nil] at hadds
  exact Settled.toBalanced (hs.rewrite (leaves_addLine hs.leaves_outside _ hadds)
    (hs.founded.keeps (.addLine _ _ _)) ⟨rfl, hs.filling⟩ (fun _ => ⟨_, _, rfl⟩) hs.sections)

end

end RoffDocBook.Document
