import RoffDocBook.Proofs.Document.Calls
import RoffDocBook.Proofs.Document.Holding

/-! What calls write into a section or into a footnote: the texts are held in their order, and where more than the
starts of lists has been written, there is a text that stays or a list with items, which will stay. -/
namespace RoffDocBook.Document
open Text Markup

/-- What there was when a section or a footnote was begun. -/
structure Level extends Outside where
  /-- The blocks open around it, which stay as they are. -/
  blocks : List OpenBlock
  /-- The texts of its start, which are taken back with it. -/
  heading : List Text

/-- The start of a section of the first depth may be taken back with the section, but not from within a footnote. -/
def Level.provisionals (level : Level) : List Provisional :=
  if level.suspended.isEmpty then
    (level.sections.filter fun mark => mark.depth == 1).map fun mark =>
      { line := mark.start, texts := level.heading }
  else []

/-- The whole output, from the first line on. -/
def Level.page : Level :=
  { lines := [], sections := [], suspended := [], blocks := [], heading := [] }

/-- The start of a list may be taken back as long as the list has no item. -/
def listProvisionals (frames : List ListFrame) : List Provisional :=
  (frames.filter fun frame => frame.items == 0).map fun frame => { line := frame.start, texts := [] }

/-- The output at a level, where the lists opened since are given with the texts held. -/
structure Content (level : Level) (doc : Document) (frames : List ListFrame) (texts : List Text) : Prop
    extends Aligned doc where
  blocks_eq : ∃ inner, doc.blocks = inner ++ level.blocks ∧ inner.filterMap OpenBlock.list? = frames
  holding : Holding level.toOutside (listProvisionals frames ++ level.provisionals) doc (level.heading ++ texts)
  based : level.provisionals = [] → level.lines = []

/-- Something that stays has been written, or will be at the end of a list. -/
def Marked (frames : List ListFrame) (texts : List Text) : Prop :=
  (∃ t ∈ texts, isAllBlank t = false) ∨ ∃ frame ∈ frames, frame.items ≠ 0

/-- The output at a level holds texts in their order, perhaps among others. -/
def Held (level : Level) (doc : Document) (texts : List Text) (marked : Prop) : Prop :=
  ∃ frames all, Content level doc frames all ∧ texts.Sublist all ∧ (marked → Marked frames all)

theorem Marked.append {frames : List ListFrame} {texts : List Text} (h : Marked frames texts) (more : List Text) :
    Marked frames (texts ++ more) := by
  rcases h with ⟨t, ht, hb⟩ | h
  · exact Or.inl ⟨t, List.mem_append_left more ht, hb⟩
  · exact Or.inr h

theorem marked_of_mem {frames : List ListFrame} {t : Text} {texts more : List Text} (ht : t ∈ more)
    (hb : isAllBlank t = false) : Marked frames (texts ++ more) :=
  Or.inl ⟨t, List.mem_append_right texts ht, hb⟩

/-- A text that begins a tag is not blank. -/
theorem listProvisionals_cons_of_zero {frame : ListFrame} (h : frame.items = 0) (frames : List ListFrame) :
    listProvisionals (frame :: frames) = { line := frame.start, texts := [] } :: listProvisionals frames := by
  simp [listProvisionals, h]

theorem listProvisionals_cons_of_ne {frame : ListFrame} (h : frame.items ≠ 0) (frames : List ListFrame) :
    listProvisionals (frame :: frames) = listProvisionals frames := by
  simp [listProvisionals, h]

/-- The innermost list, where the blocks around are those outside it. -/
theorem lists_of_dropWhile {blocks inner outer rest : List OpenBlock} {frame : ListFrame}
    (hb : blocks = inner ++ outer) (hd : blocks.dropWhile OpenBlock.isDisplay = .list frame :: rest)
    (hs : outer <:+ rest) :
    ∃ others, rest = others ++ outer ∧
      inner.filterMap OpenBlock.list? = frame :: others.filterMap OpenBlock.list? := by
  obtain ⟨others, rfl⟩ := hs
  refine ⟨others, rfl, ?_⟩
  have hsplit := List.takeWhile_append_dropWhile (p := OpenBlock.isDisplay) (l := blocks)
  rw [hd, hb, ← List.cons_append, ← List.append_assoc] at hsplit
  have hdisplays : (blocks.takeWhile OpenBlock.isDisplay).filterMap OpenBlock.list? = [] := by
    refine List.filterMap_eq_nil_iff.mpr fun block hm => ?_
    have hdisplay := List.mem_takeWhile_imp hm
    cases block with
    | list frame => cases hdisplay
    | display frame => rfl
  rw [← List.append_cancel_right hsplit, ← hb, List.filterMap_append, hdisplays]
  rfl

/-- A block that is followed by the same blocks as the innermost list is that list. -/
theorem eq_of_dropWhile {blocks inner rest : List OpenBlock} {block : OpenBlock} {frame : ListFrame}
    (hb : blocks = inner ++ block :: rest) (hd : blocks.dropWhile OpenBlock.isDisplay = .list frame :: rest) :
    block = .list frame := by
  have hsplit := List.takeWhile_append_dropWhile (p := OpenBlock.isDisplay) (l := blocks)
  rw [hd] at hsplit
  exact (List.cons.inj (List.append_inj_right' (hb.symm.trans hsplit.symm) rfl)).1

theorem listProvisionals_withItemOpen (frame : ListFrame) (itemOpen : Bool) (frames : List ListFrame) :
    listProvisionals ({ frame with itemOpen } :: frames) = listProvisionals (frame :: frames) := by
  unfold listProvisionals
  rw [List.filter_cons, List.filter_cons]
  split <;> rfl

/-- Closing an item changes the innermost list only where an item is open in it. -/
theorem closeItem_cases (doc : Document) :
    doc.closeItem = doc.closeParagraph ∨
      ∃ frame rest, doc.blocks.dropWhile OpenBlock.isDisplay = .list frame :: rest ∧ frame.itemOpen = true ∧
        doc.closeItem.blocks = .list { frame with itemOpen := false } :: rest := by
  rw [closeItem_eq]
  rcases innermost_cases doc with ⟨ht, _⟩ | ⟨frame, rest, ht, hd⟩
  · rw [ht]
    exact Or.inl rfl
  · rw [ht]
    dsimp only
    split
    · rename_i ho
      have hblocks : doc.closeInnerDisplays.flushTrap.closeParagraph.blocks = .list frame :: rest := by
        simpa using hd
      rw [hblocks]
      exact Or.inr ⟨frame, rest, hd, ho, by split <;> rfl⟩
    · exact Or.inl rfl

@[simp] theorem writeItemStart_blocks (doc : Document) (kind : ListKind) (term : Option Text) :
    (doc.writeItemStart kind term).blocks = doc.blocks := by
  unfold writeItemStart
  simp only [emit_eq]
  split <;> rfl

/-- An item is begun in the innermost list, if there is one. -/
theorem beginItem_blocks (doc : Document) (term : Option Text) :
    (doc.topList? = none ∧ (doc.beginItem term).blocks = []) ∨
      ∃ frame rest, doc.blocks.dropWhile OpenBlock.isDisplay = .list frame :: rest ∧
        (doc.beginItem term).blocks = .list { frame with items := frame.items + 1, itemOpen := true } :: rest := by
  rw [beginItem_eq]
  dsimp only
  rcases leaveItem_cases doc with ⟨ht, _, hb⟩ | ⟨frame, rest, _, hd, hb⟩
  · have htop : doc.closeItem.closeInnerDisplays.topList? = none := by
      rw [topList?, openLists, hb]
      rfl
    rw [htop]
    exact Or.inl ⟨ht, hb⟩
  · have htop : doc.closeItem.closeInnerDisplays.topList? = some { frame with itemOpen := false } := by
      rw [topList?, openLists, hb]
      rfl
    rw [htop]
    dsimp only
    rw [writeItemStart_blocks, hb]
    exact Or.inr ⟨frame, rest, hd, rfl⟩

namespace Held
variable {level : Level} {doc : Document} {texts : List Text} {marked : Prop}

/-- Something weaker may be known of what stays. -/
theorem weaken (h : Held level doc texts marked) {other : Prop} (hm : other → marked) : Held level doc texts other := by
  obtain ⟨frames, all, hc, hsub, hmark⟩ := h
  exact ⟨frames, all, hc, hsub, hmark ∘ hm⟩

theorem closeParagraph (h : Held level doc texts marked) : Held level doc.closeParagraph texts marked := by
  obtain ⟨frames, all, hc, hrest⟩ := h
  refine ⟨frames, all, ?_, hrest⟩
  exact {
    hc.toAligned.closeParagraph with
    blocks_eq := by rw [closeParagraph_blocks]; exact hc.blocks_eq
    holding := hc.holding.closeParagraph
    based := hc.based }

theorem flushTrap (h : Held level doc texts marked) : Held level doc.flushTrap texts marked := by
  obtain ⟨frames, all, hc, hrest⟩ := h
  refine ⟨frames, all, ?_, hrest⟩
  exact {
    hc.toAligned.flushTrap with
    blocks_eq := by rw [flushTrap_blocks]; exact hc.blocks_eq
    holding := hc.holding.flushTrap
    based := hc.based }

/-- A line of text is held as what it is rendered as, and opens a paragraph where nothing else has been written. -/
theorem textLine (h : Held level doc texts marked) (line : Text) :
    Held level (doc.textLine line) (texts ++ doc.lineTexts line) (marked ∨ doc.opening line ≠ []) := by
  obtain ⟨frames, all, hc, hsub, hmark⟩ := h
  have hwritten := hc.holding.textLine line
  rw [List.append_assoc] at hwritten
  refine ⟨frames, _, ?_, hsub.append (List.sublist_append_right (doc.opening line) _), ?_⟩
  · exact {
      hc.toAligned.textLine line with
      blocks_eq := by rw [textLine_blocks]; exact hc.blocks_eq
      holding := hwritten
      based := hc.based }
  · rintro (hm | hopening)
    · exact (hmark hm).append _
    · obtain ⟨t, ht⟩ := List.exists_mem_of_ne_nil _ hopening
      refine marked_of_mem (List.mem_append_left _ ht) ?_
      unfold opening at ht
      split at ht
      · rw [List.mem_singleton.mp ht]
        rfl
      · cases ht

theorem emitMarkup (h : Held level doc texts marked) (markup : Text) :
    Held level (doc.emitMarkup markup) (texts ++ (Text.lines markup).filter fun line => !isAllBlank line)
      (marked ∨ ∃ line ∈ Text.lines markup, isAllBlank line = false) := by
  obtain ⟨frames, all, hc, hsub, hmark⟩ := h
  have hwritten := hc.holding.emitMarkup markup
  rw [List.append_assoc] at hwritten
  refine ⟨frames, _, ?_, hsub.append List.filter_sublist, ?_⟩
  · exact {
      hc.toAligned.emitMarkup markup with
      blocks_eq := by rw [emitMarkup_blocks]; exact hc.blocks_eq
      holding := hwritten
      based := hc.based }
  · rintro (hm | ⟨line, hline, hb⟩)
    · exact (hmark hm).append _
    · exact marked_of_mem hline hb

theorem beginListWith (h : Held level doc texts marked) (hj : doc.joinNext = false) (opener : String)
    (kind : ListKind) (attributes : Text) : Held level (doc.beginListWith opener kind attributes) texts marked := by
  obtain ⟨frames, all, hc, hsub, hmark⟩ := h
  obtain ⟨inner, hb, rfl⟩ := hc.blocks_eq
  have hopened := hc.holding.beginListWith hj opener kind attributes
  have haligned := hc.toAligned.beginListWith opener kind attributes
  refine ⟨{ opener, kind, start := doc.flushTrap.closeParagraph.lines.length } :: inner.filterMap OpenBlock.list?, all,
    ?_, hsub, fun hm => ?_⟩
  · refine { haligned with blocks_eq := ?_, holding := ?_, based := hc.based }
    · refine ⟨.list _ :: inner, ?_, rfl⟩
      rw [beginListWith_eq, List.cons_append, ← hb]
      simp
    · rw [listProvisionals_cons_of_zero rfl]
      exact hopened
  · exact (hmark hm).imp_right fun ⟨frame, hframe, hi⟩ => ⟨frame, List.mem_cons_of_mem _ hframe, hi⟩

theorem beginDisplay (h : Held level doc texts marked) (kind : DisplayKind) (opener : String) :
    Held level (doc.beginDisplay kind opener) texts True := by
  obtain ⟨frames, all, hc, hsub, _⟩ := h
  obtain ⟨inner, hb, rfl⟩ := hc.blocks_eq
  have hopened := hc.holding.beginDisplay kind opener (.self _)
  rw [List.append_assoc] at hopened
  have hblocks : (doc.beginDisplay kind opener).blocks =
      .display { kind, opener, fillAfter := doc.flushTrap.closeParagraph.formatter.fill } :: doc.blocks := by
    rw [beginDisplay_eq]
    simp
  have hcontent : Content level (doc.beginDisplay kind opener) (inner.filterMap OpenBlock.list?) _ :=
    { hc.toAligned.beginDisplay kind opener with
      blocks_eq := ⟨.display _ :: inner, by rw [hblocks, hb]; rfl, rfl⟩
      holding := hopened
      based := hc.based }
  exact ⟨_, _, hcontent, hsub.trans (List.sublist_append_left _ _), fun _ => marked_of_mem List.mem_cons_self rfl⟩

/-- A list is closed by its end tag, unless it is taken back; of the latter nothing stays. -/
theorem endList (h : Held level doc texts marked) (hs : level.blocks <:+ doc.endList.blocks) :
    Held level doc.endList texts marked := by
  obtain ⟨frames, all, hc, hsub, hmark⟩ := h
  have haligned := hc.toAligned.endList
  rcases doc.endList_cases with ⟨_, he⟩ | ⟨frame, rest, hd, _, he⟩
  · rw [he]
    exact ⟨frames, all, hc, hsub, hmark⟩
  · obtain ⟨inner, hb, rfl⟩ := hc.blocks_eq
    rw [he, writeListEnd_blocks] at hs
    obtain ⟨others, rfl, hlists⟩ := lists_of_dropWhile hb hd hs
    have hblocks : ∃ inner, doc.endList.blocks = inner ++ level.blocks ∧
        inner.filterMap OpenBlock.list? = others.filterMap OpenBlock.list? :=
      ⟨others, by rw [he, writeListEnd_blocks], rfl⟩
    have hinner := hc.holding.closeItem.closeInnerDisplays.closeParagraph.beside (others ++ level.blocks)
      doc.closeItem.closeInnerDisplays.closeParagraph.trap doc.closeItem.closeInnerDisplays.closeParagraph.formatter
    rw [hlists] at hinner hmark
    by_cases hi : frame.items = 0
    · rw [listProvisionals_cons_of_zero hi] at hinner
      have hended := Holding.writeListEnd { frame with itemOpen := false } hinner hi fun hn =>
        hc.based (List.append_eq_nil_iff.mp hn).2
      rw [← he] at hended
      refine ⟨_, all, { haligned with blocks_eq := hblocks, holding := hended, based := hc.based }, hsub, fun hm => ?_⟩
      refine (hmark hm).imp_right fun ⟨other, hother, hitems⟩ => ⟨other, ?_, hitems⟩
      rcases List.mem_cons.mp hother with rfl | hother
      · exact absurd hi hitems
      · exact hother
    · rw [listProvisionals_cons_of_ne hi] at hinner
      have hkept := hinner.writeListEnd_of_kept { frame with itemOpen := false }
        (by rw [beq_eq_false_iff_ne.mpr hi, Bool.and_false]) (.self _)
      rw [← he, List.append_assoc] at hkept
      have hcontent : Content level doc.endList (others.filterMap OpenBlock.list?) _ :=
        { haligned with blocks_eq := hblocks, holding := hkept, based := hc.based }
      exact ⟨_, _, hcontent, hsub.trans (List.sublist_append_left _ _), fun _ => marked_of_mem List.mem_cons_self rfl⟩

theorem endLists (h : Held level doc texts marked) {frames : List ListFrame}
    (hs : level.blocks <:+ (Document.endLists frames doc).blocks) :
    Held level (Document.endLists frames doc) texts marked := by
  induction frames generalizing doc with
  | nil => exact h
  | cons _ frames ih => exact ih (h.endList (hs.trans (doc.endList.endLists_suffix frames))) hs

theorem closeItem (h : Held level doc texts marked) (hs : level.blocks <:+ doc.closeItem.blocks) :
    Held level doc.closeItem texts marked := by
  obtain ⟨frames, all, hc, hsub, hmark⟩ := h
  have haligned := hc.toAligned.closeItem
  have hheld := hc.holding.closeItem
  obtain ⟨inner, hb, rfl⟩ := hc.blocks_eq
  rcases doc.closeItem_cases with he | ⟨frame, rest, hd, ho, he⟩
  · have hblocks : doc.closeItem.blocks = inner ++ level.blocks := by rw [he, closeParagraph_blocks, hb]
    exact ⟨_, all, { haligned with blocks_eq := ⟨inner, hblocks, rfl⟩, holding := hheld, based := hc.based }, hsub,
      hmark⟩
  · rw [he, List.suffix_cons_iff] at hs
    rcases hs with houtside | hs
    · rw [houtside] at hb
      have hsame := OpenBlock.list.inj (eq_of_dropWhile hb hd)
      rw [← hsame] at ho
      cases ho
    · obtain ⟨others, rfl, hlists⟩ := lists_of_dropWhile hb hd hs
      rw [hlists, ← listProvisionals_withItemOpen frame false] at hheld
      rw [hlists] at hmark
      have hcontent : Content level doc.closeItem ({ frame with itemOpen := false } :: _) all :=
        { haligned with blocks_eq := ⟨.list _ :: others, he, rfl⟩, holding := hheld, based := hc.based }
      refine ⟨_, all, hcontent, hsub, fun hm => (hmark hm).imp_right ?_⟩
      rintro ⟨other, hother, hi⟩
      rcases List.mem_cons.mp hother with rfl | hother
      · exact ⟨_, List.mem_cons_self, hi⟩
      · exact ⟨other, List.mem_cons_of_mem _ hother, hi⟩

/-- A list with an item can no longer be taken back. -/
theorem beginItem (h : Held level doc texts marked) (term : Option Text)
    (hs : level.blocks <:+ (doc.beginItem term).blocks) :
    Held level (doc.beginItem term) texts (marked ∨ doc.topList?.isSome) := by
  obtain ⟨frames, all, hc, hsub, hmark⟩ := h
  have haligned := hc.toAligned.beginItem term
  have hheld := hc.holding.beginItem term
  obtain ⟨inner, hb, rfl⟩ := hc.blocks_eq
  rcases doc.beginItem_blocks term with ⟨ht, he⟩ | ⟨frame, rest, hd, he⟩
  · rw [he, List.suffix_nil] at hs
    rw [hs, List.append_nil] at hb
    have hnone : inner.filterMap OpenBlock.list? = [] := by
      rw [← hb]
      exact List.head?_eq_none_iff.mp ht
    rw [hnone] at hheld hmark
    refine ⟨[], all, { haligned with blocks_eq := ⟨[], ?_, rfl⟩, holding := hheld, based := hc.based }, hsub, ?_⟩
    · rw [he, hs]
      rfl
    · rintro (hm | hsome)
      · exact hmark hm
      · rw [ht] at hsome
        cases hsome
  · rw [he, List.suffix_cons_iff] at hs
    rcases hs with houtside | hs
    · rw [houtside] at hb
      have hsame := congrArg ListFrame.items (OpenBlock.list.inj (eq_of_dropWhile hb hd))
      exact absurd hsame (Nat.succ_ne_self _)
    · obtain ⟨others, rfl, hlists⟩ := lists_of_dropWhile hb hd hs
      rw [hlists] at hheld
      have hpopped : Holding level.toOutside
          (listProvisionals ({ frame with items := frame.items + 1, itemOpen := true } ::
            others.filterMap OpenBlock.list?) ++ level.provisionals) (doc.beginItem term) (level.heading ++ all) := by
        rw [listProvisionals_cons_of_ne (Nat.succ_ne_zero _)]
        by_cases hi : frame.items = 0
        · rw [listProvisionals_cons_of_zero hi] at hheld
          exact hheld.pop
        · rwa [listProvisionals_cons_of_ne hi] at hheld
      have hcontent : Content level (doc.beginItem term)
          ({ frame with items := frame.items + 1, itemOpen := true } :: others.filterMap OpenBlock.list?) all :=
        { haligned with blocks_eq := ⟨.list _ :: others, he, rfl⟩, holding := hpopped, based := hc.based }
      exact ⟨_, all, hcontent, hsub, fun _ => Or.inr ⟨_, List.mem_cons_self, Nat.succ_ne_zero frame.items⟩⟩

theorem endListBy (h : Held level doc texts marked) {opener : String}
    (hs : level.blocks <:+ (doc.endListBy opener).2.blocks) : Held level (doc.endListBy opener).2 texts marked := by
  unfold Document.endListBy at hs ⊢
  cases ho : doc.hasList opener with
  | true =>
    rw [ho, if_pos rfl] at hs
    exact h.endLists hs
  | false => exact h

/-- A display is closed after the lists inside it. -/
theorem endDisplay (h : Held level doc texts marked) (hs : level.blocks <:+ doc.endDisplay.2.blocks) :
    Held level doc.endDisplay.2 texts marked := by
  rcases doc.endDisplay_cases with ⟨_, he⟩ | ⟨lists, frame, rest, _, hb, he⟩
  · rw [he]
    exact h
  · rw [he, writeDisplayEnd_blocks] at hs
    have houter : level.blocks <:+ (Document.endLists lists doc).blocks := by
      rw [hb]
      exact hs.trans (List.suffix_cons _ rest)
    obtain ⟨frames, all, hc, hsub, hmark⟩ := h.endLists houter
    obtain ⟨inner, hinner, rfl⟩ := hc.blocks_eq
    obtain ⟨others, rfl⟩ := hs
    rw [hb, ← List.cons_append] at hinner
    obtain rfl := List.append_cancel_right hinner
    have hclosed := (hc.holding.beside (others ++ level.blocks) (Document.endLists lists doc).trap
      (Document.endLists lists doc).formatter).writeDisplayEnd frame
    rw [he]
    refine ⟨_, all, ?_, hsub, hmark⟩
    exact {
      hc.toAligned.writeDisplayEnd hb with
      blocks_eq := ⟨others, writeDisplayEnd_blocks _ _, rfl⟩
      holding := hclosed
      based := hc.based }

/-- Outside all other blocks, whatever is open can be closed. -/
theorem closeBlocks (h : Held level doc texts marked) (hl : level.blocks = []) :
    Held level doc.closeBlocks texts marked := by
  have houter (other : Document) : level.blocks <:+ other.blocks := by
    rw [hl]
    exact List.nil_suffix
  have hdisplays : Held level doc.flushTrap.endAllDisplays texts marked := by
    unfold endAllDisplays
    generalize doc.flushTrap.openDisplays = displays
    have hstart := h.flushTrap
    generalize doc.flushTrap = flushed at hstart
    induction displays generalizing flushed with
    | nil => exact hstart
    | cons _ displays ih => exact ih _ (hstart.endDisplay (houter _))
  exact (hdisplays.endLists (houter _)).closeParagraph

/-- The texts are in the lines written at the level, behind those of its start. -/
theorem inOrder (h : Held level doc texts marked) :
    ∃ new, doc.lines = new ++ level.lines ∧ InOrder (level.heading ++ texts) (body new) := by
  obtain ⟨_, all, hc, hsub, _⟩ := h
  obtain ⟨new, hnew, hall⟩ := hc.holding.recorded.inOrder
  exact ⟨new, hnew, hall.sublist (hsub.append_left level.heading)⟩

/-- Sections and suspended output stay as they are. -/
theorem outside (h : Held level doc texts marked) :
    doc.sections = level.sections ∧ doc.suspended = level.suspended := by
  obtain ⟨_, _, hc, _, _⟩ := h
  exact ⟨hc.holding.sections, hc.holding.suspended⟩

theorem substitutes (h : Held level doc texts marked) : doc.substitutes = [] := by
  obtain ⟨_, _, hc, _, _⟩ := h
  exact hc.holding.substitutes

end Held

/-- A fresh document holds nothing. -/
theorem held_start (name : String) (settings : Settings) (hints : Hints) (active : List Package) :
    Held .page { start name settings hints with active } [] False := by
  refine ⟨[], [], ?_, .slnil, False.elim⟩
  exact {
    (balanced_start name settings hints active).toAligned with
    blocks_eq := ⟨[], rfl, rfl⟩
    holding := ⟨.nil, (fun hn => by cases hn), rfl, rfl, rfl⟩
    based := fun _ => rfl }

/-- Nothing has been written that more text would continue. -/
structure Quiet (doc : Document) : Prop where
  fill : doc.formatter.fill = true
  trap : doc.trap = none
  closed : doc.inParagraph = false
  joins : doc.joinNext = false

/-- A call that writes text, lists and displays inside some blocks. No list is begun right after the start of a
display. -/
def Respects (outer : List OpenBlock) (doc : Document) (call : Call) : Prop :=
  outer <:+ (doc.perform call).blocks ∧
    match call with
    | .beginListWith _ _ _ => doc.joinNext = false
    | .addTerm | .pushSection _ _ | .pushSynopsis _ | .popSections _ | .endSections => False
    | .textLine _ | .closeParagraph | .beginItem _ | .closeItem | .endList | .endListBy _ | .breakLists _
    | .endAllLists | .beginDisplay _ _ | .endDisplay => True

instance (outer : List OpenBlock) (doc : Document) (call : Call) : Decidable (Respects outer doc call) :=
  match call with
  | .beginListWith _ _ _ => inferInstanceAs (Decidable (_ ∧ _))
  | .addTerm | .pushSection _ _ | .pushSynopsis _ | .popSections _ | .endSections => isFalse And.right
  | .textLine _ | .closeParagraph | .beginItem _ | .closeItem | .endList | .endListBy _ | .breakLists _
  | .endAllLists | .beginDisplay _ _ | .endDisplay => inferInstanceAs (Decidable (_ ∧ True))

/-- The texts that a call adds to the output. -/
def callTexts (doc : Document) : Call → List Text
  | .textLine line => doc.lineTexts line
  | _ => []

/-- A call that certainly writes something that stays, where nothing has been written before. -/
def Marks (doc : Document) : Call → Prop
  | .textLine line => Quiet doc ∧ isAllBlank line = false
  | .beginItem _ => doc.topList?.isSome = true
  | .beginDisplay _ _ => True
  | _ => False

theorem Quiet.opening_ne_nil {doc : Document} (h : Quiet doc) {line : Text} (hb : isAllBlank line = false) :
    doc.opening line ≠ [] := by
  unfold opening
  rw [h.fill, h.trap, h.closed, hb]
  exact List.cons_ne_nil _ _

theorem Held.perform {level : Level} {doc : Document} {texts : List Text} {marked : Prop}
    (h : Held level doc texts marked) {call : Call} (hr : Respects level.blocks doc call) :
    Held level (doc.perform call) (texts ++ doc.callTexts call) (marked ∨ doc.Marks call) := by
  obtain ⟨hs, hcall⟩ := hr
  have silent {other : Document} (ho : Held level other texts marked) :
      Held level other (texts ++ []) (marked ∨ False) := by
    rw [List.append_nil]
    exact ho.weaken fun hm => hm.resolve_right id
  cases call with
  | textLine line => exact (h.textLine line).weaken (Or.imp_right fun hq => hq.1.opening_ne_nil hq.2)
  | closeParagraph => exact silent h.closeParagraph
  | beginListWith opener kind attributes => exact silent (h.beginListWith hcall opener kind attributes)
  | beginItem term =>
    have hbegun := h.beginItem term hs
    rwa [← List.append_nil texts] at hbegun
  | closeItem => exact silent (h.closeItem hs)
  | endList => exact silent (h.endList hs)
  | endListBy opener => exact silent (h.endListBy hs)
  | breakLists request => exact silent (h.endLists hs)
  | endAllLists => exact silent (h.endLists hs)
  | beginDisplay kind opener =>
    have hbegun := h.beginDisplay kind opener
    rw [← List.append_nil texts] at hbegun
    exact hbegun.weaken fun _ => trivial
  | endDisplay => exact silent (h.endDisplay hs)
  | addTerm | pushSection | pushSynopsis | popSections | endSections => exact hcall.elim

end RoffDocBook.Document

/-! Lists and displays lose no text, as long as no list begins on the line that the start of a display has begun. -/
namespace RoffDocBook.Document
open Text Markup

/-- What a call may be given: text without escapes and tags, terms without tags, and attributes that a blank sets apart
from the name before them. No list is begun right after the start of a display. -/
def Accepts (doc : Document) : Call → Prop
  | .textLine text => '\\' ∉ text ∧ Tagless text
  | .beginListWith _ _ attributes =>
    doc.joinNext = false ∧ (attributes = [] ∨ attributes.head? = some ' ') ∧ Tagless attributes
  | .beginItem term => ∀ t ∈ term, Tagless t
  | .closeParagraph | .closeItem | .endList | .endListBy _ | .breakLists _ | .endAllLists | .beginDisplay _ _
  | .endDisplay => True
  | .addTerm | .pushSection _ _ | .pushSynopsis _ | .popSections _ | .endSections => False

instance (doc : Document) (call : Call) : Decidable (doc.Accepts call) :=
  match call with
  | .textLine _ => inferInstanceAs (Decidable (_ ∧ _))
  | .beginListWith _ _ _ => inferInstanceAs (Decidable (_ ∧ _ ∧ _))
  | .beginItem term => inferInstanceAs (Decidable (∀ t ∈ term, Tagless t))
  | .closeParagraph | .closeItem | .endList | .endListBy _ | .breakLists _ | .endAllLists | .beginDisplay _ _
  | .endDisplay => isTrue trivial
  | .addTerm | .pushSection _ _ | .pushSynopsis _ | .popSections _ | .endSections => isFalse id

/-- Every call is accepted by the document that the calls before it have built. -/
def AcceptsAll (doc : Document) : List Call → Prop
  | [] => True
  | call :: calls => doc.Accepts call ∧ (doc.perform call).AcceptsAll calls

instance decidableAcceptsAll (doc : Document) : (calls : List Call) → Decidable (doc.AcceptsAll calls)
  | [] => isTrue trivial
  | call :: calls =>
    have := decidableAcceptsAll (doc.perform call) calls
    inferInstanceAs (Decidable (doc.Accepts call ∧ (doc.perform call).AcceptsAll calls))

/-- The texts of calls, without the blank ones. -/
def Call.texts : Call → List Text
  | .textLine text => shown text
  | _ => []

/-- The output of a document without sections is balanced and holds texts. -/
structure Retaining (doc : Document) (texts : List Text) : Prop extends Balanced doc where
  held : Held .page doc texts False

section
variable {doc : Document} {texts : List Text} {call : Call}

theorem balanced_of_accepts (h : Balanced doc) (ha : doc.Accepts call) : Balanced (doc.perform call) := by
  cases call with
  | textLine text => exact balanced_textLine h ha.1 ha.2
  | closeParagraph => exact balanced_closeParagraph h
  | beginListWith opener kind attributes =>
    obtain ⟨hj, hattributes, ht⟩ := ha
    refine balanced_beginListWith h hj opener kind ?_ ht
    rcases hattributes with rfl | hblank
    · exact Or.inl rfl
    · exact Or.inr ⟨attributes.tail, (List.cons_head?_tail hblank).symm⟩
  | beginItem term => exact balanced_beginItem h term ha
  | closeItem => exact (settled_closeItem h).toBalanced
  | endList => exact balanced_endList h
  | endListBy opener => exact balanced_endListBy h opener
  | breakLists request => exact balanced_endLists h _
  | endAllLists => exact balanced_endLists h _
  | beginDisplay kind opener => exact balanced_beginDisplay h kind opener
  | endDisplay => exact balanced_endDisplay h
  | addTerm | pushSection | pushSynopsis | popSections | endSections => exact ha.elim

theorem Accepts.respects (ha : doc.Accepts call) : Respects [] doc call := by
  refine ⟨List.nil_suffix, ?_⟩
  cases call with
  | beginListWith => exact ha.1
  | addTerm | pushSection | pushSynopsis | popSections | endSections => exact ha.elim
  | _ => trivial

theorem Accepts.callTexts (ha : doc.Accepts call) : doc.callTexts call = call.texts := by
  cases call with
  | textLine text => exact congrArg shown (if_neg ha.1)
  | _ => rfl

theorem Retaining.perform (h : Retaining doc texts) (ha : doc.Accepts call) :
    Retaining (doc.perform call) (texts ++ call.texts) := by
  have hheld := h.held.perform ha.respects
  rw [ha.callTexts] at hheld
  exact { balanced_of_accepts h.toBalanced ha with held := hheld.weaken False.elim }

theorem Retaining.performAll (h : Retaining doc texts) {calls : List Call} (ha : doc.AcceptsAll calls) :
    Retaining (doc.performAll calls) (texts ++ calls.flatMap Call.texts) := by
  induction calls generalizing doc texts with
  | nil => rwa [List.flatMap_nil, List.append_nil]
  | cons call calls ih =>
    rw [List.flatMap_cons, ← List.append_assoc]
    exact ih (h.perform ha.1) ha.2

/-- What is still open at the end is closed, and the texts stay. -/
theorem Retaining.finish (h : Retaining doc texts) : InOrder texts (unlines doc.finish.1) := by
  have hclosed := h.held.closeBlocks rfl
  have hdiverted : doc.endDiversions = doc := by
    rw [endDiversions, h.suspended]
    rfl
  have hended : doc.closeBlocks.endSections = doc.closeBlocks := by
    rw [endSections, popSections, hclosed.outside.1]
    rfl
  obtain ⟨new, hnew, hall⟩ := hclosed.inOrder
  have hlines : doc.closeBlocks.lines = new := hnew.trans (List.append_nil new)
  rw [Document.finish, closeAll, hdiverted, hended]
  dsimp only
  rw [hlines]
  exact hall

end

/-- Whatever text, lists and displays are written, in whatever order, every text that is not blank is in the output,
one after the other, and every start tag has its end tag. -/
theorem finish_performAll_retains (name : String) (settings : Settings) (hints : Hints) (active : List Package)
    {calls : List Call} (ha : AcceptsAll { start name settings hints with active } calls) :
    let output := unlines (performAll { start name settings hints with active } calls).finish.1
    InOrder (calls.flatMap Call.texts) output ∧ Nested output := by
  have hstart : Retaining { start name settings hints with active } [] :=
    { balanced_start name settings hints active with held := held_start name settings hints active }
  have hall := hstart.performAll ha
  exact ⟨hall.finish, hall.nested_finish⟩

/-- A display with lists in it, of which one holds nothing, in the item of a list. -/
theorem finish_lists_retains :
    let page : Document := { start "t.1" {} {} with active := [.man] }
    let calls : List Call := [.beginListWith "TP" .terms [], .beginItem none, .textLine "-v", .textLine "text",
      .beginDisplay .literal "EX", .textLine "a\tb", .beginListWith "IP" .itemized [], .endList,
      .beginListWith "BL" .ordered " spacing='compact'", .textLine "before", .beginItem none, .textLine "c",
      .endDisplay, .textLine " ", .textLine "after"]
    page.AcceptsAll calls ∧ InOrder ["-v", "text", "a\tb", "before", "c", "after"]
      (unlines (page.performAll calls).finish.1) := by
  intro page calls
  have ha : page.AcceptsAll calls := by decide +kernel
  exact ⟨ha, (finish_performAll_retains "t.1" {} {} [.man] ha).1⟩

end RoffDocBook.Document
