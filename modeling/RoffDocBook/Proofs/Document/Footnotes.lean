import RoffDocBook.Proofs.Document.Idle

/-! Footnotes set the output aside and give it back. What is written into a footnote is in the text around it
afterwards, unless nothing was written into it that stays. -/
namespace RoffDocBook

/-- What may be written inside a section; a footnote ends where it has begun. -/
inductive SectionPart where
  | call (call : Document.Call)
  | markup (markup : Text)
  | footnote (body : List SectionPart)

namespace SectionPart
open Text

mutual

/-- Whether something is written that stays: text or markup that is not blank, an item, or a display. -/
def produces : SectionPart → Bool
  | .call c => c.produces
  | .markup m => (Text.lines m).any fun line => !isAllBlank line
  | .footnote body => anyProduces body

def anyProduces : List SectionPart → Bool
  | [] => false
  | part :: parts => part.produces || anyProduces parts

end

end SectionPart

namespace Document
open Text Markup

mutual

def write (doc : Document) : SectionPart → Document
  | .call call => doc.perform call
  | .markup markup => doc.emitMarkup markup
  | .footnote body => (writeAll doc.beginFootnote body).endFootnote

def writeAll (doc : Document) : List SectionPart → Document
  | [] => doc
  | part :: parts => writeAll (doc.write part) parts

end

mutual

/-- The texts and the markup that are written, without blank lines. -/
def partTexts (doc : Document) : SectionPart → List Text
  | .call call => doc.callTexts call
  | .markup markup => (Text.lines markup).filter fun line => !isAllBlank line
  | .footnote body => allTexts doc.beginFootnote body

def allTexts (doc : Document) : List SectionPart → List Text
  | [] => []
  | part :: parts => doc.partTexts part ++ allTexts (doc.write part) parts

end

/-- The last line stays: it is neither the start of a list without items nor, outside footnotes, the heading of a
section of the first depth. -/
def Firm (outer : List OpenBlock) (doc : Document) : Prop :=
  (∀ frame ∈ (doc.blocks.take (doc.blocks.length - outer.length)).filterMap OpenBlock.list?,
      frame.items = 0 → frame.start + 1 ≠ doc.lines.length) ∧
    (doc.suspended = [] → ∀ mark ∈ doc.sections, mark.depth = 1 → mark.start + 1 ≠ doc.lines.length)

mutual

/-- What may be written inside some blocks: blocks are closed where they were opened, items belong to lists, and markup
has a line that is not blank. A footnote that does not vanish ends where the last line stays. -/
def Allows (outer : List OpenBlock) (doc : Document) : SectionPart → Prop
  | .call call => Respects outer doc call ∧ doc.InList call
  | .markup markup => Text.lines markup = [] ∨ ∃ line ∈ Text.lines markup, isAllBlank line = false
  | .footnote body =>
    AllowsAll doc.blocks doc.beginFootnote body ∧ (doc.beginFootnote.writeAll body).blocks = doc.blocks ∧
      (paragraphs? (doc.beginFootnote.writeAll body).endDiversion.1 = none ∨ Firm outer doc)

/-- Every part is allowed by the document that the parts before it have built. -/
def AllowsAll (outer : List OpenBlock) (doc : Document) : List SectionPart → Prop
  | [] => True
  | part :: parts => Allows outer doc part ∧ AllowsAll outer (doc.write part) parts

end

instance (outer : List OpenBlock) (doc : Document) : Decidable (Firm outer doc) :=
  inferInstanceAs (Decidable (_ ∧ _))

mutual

instance decidableAllows (outer : List OpenBlock) (doc : Document) :
    (part : SectionPart) → Decidable (Allows outer doc part)
  | .call _ => inferInstanceAs (Decidable (_ ∧ _))
  | .markup _ => inferInstanceAs (Decidable (_ ∨ _))
  | .footnote body =>
    have := decidableAllowsAll doc.blocks doc.beginFootnote body
    inferInstanceAs (Decidable (AllowsAll doc.blocks doc.beginFootnote body ∧ _ ∧ _))

instance decidableAllowsAll (outer : List OpenBlock) (doc : Document) :
    (parts : List SectionPart) → Decidable (AllowsAll outer doc parts)
  | [] => isTrue trivial
  | part :: parts =>
    have := decidableAllows outer doc part
    have := decidableAllowsAll outer (doc.write part) parts
    inferInstanceAs (Decidable (Allows outer doc part ∧ AllowsAll outer (doc.write part) parts))

end

/-- What is written into a footnote, where the output around it has been set aside. -/
def Level.footnote (doc : Document) : Level where
  lines := []
  sections := doc.sections
  suspended := { lines := doc.lines, inParagraph := doc.inParagraph } :: doc.suspended
  blocks := doc.blocks
  heading := []

/-- The output around a footnote is taken up again. -/
def resumed (doc ended : Document) : Document :=
  { ended with
    lines := doc.lines
    suspended := doc.suspended
    inParagraph := doc.inParagraph
    joinNext := false }

section
variable {level : Level} {lines texts more : List Text} {doc ended : Document} {marked other : Prop}

theorem held_beginFootnote (h : Held level doc texts marked) : Held (.footnote doc) doc.beginFootnote [] False := by
  obtain ⟨_, _, hc, _, _⟩ := h
  refine ⟨[], [], ?_, .slnil, False.elim⟩
  have haligned : Aligned doc.beginFootnote := aligned_of_joinNext hc.filling rfl
  exact {
    haligned with
    blocks_eq := ⟨[], rfl, rfl⟩
    holding := ⟨.nil, (fun hn => by cases hn), rfl, rfl, hc.holding.substitutes⟩
    based := fun _ => rfl }

theorem idle_beginFootnote {outer : List OpenBlock} (h : Idle lines outer doc) :
    Idle [] doc.blocks doc.beginFootnote where
  fill := h.fill
  trap := h.trap
  closed := rfl
  joins := rfl
  started := ⟨[], rfl, .nil⟩

theorem Held.endDiversion_eq (h : Held (.footnote doc) ended texts marked) :
    ended.endDiversion =
      (ended.flushTrap.closeParagraph.lines.reverse, resumed doc ended.flushTrap.closeParagraph) := by
  unfold endDiversion
  dsimp only
  rw [h.flushTrap.closeParagraph.outside.2]
  rfl

theorem Held.endFootnote_eq (h : Held (.footnote doc) ended texts marked) :
    ended.endFootnote =
      match paragraphs? ended.flushTrap.closeParagraph.lines.reverse with
      | some body => (resumed doc ended.flushTrap.closeParagraph).append ("<footnote>" ++ body ++ "</footnote>")
      | none => resumed doc ended.flushTrap.closeParagraph := by
  unfold endFootnote
  rw [h.outside.2, h.endDiversion_eq]
  rfl

theorem paragraphs?_eq_none {lines : List Text} : paragraphs? lines = none ↔ isAllBlank (unlines lines) = true := by
  unfold paragraphs?
  dsimp only
  split
  · rename_i hb
    simp [hb]
  · rename_i hb
    split <;> simp [hb]

/-- The paragraphs of a footnote hold what its lines hold. -/
theorem inOrder_paragraphs {lines texts : List Text} {markup : Text} (h : InOrder texts (unlines lines))
    (hp : paragraphs? lines = some markup) : InOrder texts markup := by
  unfold paragraphs? at hp
  dsimp only at hp
  split at hp
  · cases hp
  · split at hp
    · rwa [← Option.some.inj hp]
    · rw [← Option.some.inj hp]
      exact (h.after "<para>").before "</para>"

/-- The output around a footnote is as it was. -/
theorem Content.resumed {frames : List ListFrame} {all : List Text} (h : Content level doc frames all)
    (hf : Held (.footnote doc) ended texts marked) (hb : ended.blocks = doc.blocks) :
    Content level (resumed doc ended) frames all := by
  obtain ⟨_, _, hc, _, _⟩ := hf
  have haligned : Aligned (Document.resumed doc ended) := aligned_of_joinNext hc.filling rfl
  exact {
    haligned with
    blocks_eq := by
      obtain ⟨inner, hinner, hframes⟩ := h.blocks_eq
      exact ⟨inner, hb.trans hinner, hframes⟩
    holding := {
      recorded := h.holding.recorded
      joins := fun hn => by cases hn
      sections := hc.holding.sections.trans h.holding.sections
      suspended := h.holding.suspended
      substitutes := hc.holding.substitutes }
    based := h.based }

/-- The last line is none that may be taken back. -/
theorem Content.firm {frames : List ListFrame} {all : List Text} (h : Content level doc frames all)
    (hf : Firm level.blocks doc) :
    ∀ start ∈ listProvisionals frames ++ level.provisionals, start.line + 1 < doc.lines.length := by
  intro start hm
  have hlt := h.holding.recorded.lt hm
  obtain ⟨inner, hb, rfl⟩ := h.blocks_eq
  have hinner : doc.blocks.take (doc.blocks.length - level.blocks.length) = inner := by
    rw [hb, List.length_append, Nat.add_sub_cancel, List.take_left]
  obtain ⟨hlists, hsections⟩ := hf
  rw [hinner] at hlists
  have hne : start.line + 1 ≠ doc.lines.length := by
    rcases List.mem_append.mp hm with hm | hm
    · obtain ⟨frame, hframe, rfl⟩ := List.mem_map.mp hm
      obtain ⟨hmem, hi⟩ := List.mem_filter.mp hframe
      exact hlists frame hmem (eq_of_beq hi)
    · unfold Level.provisionals at hm
      split at hm
      · rename_i hnone
        obtain ⟨mark, hmark, rfl⟩ := List.mem_map.mp hm
        obtain ⟨hmem, hd⟩ := List.mem_filter.mp hmark
        rw [← h.holding.sections] at hmem
        exact hsections (h.holding.suspended.trans (List.isEmpty_iff.mp hnone)) mark hmem (eq_of_beq hd)
      · cases hm
  omega

theorem Content.append {frames : List ListFrame} {all : List Text} (h : Content level doc frames all) {piece : Text}
    (hp : InOrder more piece)
    (hs : more ≠ [] → ∀ start ∈ listProvisionals frames ++ level.provisionals, start.line + 1 < doc.lines.length) :
    Content level (doc.append piece) frames (all ++ more) := by
  have hwritten := h.holding.append_of hp hs
  rw [List.append_assoc] at hwritten
  have haligned : Aligned (doc.append piece) := by
    rw [append_eq]
    exact aligned_of_joinNext h.filling rfl
  have hblocks : (doc.append piece).blocks = doc.blocks := by rw [append_eq]
  exact { haligned with
    blocks_eq := by rw [hblocks]; exact h.blocks_eq
    holding := hwritten
    based := h.based }

/-- What is written into a footnote is in the lines that have been collected. -/
theorem Held.collected (h : Held (.footnote doc) ended more marked) (hb : ended.blocks = doc.blocks) :
    ∃ inner, InOrder inner (unlines ended.lines.reverse) ∧ more.Sublist inner ∧
      (marked → ∃ t ∈ inner, isAllBlank t = false) := by
  obtain ⟨_, inner, hc, hsub, hmark⟩ := h
  obtain ⟨new, hnew, hinner⟩ := hc.holding.recorded.inOrder
  obtain rfl : ended.lines = new := hnew.trans (List.append_nil new)
  obtain ⟨opened, hopened, rfl⟩ := hc.blocks_eq
  rw [hb] at hopened
  rw [List.self_eq_append_left.mp hopened] at hmark
  refine ⟨inner, hinner, hsub, fun hm => ?_⟩
  rcases hmark hm with hsome | ⟨_, hframe, _⟩
  · exact hsome
  · cases hframe

/-- A footnote vanishes only where nothing has been written into it. -/
theorem Held.eq_nil_of_vanishing (h : Held (.footnote doc) ended more marked) (hb : ended.blocks = doc.blocks)
    (hn : ∀ t ∈ more, isAllBlank t = false) (hp : paragraphs? ended.lines.reverse = none) : more = [] ∧ ¬marked := by
  obtain ⟨inner, hinner, hsub, hmark⟩ := h.collected hb
  have hblank : ∀ t ∈ inner, isAllBlank t = true := by
    intro t ht
    by_contra hne
    have hsome := hinner.isAllBlank_eq_false ht (Bool.eq_false_iff.mpr hne)
    rw [paragraphs?_eq_none.mp hp] at hsome
    cases hsome
  refine ⟨List.eq_nil_iff_forall_not_mem.mpr fun t ht => ?_, fun hm => ?_⟩
  · exact Bool.false_ne_true ((hn t ht).symm.trans (hblank t (hsub.subset ht)))
  · obtain ⟨t, ht, hsome⟩ := hmark hm
    exact Bool.false_ne_true (hsome.symm.trans (hblank t ht))

theorem Held.resumed (h : Held level doc texts marked) (hf : Held (.footnote doc) ended more other)
    (hb : ended.blocks = doc.blocks) : Held level (resumed doc ended) texts marked := by
  obtain ⟨frames, all, hc, hsub, hmark⟩ := h
  exact ⟨frames, all, hc.resumed hf hb, hsub, hmark⟩

/-- A footnote goes to the end of the text before it. -/
theorem Held.attach (h : Held level doc texts marked) (hf : Held (.footnote doc) ended more other)
    (hb : ended.blocks = doc.blocks) (hfirm : Firm level.blocks doc) {markup : Text}
    (hp : paragraphs? ended.lines.reverse = some markup) :
    Held level ((Document.resumed doc ended).append ("<footnote>" ++ markup ++ "</footnote>")) (texts ++ more)
      (marked ∨ other) := by
  obtain ⟨frames, all, hc, hsub, hmark⟩ := h
  obtain ⟨inner, hinner, hmore, hsome⟩ := hf.collected hb
  have hpiece : InOrder inner ("<footnote>" ++ markup ++ "</footnote>") :=
    ((inOrder_paragraphs hinner hp).after "<footnote>").before "</footnote>"
  refine ⟨frames, all ++ inner, (hc.resumed hf hb).append hpiece fun _ => hc.firm hfirm, hsub.append hmore, ?_⟩
  rintro (hm | hm)
  · exact (hmark hm).append inner
  · obtain ⟨t, ht, hnonblank⟩ := hsome hm
    exact marked_of_mem ht hnonblank

theorem Idle.resumed {outer : List OpenBlock} (h : Idle lines outer doc) (hq : Quiet ended)
    (hb : ended.blocks = doc.blocks) : Idle lines outer (resumed doc ended) where
  fill := hq.fill
  trap := hq.trap
  closed := h.closed
  joins := rfl
  started := by
    obtain ⟨inner, hinner, hstarted⟩ := h.started
    exact ⟨inner, hb.trans hinner, hstarted⟩

/-- Where something has been written that stays, this is in the output, unless it was certain before; and where nothing
has been, everything can be taken back. -/
structure Stands (level : Level) (lines : List Text) (sure : Bool) (doc : Document) (texts : List Text)
    (produced : Bool) : Prop where
  held : Held level doc texts (produced = true ∧ sure = false)
  idle : produced = false → Idle lines level.blocks doc

theorem stands_beginFootnote {sure produced : Bool} (h : Stands level lines sure doc texts produced) :
    Stands (.footnote doc) [] produced doc.beginFootnote [] produced where
  held := (held_beginFootnote h.held).weaken fun ⟨hp, hs⟩ => by rw [hp] at hs; cases hs
  idle hp := idle_beginFootnote (h.idle hp)

/-- A footnote goes to the end of the text before it, or vanishes where nothing in it stays. -/
theorem Stands.endFootnote {sure produced after : Bool} (h : Stands level lines sure doc texts produced)
    (hbody : Stands (.footnote doc) [] produced ended more after) (hle : produced = true → after = true)
    (hb : ended.blocks = doc.blocks) (hn : ∀ t ∈ more, isAllBlank t = false)
    (hf : paragraphs? ended.endDiversion.1 = none ∨ Firm level.blocks doc) :
    Stands level lines sure ended.endFootnote (texts ++ more) after := by
  have hclosed := hbody.held.flushTrap.closeParagraph
  have hblocks : ended.flushTrap.closeParagraph.blocks = doc.blocks := by simpa using hb
  have hidle : after = false → Idle [] doc.blocks ended.flushTrap.closeParagraph := by
    intro ha
    have hi := hbody.idle ha
    rw [flushTrap_of_none hi.trap, closeParagraph_of_false hi.closed]
    exact hi
  rw [hbody.held.endDiversion_eq] at hf
  rw [hbody.held.endFootnote_eq]
  generalize ended.flushTrap.closeParagraph = closed at hclosed hblocks hidle hf ⊢
  cases hp : paragraphs? closed.lines.reverse with
  | none =>
    obtain ⟨rfl, hnothing⟩ := hclosed.eq_nil_of_vanishing hblocks hn hp
    rw [List.append_nil]
    have hsame : produced = after := by
      cases hproduced : produced with
      | true => exact (hle hproduced).symm
      | false => exact (Bool.eq_false_iff.mpr fun ha => hnothing ⟨ha, hproduced⟩).symm
    rw [← hsame] at hidle ⊢
    exact {
      held := h.held.resumed hclosed hblocks
      idle := fun hp => (h.idle hp).resumed (hidle hp).toQuiet hblocks }
  | some markup =>
    have hfirm := hf.resolve_left (by rw [hp]; exact Option.some_ne_none markup)
    refine { held := (h.held.attach hclosed hblocks hfirm hp).weaken ?_, idle := fun ha => ?_ }
    · rintro ⟨ha, hsure⟩
      cases hproduced : produced with
      | true => exact Or.inl ⟨rfl, hsure⟩
      | false => exact Or.inr ⟨ha, rfl⟩
    · rw [(hidle ha).lines_eq hblocks] at hp
      cases hp

theorem isAllBlank_of_mem_shown {t u : Text} (h : t ∈ shown u) : isAllBlank t = false := by
  unfold shown at h
  split at h
  · cases h
  · rename_i hb
    rw [List.mem_singleton.mp h]
    exact Bool.eq_false_iff.mpr hb

end

mutual

/-- No text that is kept count of is blank. -/
theorem isAllBlank_of_mem_partTexts (doc : Document) :
    (part : SectionPart) → ∀ t ∈ doc.partTexts part, isAllBlank t = false
  | .call call => by
    intro t ht
    cases call with
    | textLine line => exact isAllBlank_of_mem_shown ht
    | _ => cases ht
  | .markup markup => by
    intro t ht
    simpa using (List.mem_filter.mp ht).2
  | .footnote body => isAllBlank_of_mem_allTexts doc.beginFootnote body

theorem isAllBlank_of_mem_allTexts (doc : Document) :
    (parts : List SectionPart) → ∀ t ∈ doc.allTexts parts, isAllBlank t = false
  | [] => by
    intro t ht
    cases ht
  | part :: parts => by
    intro t ht
    rcases List.mem_append.mp ht with ht | ht
    · exact isAllBlank_of_mem_partTexts doc part t ht
    · exact isAllBlank_of_mem_allTexts (doc.write part) parts t ht

end

section
variable {level : Level} {lines texts : List Text} {doc : Document} {sure produced : Bool}

theorem Stands.perform (h : Stands level lines sure doc texts produced) {call : Call}
    (hr : Respects level.blocks doc call) (hi : doc.InList call) :
    Stands level lines sure (doc.perform call) (texts ++ doc.callTexts call) (produced || call.produces) where
  held := by
    refine (h.held.perform hr).weaken ?_
    rintro ⟨hp, hs⟩
    cases hproduced : produced with
    | true => exact Or.inl ⟨rfl, hs⟩
    | false =>
      rw [hproduced, Bool.false_or] at hp
      exact Or.inr ((h.idle hproduced).toQuiet.marks hi hp)
  idle hp := by
    rw [Bool.or_eq_false_iff] at hp
    exact (h.idle hp.1).perform hr hp.2

theorem Stands.emitMarkup (h : Stands level lines sure doc texts produced) {markup : Text}
    (hm : Text.lines markup = [] ∨ ∃ line ∈ Text.lines markup, isAllBlank line = false) :
    Stands level lines sure (doc.emitMarkup markup)
      (texts ++ (Text.lines markup).filter fun line => !isAllBlank line)
      (produced || (Text.lines markup).any fun line => !isAllBlank line) where
  held := by
    refine (h.held.emitMarkup markup).weaken ?_
    rintro ⟨hp, hs⟩
    rcases Bool.or_eq_true_iff.mp hp with hp | hp
    · exact Or.inl ⟨hp, hs⟩
    · simpa using Or.inr hp
  idle hp := by
    rw [Bool.or_eq_false_iff] at hp
    rcases hm with hnone | ⟨line, hline, hb⟩
    · have hsame : doc.emitMarkup markup = doc := by
        unfold Document.emitMarkup
        rw [hnone]
        rfl
      rw [hsame]
      exact h.idle hp.1
    · have hblank := List.any_eq_false.mp hp.2 line hline
      rw [hb] at hblank
      exact absurd rfl hblank

end

mutual

/-- Whatever is written inside a section or a footnote, what has been written of it stands. -/
theorem stands_write {level : Level} {lines texts : List Text} {doc : Document} {sure produced : Bool}
    (h : Stands level lines sure doc texts produced) :
    (part : SectionPart) → Allows level.blocks doc part →
      Stands level lines sure (doc.write part) (texts ++ doc.partTexts part) (produced || part.produces)
  | .call call, ha => h.perform ha.1 ha.2
  | .markup markup, ha => h.emitMarkup ha
  | .footnote body, ha => by
    obtain ⟨hall, hb, hf⟩ := ha
    have hbody := stands_writeAll (stands_beginFootnote h) body hall
    exact h.endFootnote hbody (fun hp => by rw [hp]; rfl) hb (isAllBlank_of_mem_allTexts _ body) hf

theorem stands_writeAll {level : Level} {lines texts : List Text} {doc : Document} {sure produced : Bool}
    (h : Stands level lines sure doc texts produced) :
    (parts : List SectionPart) → AllowsAll level.blocks doc parts →
      Stands level lines sure (doc.writeAll parts) (texts ++ doc.allTexts parts)
        (produced || SectionPart.anyProduces parts)
  | [], _ => by
    rw [allTexts, List.append_nil, SectionPart.anyProduces, Bool.or_false]
    exact h
  | part :: parts, ha => by
    have hall := stands_writeAll (stands_write h part ha.1) parts ha.2
    rw [List.append_assoc, Bool.or_assoc] at hall
    exact hall

end

end Document

end RoffDocBook
