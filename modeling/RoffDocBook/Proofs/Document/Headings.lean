import RoffDocBook.Proofs.Document.KeptSections
import RoffDocBook.Proofs.Document.Level
import RoffDocBook.Proofs.Document.OwnPage

/-! Headings form the outline: the sections in the output are nested as the depths of the headings say, and what is
written after a heading stands in its section, before the sections inside it. -/
namespace RoffDocBook
open Text Markup

/-- A heading, and what is written until the next one: text, lists and displays, with some text among them that is not
blank. -/
structure HeadedPart where
  depth : Nat
  title : Text
  calls : List Document.Call
  positive : 1 ≤ depth := by decide
  plain : Tagless title := by decide
  shows : ∃ call ∈ calls, call.texts ≠ [] := by decide

namespace Document

def writePart (doc : Document) (part : HeadedPart) : Document :=
  (doc.pushSection part.depth part.title).performAll part.calls

/-- The texts that calls add to the output. -/
def textsOf (doc : Document) : List Call → List Text
  | [] => []
  | call :: calls => doc.callTexts call ++ (doc.perform call).textsOf calls

/-- The headings with the texts that are written after them. -/
def written (doc : Document) : List HeadedPart → List (HeadedPart × List Text)
  | [] => []
  | part :: parts =>
    (part, (doc.pushSection part.depth part.title).textsOf part.calls) :: (doc.writePart part).written parts

/-- What is written after a heading suits the document. -/
def SuitsParts (doc : Document) : List HeadedPart → Prop
  | [] => True
  | part :: parts =>
    (doc.pushSection part.depth part.title).SuitsAll part.calls ∧ (doc.writePart part).SuitsParts parts

instance decidableSuitsParts (doc : Document) : (parts : List HeadedPart) → Decidable (doc.SuitsParts parts)
  | [] => isTrue trivial
  | part :: parts =>
    have := decidableSuitsParts (doc.writePart part) parts
    inferInstanceAs (Decidable ((doc.pushSection part.depth part.title).SuitsAll part.calls ∧
      (doc.writePart part).SuitsParts parts))

/-- A section in the output is that of a heading: it begins with the title, and its own lines hold the texts that were
written after the heading, in order, and no part of another section. -/
structure Fills (part : HeadedPart × List Text) (lines : SectionLines) : Prop where
  depth : lines.depth = part.1.depth
  element : lines.element ∈ sectionNames
  heading : ∃ id, Tagless id ∧
    lines.heading = "<" ++ lines.element ++ " id='" ++ id ++ "'><title>" ++ part.1.title ++ "</title>"
  texts : InOrder part.2 (unlines lines.own)
  free : SectionFree ("<title>" ++ part.1.title ++ "</title>") ∧ SectionFree (unlines lines.own)

/-- A page that nothing has been written to. -/
structure Blank (page : Document) : Prop extends Resting page where
  unwritten : page.lines = []
  glyphs : page.formatter.glyphs = []

section
variable {page doc : Document} {ground : Ground} {call : Call} {calls : List Call} {texts : List Text}
  {produced : Bool}

/-- What a call has written stands, and after text that is not blank something stays. -/
theorem Stands.suits (h : Stands .page [] false doc texts produced) (hs : doc.Suits call) :
    ∃ after, Stands .page [] false (doc.perform call) (texts ++ doc.callTexts call) after ∧
      (produced = true → after = true) ∧ (call.texts ≠ [] → after = true) := by
  obtain ⟨_, _, hcontent, _, _⟩ := h.held
  have hr := hs.respects hcontent.toAligned
  by_cases hi : doc.InList call
  · refine ⟨produced || call.produces, h.perform hr hi, fun hp => by rw [hp]; rfl, fun hne => ?_⟩
    cases call with
    | textLine line =>
      cases hb : isAllBlank line with
      | true => exact absurd (if_pos hb) hne
      | false =>
        rw [Call.produces, hb]
        exact Bool.or_true produced
    | _ => exact absurd rfl hne
  · cases call with
    | beginItem term =>
      have hnone : doc.topList? = none := by simpa [InList] using hi
      refine ⟨produced, ⟨(h.held.perform hr).weaken Or.inl, fun hp => ?_⟩, id, fun hne => absurd rfl hne⟩
      change Idle [] [] (doc.beginItem term)
      rw [(h.idle hp).beginItem hnone]
      exact h.idle hp
    | _ => exact absurd trivial hi

theorem Stands.suitsAll (h : Stands .page [] false doc texts produced) (hs : doc.SuitsAll calls) :
    ∃ after, Stands .page [] false (doc.performAll calls) (texts ++ doc.textsOf calls) after ∧
      (produced = true → after = true) ∧ ((∃ call ∈ calls, call.texts ≠ []) → after = true) := by
  induction calls generalizing doc texts produced with
  | nil =>
    refine ⟨produced, ?_, id, fun ⟨_, hm, _⟩ => by cases hm⟩
    rw [textsOf, List.append_nil]
    exact h
  | cons call calls ih =>
    obtain ⟨between, hfirst, hkept, hshown⟩ := h.suits hs.1
    obtain ⟨after, hall, hlater, hothers⟩ := ih hfirst hs.2
    rw [List.append_assoc] at hall
    refine ⟨after, hall, hlater ∘ hkept, fun ⟨other, hm, hne⟩ => ?_⟩
    rcases List.mem_cons.mp hm with rfl | hm
    · exact hlater (hshown hne)
    · exact hothers ⟨other, hm, hne⟩

/-- Where all blocks have been closed, what stays is in the output. -/
theorem Held.lines_ne_nil (h : Held .page doc texts True) (hb : doc.blocks = []) : doc.lines ≠ [] := by
  obtain ⟨frames, all, hcontent, _, hmark⟩ := h
  obtain ⟨inner, hinner, rfl⟩ := hcontent.blocks_eq
  rw [hb] at hinner
  obtain rfl : [] = inner := hinner.trans (List.append_nil inner)
  rcases hmark trivial with ⟨t, ht, hblank⟩ | ⟨_, hm, _⟩
  · obtain ⟨new, hnew, hall⟩ := hcontent.holding.recorded.inOrder
    intro hn
    rw [hn] at hnew
    obtain rfl : [] = new := hnew.trans (List.append_nil new)
    have hshown := hall.isAllBlank_eq_false (List.mem_append_right _ ht) hblank
    cases hshown
  · cases hm

namespace Blank

theorem begun (h : Blank page) : Begun page where
  filling := by
    rw [h.blocks]
    exact h.fill
  joins hn := by
    rw [h.joins] at hn
    cases hn
  paragraph hn := by
    rw [h.closed] at hn
    cases hn
  blocks hn := absurd h.blocks hn
  seated := by
    rw [h.blocks]
    trivial

theorem confined (h : Blank page) : Confined page page where
  same := ⟨_, _, _, _, _, _, _, _, _, _, rfl⟩
  lines line hm := by
    rw [h.unwritten] at hm
    cases hm
  trap _ hm := by
    rw [h.trap] at hm
    cases hm
  substitutes := h.substitutes
  glyphs := h.glyphs

theorem stands (h : Blank page) : Stands .page [] false page [] false where
  held := by
    refine ⟨[], [], ?_, .slnil, fun hn => by cases hn.1⟩
    exact {
      h.begun.toAligned with
      blocks_eq := ⟨[], h.blocks, rfl⟩
      holding := {
        recorded := by rw [h.unwritten]; exact .nil
        joins := fun _ _ hm => by cases hm
        sections := h.sections
        suspended := h.suspended
        substitutes := h.substitutes }
      based := fun _ => rfl }
  idle _ := { h.toQuiet with started := ⟨[], h.blocks, by rw [h.unwritten]; exact .nil⟩ }

end Blank

/-- The page for what is written next, where the lines that calls have written to it are taken off. -/
def turn (page : Document) (calls : List Call) : Document :=
  { (page.performAll calls).closeBlocks with lines := [] }

theorem Blank.turn (h : Blank page) (hs : page.SuitsAll calls) : Blank (page.turn calls) := by
  obtain ⟨after, hstands, _⟩ := h.stands.suitsAll hs
  have hresting := (hstands.held.closeBlocks rfl).resting rfl rfl (hstands.held.cleared rfl)
  exact { hresting with
    unwritten := rfl
    glyphs := (h.confined.performAll hs).closeBlocks.glyphs }

theorem Blank.onto_eq (h : Blank page) (ground : Ground) :
    page.onto ground =
      { page with
        lines := ground.lines
        sections := ground.sections
        ids := ground.ids
        sectionName := ground.sectionName } := by
  unfold onto
  rw [h.unwritten, h.blocks]
  rfl

theorem Blank.closeBlocks_onto (h : Blank page) (ground : Ground) :
    (page.onto ground).closeBlocks = page.onto ground := by
  rw [onto_closeBlocks ground h.begun, h.closeBlocks_eq]

/-- The end tag of a section that something has been written into. -/
theorem Blank.endSection_onto (h : Blank page) {mark : OpenSection} {rest : List OpenSection}
    (hs : ground.sections = mark :: rest) (hb : mark.start + 1 < ground.lines.length) :
    (page.onto ground).endSection =
      page.onto { ground with lines := mark.ending :: ground.lines, sections := rest } := by
  have hkept : (ground.lines.length == mark.start + 1) = false := beq_eq_false_iff_ne.mpr (by omega)
  have hjoins := h.joins
  rw [endSection_eq, h.closeBlocks_onto, h.onto_eq, h.onto_eq, hs]
  dsimp only [writeSectionEnd]
  rw [hkept, if_neg Bool.false_ne_true, emit_eq, hjoins]
  rfl

/-- Sections are ended from the innermost one outwards. -/
theorem Blank.endSections_onto (h : Blank page) {closed kept : List OpenSection}
    (hs : ground.sections = closed ++ kept) (hb : ∀ mark ∈ closed, mark.start + 1 < ground.lines.length) :
    closed.foldl (fun doc _ => doc.endSection) (page.onto ground) =
      page.onto { ground with lines := (closed.map OpenSection.ending).reverse ++ ground.lines, sections := kept } := by
  induction closed generalizing ground with
  | nil =>
    have hkept : ground.sections = kept := hs
    subst hkept
    rfl
  | cons mark closed ih =>
    obtain ⟨hmark, hclosed⟩ := List.forall_mem_cons.mp hb
    let ended : Ground := { ground with lines := mark.ending :: ground.lines, sections := closed ++ kept }
    have hended : ended.sections = closed ++ kept := rfl
    have hfirst : (page.onto ground).endSection = page.onto ended := h.endSection_onto hs hmark
    rw [List.foldl_cons, hfirst, ih hended fun other hm => Nat.lt_succ_of_lt (hclosed other hm)]
    simp [ended]

theorem Blank.popSections_onto (h : Blank page) (hb : ∀ mark ∈ ground.sections, mark.start + 1 < ground.lines.length)
    (depth : Nat) :
    (page.onto ground).popSections depth = page.onto { ground with toOuter := ground.pop depth } := by
  have hsplit : ground.sections = ground.sections.takeWhile (fun mark => depth ≤ mark.depth) ++
      ground.sections.dropWhile fun mark => depth ≤ mark.depth :=
    List.takeWhile_append_dropWhile.symm
  exact h.endSections_onto hsplit fun mark hm => hb mark ((List.takeWhile_prefix _).subset hm)

/-- When its blocks have been closed, a document is a blank page on top of what has been written before. -/
structure Layered (page doc : Document) (ground : Ground) : Prop where
  blank : Blank page
  closed : doc.closeBlocks = page.onto ground
  manual : doc.isManualPage = page.isManualPage
  suspended : doc.suspended = []
  /-- Something has been written into every open section. -/
  begun : ∀ mark ∈ ground.sections, mark.start + 1 < ground.lines.length

/-- The section that a part is written as; its own lines are those that its calls write to the page. -/
def partLines (page : Document) (ids : IdRegistry) (part : HeadedPart) : SectionLines :=
  let element : Text :=
    if page.isManualPage then "refsect" ++ ofNat (min 3 part.depth) else "sect" ++ ofNat (min 5 part.depth)
  { depth := part.depth
    element
    heading := "<" ++ element ++ " id='" ++ (ids.make (stripTags part.title)).1 ++ "'><title>" ++ part.title ++
      "</title>"
    own := (page.performAll part.calls).closeBlocks.lines.reverse }

variable {part : HeadedPart} {parts : List HeadedPart}

/-- What there is before a part, with its heading. -/
def headed (page : Document) (ground : Ground) (part : HeadedPart) : Ground where
  toOuter := ground.enter { page.partLines ground.ids part with own := [] }
  ids := (ground.ids.make (stripTags part.title)).2
  sectionName := some (stripTags part.title)

theorem Layered.pushSection (h : Layered page doc ground) (part : HeadedPart) :
    doc.pushSection part.depth part.title = page.onto (page.headed ground part) := by
  have hblank := h.blank
  have hjoins := hblank.joins
  unfold Document.pushSection
  dsimp only
  rw [Nat.max_eq_right part.positive, h.manual, openSection_eq, h.closed, hblank.popSections_onto h.begun,
    hblank.onto_eq, hblank.onto_eq]
  dsimp only
  rw [hjoins]
  rfl

/-- The same texts are written on top of other output. -/
theorem onto_textsOf (h : Begun page) (hs : page.SuitsAll calls) :
    (page.onto ground).textsOf calls = page.textsOf calls := by
  induction calls generalizing page with
  | nil => rfl
  | cons call calls ih =>
    have hcall : (page.onto ground).callTexts call = page.callTexts call := by
      cases call with
      | textLine line =>
        change shown (if '\\' ∈ line then (page.onto ground).rendering line else line) = _
        rw [rendering, onto_renderInline]
        rfl
      | _ => rfl
    rw [textsOf, textsOf, hcall, onto_perform ground h hs.1.isInner, ih (h.perform hs.1.isInner) hs.2]

/-- The texts of a part are in its own lines, and these have no tags of sections. -/
theorem Blank.fills (h : Blank page) (hs : page.SuitsAll part.calls) (ids : IdRegistry) :
    Fills (part, page.textsOf part.calls) (page.partLines ids part) := by
  obtain ⟨after, hstands, _⟩ := h.stands.suitsAll hs
  obtain ⟨new, hnew, hall⟩ := (hstands.held.closeBlocks rfl).inOrder
  have hlines : (page.performAll part.calls).closeBlocks.lines = new := hnew.trans (List.append_nil new)
  have helement := page.pushSection_element part.depth
  rw [Nat.max_eq_right part.positive] at helement
  refine ⟨rfl, helement, ⟨_, tagless_make ids _, rfl⟩, ?_, ?_, ?_⟩
  · rw [partLines, hlines]
    exact hall
  · have htitle := tagsOther_of_notMem part.plain.1
    exact sectionFree_of_tagsOther (tagsOther_append (tagsOther_append (by decide) htitle) (by decide))
  · exact sectionFree_of_tagsOther (tagsOther_body (h.confined.performAll hs).closeBlocks.lines)

/-- Some text of a part is not blank, so it has lines of its own. -/
theorem Blank.own_ne_nil (h : Blank page) (hs : page.SuitsAll part.calls) (ids : IdRegistry) :
    (page.partLines ids part).own ≠ [] := by
  obtain ⟨after, hstands, _, hshown⟩ := h.stands.suitsAll hs
  have hheld : Held .page (page.performAll part.calls) _ True := hstands.held.weaken fun _ => ⟨hshown part.shows, rfl⟩
  exact fun hn => (hheld.closeBlocks rfl).lines_ne_nil (closeBlocks_blocks _) (List.reverse_eq_nil_iff.mp hn)

/-- What there is after a part. -/
def groundAfter (page : Document) (ground : Ground) (part : HeadedPart) : Ground where
  toOuter := ground.enter (page.partLines ground.ids part)
  ids := (ground.ids.make (stripTags part.title)).2
  sectionName := some (stripTags part.title)

/-- Something is written into a section before the next heading, and nothing is taken from those around it. -/
theorem Layered.begun_groundAfter (h : Layered page doc ground) (hs : page.SuitsAll part.calls) :
    ∀ mark ∈ (page.groundAfter ground part).sections, mark.start + 1 < (page.groundAfter ground part).lines.length := by
  have hown := List.length_pos_iff.mpr (h.blank.own_ne_nil hs ground.ids)
  have hpop : ground.lines.length ≤ (ground.pop part.depth).lines.length := by
    rw [Outer.pop, List.length_append]
    exact Nat.le_add_left _ _
  have hlength : (page.groundAfter ground part).lines.length =
      (page.partLines ground.ids part).own.length + ((ground.pop part.depth).lines.length + 1) := by
    change (List.reverse _ ++ _ :: (ground.pop part.depth).lines).length = _
    rw [List.length_append, List.length_reverse, List.length_cons]
  rw [hlength]
  refine List.forall_mem_cons.mpr ⟨?_, fun mark hm => ?_⟩
  · change (ground.pop part.depth).lines.length + 1 < _
    omega
  · have hmark := h.begun mark ((List.dropWhile_suffix _).subset hm)
    omega

/-- What has been written stays where it is, and the page on top of it is blank again. -/
theorem onto_turn (page : Document) (ground : Ground) (part : HeadedPart) :
    (page.performAll part.calls).closeBlocks.onto (page.headed ground part) =
      (page.turn part.calls).onto (page.groundAfter ground part) := by
  unfold onto turn headed groundAfter partLines Outer.enter
  dsimp only
  rw [closeBlocks_blocks, List.reverse_reverse]
  rfl

/-- A heading ends the sections that its own is no part of, and what is written after it stands in its section. -/
theorem Layered.writePart (h : Layered page doc ground)
    (hs : (doc.pushSection part.depth part.title).SuitsAll part.calls) :
    Fills (part, (doc.pushSection part.depth part.title).textsOf part.calls) (page.partLines ground.ids part) ∧
      Layered (page.turn part.calls) (doc.writePart part) (page.groundAfter ground part) := by
  unfold Document.writePart
  rw [h.pushSection part] at hs ⊢
  obtain ⟨hsuits, hwritten⟩ := onto_performAll _ h.blank.begun hs
  obtain ⟨_, _, _, _, _, _, _, _, _, _, hsame⟩ := (h.blank.confined.performAll hsuits).same
  obtain ⟨_, _, _, _, _, _, _, _, _, _, hclosed⟩ := (h.blank.confined.performAll hsuits).closeBlocks.same
  rw [onto_textsOf h.blank.begun hsuits, hwritten]
  refine ⟨h.blank.fills hsuits ground.ids, ?_⟩
  exact {
    blank := h.blank.turn hsuits
    closed := by rw [onto_closeBlocks _ (h.blank.begun.performAll hsuits), onto_turn]
    manual := by
      change (page.performAll part.calls).isManualPage = (page.performAll part.calls).closeBlocks.isManualPage
      rw [hclosed, hsame]
      rfl
    suspended := by
      change (page.performAll part.calls).suspended = []
      rw [hsame]
      exact h.blank.suspended
    begun := h.begun_groundAfter hsuits }

theorem Layered.finish (h : Layered page doc ground) : doc.finish.1 = (ground.pop 0).lines.reverse := by
  have hdiverted : doc.endDiversions = doc := by
    rw [endDiversions, h.suspended]
    rfl
  rw [Document.finish, closeAll, hdiverted, h.closed, endSections, h.blank.popSections_onto h.begun, h.blank.onto_eq]

end

end Document

end RoffDocBook
