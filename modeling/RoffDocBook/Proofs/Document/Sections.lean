import Mathlib.Data.List.TakeWhile
import RoffDocBook.Proofs.Document.Lists
import RoffDocBook.Proofs.Slug

/-! Sections are closed after the blocks in them, and a section of the first depth that nothing was written into is
taken back. -/
namespace RoffDocBook.Document
open Text Markup

/-- A document that is balanced, with nothing open but sections. -/
structure Bare (doc : Document) : Prop extends Settled doc where
  bare : doc.blocks = []

theorem sectionName_element {name : Text} (h : name ∈ sectionNames) : IsName name ∧ name ≠ "term" := by
  have hall : ∀ name ∈ sectionNames, IsName name ∧ name ≠ "term" := by decide
  exact hall name h

/-- The end of a section, which goes to the output unless the section is of the first depth and nothing was written
into it. -/
def writeSectionEnd (doc : Document) (mark : OpenSection) : Document :=
  if doc.lines.length == mark.start + 1 then
    if mark.depth == 1 then (doc.warn .emptySection).truncate mark.start
    else (doc.append "<para/>").emit ("</" ++ mark.element ++ ">")
  else doc.emit ("</" ++ mark.element ++ ">")

theorem endSection_eq (doc : Document) :
    doc.endSection =
      match doc.closeBlocks.sections with
      | [] => doc.closeBlocks
      | mark :: rest => { doc.closeBlocks with sections := rest }.writeSectionEnd mark :=
  rfl

section
variable {doc : Document}

theorem Balanced.untrapped_of_nil (h : Balanced doc) (hb : doc.blocks = []) : doc.trap = none := by
  cases ht : doc.trap with
  | none => rfl
  | some trap =>
    obtain ⟨_, frame, rest, hlist, _⟩ := h.trap trap ht
    rw [hb] at hlist
    cases hlist

theorem bare_closeBlocks (h : Balanced doc) : Bare doc.closeBlocks ∧ doc.closeBlocks.sections = doc.sections := by
  have hdisplays := balanced_endAllDisplays (balanced_flushTrap h)
  obtain ⟨hsections, hnone⟩ := doc.flushTrap.endAllDisplays_state
  have hended := balanced_endLists hdisplays doc.flushTrap.endAllDisplays.openLists
  have hblocks := endAllLists_blocks hnone
  rw [closeBlocks]
  refine ⟨{ settled_closeParagraph hended (hended.untrapped_of_nil hblocks) with bare := ?_ }, ?_⟩
  · rw [closeParagraph_blocks, hblocks]
  · rw [closeParagraph_sections, endAllLists, endLists_sections, hsections, flushTrap_sections]

theorem Bare.fill (h : Bare doc) : doc.formatter.fill = true := by
  obtain ⟨_, _, hfill⟩ := h.of_blocks h.bare
  exact hfill

/-- Messages, identifiers and the plain title are no part of the output. -/
theorem Settled.elsewhere (h : Settled doc) (diagnostics : Diagnostics) (ids : IdRegistry)
    (sectionName : Option Text) : Settled { doc with diagnostics, ids, sectionName } :=
  { h with }

theorem Bare.leaves_sections (h : Bare doc) : Leaves (sectionElements doc.sections) (body doc.lines) :=
  (h.of_blocks h.bare).1

theorem Bare.founded_sections (h : Bare doc) : Founded doc.lines (sectionMarks doc.sections) :=
  (h.of_blocks h.bare).2.1

/-- Sections may be opened and closed together with their tags. -/
theorem Bare.rewrite (h : Bare doc) {sections : List OpenSection} {lines : List Text}
    (hl : Leaves (sectionElements sections) (body lines)) (hm : Founded lines (sectionMarks sections))
    (hs : ∀ mark ∈ sections, mark.element ∈ sectionNames) :
    Bare { doc with sections, joinNext := false, lines } := by
  have hleaves : Leaves (blockElements false doc.blocks ++ sectionElements sections) (body lines) := by
    rw [h.bare]
    exact hl
  have hfounded : Founded lines (marks sections doc.blocks) := by
    rw [h.bare]
    exact hm
  exact { h.toSettled.rewrite hleaves hfounded h.filling (fun hn => by cases hn) hs with bare := h.bare }

theorem Bare.elsewhere (h : Bare doc) (diagnostics : Diagnostics) (ids : IdRegistry) (sectionName : Option Text) :
    Bare { doc with diagnostics, ids, sectionName } :=
  { h.toSettled.elsewhere diagnostics ids sectionName with bare := h.bare }

theorem Bare.endSection (h : Bare doc) {mark : OpenSection} {rest : List OpenSection}
    (hs : doc.sections = mark :: rest) : Bare ({ doc with sections := rest }.writeSectionEnd mark) := by
  have hleaves := h.leaves_sections
  have hfounded := h.founded_sections
  have hnames := h.sections
  rw [hs] at hleaves hfounded hnames
  have hrest : ∀ other ∈ rest, other.element ∈ sectionNames := fun other hm => hnames other (List.mem_cons_of_mem _ hm)
  have hend := adds_close (s := sectionElements rest) mark.element
    (sectionName_element (hnames mark List.mem_cons_self)).1
  unfold writeSectionEnd
  dsimp only
  rw [emit_eq, emit_eq, append_eq, endTag_eq]
  split
  · split
    · obtain ⟨htruncated, hbefore⟩ := hfounded.truncate
      have hnext := (h.rewrite hbefore htruncated hrest).elsewhere
        (doc.diagnostics.raise .warning doc.line doc.formatter.expanding Complaint.emptySection.message) doc.ids
        doc.sectionName
      rw [← h.joinNext_of_fill h.fill] at hnext
      exact hnext
    · have hpara := leaves_lengthen hleaves (adds_empty "para" (by decide))
      exact h.rewrite (leaves_addLine hpara _ hend) (hfounded.pop.keeps ((Keeps.lengthen _ _).trans (.addLine _ _ _)))
        hrest
  · exact h.rewrite (leaves_addLine hleaves _ hend) (hfounded.pop.keeps (.addLine _ _ _)) hrest

@[simp] theorem writeSectionEnd_sections (doc : Document) (mark : OpenSection) :
    (doc.writeSectionEnd mark).sections = doc.sections := by
  unfold writeSectionEnd
  rw [emit_eq, emit_eq, append_eq]
  split
  · split <;> rfl
  · rfl

theorem bare_endSection (h : Balanced doc) : Bare doc.endSection := by
  obtain ⟨hbare, _⟩ := bare_closeBlocks h
  rw [endSection_eq]
  cases hs : doc.closeBlocks.sections with
  | nil => exact hbare
  | cons mark rest => exact hbare.endSection hs

theorem Balanced.endSection_sections (h : Balanced doc) : doc.endSection.sections = doc.sections.tail := by
  obtain ⟨_, hsections⟩ := bare_closeBlocks h
  rw [endSection_eq, ← hsections]
  cases hs : doc.closeBlocks.sections with
  | nil => exact hs
  | cons mark rest => exact writeSectionEnd_sections _ mark

/-- Closing sections one by one leaves no block open, and as many sections fewer. -/
theorem Bare.endSections_of (h : Bare doc) (closed : List OpenSection) :
    Bare (closed.foldl (fun doc _ => doc.endSection) doc) ∧
      (closed.foldl (fun doc _ => doc.endSection) doc).sections = doc.sections.drop closed.length := by
  induction closed generalizing doc with
  | nil => exact ⟨h, rfl⟩
  | cons mark closed ih =>
    obtain ⟨hbare, hsections⟩ := ih (bare_endSection h.toBalanced)
    refine ⟨hbare, ?_⟩
    rw [List.foldl_cons, hsections, h.toBalanced.endSection_sections, List.drop_tail, List.length_cons]

theorem balanced_popSections (h : Balanced doc) (depth : Nat) : Balanced (doc.popSections depth) := by
  unfold popSections
  generalize doc.sections.takeWhile _ = closed
  cases closed with
  | nil => exact h
  | cons mark closed => exact ((bare_endSection h).endSections_of closed).1.toBalanced

theorem Bare.popSections (h : Bare doc) (depth : Nat) : Bare (doc.popSections depth) :=
  (h.endSections_of _).1

/-- No section is shallower than all of them, so all are closed at the end. -/
theorem Bare.endSections (h : Bare doc) : Bare doc.endSections ∧ doc.endSections.sections = [] := by
  obtain ⟨hbare, hsections⟩ := h.endSections_of (doc.sections.takeWhile fun mark => 0 ≤ mark.depth)
  have hall : (doc.sections.takeWhile fun mark => decide (0 ≤ mark.depth)) = doc.sections :=
    List.takeWhile_eq_self_iff.mpr fun mark _ => by simp
  refine ⟨hbare, hsections.trans ?_⟩
  rw [hall, List.drop_length]

theorem tagless_make (ids : IdRegistry) (title : Text) : Tagless (ids.make title).1 := by
  constructor
  · intro hm
    exact absurd (ids.allowed_of_mem_make hm) (by unfold Slug.Allowed; decide)
  · intro hm
    exact absurd (ids.allowed_of_mem_make hm) (by unfold Slug.Allowed; decide)

/-- The start tag of a section, with its title as an element of its own. -/
theorem adds_section {s : List Text} {element id title : Text} (he : element ∈ sectionNames) (hi : Tagless id)
    (ht : Tagless title) :
    Adds s ("<" ++ element ++ " id='" ++ id ++ "'><title>" ++ title ++ "</title>") (element :: s) := by
  obtain ⟨hn, hterm⟩ := sectionName_element he
  have hattributes := isAttributes_quoted (show Tagless " id='" by decide) hi ⟨_, rfl⟩
  have hstart : Adds s (tag (element ++ (" id='" ++ id ++ "'"))) (element :: s) :=
    adds_tag (.start hn hattributes (fits_of_ne hterm s))
  have hopen : Adds (element :: s) (tag "title") ("title" :: element :: s) :=
    adds_start "title" (by decide) (fits_of_ne (by decide) _)
  have htag : ("<" ++ element ++ " id='" ++ id ++ "'><title>" ++ title ++ "</title>" : Text) =
      tag (element ++ (" id='" ++ id ++ "'")) ++ tag "title" ++ title ++ tag ('/' :: "title") := by
    simp [tag]
  rw [htag]
  exact ((hstart.append hopen).append (adds_text ht)).append (adds_close "title" (by decide))

theorem openSection_eq (doc : Document) (depth : Nat) (element title : Text) :
    doc.openSection depth element title =
      let outside := doc.closeBlocks.popSections depth
      let id := outside.ids.make (stripTags title)
      { outside with
        ids := id.2
        joinNext := false
        lines := addLine outside.joinNext
          ("<" ++ element ++ " id='" ++ id.1 ++ "'><title>" ++ title ++ "</title>") outside.lines
        sectionName := some (stripTags title)
        sections := { depth, element, start := outside.lines.length } :: outside.sections } := by
  rw [openSection, emit_eq]

theorem balanced_openSection (h : Balanced doc) (depth : Nat) {element title : Text} (he : element ∈ sectionNames)
    (ht : Tagless title) : Balanced (doc.openSection depth element title) := by
  have hbare := (bare_closeBlocks h).1.popSections depth
  rw [openSection_eq]
  generalize doc.closeBlocks.popSections depth = outside at hbare
  have hadds := adds_section (s := sectionElements outside.sections) he
    (tagless_make outside.ids (stripTags title)) ht
  have hnames : ∀ mark ∈ { depth, element, start := outside.lines.length } :: outside.sections,
      OpenSection.element mark ∈ sectionNames := by
    intro mark hm
    rcases List.mem_cons.mp hm with rfl | hm
    · exact he
    · exact hbare.sections mark hm
  dsimp only
  rw [hbare.joinNext_of_fill hbare.fill]
  exact ((hbare.rewrite (leaves_cons hbare.leaves_sections hadds) (hbare.founded_sections.push hbare.leaves_sections _)
    hnames).elsewhere outside.diagnostics _ _).toBalanced

/-- A section of any depth is written as one of the elements for sections. -/
theorem pushSection_element (doc : Document) (depth : Nat) :
    (if doc.isManualPage then "refsect" ++ ofNat (min 3 (max 1 depth))
      else "sect" ++ ofNat (min 5 (max 1 depth)) : Text) ∈ sectionNames := by
  split
  · have hdepth : min 3 (max 1 depth) ∈ [1, 2, 3] := by simp; omega
    have hall : ∀ n ∈ [1, 2, 3], ("refsect" ++ ofNat n : Text) ∈ sectionNames := by decide
    exact hall _ hdepth
  · have hdepth : min 5 (max 1 depth) ∈ [1, 2, 3, 4, 5] := by simp; omega
    have hall : ∀ n ∈ [1, 2, 3, 4, 5], ("sect" ++ ofNat n : Text) ∈ sectionNames := by decide
    exact hall _ hdepth

theorem balanced_pushSection (h : Balanced doc) (depth : Nat) {title : Text} (ht : Tagless title) :
    Balanced (doc.pushSection depth title) :=
  balanced_openSection h _ (doc.pushSection_element depth) ht

theorem balanced_pushSynopsis (h : Balanced doc) {title : Text} (ht : Tagless title) :
    Balanced (doc.pushSynopsis title) := by
  unfold pushSynopsis
  split
  · exact balanced_openSection h 1 (by decide) ht
  · exact balanced_pushSection h 1 ht

/-- At the end of a document nothing is left open. -/
theorem Balanced.nested_finish (h : Balanced doc) : Nested (unlines doc.finish.1) := by
  have hdiverted : doc.endDiversions = doc := by
    rw [endDiversions, h.suspended]
    rfl
  obtain ⟨hbare, hsections⟩ := (bare_closeBlocks h).1.endSections
  have hleaves := hbare.leaves_sections
  rw [hsections] at hleaves
  rw [finish, closeAll, hdiverted]
  exact hleaves.nested

end

end RoffDocBook.Document
