import RoffDocBook.Proofs.Document.Rendering
import RoffDocBook.Proofs.Document.Sections
import RoffDocBook.Proofs.Slug
import RoffDocBook.Proofs.Markup.Identifiers

/-! The identifiers of a document that is a sequence of sections: those of the whole document and of the section titles,
in order. They are distinct unless a title repeats the name of the document or looks like the repeat of another one. -/
namespace RoffDocBook
open Text Markup

namespace Document

/-- A section with the text before the next one. -/
structure SectionText where
  depth : Nat
  title : Text
  texts : List Text
  deriving DecidableEq

def writeSection (doc : Document) (part : SectionText) : Document :=
  part.texts.foldl textLine (doc.pushSection part.depth part.title)

def writeSections (doc : Document) (parts : List SectionText) : Document :=
  parts.foldl writeSection doc

/-- The output has certain identifiers, and nothing is open but sections. -/
structure Sectioned (doc : Document) (ids : List Text) : Prop where
  gives : Gives (body doc.lines) ids
  blocks : doc.blocks = []
  trap : doc.trap = none
  joins : doc.joinNext = false
  fill : doc.formatter.fill = true
  fonts : doc.fonts = {}
  substitutes : doc.substitutes = []
  suspended : doc.suspended = []
  sections : ∀ mark ∈ doc.sections, mark.start < doc.lines.length ∧ mark.element ∈ sectionNames

section
variable {doc : Document} {ids more : List Text} {piece : Text} {lines : List Text}

theorem gives_lengthen (h : Gives (body lines) ids) (hp : Gives piece more) :
    Gives (body (lengthen piece lines)) (ids ++ more) := by
  rw [body_lengthen]
  exact h.append hp

theorem gives_cons (h : Gives (body lines) ids) (hp : Gives piece more) :
    Gives (body (piece :: lines)) (ids ++ more) := by
  rw [body_cons, ← List.append_assoc]
  exact (h.before (gives_text (tagless_gap lines).1)).append hp

theorem Sectioned.rewrite (h : Sectioned doc ids) {inParagraph : Bool} {fonts : FontState}
    {sections : List OpenSection} (hf : fonts = {}) (hg : Gives (body lines) more)
    (hs : ∀ mark ∈ sections, mark.start < lines.length ∧ mark.element ∈ sectionNames) :
    Sectioned { doc with fonts, inParagraph, joinNext := false, sections, lines } more where
  gives := hg
  blocks := h.blocks
  trap := h.trap
  joins := rfl
  fill := h.fill
  fonts := hf
  substitutes := h.substitutes
  suspended := h.suspended
  sections := hs

theorem Sectioned.write (h : Sectioned doc ids) {inParagraph : Bool} (hg : Gives (body lines) more)
    (hl : doc.lines.length ≤ lines.length) :
    Sectioned { doc with fonts := {}, inParagraph, joinNext := false, lines } more :=
  h.rewrite rfl hg fun mark hm => ⟨Nat.lt_of_lt_of_le (h.sections mark hm).1 hl, (h.sections mark hm).2⟩

/-- What text changes: the output grows, and the sections stay open. -/
structure Extends (before after : Document) : Prop where
  writes : Writes before after
  length : before.lines.length ≤ after.lines.length

theorem Extends.refl (doc : Document) : Extends doc doc :=
  ⟨.refl doc, Nat.le_refl _⟩

theorem Extends.trans {a b c : Document} (h : Extends a b) (k : Extends b c) : Extends a c :=
  ⟨h.writes.trans k.writes, Nat.le_trans h.length k.length⟩

theorem Sectioned.closeParagraph (h : Sectioned doc ids) :
    Sectioned doc.closeParagraph ids ∧ Extends doc doc.closeParagraph := by
  refine ⟨?_, doc.writes_closeParagraph, ?_⟩
  · rw [closeParagraph_eq]
    split
    · have hclosing : Gives doc.fonts.closing [] := by rw [h.fonts]; decide
      have hclosed := gives_lengthen (gives_lengthen h.gives hclosing) (show Gives "</para>" [] by decide)
      rw [List.append_nil, List.append_nil] at hclosed
      exact h.write hclosed ((Keeps.lengthen _ _).trans (.lengthen _ _)).1
    · exact h
  · rw [closeParagraph_eq]
    split
    · exact ((Keeps.lengthen _ _).trans (.lengthen _ _)).1
    · exact Nat.le_refl _

theorem Sectioned.openParagraph (h : Sectioned doc ids) :
    ∃ lines, Gives (body lines) ids ∧ doc.lines.length ≤ lines.length ∧
      ∃ joinNext, (joinNext = true → doc.lines.length < lines.length) ∧
        doc.openParagraph = { doc with fonts := {}, inParagraph := true, joinNext, lines } := by
  obtain ⟨hfonts, hjoins⟩ := And.intro h.fonts h.joins
  rw [openParagraph_eq]
  split
  · rename_i hp
    refine ⟨doc.lines, h.gives, Nat.le_refl _, false, (fun hn => by cases hn), ?_⟩
    rw [← hfonts, ← hp, ← hjoins]
  · have hparagraph := gives_cons h.gives (show Gives "<para>" [] by decide)
    rw [List.append_nil] at hparagraph
    refine ⟨"<para>" :: doc.lines, hparagraph, Nat.le_succ _, true, fun _ => Nat.lt_succ_self _, ?_⟩
    rw [← hfonts, hjoins]
    rfl

theorem finished_of_fill (hs : doc.substitutes = []) (hf : doc.formatter.fill = true) (t : Text) :
    doc.finished t = t := by
  unfold finished
  rw [hs, substituteChars_nil, hf]
  rfl

theorem Sectioned.textLine_eq (h : Sectioned doc ids) {t : Text} (he : '\\' ∉ t) :
    doc.textLine t = if isAllBlank t then doc.closeParagraph else doc.openParagraph.emit t := by
  obtain ⟨hopened, hopening⟩ := reopened_of_roman h.fonts t
  have hready : doc.readied t = doc.openParagraph := by
    rw [readied, hopened, h.fill, if_pos rfl]
  have hfinished : doc.openParagraph.finished t = t := by
    obtain ⟨_, _, _, _, _, hparagraph⟩ := doc.writes_openParagraph
    rw [hparagraph]
    exact finished_of_fill h.substitutes h.fill t
  rw [textLine_of_plain doc he, h.fill, h.trap, hopened, hopening, h.trap, hready, List.nil_append, hfinished]
  simp

/-- A line of text has no identifiers, and one that is not blank is written. -/
theorem Sectioned.textLine (h : Sectioned doc ids) {t : Text} (he : '\\' ∉ t) (ht : '<' ∉ t) :
    Sectioned (doc.textLine t) ids ∧ Extends doc (doc.textLine t) ∧
      (isAllBlank t = false → doc.lines.length < (doc.textLine t).lines.length) := by
  have hwrites := doc.writes_textLine he
  rw [h.textLine_eq he] at hwrites ⊢
  cases hb : isAllBlank t with
  | true =>
    rw [if_pos rfl]
    obtain ⟨hclosed, hextends⟩ := h.closeParagraph
    exact ⟨hclosed, hextends, fun hn => by cases hn⟩
  | false =>
    rw [hb, if_neg Bool.false_ne_true] at hwrites
    rw [if_neg Bool.false_ne_true]
    obtain ⟨lines, hgives, hle, joinNext, hjoins, hparagraph⟩ := h.openParagraph
    rw [hparagraph, emit_eq] at hwrites ⊢
    have htext : Gives (body (addLine joinNext t lines)) (ids ++ []) := by
      unfold addLine
      split
      · exact gives_lengthen hgives (gives_text ht)
      · exact gives_cons hgives (gives_text ht)
    rw [List.append_nil] at htext
    have hlength : doc.lines.length < (addLine joinNext t lines).length := by
      cases joinNext with
      | true => exact Nat.lt_of_lt_of_le (hjoins rfl) (Keeps.lengthen _ _).1
      | false => exact Nat.lt_succ_of_le hle
    exact ⟨h.write htext (Nat.le_of_lt hlength), ⟨hwrites, Nat.le_of_lt hlength⟩, fun _ => hlength⟩

/-- What sections change: the output grows, and the register of identifiers becomes another one. -/
structure Proceeds (before after : Document) (ids : IdRegistry) : Prop where
  length : before.lines.length ≤ after.lines.length
  rewrites : ∃ lines inParagraph joinNext trap fonts sections sectionName,
    after = { before with lines, inParagraph, joinNext, trap, fonts, sections, sectionName, ids }

theorem Proceeds.refl (doc : Document) : Proceeds doc doc doc.ids :=
  ⟨Nat.le_refl _, _, _, _, _, _, _, _, rfl⟩

theorem Proceeds.trans {a b c : Document} {first second : IdRegistry} (h : Proceeds a b first)
    (k : Proceeds b c second) : Proceeds a c second := by
  obtain ⟨hlength, _, _, _, _, _, _, _, rfl⟩ := h
  obtain ⟨klength, lines, inParagraph, joinNext, trap, fonts, sections, sectionName, rfl⟩ := k
  exact ⟨Nat.le_trans hlength klength, lines, inParagraph, joinNext, trap, fonts, sections, sectionName, rfl⟩

theorem Proceeds.ids_eq {a b : Document} {ids : IdRegistry} (h : Proceeds a b ids) : b.ids = ids := by
  obtain ⟨_, _, _, _, _, _, _, _, rfl⟩ := h
  rfl

theorem Extends.proceeds {a b : Document} (h : Extends a b) : Proceeds a b a.ids := by
  obtain ⟨⟨lines, inParagraph, joinNext, trap, fonts, rfl⟩, hlength⟩ := h
  exact ⟨hlength, lines, inParagraph, joinNext, trap, fonts, _, _, rfl⟩

theorem Sectioned.closeBlocks_eq (h : Sectioned doc ids) : doc.closeBlocks = doc.closeParagraph := by
  have hflush : doc.flushTrap = doc := by rw [flushTrap_eq, h.trap]
  have hdisplays : doc.endAllDisplays = doc := by
    rw [endAllDisplays, openDisplays, h.blocks]
    rfl
  have hlists : doc.endAllLists = doc := by
    rw [endAllLists, openLists, h.blocks]
    rfl
  rw [closeBlocks, hflush, hdisplays, hlists]

/-- A section stays, unless it is of the first depth and its title is the last line. -/
theorem Sectioned.endSection (h : Sectioned doc ids) {mark : OpenSection} {rest : List OpenSection}
    (hs : doc.sections = mark :: rest) (hm : mark.depth = 1 → mark.start + 1 < doc.lines.length) :
    Sectioned doc.endSection ids ∧ doc.endSection.sections = rest ∧ Proceeds doc doc.endSection doc.ids := by
  obtain ⟨hclosed, hextends⟩ := h.closeParagraph
  have hsections : doc.closeParagraph.sections = mark :: rest := by rw [closeParagraph_sections, hs]
  rw [endSection_eq, h.closeBlocks_eq, hsections]
  dsimp only
  generalize doc.closeParagraph = closed at *
  have hend : Gives ("</" ++ mark.element ++ ">") [] := by
    have hall : ∀ name ∈ sectionNames, Gives ("</" ++ name ++ ">") [] := by decide
    exact hall _ (hclosed.sections mark (by rw [hsections]; exact List.mem_cons_self)).2
  have hrest : ∀ other ∈ rest, other.start < closed.lines.length ∧ other.element ∈ sectionNames := by
    intro other ho
    exact hclosed.sections other (by rw [hsections]; exact List.mem_cons_of_mem mark ho)
  have write {lines : List Text} (hg : Gives (body lines) ids) (hl : closed.lines.length ≤ lines.length) :
      Sectioned { closed with joinNext := false, sections := rest, lines } ids ∧
        Proceeds doc { closed with joinNext := false, sections := rest, lines } doc.ids :=
    ⟨hclosed.rewrite hclosed.fonts hg fun other ho => ⟨Nat.lt_of_lt_of_le (hrest other ho).1 hl, (hrest other ho).2⟩,
      hextends.proceeds.trans ⟨hl, _, _, _, _, _, _, _, by rw [← hextends.proceeds.ids_eq]⟩⟩
  have hwritten {lines : List Text} (hg : Gives (body lines) ids) :
      Gives (body (("</" ++ mark.element ++ ">") :: lines)) ids := by
    have hadded := gives_cons hg hend
    rwa [List.append_nil] at hadded
  unfold writeSectionEnd
  rw [emit_eq, emit_eq, append_eq]
  dsimp only
  rw [hclosed.joins]
  split
  · rename_i hlast
    have hdepth : (mark.depth == 1) = false := by
      apply beq_eq_false_iff_ne.mpr
      intro hd
      have hlt := hm hd
      have hle := hextends.length
      rw [eq_of_beq hlast] at hle
      omega
    rw [hdepth, if_neg Bool.false_ne_true]
    have hpara := gives_lengthen hclosed.gives (show Gives "<para/>" [] by decide)
    rw [List.append_nil] at hpara
    obtain ⟨hnext, hproceeds⟩ := write (hwritten hpara) ((Keeps.lengthen _ _).trans (.cons _ _)).1
    exact ⟨hnext, rfl, hproceeds⟩
  · obtain ⟨hnext, hproceeds⟩ := write (hwritten hclosed.gives) (Nat.le_succ _)
    exact ⟨hnext, rfl, hproceeds⟩

/-- The innermost sections are closed one by one. -/
theorem Sectioned.endSections_of (h : Sectioned doc ids) {closed rest : List OpenSection}
    (hs : doc.sections = closed ++ rest)
    (hm : ∀ mark ∈ closed, mark.depth = 1 → mark.start + 1 < doc.lines.length) :
    Sectioned (closed.foldl (fun doc _ => doc.endSection) doc) ids ∧
      (closed.foldl (fun doc _ => doc.endSection) doc).sections = rest ∧
      Proceeds doc (closed.foldl (fun doc _ => doc.endSection) doc) doc.ids := by
  induction closed generalizing doc with
  | nil => exact ⟨h, hs, .refl doc⟩
  | cons mark closed ih =>
    obtain ⟨hended, hsections, hproceeds⟩ := h.endSection hs (hm mark List.mem_cons_self)
    obtain ⟨hall, hrest, hproceed⟩ := ih hended hsections fun other ho hd =>
      Nat.lt_of_lt_of_le (hm other (List.mem_cons_of_mem mark ho) hd) hproceeds.length
    rw [hproceeds.ids_eq] at hproceed
    exact ⟨hall, hrest, hproceeds.trans hproceed⟩

theorem Sectioned.popSections (h : Sectioned doc ids) {depth : Nat}
    (hm : ∀ mark ∈ doc.sections, depth ≤ mark.depth → mark.depth = 1 → mark.start + 1 < doc.lines.length) :
    Sectioned (doc.popSections depth) ids ∧
      (doc.popSections depth).sections = doc.sections.dropWhile (fun mark => depth ≤ mark.depth) ∧
      Proceeds doc (doc.popSections depth) doc.ids := by
  refine h.endSections_of List.takeWhile_append_dropWhile.symm ?_
  intro mark hmem hdepth
  have hle := List.mem_takeWhile_imp hmem
  exact hm mark (List.takeWhile_subset _ hmem) (of_decide_eq_true hle) hdepth

/-- A title within its section's start tag. -/
theorem gives_heading {element id title : Text} (he : element ∈ sectionNames) (hid : ∀ c ∈ id, Slug.Allowed c)
    (ht : Gives title []) : Gives ("<" ++ element ++ " id='" ++ id ++ "'><title>" ++ title ++ "</title>") [id] := by
  have hname : IsTagName element := by
    have hall : ∀ name ∈ sectionNames, IsTagName name := by decide
    exact hall element he
  have hstart := gives_start hname (show '<' ∉ "id='".toList ∧ '>' ∉ "id='".toList by decide) identifierIn?_id hid
  have hshape : ("<" ++ element ++ " id='" ++ id ++ "'><title>" ++ title ++ "</title>" : Text) =
      "<" ++ element ++ (' ' :: "id='".toList) ++ id ++ "'>" ++ ("<title>" ++ title ++ "</title>") := by
    simp
  have htitle := ((show Gives "<title>" [] by decide).append ht).append (show Gives "</title>" [] by decide)
  rw [hshape]
  exact hstart.before htitle

theorem Sectioned.pushSection (h : Sectioned doc ids) {depth : Nat} {title : Text} (ht : Gives title [])
    (hm : ∀ mark ∈ doc.sections, max 1 depth ≤ mark.depth → mark.depth = 1 → mark.start + 1 < doc.lines.length) :
    let id := doc.ids.make (stripTags title)
    let next := doc.pushSection depth title
    Sectioned next (ids ++ [id.1]) ∧ Proceeds doc next id.2 ∧
      ∀ mark ∈ next.sections, mark.start + 1 < next.lines.length ∨ mark.depth = max 1 depth := by
  obtain ⟨hclosed, hextends⟩ := h.closeParagraph
  have hpop : ∀ mark ∈ doc.closeParagraph.sections,
      max 1 depth ≤ mark.depth → mark.depth = 1 → mark.start + 1 < doc.closeParagraph.lines.length := by
    intro mark hmem hle hone
    rw [closeParagraph_sections] at hmem
    exact Nat.lt_of_lt_of_le (hm mark hmem hle hone) hextends.length
  obtain ⟨hpopped, _, hproceeds⟩ := hclosed.popSections hpop
  have hoverall := hextends.proceeds.trans hproceeds
  rw [hextends.proceeds.ids_eq] at hoverall
  have helement := doc.pushSection_element depth
  unfold Document.pushSection
  dsimp only
  generalize (if doc.isManualPage then "refsect" ++ ofNat (min 3 (max 1 depth))
      else "sect" ++ ofNat (min 5 (max 1 depth)) : Text) = element at helement ⊢
  rw [openSection_eq, h.closeBlocks_eq]
  dsimp only
  generalize doc.closeParagraph.popSections (max 1 depth) = outside at *
  rw [hoverall.ids_eq, hpopped.joins]
  have hallowed : ∀ c ∈ (doc.ids.make (stripTags title)).1, Slug.Allowed c := fun _ hc =>
    doc.ids.allowed_of_mem_make hc
  have hheading := gives_heading helement hallowed ht
  have hmarks : ∀ mark ∈ { depth := max 1 depth, element, start := outside.lines.length } :: outside.sections,
      OpenSection.start mark < outside.lines.length + 1 ∧ OpenSection.element mark ∈ sectionNames := by
    intro mark hmem
    rcases List.mem_cons.mp hmem with rfl | hmem
    · exact ⟨Nat.lt_succ_self _, helement⟩
    · exact ⟨Nat.lt_succ_of_lt (hpopped.sections mark hmem).1, (hpopped.sections mark hmem).2⟩
  refine ⟨?_, ?_, ?_⟩
  · have hnext : Sectioned { outside with joinNext := false, sections := _, lines := _ } _ :=
      hpopped.rewrite hpopped.fonts (gives_cons hpopped.gives hheading) hmarks
    exact { hnext with }
  · exact hoverall.trans ⟨Nat.le_succ _, _, _, _, _, _, _, _, rfl⟩
  · intro mark hmem
    rcases List.mem_cons.mp hmem with rfl | hmem
    · exact Or.inr rfl
    · exact Or.inl (Nat.succ_lt_succ (hpopped.sections mark hmem).1)

/-- Lines of text have no identifiers, and of them some are written unless all are blank. -/
theorem Sectioned.textLines (h : Sectioned doc ids) {texts : List Text}
    (ht : ∀ t ∈ texts, '\\' ∉ t ∧ '<' ∉ t) :
    Sectioned (texts.foldl Document.textLine doc) ids ∧ Extends doc (texts.foldl Document.textLine doc) ∧
      ((∃ t ∈ texts, isAllBlank t = false) → doc.lines.length < (texts.foldl Document.textLine doc).lines.length) := by
  induction texts generalizing doc with
  | nil => exact ⟨h, .refl doc, fun ⟨_, hm, _⟩ => by cases hm⟩
  | cons t texts ih =>
    obtain ⟨hplain, hrest⟩ := List.forall_mem_cons.mp ht
    obtain ⟨hfirst, hextends, hwritten⟩ := h.textLine hplain.1 hplain.2
    obtain ⟨hall, hextend, hmore⟩ := ih hfirst hrest
    refine ⟨hall, hextends.trans hextend, ?_⟩
    rintro ⟨u, hu, hblank⟩
    rcases List.mem_cons.mp hu with rfl | hu
    · exact Nat.lt_of_lt_of_le (hwritten hblank) hextend.length
    · exact Nat.lt_of_le_of_lt hextends.length (hmore ⟨u, hu, hblank⟩)

/-- A title without identifiers, and text without escapes and tags. -/
structure SectionText.Plain (part : SectionText) : Prop where
  title : Gives part.title []
  texts : ∀ t ∈ part.texts, '\\' ∉ t ∧ '<' ∉ t

/-- A section that holds text, or is followed by a deeper one, if it is of the first depth. -/
def SectionText.Filled (part : SectionText) (next : Option SectionText) : Prop :=
  part.depth ≤ 1 → (∃ t ∈ part.texts, isAllBlank t = false) ∨ ∃ other ∈ next, 1 < other.depth

/-- No section of the first depth is empty. -/
def AllFilled : List SectionText → Prop
  | [] => True
  | part :: rest => part.Filled rest.head? ∧ AllFilled rest

/-- An open section of the first depth holds something, unless a deeper one comes next. -/
def Awaits (doc : Document) (next : Option SectionText) : Prop :=
  ∀ mark ∈ doc.sections, mark.depth = 1 → mark.start + 1 < doc.lines.length ∨ ∃ other ∈ next, 1 < other.depth

theorem Sectioned.writeSection (h : Sectioned doc ids) {part : SectionText} {next : Option SectionText}
    (hp : part.Plain) (hf : part.Filled next) (ha : doc.Awaits (some part)) :
    let id := doc.ids.make (stripTags part.title)
    Sectioned (doc.writeSection part) (ids ++ [id.1]) ∧ Proceeds doc (doc.writeSection part) id.2 ∧
      (doc.writeSection part).Awaits next := by
  intro id
  have hclosed : ∀ mark ∈ doc.sections,
      max 1 part.depth ≤ mark.depth → mark.depth = 1 → mark.start + 1 < doc.lines.length := by
    intro mark hm hle hone
    rcases ha mark hm hone with hlt | ⟨other, ho, hdeep⟩
    · exact hlt
    · obtain rfl := Option.some.inj ho
      omega
  obtain ⟨hopened, hproceeds, hmarks⟩ := h.pushSection hp.title hclosed
  obtain ⟨hwritten, hextends, hlength⟩ := hopened.textLines hp.texts
  have hids := hextends.proceeds
  rw [hproceeds.ids_eq] at hids
  refine ⟨hwritten, hproceeds.trans hids, ?_⟩
  intro mark hm hone
  obtain ⟨_, _, _, _, _, hsame⟩ := hextends.writes
  have hmem : mark ∈ (doc.pushSection part.depth part.title).sections := by
    rw [Document.writeSection, hsame] at hm
    exact hm
  rcases hmarks mark hmem with hlt | hdepth
  · exact Or.inl (Nat.lt_of_lt_of_le hlt hextends.length)
  · rcases hf (by omega) with htext | hdeep
    · exact Or.inl (Nat.lt_of_le_of_lt (hopened.sections mark hmem).1 (hlength htext))
    · exact Or.inr hdeep

theorem Sectioned.writeSections (h : Sectioned doc ids) {parts : List SectionText} (hp : ∀ part ∈ parts, part.Plain)
    (hf : AllFilled parts) (ha : doc.Awaits parts.head?) :
    ∃ registry, Sectioned (doc.writeSections parts)
        (ids ++ doc.ids.makeAll (parts.map fun part => stripTags part.title)) ∧
      Proceeds doc (doc.writeSections parts) registry ∧ (doc.writeSections parts).Awaits none := by
  induction parts generalizing doc ids with
  | nil =>
    refine ⟨doc.ids, ?_, .refl doc, ha⟩
    rw [List.map_nil, IdRegistry.makeAll, List.append_nil]
    exact h
  | cons part parts ih =>
    obtain ⟨hplain, hrest⟩ := List.forall_mem_cons.mp hp
    obtain ⟨hfirst, hproceeds, hawaits⟩ := h.writeSection hplain hf.1 ha
    obtain ⟨registry, hall, hproceed, hended⟩ := ih hfirst hrest hf.2 hawaits
    refine ⟨registry, ?_, hproceeds.trans hproceed, hended⟩
    rw [hproceeds.ids_eq, List.append_assoc] at hall
    exact hall

/-- The finished lines have the same identifiers. -/
theorem Sectioned.finish (h : Sectioned doc ids) (ha : doc.Awaits none) :
    Gives (unlines doc.finish.1) ids ∧ ∃ registry, Proceeds { doc with lines := [] } doc.finish.2 registry := by
  have hdiverted : doc.endDiversions = doc := by
    rw [endDiversions, h.suspended]
    rfl
  obtain ⟨hclosed, hextends⟩ := h.closeParagraph
  obtain ⟨hended, _, hproceeds⟩ := hclosed.popSections fun mark hm (_ : 0 ≤ mark.depth) hone => by
    rw [closeParagraph_sections] at hm
    rcases ha mark hm hone with hlt | ⟨other, ho, _⟩
    · exact Nat.lt_of_lt_of_le hlt hextends.length
    · cases ho
  rw [Document.finish, closeAll, hdiverted, h.closeBlocks_eq]
  refine ⟨hended.gives, doc.closeParagraph.ids, Nat.zero_le _, ?_⟩
  obtain ⟨_, _, inParagraph, joinNext, trap, fonts, sections, sectionName, hrewrites⟩ :=
    hextends.proceeds.trans hproceeds
  refine ⟨[], inParagraph, joinNext, trap, fonts, sections, sectionName, ?_⟩
  dsimp only
  rw [endSections, hrewrites]

end

end Document
end RoffDocBook
