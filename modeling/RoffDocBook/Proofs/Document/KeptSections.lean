import RoffDocBook.Proofs.Document.Footnotes
import RoffDocBook.Proofs.Document.Idle

/-! Sections below the first depth always stay, with their titles and with what is written into them. -/
namespace RoffDocBook

/-- A section below one of the first depth, up to the next section. -/
structure Subsection where
  depth : Nat
  title : Text
  parts : List SectionPart
  deep : 2 ≤ depth

/-- What is written between two sections of the first depth. -/
structure Region where
  parts : List SectionPart
  subsections : List Subsection

/-- Whether anything is written that stays. -/
def Region.produces (region : Region) : Bool :=
  SectionPart.anyProduces region.parts || !region.subsections.isEmpty

namespace Document
open Text Markup

def titleMarkup (title : Text) : Text :=
  "<title>" ++ title ++ "</title>"

def writeSubsection (doc : Document) (part : Subsection) : Document :=
  (doc.pushSection part.depth part.title).writeAll part.parts

def writeRegion (doc : Document) (region : Region) : Document :=
  region.subsections.foldl writeSubsection (doc.writeAll region.parts)

/-- The titles, the texts and the markup of subsections, without blank lines. -/
def subsectionTexts (doc : Document) : List Subsection → List Text
  | [] => []
  | part :: parts =>
    titleMarkup part.title :: (doc.pushSection part.depth part.title).allTexts part.parts ++
      subsectionTexts (doc.writeSubsection part) parts

def regionTexts (doc : Document) (region : Region) : List Text :=
  doc.allTexts region.parts ++ (doc.writeAll region.parts).subsectionTexts region.subsections

def AllowsSubsections (doc : Document) : List Subsection → Prop
  | [] => True
  | part :: parts =>
    AllowsAll [] (doc.pushSection part.depth part.title) part.parts ∧
      AllowsSubsections (doc.writeSubsection part) parts

instance decidableAllowsSubsections (doc : Document) :
    (parts : List Subsection) → Decidable (doc.AllowsSubsections parts)
  | [] => isTrue trivial
  | part :: parts =>
    have := decidableAllowsSubsections (doc.writeSubsection part) parts
    inferInstanceAs (Decidable (AllowsAll [] (doc.pushSection part.depth part.title) part.parts ∧
      (doc.writeSubsection part).AllowsSubsections parts))

/-- What is written into a section is allowed where it stands. -/
def AllowsRegion (doc : Document) (region : Region) : Prop :=
  AllowsAll [] doc region.parts ∧ (doc.writeAll region.parts).AllowsSubsections region.subsections

instance (doc : Document) (region : Region) : Decidable (doc.AllowsRegion region) :=
  inferInstanceAs (Decidable (_ ∧ _))

section
variable {level : Level} {doc : Document} {texts more : List Text} {marked : Prop} {piece : Text}

theorem Content.emit {frames : List ListFrame} {all : List Text} (h : Content level doc frames all)
    (hp : InOrder more piece) : Content level (doc.emit piece) frames (all ++ more) := by
  have hwritten := h.holding.emit hp
  rw [List.append_assoc] at hwritten
  have hblocks : (doc.emit piece).blocks = doc.blocks := by rw [emit_eq]
  exact {
    aligned_emit h.filling piece with
    blocks_eq := by rw [hblocks]; exact h.blocks_eq
    holding := hwritten
    based := h.based }

/-- Sections below the first depth. -/
abbrev Deep (sections : List OpenSection) : Prop :=
  ∀ mark ∈ sections, 2 ≤ mark.depth

/-- A level with sections opened in it. -/
def Level.within (level : Level) (deeper : List OpenSection) : Level :=
  { level with sections := deeper ++ level.sections }

variable {deeper rest : List OpenSection}

/-- Sections below the first depth are not taken back. -/
theorem Level.provisionals_within (hd : Deep deeper) :
    (level.within deeper).provisionals = level.provisionals := by
  have hnone : (deeper.filter fun mark => mark.depth == 1) = [] :=
    List.filter_eq_nil_iff.mpr fun mark hm => by
      have hdeep := hd mark hm
      simp only [beq_iff_eq]
      omega
  rw [provisionals, within]
  dsimp only
  rw [List.filter_append, hnone, List.nil_append]
  rfl

/-- Sections below the first depth are opened and closed without a change to what is held. -/
theorem Content.within {frames : List ListFrame} {all : List Text} (h : Content (level.within deeper) doc frames all)
    (hd : Deep deeper) (hr : Deep rest)
    (ids : IdRegistry) (sectionName : Option Text) :
    Content (level.within rest) { doc with ids, sectionName, sections := rest ++ level.sections } frames all := by
  have hsame : (level.within deeper).provisionals = (level.within rest).provisionals :=
    (Level.provisionals_within hd).trans (Level.provisionals_within hr).symm
  obtain ⟨hrecorded, hjoins, _, hsuspended, hsubstitutes⟩ := h.holding
  rw [hsame] at hrecorded hjoins
  exact {
    filling := h.filling
    joins := h.joins
    blocks_eq := h.blocks_eq
    holding := ⟨hrecorded, hjoins, rfl, hsuspended, hsubstitutes⟩
    based := by rw [← hsame]; exact h.based }

theorem Held.endSubsection {mark : OpenSection} (h : Held (level.within (mark :: rest)) doc texts marked)
    (hl : level.blocks = []) (hd : Deep (mark :: rest)) :
    Held (level.within rest) doc.endSection texts marked := by
  have hclosed := h.closeBlocks hl
  have hsections : doc.closeBlocks.sections = mark :: (rest ++ level.sections) := hclosed.outside.1
  have hdepth : (mark.depth == 1) = false := by
    have hdeep := hd mark List.mem_cons_self
    simp only [beq_eq_false_iff_ne]
    omega
  rw [endSection_eq, hsections]
  dsimp only
  obtain ⟨frames, all, hc, hsub, hmark⟩ := hclosed
  have hended := hc.within hd (List.forall_mem_cons.mp hd).2 doc.closeBlocks.ids doc.closeBlocks.sectionName
  refine ⟨frames, all, ?_, hsub, hmark⟩
  have hwritten {other : Document} (ho : Content (level.within rest) other frames all) (piece : Text) :
      Content (level.within rest) (other.emit piece) frames all := by
    have hall := ho.emit (.nil piece)
    rwa [List.append_nil] at hall
  unfold writeSectionEnd
  rw [hdepth, if_neg Bool.false_ne_true]
  split
  · have hfilled := hended.append (.nil "<para/>") fun hn => absurd rfl hn
    rw [List.append_nil] at hfilled
    exact hwritten hfilled _
  · exact hwritten hended _

/-- Subsections are closed from the innermost one outwards. -/
theorem Held.endSubsections {closed : List OpenSection} (h : Held (level.within (closed ++ rest)) doc texts marked)
    (hl : level.blocks = []) (hd : Deep (closed ++ rest)) (hc : Cleared doc) :
    Held (level.within rest) (closed.foldl (fun doc _ => doc.endSection) doc) texts marked ∧
      Cleared (closed.foldl (fun doc _ => doc.endSection) doc) := by
  induction closed generalizing doc with
  | nil => exact ⟨h, hc⟩
  | cons mark closed ih =>
    exact ih (h.endSubsection hl hd) (List.forall_mem_cons.mp hd).2 (h.cleared hl).endSection

theorem takeWhile_depth {outer : List OpenSection} {depth : Nat} (ho : ∀ mark ∈ outer, OpenSection.depth mark < depth) :
    (deeper ++ outer).takeWhile (fun mark => depth ≤ mark.depth) =
      deeper.takeWhile fun mark => depth ≤ mark.depth := by
  have hnone : outer.takeWhile (fun mark => decide (depth ≤ mark.depth)) = [] := by
    cases outer with
    | nil => rfl
    | cons mark outer =>
      have hlt := ho mark List.mem_cons_self
      exact List.takeWhile_cons_of_neg (by simp only [decide_eq_true_eq]; omega)
  rw [List.takeWhile_append, hnone, List.append_nil]
  split
  · rename_i hlength
    exact ((List.takeWhile_prefix _).eq_of_length hlength).symm
  · rfl

theorem isAllBlank_titleMarkup (title : Text) : isAllBlank (titleMarkup title) = false :=
  rfl

/-- The start of a section holds its title. -/
theorem inOrder_heading (element id title : Text) :
    InOrder [titleMarkup title] ("<" ++ element ++ " id='" ++ id ++ "'><title>" ++ title ++ "</title>") := by
  have hshape : ("<" ++ element ++ " id='" ++ id ++ "'><title>" ++ title ++ "</title>" : Text) =
      ("<" ++ element ++ " id='" ++ id ++ "'>" : Text) ++ titleMarkup title := by
    unfold titleMarkup
    simp
  rw [hshape]
  exact (InOrder.self _).after _

/-- The subsections that a section cannot be part of are closed. -/
theorem Held.popSubsections (h : Held (level.within deeper) doc texts marked) (hl : level.blocks = [])
    (hd : Deep deeper) (ho : ∀ mark ∈ level.sections, OpenSection.depth mark ≤ 1) {depth : Nat} (hdepth : 2 ≤ depth) :
    ∃ rest, Deep rest ∧ Held (level.within rest) (doc.closeBlocks.popSections depth) texts marked := by
  have hclosed := h.closeBlocks hl
  have hsections : doc.closeBlocks.sections = deeper ++ level.sections := hclosed.outside.1
  have hpopped : doc.closeBlocks.popSections depth =
      (deeper.takeWhile fun mark => depth ≤ mark.depth).foldl (fun doc _ => doc.endSection) doc.closeBlocks := by
    rw [popSections, hsections, takeWhile_depth fun mark hm => Nat.lt_of_le_of_lt (ho mark hm) hdepth]
  have hsplit : deeper.takeWhile (fun mark => depth ≤ mark.depth) ++ deeper.dropWhile _ = deeper :=
    List.takeWhile_append_dropWhile
  rw [← hsplit] at hclosed hd
  rw [hpopped]
  exact ⟨_, fun mark hm => hd mark (List.mem_append_right _ hm), (hclosed.endSubsections hl hd (h.cleared hl)).1⟩

theorem Held.pushSubsection (h : Held (level.within deeper) doc texts marked) (hl : level.blocks = [])
    (hd : Deep deeper) (ho : ∀ mark ∈ level.sections, OpenSection.depth mark ≤ 1) {depth : Nat} (hdepth : 2 ≤ depth)
    (title : Text) :
    ∃ deeper, Deep deeper ∧
      Held (level.within deeper) (doc.pushSection depth title) (texts ++ [titleMarkup title]) True := by
  obtain ⟨rest, hrest, houtside⟩ := h.popSubsections hl hd ho hdepth
  unfold Document.pushSection
  dsimp only
  rw [Nat.max_eq_right (Nat.le_of_succ_le hdepth), openSection_eq]
  dsimp only
  generalize (if doc.isManualPage then "refsect" ++ ofNat (min 3 depth) else "sect" ++ ofNat (min 5 depth) : Text) =
    element
  generalize doc.closeBlocks.popSections depth = outside at houtside ⊢
  obtain ⟨frames, all, hc, hsub, _⟩ := houtside
  have hnew : Deep ({ depth, element, start := outside.lines.length } :: rest) :=
    List.forall_mem_cons.mpr ⟨hdepth, hrest⟩
  have hwritten := (hc.emit (inOrder_heading element (outside.ids.make (stripTags title)).1 title)).within hrest hnew
    (outside.ids.make (stripTags title)).2 (some (stripTags title))
  have houter : outside.sections = rest ++ level.sections := hc.holding.sections
  rw [emit_eq] at hwritten
  rw [houter]
  refine ⟨_, hnew, frames, all ++ [titleMarkup title], ?_, hsub.append (List.Sublist.refl _), fun _ => ?_⟩
  · exact hwritten
  · exact marked_of_mem List.mem_cons_self (isAllBlank_titleMarkup title)

theorem Held.writeSubsection (h : Held (level.within deeper) doc texts marked) (hl : level.blocks = [])
    (hd : Deep deeper) (ho : ∀ mark ∈ level.sections, OpenSection.depth mark ≤ 1)
    {part : Subsection} (ha : AllowsAll [] (doc.pushSection part.depth part.title) part.parts) :
    ∃ deeper, Deep deeper ∧
      Held (level.within deeper) (doc.writeSubsection part)
        (texts ++ titleMarkup part.title :: (doc.pushSection part.depth part.title).allTexts part.parts) True := by
  obtain ⟨opened, hopened, hpushed⟩ := h.pushSubsection hl hd ho part.deep part.title
  have hstands : Stands (level.within opened) [] false (doc.pushSection part.depth part.title)
      (texts ++ [titleMarkup part.title]) true :=
    ⟨hpushed.weaken fun _ => trivial, fun hn => by cases hn⟩
  have hall := stands_writeAll hstands part.parts (by rw [Level.within, hl]; exact ha)
  rw [List.append_assoc] at hall
  exact ⟨opened, hopened, hall.held.weaken fun _ => ⟨rfl, rfl⟩⟩

theorem Held.writeSubsections (h : Held (level.within deeper) doc texts True) (hl : level.blocks = [])
    (hd : Deep deeper) (ho : ∀ mark ∈ level.sections, OpenSection.depth mark ≤ 1)
    {parts : List Subsection} (ha : doc.AllowsSubsections parts) :
    ∃ deeper, Deep deeper ∧
      Held (level.within deeper) (parts.foldl Document.writeSubsection doc) (texts ++ doc.subsectionTexts parts)
        True := by
  induction parts generalizing doc texts deeper with
  | nil => exact ⟨deeper, hd, by rwa [subsectionTexts, List.append_nil]⟩
  | cons part parts ih =>
    obtain ⟨opened, hopened, hfirst⟩ := h.writeSubsection hl hd ho ha.1
    obtain ⟨all, hall, hheld⟩ := ih hfirst hopened ha.2
    rw [List.append_assoc] at hheld
    exact ⟨all, hall, hheld⟩

/-- What is written up to the next section of the first depth. -/
theorem Stands.writeRegion {lines : List Text} {produced : Bool} (h : Stands level lines false doc texts produced)
    (hl : level.blocks = []) (ho : ∀ mark ∈ level.sections, OpenSection.depth mark ≤ 1) {region : Region}
    (ha : doc.AllowsRegion region) :
    ∃ deeper, Deep deeper ∧
      Held (level.within deeper) (doc.writeRegion region) (texts ++ doc.regionTexts region)
        ((produced || region.produces) = true) ∧
      ((produced || region.produces) = false → deeper = [] ∧ Idle lines [] (doc.writeRegion region)) := by
  obtain ⟨hparts, hsubsections⟩ := ha
  have hstands := stands_writeAll h region.parts (by rw [hl]; exact hparts)
  unfold Document.writeRegion regionTexts Region.produces
  cases hr : region.subsections with
  | nil =>
    rw [subsectionTexts, List.append_nil, List.isEmpty_nil, Bool.not_true, Bool.or_false]
    refine ⟨[], (fun _ hm => by cases hm), hstands.held.weaken fun hp => ⟨hp, rfl⟩, fun hp => ⟨rfl, ?_⟩⟩
    rw [← hl]
    exact hstands.idle hp
  | cons part parts =>
    rw [hr] at hsubsections
    have hwithin : Held (level.within []) _ _ _ := hstands.held
    obtain ⟨opened, hopened, hfirst⟩ := hwithin.writeSubsection hl (fun _ hm => by cases hm) ho hsubsections.1
    obtain ⟨all, hall, hheld⟩ := hfirst.writeSubsections hl hopened ho hsubsections.2
    refine ⟨all, hall, ?_, fun hp => ?_⟩
    · rw [List.append_assoc, List.append_assoc] at hheld
      exact hheld.weaken fun _ => trivial
    · simp at hp

end

end Document

end RoffDocBook

/-! A section of the first depth is taken back when it is closed, if nothing has been written into it; otherwise it
stays with its title and all that was written, in order. -/
namespace RoffDocBook

/-- A section of the first depth with all that is in it. -/
structure TopSection where
  depth : Nat := 1
  title : Text
  region : Region
  shallow : depth ≤ 1 := by decide

namespace Document
open Text Markup

def writeTopSection (doc : Document) (top : TopSection) : Document :=
  (doc.pushSection top.depth top.title).writeRegion top.region

def writeTopSections (doc : Document) (tops : List TopSection) : Document :=
  tops.foldl writeTopSection doc

def topTexts (doc : Document) (top : TopSection) : List Text :=
  titleMarkup top.title :: (doc.pushSection top.depth top.title).regionTexts top.region

def AllowsTopSections (doc : Document) : List TopSection → Prop
  | [] => True
  | top :: tops =>
    (doc.pushSection top.depth top.title).AllowsRegion top.region ∧ AllowsTopSections (doc.writeTopSection top) tops

instance decidableAllowsTopSections (doc : Document) : (tops : List TopSection) → Decidable (doc.AllowsTopSections tops)
  | [] => isTrue trivial
  | top :: tops =>
    have := decidableAllowsTopSections (doc.writeTopSection top) tops
    inferInstanceAs (Decidable ((doc.pushSection top.depth top.title).AllowsRegion top.region ∧
      (doc.writeTopSection top).AllowsTopSections tops))

/-- Nothing is open at all. -/
structure Resting (doc : Document) : Prop extends Cleared doc where
  sections : doc.sections = []
  suspended : doc.suspended = []
  substitutes : doc.substitutes = []

section
variable {level : Level} {doc : Document} {deeper : List OpenSection} {texts : List Text} {marked : Prop}

/-- The document with all sections closed. -/
def leave (doc : Document) : Document :=
  doc.closeBlocks.popSections 1

theorem leave_eq {outer : List OpenSection} (hs : doc.sections = deeper ++ outer)
    (hd : ∀ mark ∈ doc.sections, 1 ≤ OpenSection.depth mark) :
    doc.leave =
      outer.foldl (fun doc _ => doc.endSection) (deeper.foldl (fun doc _ => doc.endSection) doc.closeBlocks) := by
  have hall : doc.sections.takeWhile (fun mark => decide (1 ≤ mark.depth)) = doc.sections :=
    List.takeWhile_eq_self_iff.mpr fun mark hm => decide_eq_true (hd mark hm)
  rw [leave, popSections, closeBlocks_sections, hall, hs, List.foldl_append]

/-- What is left when everything is closed. -/
structure Page (doc : Document) : Prop where
  sections : ∀ mark ∈ doc.sections, 1 ≤ OpenSection.depth mark
  suspended : doc.suspended = []
  resting : Resting doc.leave

/-- At the end of a document all sections are closed. -/
theorem Page.finish_eq (h : Page doc) : doc.finish.1 = doc.leave.lines.reverse := by
  have hdiverted : doc.endDiversions = doc := by
    rw [endDiversions, h.suspended]
    rfl
  have hall : doc.sections.takeWhile (fun mark => decide (0 ≤ mark.depth)) = doc.sections :=
    List.takeWhile_eq_self_iff.mpr fun mark _ => decide_eq_true (Nat.zero_le _)
  have hleave := leave_eq (List.append_nil doc.sections).symm h.sections
  rw [finish, closeAll, hdiverted, endSections, popSections, closeBlocks_sections, hall, hleave]
  rfl

theorem Held.resting (h : Held level doc texts marked) (hl : level.suspended = []) (hs : level.sections = [])
    (hc : Cleared doc) : Resting doc := by
  obtain ⟨hsections, hsuspended⟩ := h.outside
  exact {
    hc with
    sections := hsections.trans hs
    suspended := hsuspended.trans hl
    substitutes := h.substitutes }

/-- A section of the first depth, which has begun after some lines, with its title. -/
def Level.top (mark : OpenSection) (before : List Text) (title : Text) : Level where
  lines := before
  sections := [mark]
  suspended := []
  blocks := []
  heading := [titleMarkup title]

variable {mark : OpenSection} {before : List Text} {title : Text}

/-- The heading is the line that may be taken back, and what is held is more than the title. -/
theorem Held.recorded_top (h : Held (.top mark before title) doc texts True) (hd : mark.depth = 1)
    (hm : mark.start = before.length) (hb : doc.blocks = []) :
    ∃ all, all ≠ [] ∧ texts.Sublist all ∧ Recorded before [{ line := before.length, texts := [titleMarkup title] }]
      doc.lines (titleMarkup title :: all) := by
  obtain ⟨frames, all, hcontent, hsub, hmark⟩ := h
  obtain ⟨inner, hblocks, rfl⟩ := hcontent.blocks_eq
  rw [hb] at hblocks
  obtain rfl : [] = inner := hblocks.trans (List.append_nil inner)
  have hprovisionals : listProvisionals [] ++ (Level.top mark before title).provisionals =
      [{ line := before.length, texts := [titleMarkup title] }] := by
    simp [Level.top, Level.provisionals, listProvisionals, hd, hm]
  have hrecorded := hcontent.holding.recorded
  rw [List.filterMap_nil, hprovisionals] at hrecorded
  refine ⟨all, ?_, hsub, hrecorded⟩
  rcases hmark trivial with ⟨t, ht, _⟩ | ⟨_, hframe, _⟩
  · exact List.ne_nil_of_mem ht
  · cases hframe

/-- Where more than the title is held, the section stays. -/
theorem Held.endTop (h : Held (.top mark before title) doc texts True) (hd : mark.depth = 1)
    (hm : mark.start = before.length) (hc : Cleared doc.closeBlocks) :
    Resting doc.endSection ∧
      ∃ own, doc.endSection.lines = own ++ before ∧ InOrder (titleMarkup title :: texts) (body own) := by
  have hclosed := h.closeBlocks rfl
  obtain ⟨hsections, hsuspended⟩ := hclosed.outside
  have hsubstitutes := hclosed.substitutes
  obtain ⟨all, hne, hsub, hrecorded⟩ := hclosed.recorded_top hd hm hc.blocks
  have hlength : (doc.closeBlocks.lines.length == mark.start + 1) = false := by
    rw [hm]
    exact beq_eq_false_iff_ne.mpr (hrecorded.length_ne rfl fun hnone => hne (List.cons.inj hnone).2)
  have hended : doc.endSection = { doc.closeBlocks with sections := [] }.emit ("</" ++ mark.element ++ ">") := by
    rw [endSection_eq, show doc.closeBlocks.sections = [mark] from hsections]
    dsimp only [writeSectionEnd]
    rw [hlength, if_neg Bool.false_ne_true]
  rw [hended, emit_eq]
  generalize doc.closeBlocks = closed at hc hsuspended hsubstitutes hrecorded
  dsimp only
  rw [hc.joins]
  have hwritten := hrecorded.cons (.nil ("</" ++ mark.element ++ ">"))
  rw [List.append_nil] at hwritten
  obtain ⟨own, hown, hall⟩ := hwritten.inOrder
  refine ⟨?_, own, hown, hall.sublist (hsub.cons_cons _)⟩
  exact { hc with joins := rfl, sections := rfl, suspended := hsuspended, substitutes := hsubstitutes }

/-- Where nothing has been written, the section is taken back. -/
theorem Idle.endTop {piece : Text} (h : Idle (piece :: before) [] doc)
    (hh : Held (.top mark before title) doc texts marked) (hd : mark.depth = 1) (hm : mark.start = before.length) :
    Resting doc.endSection ∧ doc.endSection.lines = before := by
  have hclosed := hh.closeBlocks rfl
  have hcleared := hh.cleared rfl
  obtain ⟨hsections, hsuspended⟩ := hclosed.outside
  have hsubstitutes := hclosed.substitutes
  have hlines : doc.closeBlocks.lines = piece :: before := h.closeBlocks.lines_eq hcleared.blocks
  have hended : doc.endSection =
      ({ doc.closeBlocks with sections := [] }.warn .emptySection).truncate mark.start := by
    rw [endSection_eq, show doc.closeBlocks.sections = [mark] from hsections]
    dsimp only [writeSectionEnd]
    rw [hlines, hm, hd, List.length_cons, beq_self_eq_true, beq_self_eq_true, if_pos rfl, if_pos rfl]
  rw [hended]
  generalize doc.closeBlocks = closed at hcleared hsuspended hlines hsubstitutes
  unfold truncate warn
  dsimp only
  refine ⟨{ hcleared with sections := rfl, suspended := hsuspended, substitutes := hsubstitutes }, ?_⟩
  rw [hlines, hm, List.length_cons, Nat.add_sub_cancel_left]
  rfl

/-- A section of the first depth begins where everything else has been closed. -/
theorem Page.pushTop (h : Page doc) {depth : Nat} (hdepth : depth ≤ 1) (title : Text) :
    ∃ mark piece, mark.depth = 1 ∧ mark.start = doc.leave.lines.length ∧
      Stands (.top mark doc.leave.lines title) (piece :: doc.leave.lines) false (doc.pushSection depth title) []
        false := by
  have hresting := h.resting
  have houtside : doc.closeBlocks.popSections 1 = doc.leave := rfl
  unfold pushSection
  dsimp only
  rw [Nat.max_eq_left hdepth, openSection_eq, houtside]
  dsimp only
  generalize (if doc.isManualPage then "refsect" ++ ofNat (min 3 1) else "sect" ++ ofNat (min 5 1) : Text) = element
  generalize doc.leave = outside at hresting ⊢
  rw [hresting.joins, hresting.sections]
  have hheading := inOrder_heading element (outside.ids.make (stripTags title)).1 title
  generalize ("<" ++ element ++ " id='" ++ (outside.ids.make (stripTags title)).1 ++ "'><title>" ++ title ++
    "</title>" : Text) = piece at hheading ⊢
  refine ⟨{ depth := 1, element, start := outside.lines.length }, piece, rfl, rfl,
    ⟨[], [], ?_, .slnil, ?_⟩, fun _ => ?_⟩
  · exact {
      filling := by
        dsimp only
        rw [hresting.blocks]
        exact hresting.fill
      joins := fun hn => by cases hn
      blocks_eq := ⟨[], hresting.blocks, rfl⟩
      holding := {
        recorded := .first outside.lines hheading
        joins := fun hn => by cases hn
        sections := rfl
        suspended := hresting.suspended
        substitutes := hresting.substitutes }
      based := fun hn => by cases hn }
  · exact fun hn => absurd hn.1 Bool.false_ne_true
  · exact { hresting with
      joins := rfl
      started := ⟨[], hresting.blocks, .nil⟩ }

/-- A section of the first depth stays exactly if something has been written into it, and what is before it stays. -/
theorem Page.writeTopSection (h : Page doc) {top : TopSection}
    (ha : (doc.pushSection top.depth top.title).AllowsRegion top.region) :
    Page (doc.writeTopSection top) ∧ ∃ own, (doc.writeTopSection top).leave.lines = own ++ doc.leave.lines ∧
      (top.region.produces = false → own = []) ∧
      (top.region.produces = true → InOrder (doc.topTexts top) (body own)) := by
  obtain ⟨mark, piece, hd, hm, hbegun⟩ := h.pushTop top.shallow top.title
  have hmark : ∀ other ∈ [mark], OpenSection.depth other ≤ 1 := List.forall_mem_singleton.mpr hd.le
  obtain ⟨deeper, hdeeper, hheld, hidle⟩ := hbegun.writeRegion rfl hmark ha
  change Held _ (doc.writeTopSection top) _ _ at hheld
  change _ → deeper = [] ∧ Idle _ [] (doc.writeTopSection top) at hidle
  rw [Bool.false_or, List.nil_append] at hheld
  rw [Bool.false_or] at hidle
  obtain ⟨hsections, hsuspended⟩ := hheld.outside
  replace hsections : (doc.writeTopSection top).sections = deeper ++ [mark] := hsections
  have hdepth : ∀ other ∈ (doc.writeTopSection top).sections, 1 ≤ OpenSection.depth other := by
    rw [hsections]
    exact List.forall_mem_append.mpr
      ⟨fun other ho => Nat.le_of_succ_le (hdeeper other ho), List.forall_mem_singleton.mpr hd.ge⟩
  have hleave := leave_eq hsections hdepth
  rw [List.foldl_cons, List.foldl_nil] at hleave
  rw [← List.append_nil deeper] at hdeeper hheld
  obtain ⟨hended, _⟩ := (hheld.closeBlocks rfl).endSubsections rfl hdeeper (hheld.cleared rfl)
  cases hp : top.region.produces with
  | true =>
    obtain ⟨hresting, own, hown, htexts⟩ :=
      Held.endTop (hended.weaken fun _ => hp) hd hm (hended.cleared rfl)
    rw [← hleave] at hresting hown
    exact ⟨⟨hdepth, hsuspended, hresting⟩, own, hown, (fun hn => by cases hn), fun _ => htexts⟩
  | false =>
    obtain ⟨rfl, hi⟩ := hidle hp
    rw [List.foldl_nil] at hleave
    obtain ⟨hresting, hlines⟩ := hi.closeBlocks.endTop (hheld.closeBlocks rfl) hd hm
    rw [← hleave] at hresting hlines
    exact ⟨⟨hdepth, hsuspended, hresting⟩, [], hlines, fun _ => rfl, fun hn => by cases hn⟩

theorem Page.writeTopSections (h : Page doc) {tops : List TopSection} (ha : doc.AllowsTopSections tops) :
    Page (doc.writeTopSections tops) ∧ ∃ later, (doc.writeTopSections tops).leave.lines = later ++ doc.leave.lines := by
  induction tops generalizing doc with
  | nil => exact ⟨h, [], rfl⟩
  | cons top tops ih =>
    obtain ⟨hpage, own, hown, _⟩ := h.writeTopSection ha.1
    obtain ⟨hall, later, hlater⟩ := ih hpage ha.2
    rw [hown, ← List.append_assoc] at hlater
    exact ⟨hall, later ++ own, hlater⟩

theorem allowsTopSections_append {before after : List TopSection} :
    doc.AllowsTopSections (before ++ after) ↔
      doc.AllowsTopSections before ∧ (doc.writeTopSections before).AllowsTopSections after := by
  induction before generalizing doc with
  | nil => exact (and_iff_right trivial).symm
  | cons top before ih =>
    rw [List.cons_append, AllowsTopSections, AllowsTopSections, ih, and_assoc]
    rfl

/-- What is written before the first section. -/
theorem page_writeRegion (name : String) (settings : Settings) (hints : Hints) (active : List Package)
    {opening : Region} (ha : AllowsRegion { start name settings hints with active } opening) :
    Page (writeRegion { start name settings hints with active } opening) := by
  have hstart : Stands .page [] false { start name settings hints with active } [] false :=
    { held := (held_start name settings hints active).weaken fun hn => absurd hn.1 Bool.false_ne_true
      idle := fun _ => { fill := rfl, trap := rfl, closed := rfl, joins := rfl, started := ⟨[], rfl, .nil⟩ } }
  obtain ⟨deeper, hdeeper, hheld, _⟩ := hstart.writeRegion rfl (fun _ hm => by cases hm) ha
  obtain ⟨hsections, hsuspended⟩ := hheld.outside
  replace hsections :
      (Document.writeRegion { start name settings hints with active } opening).sections = deeper ++ [] := hsections
  have hdepth : ∀ mark ∈ (Document.writeRegion { start name settings hints with active } opening).sections,
      1 ≤ OpenSection.depth mark := by
    rw [hsections, List.append_nil]
    exact fun mark hm => Nat.le_of_succ_le (hdeeper mark hm)
  refine ⟨hdepth, hsuspended, ?_⟩
  rw [leave_eq hsections hdepth]
  rw [← List.append_nil deeper] at hdeeper hheld
  obtain ⟨hended, hcleared⟩ := (hheld.closeBlocks rfl).endSubsections rfl hdeeper (hheld.cleared rfl)
  exact hended.resting rfl rfl hcleared

/-- The title is written wherever something is written into a section. -/
theorem ne_nil_of_inOrder_topTexts {top : TopSection} {own : List Text}
    (h : InOrder (doc.topTexts top) (body own)) : own ≠ [] := by
  rintro rfl
  have hshown := h.isAllBlank_eq_false List.mem_cons_self (isAllBlank_titleMarkup top.title)
  cases hshown

end

/-- A section of the first depth is removed exactly if no text, markup, footnote, item, display or subsection has been
written into it; otherwise it is in the output with all of that, in order. What is around it is as it was. -/
theorem finish_writeTopSections (name : String) (settings : Settings) (hints : Hints) (active : List Package)
    {opening : Region} {before after : List TopSection} {top : TopSection}
    (ho : AllowsRegion { start name settings hints with active } opening)
    (ha : (writeRegion { start name settings hints with active } opening).AllowsTopSections (before ++ top :: after)) :
    let page := (writeRegion { start name settings hints with active } opening).writeTopSections before
    ∃ own later, (page.writeTopSection top).finish.1 = page.finish.1 ++ own ∧
      ((page.writeTopSection top).writeTopSections after).finish.1 = page.finish.1 ++ own ++ later ∧
      (own = [] ↔ top.region.produces = false) ∧
      (top.region.produces = true → InOrder (page.topTexts top) (unlines own)) := by
  intro page
  obtain ⟨hbefore, htop, hafter⟩ := allowsTopSections_append.mp ha
  obtain ⟨hpage, _⟩ := (page_writeRegion name settings hints active ho).writeTopSections hbefore
  obtain ⟨hsection, own, hown, hempty, hkept⟩ := hpage.writeTopSection htop
  obtain ⟨hall, later, hlater⟩ := hsection.writeTopSections hafter
  refine ⟨own.reverse, later.reverse, ?_, ?_, ?_, hkept⟩
  · rw [hsection.finish_eq, hpage.finish_eq, hown, List.reverse_append]
  · rw [hall.finish_eq, hpage.finish_eq, hlater, hown, List.reverse_append, List.reverse_append]
  · rw [List.reverse_eq_nil_iff]
    refine ⟨fun hn => ?_, hempty⟩
    by_contra hp
    exact ne_nil_of_inOrder_topTexts (hkept (eq_true_of_ne_false hp)) hn

/-- A section with an empty list and an empty footnote between text and a section with a footnote. -/
theorem finish_footnote_kept :
    let opening : Region := { parts := [.call (.textLine "intro")], subsections := [] }
    let gone : TopSection := {
      title := "GONE"
      region := {
        parts := [.call (.beginListWith "TP" .terms []), .call (.textLine " "), .call .endList, .footnote []]
        subsections := [] } }
    let kept : TopSection := {
      title := "KEPT"
      region := {
        parts := [.call (.textLine "text"), .footnote [.call (.textLine "note"), .markup "<br/>"]]
        subsections := [{
          depth := 2
          title := "Sub"
          parts := [.call (.beginDisplay .literal "EX"), .call (.textLine "x"), .call .endDisplay]
          deep := by decide }] } }
    let page := (writeRegion { start "t.1" {} {} with active := [.man] } opening).writeTopSections [gone]
    AllowsRegion { start "t.1" {} {} with active := [.man] } opening ∧
      (writeRegion { start "t.1" {} {} with active := [.man] } opening).AllowsTopSections [gone, kept, gone] ∧
      ∃ own, (page.writeTopSection kept).finish.1 = page.finish.1 ++ own ∧
        InOrder ["<title>KEPT</title>", "text", "note", "<br/>", "<title>Sub</title>", "x"] (unlines own) := by
  intro opening gone kept page
  have ho : AllowsRegion { start "t.1" {} {} with active := [.man] } opening := by decide +kernel
  have ha : (writeRegion { start "t.1" {} {} with active := [.man] } opening).AllowsTopSections
      ([gone] ++ kept :: [gone]) := by decide +kernel
  have htexts : page.topTexts kept =
      (["<title>KEPT</title>", "text", "note", "<br/>", "<title>Sub</title>", "x"] : List Text) := by
    decide +kernel
  have hproduces : kept.region.produces = true := by decide +kernel
  obtain ⟨own, _, hown, _, _, hkept⟩ := finish_writeTopSections "t.1" {} {} [.man] ho ha
  rw [← htexts]
  exact ⟨ho, ha, own, hown, hkept hproduces⟩

end Document

end RoffDocBook
