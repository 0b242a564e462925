import Mathlib.Data.List.GetD
import Mathlib.Data.List.TakeWhile
import RoffDocBook.Document.Basic

/-! The outline that the depths of headings make: a section is part of the last one before it that is shallower. -/
namespace RoffDocBook
open Text

/-- The lines of a section, without those of the sections inside it. -/
structure SectionLines where
  depth : Nat
  element : Text
  /-- The start tag and the title. -/
  heading : Text
  /-- What stands between the heading and the first section inside. -/
  own : List Text

def SectionLines.ending (part : SectionLines) : Text :=
  "</" ++ part.element ++ ">"

/-- Sections one after the other, each with the sections inside it. -/
inductive SectionTree where
  | nil
  | cons (first : SectionLines) (inside after : SectionTree)

namespace SectionTree

/-- The tree of sections in the order of their headings: inside a section are the deeper ones right after it. -/
def ofList : List SectionLines → SectionTree
  | [] => nil
  | first :: rest =>
    cons first (ofList (rest.takeWhile fun other => first.depth < other.depth))
      (ofList (rest.dropWhile fun other => first.depth < other.depth))
termination_by parts => parts.length
decreasing_by
  · exact Nat.lt_succ_of_le (List.takeWhile_prefix _).length_le
  · exact Nat.lt_succ_of_le (List.dropWhile_suffix _).length_le

/-- The output: the end tag of a section comes after all that is inside it. -/
def lines : SectionTree → List Text
  | nil => []
  | cons first inside after => first.heading :: (first.own ++ inside.lines ++ first.ending :: after.lines)

/-- The sections in the order of their headings. -/
def toList : SectionTree → List SectionLines
  | nil => []
  | cons first inside after => first :: (inside.toList ++ after.toList)

/-- Headings as their tree reads them: the first one, the deeper ones right after it, and those from the next one on that
is not deeper. -/
@[elab_as_elim]
theorem outline_induction {motive : List SectionLines → Prop} (nil : motive [])
    (cons : ∀ first inside after, (∀ part ∈ inside, SectionLines.depth first < SectionLines.depth part) →
      (∀ next ∈ after.head?, SectionLines.depth next ≤ first.depth) → motive inside → motive after →
      motive (first :: (inside ++ after))) (parts : List SectionLines) : motive parts := by
  induction parts using ofList.induct with
  | case1 => exact nil
  | case2 first rest ihInside ihAfter =>
    have hsplit := List.takeWhile_append_dropWhile (p := fun other => first.depth < other.depth) (l := rest)
    have hhead := List.head?_dropWhile_not (fun other => decide (first.depth < SectionLines.depth other)) rest
    rw [← hsplit]
    refine cons first _ _ (fun part hm => by simpa using List.mem_takeWhile_imp hm) (fun next hm => ?_) ihInside ihAfter
    rw [Option.mem_def.mp hm] at hhead
    simpa using hhead

/-- A list is cut where something fails for the first time. -/
theorem span_append {α : Type} {p : α → Bool} {before after : List α} (hb : ∀ a ∈ before, p a = true)
    (ha : ∀ a ∈ after.head?, p a = false) :
    (before ++ after).takeWhile p = before ∧ (before ++ after).dropWhile p = after := by
  rw [List.takeWhile_append_of_pos hb, List.dropWhile_append_of_pos hb]
  cases after with
  | nil => simp
  | cons a after => simp [ha a rfl]

theorem ofList_cons {first : SectionLines} {inside after : List SectionLines}
    (hi : ∀ part ∈ inside, first.depth < part.depth) (ha : ∀ next ∈ after.head?, next.depth ≤ first.depth) :
    ofList (first :: (inside ++ after)) = cons first (ofList inside) (ofList after) := by
  obtain ⟨htake, hdrop⟩ := span_append (p := fun other => decide (first.depth < SectionLines.depth other))
    (fun part hm => decide_eq_true (hi part hm)) fun next hm => decide_eq_false (Nat.not_lt_of_le (ha next hm))
  rw [ofList, htake, hdrop]

theorem toList_ofList (parts : List SectionLines) : (ofList parts).toList = parts := by
  induction parts using outline_induction with
  | nil => rw [ofList, toList]
  | cons first inside after hdeeper hnext ihInside ihAfter =>
    rw [ofList_cons hdeeper hnext, toList, ihInside, ihAfter]

/-- Headings one after the other among all of them, from a place on, where `parent` is the place of the one that all of
them are part of: the last one before that is shallower than the first. -/
structure Stretch (depths : List Nat) (start : Nat) (parent : Option Nat) (parts : List SectionLines) : Prop where
  here : ∃ before later, before.length = start ∧ depths = before ++ parts.map SectionLines.depth ++ later
  shallower : ∀ p ∈ parent, p < start ∧ ∀ part ∈ parts, depths.getD p 0 < SectionLines.depth part
  last : ∀ first ∈ parts.head?, ∀ place < start, (∀ p ∈ parent, p < place) →
    SectionLines.depth first ≤ depths.getD place 0

namespace Stretch
variable {depths : List Nat} {start : Nat} {parent : Option Nat} {first : SectionLines}
  {parts inside after : List SectionLines}

theorem exists_of_place (h : Stretch depths start parent parts) {place : Nat} (hge : start ≤ place)
    (hlt : place < start + parts.length) : ∃ part ∈ parts, depths.getD place 0 = part.depth := by
  obtain ⟨before, later, rfl, hd⟩ := h.here
  obtain ⟨k, rfl⟩ := Nat.exists_eq_add_of_le hge
  have hk : k < parts.length := by omega
  have hmap : k < (parts.map SectionLines.depth).length := by rwa [List.length_map]
  refine ⟨parts[k], List.getElem_mem hk, ?_⟩
  rw [hd, List.append_assoc, List.getD_append_right _ _ _ _ (Nat.le_add_right _ _), Nat.add_sub_cancel_left,
    List.getD_append _ _ _ _ hmap, List.getD_eq_getElem _ _ hmap, List.getElem_map]

theorem depth_first (h : Stretch depths start parent (first :: parts)) : depths.getD start 0 = first.depth := by
  obtain ⟨before, later, rfl, hd⟩ := h.here
  rw [hd, List.append_assoc, List.getD_append_right _ _ _ _ (Nat.le_refl _), Nat.sub_self]
  rfl

/-- The deeper headings right after the first one are part of it. -/
theorem within (h : Stretch depths start parent (first :: (inside ++ after)))
    (hdeeper : ∀ part ∈ inside, first.depth < part.depth) : Stretch depths (start + 1) (some start) inside where
  here := by
    obtain ⟨before, later, rfl, hd⟩ := h.here
    refine ⟨before ++ [first.depth], after.map SectionLines.depth ++ later, by simp, ?_⟩
    rw [hd]
    simp
  shallower := by
    rintro p ⟨⟩
    rw [h.depth_first]
    exact ⟨Nat.lt_succ_self _, hdeeper⟩
  last := by
    intro _ _ place hlt hplace
    have hgt := hplace start rfl
    omega

/-- The headings from the next one on that is not deeper are part of what the first one is part of. -/
theorem beyond (h : Stretch depths start parent (first :: (inside ++ after)))
    (hdeeper : ∀ part ∈ inside, first.depth < part.depth) (hnext : ∀ next ∈ after.head?, next.depth ≤ first.depth) :
    Stretch depths (start + 1 + inside.length) parent after where
  here := by
    obtain ⟨before, later, rfl, hd⟩ := h.here
    refine ⟨before ++ first.depth :: inside.map SectionLines.depth, later, by simp; omega, ?_⟩
    rw [hd]
    simp
  shallower := by
    intro p hm
    obtain ⟨hlt, hall⟩ := h.shallower p hm
    exact ⟨by omega, fun part hpart => hall part (List.mem_cons_of_mem _ (List.mem_append_right _ hpart))⟩
  last := by
    intro next hm place hlt hplace
    rcases Nat.lt_trichotomy place start with hless | rfl | hgreater
    · exact (hnext next hm).trans (h.last first rfl place hless hplace)
    · rw [h.depth_first]
      exact hnext next hm
    · obtain ⟨part, hpart, hdepth⟩ := (h.within hdeeper).exists_of_place hgreater (by omega)
      rw [hdepth]
      exact (hnext next hm).trans (Nat.le_of_lt (hdeeper part hpart))

end Stretch

end SectionTree

/-! Headings one after the other are written as their tree. -/

/-- The lines that have been written, and the sections that are open in them. -/
structure Outer where
  /-- The output lines, the most recent first. -/
  lines : List Text := []
  sections : List OpenSection := []

def OpenSection.ending (mark : OpenSection) : Text :=
  "</" ++ mark.element ++ ">"

namespace Outer

/-- The end tags of the sections of a depth or deeper are written. -/
def pop (outer : Outer) (depth : Nat) : Outer where
  lines := ((outer.sections.takeWhile fun mark => depth ≤ mark.depth).map OpenSection.ending).reverse ++ outer.lines
  sections := outer.sections.dropWhile fun mark => depth ≤ mark.depth

/-- A section begins, with its own lines, where those that it is no part of have ended. -/
def enter (outer : Outer) (part : SectionLines) : Outer :=
  let outside := outer.pop part.depth
  { lines := part.own.reverse ++ part.heading :: outside.lines
    sections := { depth := part.depth, element := part.element, start := outside.lines.length } :: outside.sections }

/-- The sections that end are those inside the last shallower one. -/
theorem pop_eq {outer : Outer} {depth : Nat} {deeper kept : List OpenSection} (hs : outer.sections = deeper ++ kept)
    (hd : ∀ mark ∈ deeper, depth ≤ mark.depth) (hk : ∀ mark ∈ kept, mark.depth < depth) :
    outer.pop depth =
      { lines := (deeper.map OpenSection.ending).reverse ++ outer.lines
        sections := kept } := by
  obtain ⟨htake, hdrop⟩ := SectionTree.span_append (p := fun mark => decide (depth ≤ OpenSection.depth mark))
    (fun mark hm => decide_eq_true (hd mark hm)) fun mark hm =>
      decide_eq_false (Nat.not_le_of_lt (hk mark (List.mem_of_mem_head? hm)))
  unfold pop
  rw [hs, htake, hdrop]

theorem pop_of_shallower {outer : Outer} {depth : Nat} (h : ∀ mark ∈ outer.sections, mark.depth < depth) :
    outer.pop depth = outer :=
  pop_eq (List.nil_append _).symm (fun _ hm => by cases hm) h

/-- On top of some output there are lines and sections of a depth or deeper, of which the last ones have yet to end. -/
def Ends (outer : Outer) (depth : Nat) (output : List Text) (after : Outer) : Prop :=
  ∃ opened, after.sections = opened ++ outer.sections ∧ (∀ mark ∈ opened, depth ≤ OpenSection.depth mark) ∧
    (opened.map OpenSection.ending).reverse ++ after.lines = output.reverse ++ outer.lines

section
variable {outer after : Outer} {depth : Nat} {output : List Text} {first : SectionLines} {parts : List SectionLines}

theorem Ends.pop (h : outer.Ends depth output after) {shallower : Nat} (hd : shallower ≤ depth)
    (hk : ∀ mark ∈ outer.sections, mark.depth < shallower) :
    after.pop shallower = { outer with lines := output.reverse ++ outer.lines } := by
  obtain ⟨opened, hsections, hopened, hlines⟩ := h
  rw [pop_eq hsections (fun mark hm => hd.trans (hopened mark hm)) hk, hlines]

/-- The section that the others are part of ends after them. -/
theorem Ends.enter (hk : ∀ mark ∈ outer.sections, mark.depth < first.depth)
    (h : (outer.enter first).Ends depth output after) (hd : first.depth ≤ depth) :
    outer.Ends first.depth (first.heading :: (first.own ++ output ++ [first.ending])) after := by
  obtain ⟨opened, hsections, hopened, hlines⟩ := h
  rw [Outer.enter, pop_of_shallower hk] at hsections hlines
  dsimp only at hsections hlines
  refine ⟨opened ++ [{ depth := first.depth, element := first.element, start := outer.lines.length }], ?_, ?_, ?_⟩
  · rw [hsections, List.append_assoc]
    rfl
  · exact List.forall_mem_append.mpr
      ⟨fun mark hm => hd.trans (hopened mark hm), List.forall_mem_singleton.mpr (Nat.le_refl _)⟩
  · rw [List.map_append, List.reverse_append, List.append_assoc, hlines]
    simp [OpenSection.ending, SectionLines.ending]

theorem Ends.append {later : List Text}
    (h : Ends { outer with lines := output.reverse ++ outer.lines } depth later after) :
    outer.Ends depth (output ++ later) after := by
  obtain ⟨opened, hsections, hopened, hlines⟩ := h
  refine ⟨opened, hsections, hopened, ?_⟩
  rw [hlines, List.reverse_append, List.append_assoc]

end

end Outer

end RoffDocBook
