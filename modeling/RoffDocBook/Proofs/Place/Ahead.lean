import RoffDocBook.Conversion.Run
import RoffDocBook.Proofs.Place.Mdoc

/-! Reading ahead only takes items from the front of the input, and a macro whose end is among them is left. -/
namespace RoffDocBook

namespace Input

/-- The numbers of the lines that invoked the macros whose ends are in an input, the next end first. -/
def ends : Input → List Nat
  | [] => []
  | .finish number :: rest => number :: ends rest
  | _ :: rest => ends rest

@[simp] theorem ends_append (first second : Input) : ends (first ++ second) = ends first ++ ends second := by
  induction first with
  | nil => rfl
  | cons item rest ih =>
    cases item with
    | finish number => exact congrArg (number :: ·) ih
    | line text number => exact ih
    | markup text => exact ih
    | paragraphEnd => exact ih

@[simp] theorem ends_pushLines (input : Input) (lines : List Text) : (input.pushLines lines).ends = input.ends := by
  induction lines with
  | nil => rfl
  | cons line lines ih => exact ih

theorem ends_mapIdx (lines : List Text) (number : Nat → Option Nat) :
    ends (lines.mapIdx fun i line => .line line (number i)) = [] := by
  induction lines generalizing number with
  | nil => rfl
  | cons line lines ih =>
    rw [List.mapIdx_cons]
    exact ih fun i => number (i + 1)

/-- The lines of a source are all read before anything is expanded. -/
theorem ends_ofText (source : Text) : (ofText source).ends = [] :=
  ends_mapIdx _ fun i => some (i + 1)

/-- A macro is left through the first end: what stands before it holds none. -/
theorem unwind?_eq_some {input rest : Input} {number : Nat} (h : input.unwind? = some (number, rest)) :
    ∃ above, input = above ++ .finish number :: rest ∧ ends above = [] := by
  induction input with
  | nil => cases h
  | cons item input ih =>
    cases item with
    | finish found =>
      obtain ⟨rfl, rfl⟩ := Prod.mk.inj (Option.some.inj h)
      exact ⟨[], rfl, rfl⟩
    | line text found =>
      obtain ⟨above, rfl, ha⟩ := ih h
      exact ⟨.line text found :: above, rfl, ha⟩
    | markup text =>
      obtain ⟨above, rfl, ha⟩ := ih h
      exact ⟨.markup text :: above, rfl, ha⟩
    | paragraphEnd =>
      obtain ⟨above, rfl, ha⟩ := ih h
      exact ⟨.paragraphEnd :: above, rfl, ha⟩

theorem unwind?_eq_none_iff {input : Input} : input.unwind? = none ↔ input.ends = [] := by
  induction input with
  | nil => exact ⟨fun _ => rfl, fun _ => rfl⟩
  | cons item input ih =>
    cases item with
    | finish number => exact ⟨fun h => (by cases h), fun h => (by cases h)⟩
    | line text number => exact ih
    | markup text => exact ih
    | paragraphEnd => exact ih

end Input

namespace Document
open Text

/-- Items have been taken from the front of the input, and the macros whose ends were among them are left. -/
def Reads (before after : Document) : Prop :=
  ∃ passed, before.input = passed ++ after.input ∧
    after.formatter.invocations = before.formatter.invocations.drop passed.ends.length

namespace Reads
variable {a b c : Document}

theorem of_place (h : b.place = a.place) : Reads a b :=
  ⟨[], (congrArg Prod.fst h).symm, congrArg Prod.snd h⟩

theorem refl (a : Document) : Reads a a :=
  of_place rfl

theorem trans (h : Reads a b) (k : Reads b c) : Reads a c := by
  obtain ⟨first, hf, hfi⟩ := h
  obtain ⟨second, hs, hsi⟩ := k
  refine ⟨first ++ second, ?_, ?_⟩
  · rw [hf, hs, List.append_assoc]
  · rw [hsi, hfi, List.drop_drop, Input.ends_append, List.length_append]

/-- Writing after reading. -/
theorem write (h : Reads a b) (hp : c.place = b.place) : Reads a c :=
  h.trans (.of_place hp)

end Reads

section
variable (doc : Document)

theorem reads_nextRawLine_go {input : Input} {doc : Document} (h : doc.input = input) :
    Reads doc (nextRawLine.go input doc).2 := by
  induction input generalizing doc with
  | nil => exact .refl doc
  | cons item rest ih =>
    cases item with
    | line text number => exact ⟨[.line text number], h, rfl⟩
    | finish number =>
      refine Reads.trans ?_ (ih rfl)
      exact ⟨[.finish number], h, List.drop_one.symm⟩
    | markup text => exact .refl doc
    | paragraphEnd => exact .refl doc

theorem reads_nextRawLine : Reads doc doc.nextRawLine.2 :=
  reads_nextRawLine_go rfl

theorem reads_nextLine : Reads doc doc.nextLine.2 := by
  have h := reads_nextRawLine doc
  unfold nextLine
  generalize doc.nextRawLine = found at h
  match found with
  | (some line, next) => exact h
  | (none, next) => exact h

theorem reads_gatherLines_go (left : Nat) : Reads doc (gatherLines.go left doc).2 := by
  induction left generalizing doc with
  | zero => exact .refl doc
  | succ left ih =>
    rw [gatherLines.go]
    split
    · exact .refl doc
    · have h := reads_nextLine doc
      generalize doc.nextLine = found at h
      match found with
      | (none, next) => exact h
      | (some line, next) => exact h.trans (ih next)

theorem reads_gatherLines : Reads doc doc.gatherLines.2 :=
  reads_gatherLines_go doc _

theorem reads_gatherText : Reads doc doc.gatherText.2 :=
  reads_gatherLines doc

theorem reads_headingText (arguments : List Text) : Reads doc (doc.headingText arguments).2 := by
  unfold headingText
  split
  · exact reads_gatherText doc
  · exact .refl doc

theorem reads_readUntil_go (closes : Text → Bool) (left : Nat) : Reads doc (readUntil.go closes left doc).2.2 := by
  induction left generalizing doc with
  | zero => exact .refl doc
  | succ left ih =>
    have h := reads_nextRawLine doc
    rw [readUntil.go]
    generalize doc.nextRawLine = found at h
    match found with
    | (none, next) => exact h
    | (some line, next) =>
      dsimp only
      split
      · exact h
      · exact h.trans (ih next)

theorem reads_readUntil (closes : Text → Bool) : Reads doc (doc.readUntil closes).2.2 :=
  reads_readUntil_go doc closes _

theorem reads_gatherBlock (closer : String) : Reads doc (doc.gatherBlock closer).2 := by
  have h := reads_readUntil doc fun line => doc.isRequest line [closer]
  unfold gatherBlock
  generalize doc.readUntil _ = found at h
  obtain ⟨lines, closed, rest⟩ := found
  cases closed with
  | true => exact h
  | false => exact h

theorem reads_fontLine (arguments : List Text) (font : Text) : Reads doc (doc.fontLine arguments font) := by
  have h := reads_nextLine doc
  unfold fontLine
  split
  · split
    · exact .refl doc
    · generalize doc.nextLine = found at h
      match found with
      | (some line, next) => exact h.write (textLine_place _ _)
      | (none, next) => exact h
  · exact .of_place (textLine_place doc _)

theorem reads_takeUntil_go (stops : List String) (left : Nat) : Reads doc (takeUntil.go stops left doc).2 := by
  induction left generalizing doc with
  | zero => exact .refl doc
  | succ left ih =>
    rw [takeUntil.go]
    split
    · exact .refl doc
    · split
      · exact .refl doc
      · have h := reads_nextRawLine doc
        generalize doc.nextRawLine = found at h
        match found with
        | (none, next) => exact h
        | (some line, next) => exact h.trans (ih next)

theorem reads_takeUntil (stops : List String) : Reads doc (doc.takeUntil stops).2 :=
  reads_takeUntil_go doc stops _

theorem reads_skipBlock_go (left : Nat) (depth : Int) : Reads doc (skipBlock.go left depth doc) := by
  induction left generalizing doc depth with
  | zero =>
    rw [skipBlock.go]
    split
    · exact .of_place (warn_place doc _)
    · exact .refl doc
  | succ left ih =>
    rw [skipBlock.go]
    split
    · have h := reads_nextRawLine doc
      generalize doc.nextRawLine = found at h
      match found with
      | (none, next) => exact h.write (warn_place next _)
      | (some line, next) => exact h.trans (ih next _)
    · exact .refl doc

theorem reads_skipBlock (depth : Int) : Reads doc (doc.skipBlock depth) :=
  reads_skipBlock_go doc _ depth

theorem reads_manHeading (request : Request) : Reads doc (doc.manHeading request).2 := by
  have h := reads_nextLine doc
  unfold manHeading
  split
  · exact .refl doc
  · dsimp only
    split
    · split <;> exact h
    · exact h

theorem reads_manLinkText_go (closer : String) (left : Nat) : Reads doc (manLinkText.go closer left doc).2.2 := by
  induction left generalizing doc with
  | zero => exact .of_place (warn_place doc _)
  | succ left ih =>
    have h := reads_nextLine doc
    rw [manLinkText.go]
    split
    · exact .of_place (warn_place doc _)
    · split
      · dsimp only
        split <;> exact h
      · split
        · exact .refl doc
        · exact (h.write (renderIsolated_place _ _)).trans (ih _)

theorem reads_manLinkText (closer : String) : Reads doc (doc.manLinkText closer).2.2 :=
  reads_manLinkText_go doc closer _

theorem reads_extendItem_go (left : Nat) : Reads doc (extendItem.go left doc).2.2 := by
  induction left generalizing doc with
  | zero => exact .refl doc
  | succ left ih =>
    have h := reads_nextLine doc
    rw [extendItem.go]
    generalize doc.nextLine = found at h
    match found with
    | (none, next) => exact h
    | (some line, next) =>
      dsimp only
      split
      · exact h
      · exact h.trans (ih next)
      · exact h.trans (ih next)

theorem reads_extendItem (arguments : List Text) : Reads doc (doc.extendItem arguments).2 := by
  have h := reads_extendItem_go doc doc.input.length
  unfold extendItem
  dsimp only
  split
  · exact h
  · exact h.write (warn_place _ _)

theorem reads_gatherOptions_go (left : Nat) : Reads doc (gatherOptions.go left doc).2 := by
  induction left generalizing doc with
  | zero => exact .of_place (warn_place doc _)
  | succ left ih =>
    have hlines := reads_gatherLines doc
    have hraw := reads_nextRawLine doc.gatherLines.2
    rw [gatherOptions.go]
    dsimp only
    generalize doc.gatherLines.2.nextRawLine = found at hraw
    match found with
    | (none, next) => exact hlines.trans (hraw.write (warn_place next _))
    | (some line, next) =>
      dsimp only
      split
      · exact hlines.trans hraw
      · exact (hlines.trans hraw).trans (ih next)

theorem reads_gatherOptions : Reads doc doc.gatherOptions.2 :=
  reads_gatherOptions_go doc _

end

end Document

namespace Run
open Document

theorem reads_joinContinuations (left : Nat) (doc : Document) (line : Text) :
    Reads doc (joinContinuations left doc line).2 := by
  induction left generalizing doc line with
  | zero => exact .refl doc
  | succ left ih =>
    rw [joinContinuations]
    split
    · have h := reads_nextRawLine doc
      generalize doc.nextRawLine = found at h
      match found with
      | (some next, doc) => exact h.trans (ih doc _)
      | (none, doc) => exact h
    · exact .refl doc

end Run

end RoffDocBook
