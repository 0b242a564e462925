import RoffDocBook.Conversion.Run

/-! Reading on changes nothing but where a document is being read: the input that is left, the line at hand, and the
macros that are being expanded. -/
namespace RoffDocBook
open Text

namespace Document

/-- The second document is the first one, read elsewhere. -/
def Elsewhere (a b : Document) : Prop :=
  ∃ input line invocations, b = { a with input, line, formatter := { a.formatter with invocations } }

namespace Elsewhere
variable {a b c : Document}

theorem refl (a : Document) : Elsewhere a a :=
  ⟨_, _, _, rfl⟩

theorem trans (h : Elsewhere a b) (k : Elsewhere b c) : Elsewhere a c := by
  obtain ⟨_, _, _, rfl⟩ := h
  obtain ⟨input, line, invocations, rfl⟩ := k
  exact ⟨input, line, invocations, rfl⟩

end Elsewhere

section
variable (doc : Document)

theorem elsewhere_nextRawLine_go (input : Input) : Elsewhere doc (nextRawLine.go input doc).2 := by
  induction input generalizing doc with
  | nil => exact .refl doc
  | cons item rest ih =>
    cases item with
    | line text number => exact ⟨_, _, _, rfl⟩
    | finish number =>
      refine Elsewhere.trans ?_ (ih _)
      exact ⟨_, _, _, rfl⟩
    | markup text => exact .refl doc
    | paragraphEnd => exact .refl doc

theorem elsewhere_nextRawLine : Elsewhere doc doc.nextRawLine.2 :=
  elsewhere_nextRawLine_go doc doc.input

theorem elsewhere_nextLine : Elsewhere doc doc.nextLine.2 := by
  have h := elsewhere_nextRawLine doc
  unfold nextLine
  generalize doc.nextRawLine = found at h
  match found with
  | (some line, next) => exact h
  | (none, next) => exact h

theorem elsewhere_gatherLines_go (left : Nat) : Elsewhere doc (gatherLines.go left doc).2 := by
  induction left generalizing doc with
  | zero => exact .refl doc
  | succ left ih =>
    rw [gatherLines.go]
    split
    · exact .refl doc
    · have h := elsewhere_nextLine doc
      generalize doc.nextLine = found at h
      match found with
      | (none, next) => exact h
      | (some line, next) => exact h.trans (ih next)

theorem elsewhere_gatherText : Elsewhere doc doc.gatherText.2 :=
  elsewhere_gatherLines_go doc _

theorem elsewhere_headingText (arguments : List Text) : Elsewhere doc (doc.headingText arguments).2 := by
  unfold headingText
  split
  · exact elsewhere_gatherText doc
  · exact .refl doc

theorem elsewhere_readUntil_go (closes : Text → Bool) (left : Nat) :
    Elsewhere doc (readUntil.go closes left doc).2.2 := by
  induction left generalizing doc with
  | zero => exact .refl doc
  | succ left ih =>
    have h := elsewhere_nextRawLine doc
    rw [readUntil.go]
    generalize doc.nextRawLine = found at h
    match found with
    | (none, next) => exact h
    | (some line, next) =>
      dsimp only
      split
      · exact h
      · exact h.trans (ih next)

theorem elsewhere_readUntil (closes : Text → Bool) : Elsewhere doc (doc.readUntil closes).2.2 :=
  elsewhere_readUntil_go doc closes _

theorem elsewhere_takeUntil_go (stops : List String) (left : Nat) :
    Elsewhere doc (takeUntil.go stops left doc).2 := by
  induction left generalizing doc with
  | zero => exact .refl doc
  | succ left ih =>
    rw [takeUntil.go]
    split
    · exact .refl doc
    · split
      · exact .refl doc
      · have h := elsewhere_nextRawLine doc
        generalize doc.nextRawLine = found at h
        match found with
        | (none, next) => exact h
        | (some line, next) => exact h.trans (ih next)

theorem elsewhere_takeUntil (stops : List String) : Elsewhere doc (doc.takeUntil stops).2 :=
  elsewhere_takeUntil_go doc stops _

theorem elsewhere_manHeading (request : Request) : Elsewhere doc (doc.manHeading request).2 := by
  have h := elsewhere_nextLine doc
  unfold manHeading
  split
  · exact .refl doc
  · dsimp only
    split
    · split <;> exact h
    · exact h

end
end Document

namespace Run
open Document

theorem elsewhere_joinContinuations (left : Nat) (doc : Document) (line : Text) :
    Elsewhere doc (joinContinuations left doc line).2 := by
  induction left generalizing doc line with
  | zero => exact .refl doc
  | succ left ih =>
    rw [joinContinuations]
    split
    · have h := elsewhere_nextRawLine doc
      generalize doc.nextRawLine = found at h
      match found with
      | (some next, doc) => exact h.trans (ih doc _)
      | (none, doc) => exact h
    · exact .refl doc

end Run

end RoffDocBook
