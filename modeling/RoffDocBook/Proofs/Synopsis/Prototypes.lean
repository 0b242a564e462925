import RoffDocBook.Proofs.Reading.Advance
import RoffDocBook.Synopsis.Function

/-! The readers of function heads take whole lines, and leave no token of a line behind them. -/
namespace RoffDocBook.Synopsis
open Text TokenReader

namespace Function

/-- A step that takes whole lines and leaves no token of a line behind it. -/
structure LineStep (before after : TokenReader) : Prop where
  advances : Advances before after
  tokens : before.tokens = [] → after.tokens = []

theorem LineStep.refl (a : TokenReader) : LineStep a a :=
  ⟨.refl a, id⟩

theorem LineStep.trans {a b c : TokenReader} (h : LineStep a b) (k : LineStep b c) : LineStep a c :=
  ⟨h.advances.trans k.advances, k.tokens ∘ h.tokens⟩

theorem lineStep_popLine (reader : TokenReader) : LineStep reader reader.popLine.2 :=
  ⟨advances_popLine reader, fun _ => popLine_tokens reader⟩

theorem lineStep_of_popLine {reader rest : TokenReader} {line : Option Text} (h : reader.popLine = (line, rest)) :
    LineStep reader rest := by
  have := lineStep_popLine reader
  rwa [h] at this

theorem lineStep_readBraced (fuel : Nat) (depth : Int) (reader : TokenReader) :
    LineStep reader (readBraced fuel depth reader).2 := by
  induction fuel generalizing depth reader with
  | zero => exact .refl reader
  | succ fuel ih =>
    rw [readBraced]
    split
    · rename_i rest h
      exact lineStep_of_popLine h
    · rename_i line rest h
      split
      · exact lineStep_of_popLine h
      · exact (lineStep_of_popLine h).trans (ih _ rest)

theorem lineStep_readInformation (fuel : Nat) (reader : TokenReader) :
    LineStep reader (readInformation fuel reader).2 := by
  induction fuel generalizing reader with
  | zero => exact .refl reader
  | succ fuel ih =>
    rw [readInformation]
    split
    · exact .refl reader
    · split
      · exact (lineStep_popLine reader).trans (ih _)
      · split
        · exact (lineStep_readBraced _ _ reader).trans (ih _)
        · split
          · exact (lineStep_popLine reader).trans (ih _)
          · exact .refl reader

theorem lineStep_readDeclaration (fuel : Nat) (before : Text) (reader : TokenReader) :
    LineStep reader (readDeclaration fuel before reader).2 := by
  induction fuel generalizing before reader with
  | zero => exact .refl reader
  | succ fuel ih =>
    rw [readDeclaration]
    split
    · rename_i rest h
      exact lineStep_of_popLine h
    · rename_i line rest h
      have hs := lineStep_of_popLine h
      dsimp only
      split
      · exact hs
      · split
        · exact hs
        · exact hs.trans (ih _ rest)

/-- A declaration takes at least one line. -/
theorem length_readDeclaration_lt {fuel : Nat} {before t : Text} {reader rest : TokenReader}
    (h : readDeclaration fuel before reader = (some t, rest)) : rest.lines.length < reader.lines.length := by
  induction fuel generalizing before reader with
  | zero => simp [readDeclaration] at h
  | succ fuel ih =>
    rw [readDeclaration] at h
    split at h
    · simp at h
    · rename_i line next hp
      have hlt : next.lines.length < reader.lines.length := by
        have hl := length_popLine_lt (show reader.popLine.1 = some line by rw [hp])
        rwa [hp] at hl
      dsimp only at h
      split at h
      · cases h; exact hlt
      · split at h
        · simp at h
        · exact Nat.lt_trans (ih h) hlt

theorem lineStep_readParameters (fuel : Nat) (names : List Text) (declared : List (Text × Parameter))
    (reader : TokenReader) : LineStep reader (readParameters fuel names declared reader).2 := by
  induction fuel generalizing declared reader with
  | zero => exact .refl reader
  | succ fuel ih =>
    rw [readParameters]
    split
    · exact .refl reader
    · split
      · exact .refl reader
      · split
        · exact .refl reader
        · split
          · exact .refl reader
          · exact (lineStep_popLine reader).trans (ih _ _)

theorem lineStep_readPrototype (reader : TokenReader) : LineStep reader (readPrototype reader).2 := by
  have hd := lineStep_readDeclaration reader.lines.length [] reader
  unfold readPrototype
  split
  · rename_i rest h
    rwa [h] at hd
  · rename_i t rest h
    rw [h] at hd
    split
    · exact hd
    · rename_i prototype names _
      split
      · exact hd
      · have hp := hd.trans (lineStep_readParameters (rest.lines.length + 1) names [] rest)
        split <;> rename_i he <;> rwa [he] at hp

/-- A function head takes at least one line. -/
theorem length_readPrototype_lt {reader rest : TokenReader} {prototype : Prototype}
    (h : readPrototype reader = (some prototype, rest)) : rest.lines.length < reader.lines.length := by
  unfold readPrototype at h
  split at h
  · simp at h
  · rename_i t next hd
    have hlt := length_readDeclaration_lt hd
    split at h
    · simp at h
    · rename_i head names _
      split at h
      · cases h; exact hlt
      · have hp := (lineStep_readParameters (next.lines.length + 1) names [] next).advances.length_le
        split at h
        · simp at h
        · rename_i declared last he
          rw [he] at hp
          cases h
          exact Nat.lt_of_le_of_lt hp hlt

theorem lineStep_of_restore {before after : TokenReader} (h : LineStep before after) :
    LineStep before (after.restore before.mark) := by
  rw [h.advances.restore_mark]
  exact .refl before

theorem lineStep_readEntries (fuel : Nat) (reader : TokenReader) :
    LineStep reader (readEntries fuel reader).2 := by
  induction fuel generalizing reader with
  | zero => exact .refl reader
  | succ fuel ih =>
    have hi := lineStep_readInformation reader.lines.length reader
    rw [readEntries]
    dsimp only
    split
    · exact lineStep_of_restore hi
    · have hp := hi.trans (lineStep_readPrototype (readInformation reader.lines.length reader).2)
      split
      · rename_i ahead h
        rw [h] at hp
        exact lineStep_of_restore hp
      · rename_i prototype rest h
        rw [h] at hp
        exact hp.trans (ih rest)

/-- Entries take at least one line. -/
theorem length_readEntries_lt {fuel : Nat} {reader : TokenReader} (h : (readEntries fuel reader).1 ≠ []) :
    (readEntries fuel reader).2.lines.length < reader.lines.length := by
  cases fuel with
  | zero => simp [readEntries] at h
  | succ fuel =>
    have hi := (lineStep_readInformation reader.lines.length reader).advances.length_le
    rw [readEntries] at h ⊢
    dsimp only at h ⊢
    split at h
    · simp at h
    · rename_i ho
      rw [if_neg ho]
      split at h
      · simp at h
      · rename_i prototype rest hp
        have hr := length_readPrototype_lt hp
        have hm := (lineStep_readEntries fuel rest).advances.length_le
        change (readEntries fuel rest).2.lines.length < reader.lines.length
        omega

end Function

end RoffDocBook.Synopsis
