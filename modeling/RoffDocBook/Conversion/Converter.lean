import RoffDocBook.FileTree

/-! Converters for the blocks of other languages inside a source: equations and diagrams. -/
namespace RoffDocBook

inductive BlockKind where
  | equation
  | diagram
  deriving DecidableEq, Repr

namespace BlockKind

/-- The request that opens a block. -/
def opener : BlockKind → String
  | equation => "EQ"
  | diagram => "PS"

/-- The request that closes a block. -/
def closer : BlockKind → String
  | equation => "EN"
  | diagram => "PE"

end BlockKind

inductive BlockResult where
  | markup (text : Text)
  /-- The block is of the converter's kind, but it could not be converted. -/
  | failed (reason : Text)
  /-- The block is not for this converter. -/
  | passed
  deriving DecidableEq

/-- What becomes of a block of some kind with a given source, and of the files. -/
abbrev Converter := FileTree → BlockKind → Text → BlockResult × FileTree

end RoffDocBook
