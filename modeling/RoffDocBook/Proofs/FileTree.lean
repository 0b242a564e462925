import RoffDocBook.FileTree

/-! Files that are written one after another. Writing a file moves nothing: every path leads where it led before, and
only the file at the place that was written to has other bytes. -/
namespace RoffDocBook
open Text

deriving instance DecidableEq for FileTree

namespace FileTree
variable {tree after : FileTree} {path : Text} {place : FilePath} {bytes : List UInt8}

/-- Whether everything above a place is a directory. -/
def Reaches (tree : FileTree) (place : FilePath) : Prop :=
  ∀ above, above <+: place → above ≠ place → tree.isDirectory above = true

/-- The tree with bytes in the place of a file. -/
def put (tree : FileTree) (place : FilePath) (bytes : List UInt8) : FileTree :=
  { tree with files := (place, bytes) :: tree.files.filter fun file => file.1 != place }

/-- Whether a path leads to a place where a file is, or can be. -/
structure Leads (tree : FileTree) (path : Text) (place : FilePath) : Prop where
  located : tree.locate path = .ok place
  free : tree.isDirectory place = false
  asksFile : asksDirectory path = false

namespace Leads

theorem unique {other : FilePath} (h : tree.Leads path place) (hother : tree.Leads path other) : place = other :=
  Except.ok.inj (h.located.symm.trans hother.located)

end Leads

/-- The tree after bytes are written to paths in turn. -/
def writeAll (tree : FileTree) : List (Text × List UInt8) → Except FileError FileTree
  | [] => .ok tree
  | (path, bytes) :: rest => do
    let tree ← tree.write path bytes
    tree.writeAll rest

variable {entries : List (Text × List UInt8)}

end FileTree

end RoffDocBook
