import RoffDocBook.Text.Basic

/-! The choices that shape a whole run of conversions. -/
namespace RoffDocBook

/-- The edition of the document type that is written. -/
inductive Edition where
  | four
  | five
  deriving DecidableEq, Repr, Inhabited

structure Settings where
  edition : Edition := .four
  /-- Whether comments of the source become comments of the document. -/
  comments : Bool := false
  /-- Whether requests that not every formatter knows are reported. -/
  portability : Bool := false
  /-- Directories in which an included file is looked for. -/
  includeDirs : List String := ["."]
  /-- Directories in which a file of request definitions is looked for. -/
  packageDirs : List String := []
  /-- Encodings of the source, in the order in which they are tried. -/
  encodings : List String := ["utf-8", "iso-8859-1"]
  /-- Strings that are defined before the first line is read. -/
  defines : List (String × Text) := []
  /-- Further requests that are dropped without a word. -/
  ignored : List String := []
  /-- The day of the conversion, in days after 1 January 1970. -/
  today : Nat := 0

end RoffDocBook
