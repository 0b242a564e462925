import RoffDocBook.Text.Basic

/-! Written paths, whose names are divided by slashes: the directory and the file name of a path, and paths made from
others. -/
namespace RoffDocBook.Path
open Text

/-- Whether a segment of a path names nothing. -/
def isIdle (segment : Text) : Bool :=
  segment.isEmpty || segment == ['.']

/-- The segments of a path without those at its end that name nothing; one at its start stays. -/
def trimSegments (segments : List Text) : List Text :=
  match segments with
  | [] => []
  | first :: rest => first :: (rest.reverse.dropWhile isIdle).reverse

/-- The directory and the last name of a path, unless the path has no name. -/
def split? (path : Text) : Option (Text × Text) :=
  match (trimSegments (splitOn '/' path)).reverse with
  | [] => none
  | [name] => if name.isEmpty then none else some ([], name)
  | name :: before =>
    match trimSegments before.reverse with
    | [[]] => some (['/'], name)
    | segments => some (join ['/'] segments, name)

/-- The directory of a path: nothing for a name alone. -/
def directory? (path : Text) : Option Text :=
  (split? path).map Prod.fst

/-- The file name of a path. -/
def fileName? (path : Text) : Option Text :=
  ((split? path).map Prod.snd).filter fun name => name != ['.'] && name != "..".toList

/-- A file name without what follows its last point; a point at its start does not count. -/
def stem (name : Text) : Text :=
  match breakOnLast? "." name with
  | some (before, _) => if before.isEmpty then name else before
  | none => name

/-- A path inside a directory; an absolute path stays as it is. -/
def within (directory path : Text) : Text :=
  if startsWith path "/" then path
  else if directory.isEmpty || endsWith directory "/" then directory ++ path
  else directory ++ "/" ++ path

/-- The path of a file beside another one. -/
def beside (path name : Text) : Text :=
  match fileName? path with
  | some _ => within ((directory? path).getD []) name
  | none => within path name

/-- The absolute path with the given names on it. -/
def ofNames (names : List Text) : Text :=
  '/' :: join ['/'] names

/-- The names on a path; a doubled slash and a single point name nothing. -/
def names (path : Text) : List Text :=
  (splitOn '/' path).filter fun segment => !isIdle segment

end RoffDocBook.Path

/-! The files that a run can read and write, as a tree of directories. -/
namespace RoffDocBook
open Text

/-- The names on a path from the root, the outermost first. -/
abbrev FilePath := List Text

/-- Why a path cannot be read or written. -/
inductive FileError where
  | missing
  | notDirectory
  | isDirectory
  | occupied
  | denied
  | notText
  deriving DecidableEq, Repr

def FileError.message : FileError → String
  | missing => "No such file or directory (os error 2)"
  | notDirectory => "Not a directory (os error 20)"
  | isDirectory => "Is a directory (os error 21)"
  | occupied => "File exists (os error 17)"
  | denied => "Permission denied (os error 13)"
  | notText => "stream did not contain valid UTF-8"

/-- Files with their bytes, and directories, by the names on their paths. -/
structure FileTree where
  /-- The directory that relative paths start from. -/
  here : FilePath := []
  files : List (FilePath × List UInt8) := []
  directories : List FilePath := []

namespace FileTree

/-- Whether a path leads to a directory: one that is given, or one with something in it. -/
def isDirectory (tree : FileTree) (path : FilePath) : Bool :=
  path.isPrefixOf tree.here || tree.directories.any (path.isPrefixOf ·) ||
    tree.files.any fun file => path.isPrefixOf file.1 && path != file.1

def isFile (tree : FileTree) (path : FilePath) : Bool :=
  (tree.files.lookup path).isSome

/-- The path that a list of names leads to from a directory, each step but the last through a directory. -/
def walk (tree : FileTree) : FilePath → List Text → Except FileError FilePath
  | place, [] => .ok place
  | place, name :: rest =>
    if tree.isFile place then .error .notDirectory
    else if !tree.isDirectory place then .error .missing
    else walk tree (if name == ".." then place.dropLast else place ++ [name]) rest

/-- The place in the tree that a written path leads to, whether or not there is anything. -/
def locate (tree : FileTree) (path : Text) : Except FileError FilePath :=
  if path.isEmpty then .error .missing
  else tree.walk (if startsWith path "/" then [] else tree.here) (Path.names path)

/-- Whether a path is written as one of a directory. -/
def asksDirectory (path : Text) : Bool :=
  endsWith path "/" || endsWith path "/."

/-- The file or the directory that a written path leads to. -/
def find (tree : FileTree) (path : Text) : Except FileError FilePath := do
  let place ← tree.locate path
  if tree.isDirectory place then pure place
  else if !tree.isFile place then throw .missing
  else if asksDirectory path then throw .notDirectory
  else pure place

def contains (tree : FileTree) (path : Text) : Bool :=
  (tree.find path).isOk

def hasDirectory (tree : FileTree) (path : Text) : Bool :=
  ((tree.find path).toOption.map tree.isDirectory).getD false

/-- The bytes of a file. -/
def read (tree : FileTree) (path : Text) : Except FileError (List UInt8) := do
  let place ← tree.find path
  match tree.files.lookup place with
  | some bytes => pure bytes
  | none => throw .isDirectory

/-- The bytes of a file, if there is one. -/
def read? (tree : FileTree) (path : Text) : Option (List UInt8) :=
  (tree.read path).toOption

/-- Puts bytes in the place of a file, in a directory that exists. -/
def write (tree : FileTree) (path : Text) (bytes : List UInt8) : Except FileError FileTree := do
  let directory := (Path.directory? path).getD []
  let directory : Text := if directory.isEmpty then "." else directory
  let parent ← tree.find directory
  if !tree.isDirectory parent then throw .notDirectory
  let place ← tree.locate path
  if tree.isDirectory place then throw .isDirectory
  if asksDirectory path then throw .notDirectory
  pure { tree with files := (place, bytes) :: tree.files.filter fun file => file.1 != place }

/-- Adds bytes at the end of the file at a place. -/
def append (tree : FileTree) (place : FilePath) (bytes : List UInt8) : FileTree :=
  { tree with files := tree.files.map fun file => if file.1 = place then (place, file.2 ++ bytes) else file }

/-- Takes away the file or the directory at a place, with everything in it. -/
def remove (tree : FileTree) (place : FilePath) : FileTree :=
  { tree with
    files := tree.files.filter fun file => !place.isPrefixOf file.1
    directories := tree.directories.filter fun directory => !place.isPrefixOf directory }

/-- Makes a directory in one that exists, where nothing is yet. -/
def makeDirectory (tree : FileTree) (path : Text) : Except FileError FileTree := do
  let place ← tree.locate path
  if tree.isFile place || tree.isDirectory place then throw .occupied
  if !tree.isDirectory place.dropLast then throw .missing
  pure { tree with directories := place :: tree.directories }

/-- The names in a directory. -/
def names (tree : FileTree) (directory : FilePath) : List Text :=
  ((tree.files.map Prod.fst ++ tree.directories).filterMap fun place =>
    if directory.isPrefixOf place then place[directory.length]? else none).eraseDups

end FileTree

/-- Bytes read as characters of the first 256 code points. -/
def decodeBytes (bytes : List UInt8) : Text :=
  bytes.map fun byte => Char.ofNat byte.toNat

/-- The bytes that characters of the first 256 code points stand for. -/
def encodeBytes (t : Text) : List UInt8 :=
  t.map fun c => c.toNat.toUInt8

end RoffDocBook
