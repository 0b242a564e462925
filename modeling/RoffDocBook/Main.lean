import RoffDocBook.CommandLine.Run
import Std.Time.DateTime.Timestamp

/-! The program: it reads what a run may need, runs, and writes what the run has made. -/
namespace RoffDocBook.CommandLine

/-- The files with what a path leads to, if there is anything. -/
def addPath (files : FileTree) (path : Text) : IO FileTree := do
  let absolute := Path.within (Path.ofNames files.here) path
  let place : FilePath := (Path.names absolute).foldl (fun place name =>
    if name = "..".toList then place.dropLast else place ++ [name]) []
  if files.isFile place then return files
  try
    let bytes ← IO.FS.readBinFile (String.ofList absolute)
    pure { files with files := (place, bytes.toList) :: files.files }
  catch error =>
    match error with
    | .inappropriateType .. => pure { files with directories := place :: files.directories }
    | _ => pure files

/-- The values of variables that are set. -/
def environmentOf (names : List Text) : IO Variables := do
  names.filterMapM fun name => do
    let value ← IO.getEnv (String.ofList name)
    pure (value.map fun value => (name, value.toList))

/-- The variables that a run may refer to. -/
def gatherVariables (files : FileTree) : IO Variables :=
  environmentOf (files.files.flatMap fun file => mentionedVariables (decodeBytes file.2))

/-- Reads the paths that a run may need, and those that they lead to in turn. -/
partial def gather (options : Options) (env : Variables) (files : FileTree) (tried : List Text) :
    IO FileTree := do
  match (wanted options env files).eraseDups.filter fun path => !tried.contains path with
  | [] => pure files
  | paths => gather options env (← paths.foldlM addPath files) (tried ++ paths)

/-- Makes the directories, writes the files and takes away the files that a run has made, changed and taken away. -/
def writeChanges (before after : FileTree) : IO Unit := do
  let named (place : FilePath) : String := String.ofList (Path.ofNames place)
  for directory in after.directories do
    if !before.isDirectory directory then IO.FS.createDirAll (named directory)
  for (place, bytes) in after.files do
    if before.files.lookup place != some bytes then
      IO.FS.writeBinFile (named place) (ByteArray.mk bytes.toArray)
  for (place, _) in before.files do
    if !after.isFile place then IO.FS.removeFile (named place)

/-- The number of the day at hand, counted from 1 January 1970. -/
def currentDay : IO Nat := do
  let now ← Std.Time.Timestamp.now
  pure (now.toSecondsSinceUnixEpoch.val.toNat / 86400)

/-- Runs the program with its arguments. -/
def program (arguments : List Text) : IO UInt32 := do
  let bare : FileTree := { here := Path.names (← IO.currentDir).toString.toList }
  let env ← environmentOf ["ROFFLIFT_CONFIG".toList]
  let mut files := bare
  let mut known := env
  let mut input := ByteArray.empty
  if let .ok asked := options arguments env then
    let configured ← (configurationFiles asked bare).foldlM addPath bare
    known := env ++ (← gatherVariables configured)
    files ← gather asked known configured (configurationFiles asked bare)
    if asked.files.isEmpty then
      input ← (← IO.getStdin).readBinToEnd
  let report := run arguments known files input.toList (← currentDay)
  IO.print (String.ofList report.output)
  IO.eprint (String.ofList report.messages)
  writeChanges files report.files
  pure report.status.toUInt32

end RoffDocBook.CommandLine

def main (arguments : List String) : IO UInt32 :=
  RoffDocBook.CommandLine.program (arguments.map String.toList)
