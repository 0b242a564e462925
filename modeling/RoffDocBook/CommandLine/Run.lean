import RoffDocBook.CommandLine.Options
import RoffDocBook.Conversion.Basic
import RoffDocBook.Conversion.Command

/-! A run of the program: files are converted into files beside them, or the standard input into the standard
output. -/
namespace RoffDocBook.CommandLine
open Text

/-- What a run has done. -/
structure Report where
  status : Nat := 0
  /-- What is written to the standard output. -/
  output : Text := []
  /-- What is written about the run. -/
  messages : Text := []
  /-- The files after the run. -/
  files : FileTree := {}

/-- The state of a run between its conversions. -/
structure Session where
  configuration : Configuration := {}
  env : Variables := []
  outputDir : Option Text := none
  today : Nat := 0
  files : FileTree := {}
  hints : Hints := {}
  messages : Text := []

namespace Session

def say (session : Session) (line : Text) : Session :=
  { session with messages := session.messages ++ line ++ "\n" }

/-- Says what a quiet run leaves out. -/
def inform (session : Session) (line : Text) : Session :=
  if session.configuration.quiet then session else session.say line

def report (session : Session) (diagnostic : Diagnostic) : Session :=
  match diagnostic.severity with
  | .warning => session.inform diagnostic.render
  | .error => session.say diagnostic.render

/-- What the conversions of a run share, with the files as they are now. -/
def environment (session : Session) : Environment :=
  let command (kind : BlockKind) (line : Text) := (ConverterCommand.ofLine? kind line).toList
  let commands :=
    command .equation session.configuration.equationCommand ++ command .diagram session.configuration.diagramCommand
  { settings := { session.configuration.settings with today := session.today }
    files := session.files
    converters := commands.map fun command => command.converter session.env }

/-- Converts bytes under a name and tells what was found: the document, if there is one, and the exit status. -/
def convert (session : Session) (name : Text) (bytes : List UInt8) : Option Text × Nat × Session :=
  let conversion := Conversion.ofBytes session.environment session.hints (String.ofList name) bytes
  let session := { session with hints := conversion.hints, files := conversion.files }
  let session := conversion.diagnostics.foldl report session
  match conversion.result with
  | .ok (document, _) => (some document, 0, session)
  | .error failure =>
    let document :=
      match failure with
      | .flawed _ document => some document
      | _ => none
    (document, failure.exitCode, session.say ("rofflift: " ++ name ++ ": " ++ failure.message))

/-- The path of the document of a file: under the same name beside the file, or in the directory for documents. -/
def outputPath (file : Text) (outputDir : Option Text) : Text :=
  let name := ((Path.fileName? file).map Path.stem).getD "stdin" ++ ".xml"
  match outputDir with
  | some directory => Path.within directory name
  | none => Path.beside file name

/-- Converts a file into another one. -/
def convertFile (session : Session) (file : Text) : Nat × Session :=
  match session.files.read file with
  | .error error => (1, session.say ("rofflift: " ++ file ++ ": " ++ error.message))
  | .ok bytes =>
    match session.convert file bytes with
    | (none, status, session) => (status, session)
    | (some document, status, session) =>
      let target := outputPath file session.outputDir
      match session.files.write target (Encoding.utf8 document) with
      | .ok files => (status, { session with files }.inform (file ++ " -> " ++ target))
      | .error error =>
        (max status 1, session.say ("rofflift: cannot write " ++ target ++ ": " ++ error.message))

/-- Converts files in turn, past failures: the status of each one, and the state after the last. -/
def convertAll (session : Session) : List Text → List Nat × Session
  | [] => ([], session)
  | file :: rest =>
    let (status, session) := session.convertFile file
    let (statuses, session) := session.convertAll rest
    (status :: statuses, session)

/-- Converts files in turn; the highest status is that of the run. -/
def convertBatch (session : Session) (files : List Text) : Nat × Session :=
  let (statuses, session) := session.convertAll files
  let session :=
    if files.length ≤ 1 then session
    else
      session.inform ("Translated " ++ Text.ofNat (statuses.count 0) ++ " of " ++ Text.ofNat files.length ++ " files")
  (statuses.foldl max 0, session)

end Session

/-- The hints in a file; a file that is missing has none. -/
def readHints (files : FileTree) (path : Text) : Except FileError Hints :=
  match files.read path with
  | .error .missing => .ok {}
  | .error error => .error error
  | .ok bytes =>
    match Encoding.decodeText? bytes with
    | some text => .ok (Hints.read {} .global text).1
    | none => .error .notText

/-- Converts what the options name, and keeps the hints. The error is why nothing was done, or not everything. -/
def convert (options : Options) (env : Variables) (files : FileTree) (input : List UInt8) (today : Nat) :
    Except Text Report := do
  let configuration ←
    (Configuration.load files env options.configuration options.overrides).mapError (·.message.toList)
  if let some directory := options.outputDir then
    if !files.hasDirectory directory then throw ("output directory " ++ directory ++ " does not exist")
  let hints ← (configuration.hintsFile.mapM (readHints files)).mapError (·.message.toList)
  let session : Session := { configuration, env, outputDir := options.outputDir, today, files, hints := hints.getD {} }
  let (output, status, session) :=
    if options.files.isEmpty then session.convert "stdin" input
    else (none, session.convertBatch options.files)
  let report : Report :=
    { status, output := output.getD [], messages := session.messages, files := session.files }
  match configuration.hintsFile with
  | none => pure report
  | some path =>
    match session.files.write path (Encoding.utf8 session.hints.dump) with
    | .ok files => pure { report with files }
    | .error error =>
      let line := "Error: cannot write " ++ path ++ ": " ++ error.message ++ "\n"
      pure { report with status := 1, messages := report.messages ++ line }

/-- Runs the program with its arguments. -/
def run (arguments : List Text) (env : Variables) (files : FileTree) (input : List UInt8) (today : Nat) :
    Report :=
  match options arguments env with
  | .error refusal =>
    if refusal.exitCode == 0 then { output := refusal.message, files }
    else { status := refusal.exitCode, messages := refusal.message, files }
  | .ok options =>
    match convert options env files input today with
    | .ok report => report
    | .error message => { status := 1, messages := "Error: " ++ message ++ "\n", files }

end RoffDocBook.CommandLine

/-! What a run may read, as far as its options, its configuration and the files read so far tell. -/
namespace RoffDocBook.CommandLine
open Text

/-- The names of the variables that a text refers to. -/
def mentionedVariables (t : Text) : List Text :=
  (splitOn '$' t).drop 1 |>.map fun reference =>
    match reference with
    | '\x7b' :: braced => (Variables.splitDefault (spanUntil (· == '\x7d') braced).1).1
    | _ => reference.takeWhile Variables.isNameChar

/-- The files that the words of a text name in requests that include files. -/
def includedFiles : List Text → List Text
  | request :: file :: rest =>
    let isInclusion := [".so", "'so", ".mso", "'mso"].any fun name => request == name.toList
    let named := if isInclusion then [file, file ++ ".tmac", "tmac." ++ file] else []
    named ++ includedFiles (file :: rest)
  | _ => []

/-- The files that a text may include, in every directory that is searched for them. -/
def inclusions (options : Options) (configuration : Configuration) (t : Text) : List Text :=
  let directories :=
    options.files.filterMap Path.directory? ++ configuration.includeDirs ++ configuration.packageDirs
  (includedFiles (words t)).flatMap fun file => directories.map (Path.within · file)

/-- The paths of the configuration files that a run looks for. -/
def configurationFiles (options : Options) (files : FileTree) : List Text :=
  match options.configuration with
  | some path => [path]
  | none => Configuration.candidates files

/-- The paths that a run may read with the files read so far. -/
def wanted (options : Options) (env : Variables) (files : FileTree) : List Text :=
  configurationFiles options files ++
    match Configuration.load files env options.configuration options.overrides with
    | .error _ => []
    | .ok configuration =>
      let commands := [configuration.equationCommand, configuration.diagramCommand]
      let beside := configuration.hintsFile.toList.filterMap Path.directory?
      options.outputDir.toList ++ configuration.hintsFile.toList ++ beside ++ options.files ++
        commands.flatMap words ++ files.files.flatMap fun file => inclusions options configuration (decodeBytes file.2)

end RoffDocBook.CommandLine
