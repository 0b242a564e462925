import RoffDocBook.Configuration.File
import RoffDocBook.Encoding.Utf8
import RoffDocBook.Settings
import RoffDocBook.Text.Quoted

/-! The configuration of a run: what the configuration file gives, and what the command line puts over it. -/
namespace RoffDocBook
open Text

structure Configuration where
  docbook : Nat := 4
  comments : Bool := false
  portability : Bool := false
  quiet : Bool := false
  includeDirs : List Text := [['.']]
  packageDirs : List Text := []
  encodings : List Text := ["utf-8".toList, "iso-8859-1".toList]
  equationCommand : Text := "eqn -TMathML"
  diagramCommand : Text := "pic2plot -Tsvg"
  hintsFile : Option Text := none
  /-- Strings that are defined before the first line is read, in ascending order of their names. -/
  defines : List (Text × Text) := []
  ignored : List Text := []
  /-- The file that the configuration was read from. -/
  file : Option Text := none

/-- What the command line puts over a configuration. -/
structure Overrides where
  docbookFive : Option Bool := none
  comments : Option Bool := none
  portability : Option Bool := none
  quiet : Option Bool := none
  /-- Directories and requests are added to those of the configuration. -/
  includeDirs : List Text := []
  ignored : List Text := []
  defines : List (Text × Text) := []
  hintsFile : Option Text := none

namespace Configuration

/-- The definitions of strings with one more, which takes the place of one under the same name. -/
def define (entry : Text × Text) : List (Text × Text) → List (Text × Text)
  | [] => [entry]
  | first :: rest =>
    if entry.1 = first.1 then entry :: rest
    else if entry.1 < first.1 then entry :: first :: rest
    else first :: define entry rest

def defineAll (defines entries : List (Text × Text)) : List (Text × Text) :=
  entries.foldl (fun defines entry => define entry defines) defines

/-- The configuration of a file, whose relative paths start from the directory of the file. -/
def ofFile (path : Text) (file : ConfigurationFile) : Configuration :=
  let default : Configuration := {}
  let resolve := Path.within ((Path.directory? path).getD ['.'])
  { docbook := file.docbook.getD default.docbook
    comments := file.comments.getD default.comments
    portability := file.portability.getD default.portability
    quiet := file.quiet.getD default.quiet
    includeDirs := (file.includeDirs.map (·.map resolve)).getD default.includeDirs
    packageDirs := (file.packageDirs.map (·.map resolve)).getD default.packageDirs
    encodings := file.encodings.getD default.encodings
    equationCommand := file.equationCommand.getD default.equationCommand
    diagramCommand := file.diagramCommand.getD default.diagramCommand
    hintsFile := file.hintsFile.map resolve
    defines := defineAll [] (file.defines.getD [])
    ignored := file.ignored.getD []
    file := some path }

/-- Checks the values of a configuration. -/
def validate (configuration : Configuration) : Except ConfigurationError Unit := do
  if configuration.docbook != 4 && configuration.docbook != 5 then
    throw (.invalid ("output.docbook must be 4 or 5, not " ++ toString configuration.docbook))
  if configuration.encodings.isEmpty then
    throw (.invalid "input.encodings cannot be empty")
  match configuration.defines.find? fun entry => entry.1.isEmpty || entry.1.any isBlank with
  | some (name, _) =>
    throw (.invalid ("troff.defines has an invalid string name " ++ String.ofList (inQuotes name)))
  | none => pure ()

/-- Reads the configuration file at a path. -/
def read (files : FileTree) (env : Variables) (path : Text) : Except ConfigurationError Configuration := do
  let bytes ← (files.read path).mapError .unreadable
  let some text := Encoding.decodeText? bytes | throw (.unreadable .notText)
  let some entries := Toml.parse? text | throw .malformed
  let some file := ConfigurationFile.ofEntries? entries | throw .malformed
  let configuration := ofFile path (← file.expand env)
  configuration.validate
  pure configuration

/-- The usual name of a configuration file. -/
def fileName : Text :=
  "rofflift.toml"

/-- Where a file of the usual name is looked for: in the directory at hand and in those above it. -/
def candidates (files : FileTree) : List Text :=
  let above := (List.range (files.here.length + 1)).map fun depth => files.here.take (files.here.length - depth)
  above.map fun names => Path.within (Path.ofNames names) fileName

/-- The nearest file of the usual name. -/
def discover? (files : FileTree) : Option Text :=
  (candidates files).find? files.contains

def override (configuration : Configuration) (overrides : Overrides) : Configuration :=
  { configuration with
    docbook := (overrides.docbookFive.map fun five => if five then 5 else 4).getD configuration.docbook
    comments := overrides.comments.getD configuration.comments
    portability := overrides.portability.getD configuration.portability
    quiet := overrides.quiet.getD configuration.quiet
    includeDirs := configuration.includeDirs ++ overrides.includeDirs
    ignored := configuration.ignored ++ overrides.ignored
    defines := defineAll configuration.defines overrides.defines
    hintsFile := overrides.hintsFile <|> configuration.hintsFile }

/-- The configuration of a run: of a given file, of one that is found, or of none. -/
def load (files : FileTree) (env : Variables) (path : Option Text) (overrides : Overrides) :
    Except ConfigurationError Configuration := do
  let configuration ←
    match path with
    | some path => if files.contains path then read files env path else throw (.notFound path)
    | none =>
      match discover? files with
      | some path => read files env path
      | none => pure { includeDirs := [Path.ofNames files.here] }
  pure (configuration.override overrides)

/-- The settings of the conversions that a configuration asks for. -/
def settings (configuration : Configuration) : Settings :=
  { edition := if configuration.docbook == 5 then .five else .four
    comments := configuration.comments
    portability := configuration.portability
    includeDirs := configuration.includeDirs.map String.ofList
    packageDirs := configuration.packageDirs.map String.ofList
    encodings := configuration.encodings.map String.ofList
    defines := configuration.defines.map fun entry => (String.ofList entry.1, entry.2)
    ignored := configuration.ignored.map String.ofList }

end Configuration

end RoffDocBook
