import RoffDocBook.Configuration.Expansion
import RoffDocBook.FileTree
import RoffDocBook.Toml.Document
import RoffDocBook.Toml.Scalar

/-! What a configuration file says, and what is wrong with one. -/
namespace RoffDocBook
open Text

inductive ConfigurationError where
  | notFound (path : Text)
  | unreadable (error : FileError)
  | malformed
  | invalid (reason : String)
  /-- A variable is not set that the value of a field refers to. -/
  | unset (field : String) (name : Text)
  deriving DecidableEq

def ConfigurationError.message : ConfigurationError → String
  | notFound path => "Configuration file not found: " ++ String.ofList path
  | unreadable error => "I/O error: " ++ error.message
  | malformed => "TOML parse error: the file is not a valid configuration"
  | invalid reason => "Configuration error: " ++ reason
  | unset field name =>
    "Environment variable error in " ++ field ++ ": $\x7b" ++ String.ofList name ++ "\x7d not set"

/-- The fields that a configuration file gives. -/
structure ConfigurationFile where
  docbook : Option Nat := none
  comments : Option Bool := none
  encodings : Option (List Text) := none
  includeDirs : Option (List Text) := none
  packageDirs : Option (List Text) := none
  portability : Option Bool := none
  quiet : Option Bool := none
  equationCommand : Option Text := none
  diagramCommand : Option Text := none
  hintsFile : Option Text := none
  defines : Option (List (Text × Text)) := none
  ignored : Option (List Text) := none

namespace ConfigurationFile
open Toml

/-- A number that fits in a byte. -/
def byte? : Value → Option Nat
  | .integer n => if 0 ≤ n && n < 256 then some n.toNat else none
  | _ => none

def boolean? : Value → Option Bool
  | .boolean b => some b
  | _ => none

def text? : Value → Option Text
  | .string t => some t
  | _ => none

def texts? : Value → Option (List Text)
  | .array items => items.mapM text?
  | _ => none

/-- The name of the one entry of the table that a date or a time is read as. -/
def momentName : Text :=
  "$__toml_private_datetime"

def textEntries? : Value → Option (List (Text × Text))
  | .table _ entries => entries.mapM fun entry => (text? entry.2).map (entry.1, ·)
  | .dateTime written => some [(momentName, written)]
  | _ => none

/-- The sections of a configuration file with their fields. -/
def sections : List (Text × List Text) :=
  [("output", ["docbook", "comments"]),
    ("input", ["encodings", "include_dirs", "macro_dirs"]),
    ("diagnostics", ["portability", "quiet"]),
    ("filters", ["eqn", "pic"]),
    ("hints", ["file"]),
    ("troff", ["defines", "ignore"])]

/-- A section as a table: it may be given by its values alone in the order of the fields, and values after those are not
read. -/
def asTable (fields : List Text) : Value → Value
  | .array items => .table .inline (fields.zip items)
  | .tables before last => .table .inline (fields.zip ((before ++ [last]).map (.table .defined)))
  | value => value

/-- What is read of the entries of a configuration file, if all numbers in it can be read. -/
def readable? (entries : Entries) : Option Entries :=
  let entries : Entries := entries.map fun (name, value) =>
    match sections.lookup name with
    | some fields => (name, asTable fields value)
    | none => (name, value)
  if areEntriesReadable entries then some entries else none

/-- The entries of a section. -/
def sectionEntries? (entries : Entries) (name : Text) : Option Entries :=
  match entries.lookup name with
  | none => some []
  | some (.table _ entries) => some entries
  | some (.dateTime _) => some []
  | some _ => none

/-- A field of a section, which has the right type if it is given. -/
def field? {α : Type} (read : Value → Option α) (entries : Entries) (name : Text) : Option (Option α) :=
  match entries.lookup name with
  | none => some none
  | some value => (read value).map some

/-- The fields in the entries of a configuration file; those without a meaning are passed over. -/
def ofEntries? (entries : Entries) : Option ConfigurationFile := do
  let entries ← readable? entries
  let output ← sectionEntries? entries "output"
  let input ← sectionEntries? entries "input"
  let diagnostics ← sectionEntries? entries "diagnostics"
  let filters ← sectionEntries? entries "filters"
  let hints ← sectionEntries? entries "hints"
  let troff ← sectionEntries? entries "troff"
  pure {
    docbook := ← field? byte? output "docbook"
    comments := ← field? boolean? output "comments"
    encodings := ← field? texts? input "encodings"
    includeDirs := ← field? texts? input "include_dirs"
    packageDirs := ← field? texts? input "macro_dirs"
    portability := ← field? boolean? diagnostics "portability"
    quiet := ← field? boolean? diagnostics "quiet"
    equationCommand := ← field? text? filters "eqn"
    diagramCommand := ← field? text? filters "pic"
    hintsFile := ← field? text? hints "file"
    defines := ← field? textEntries? troff "defines"
    ignored := ← field? texts? troff "ignore" }

/-- The value of a field with its references to variables replaced. -/
def expandField (env : Variables) (field : String) (value : Text) : Except ConfigurationError Text :=
  (env.expand value).mapError (.unset field)

/-- The values of a field with their references to variables replaced, where errors count them from zero. -/
def expandItems (env : Variables) (field : String) (values : List Text) : Except ConfigurationError (List Text) :=
  values.zipIdx.mapM fun (value, i) => expandField env (field ++ "[" ++ toString i ++ "]") value

/-- The file with the references to variables replaced in the fields that may have them. -/
def expand (file : ConfigurationFile) (env : Variables) : Except ConfigurationError ConfigurationFile := do
  pure { file with
    includeDirs := ← file.includeDirs.mapM (expandItems env "input.include_dirs")
    packageDirs := ← file.packageDirs.mapM (expandItems env "input.macro_dirs")
    equationCommand := ← file.equationCommand.mapM (expandField env "filters.eqn")
    diagramCommand := ← file.diagramCommand.mapM (expandField env "filters.pic")
    hintsFile := ← file.hintsFile.mapM (expandField env "hints.file") }

end ConfigurationFile

end RoffDocBook
