import RoffDocBook.Configuration.Basic
import RoffDocBook.Document.Assembly

/-! The options of the command line. -/
namespace RoffDocBook.CommandLine
open Text

/-- What a run is asked for. -/
structure Options where
  files : List Text := []
  outputDir : Option Text := none
  configuration : Option Text := none
  overrides : Overrides := {}

inductive Switch where
  | outputDir | docbookFive | define | includeDir | ignore | hints | comments | portability | quiet | verbose
  | configuration | help | version
  deriving DecidableEq, Repr

namespace Switch

def all : List Switch :=
  [outputDir, docbookFive, define, includeDir, ignore, hints, comments, portability, quiet, verbose, configuration,
    help, version]

def name : Switch → Text
  | outputDir => "output-dir"
  | docbookFive => "docbook5"
  | define => "define"
  | includeDir => "include-dir"
  | ignore => "ignore"
  | hints => "hints"
  | comments => "comments"
  | portability => "portability"
  | quiet => "quiet"
  | verbose => "verbose"
  | configuration => "config"
  | help => "help"
  | version => "version"

def letter? : Switch → Option Char
  | outputDir => some 'o'
  | define => some 'D'
  | includeDir => some 'I'
  | ignore => some 'i'
  | portability => some 'w'
  | quiet => some 'q'
  | verbose => some 'v'
  | configuration => some 'c'
  | help => some 'h'
  | version => some 'V'
  | _ => none

/-- What the value of a switch is called, if it has one. -/
def valueName? : Switch → Option Text
  | outputDir => some "OUTPUT_DIR".toList
  | define => some "NAME=VALUE".toList
  | includeDir => some "DIR".toList
  | ignore => some "MACRO".toList
  | hints => some "FILE".toList
  | configuration => some "CONFIG".toList
  | _ => none

/-- Whether a switch may be given more than once. -/
def isRepeatable : Switch → Bool
  | define => true
  | includeDir => true
  | ignore => true
  | verbose => true
  | _ => false

def purpose : Switch → Text
  | outputDir => "Directory for the generated files (default: next to each source)"
  | docbookFive => "Emit DocBook 5 instead of DocBook 4.5"
  | define => "Predefine a troff string"
  | includeDir => "Add a directory to the search path of included files"
  | ignore => "Ignore a macro wherever it appears"
  | hints => "Read semantic hints from FILE before the run and write them back after"
  | comments => "Pass troff comments through as XML comments"
  | portability => "Warn about non-portable troff requests"
  | quiet => "Suppress warnings"
  | verbose => "Log more"
  | configuration => "Path to configuration file (default: the nearest rofflift.toml)"
  | help => "Print help"
  | version => "Print version"

/-- A switch as it is written out, with the name of its value. -/
def display (switch : Switch) : Text :=
  let value : Text :=
    match switch.valueName? with
    | some value => " <" ++ value ++ ">"
    | none => []
  "--" ++ switch.name ++ value

end Switch

/-- Why the arguments of a command line do not ask for a run. -/
inductive Refusal where
  | help
  | version
  | unknown (argument : Text)
  | repeated (switch : Switch)
  | withoutValue (switch : Switch)
  | withValue (switch : Switch) (value : Text)
  | badDefinition (value : Text)
  | emptyFile
  deriving DecidableEq

namespace Refusal

def usage : Text :=
  "Usage: rofflift [OPTIONS] [FILES]...\n"

def helpText : Text :=
  let line (switch : Switch) : Text :=
    let letter : Text :=
      match switch.letter? with
      | some letter => ['-', letter, ',', ' ']
      | none => "    "
    "  " ++ padEnd 34 (letter ++ switch.display) ++ switch.purpose ++ "\n"
  "Lifts troff sources to DocBook XML\n\n" ++ usage ++ "\nOptions:\n" ++ Switch.all.flatMap line

/-- What is written about the arguments. -/
def message : Refusal → Text
  | help => helpText
  | version => "rofflift " ++ programVersion ++ "\n"
  | unknown argument => "error: unexpected argument '" ++ argument ++ "' found\n\n" ++ usage ++ hint
  | repeated switch =>
    "error: the argument '" ++ switch.display ++ "' cannot be used multiple times\n\n" ++ usage ++ hint
  | withoutValue switch =>
    "error: a value is required for '" ++ switch.display ++ "' but none was supplied\n" ++ hint
  | withValue switch value =>
    "error: unexpected value '" ++ value ++ "' for '" ++ switch.display ++ "' found; no more were expected\n\n" ++
      usage ++ hint
  | badDefinition value =>
    let reason : Text :=
      if Text.contains value "=" then "string name cannot be empty"
      else "expected NAME=VALUE, got " ++ inQuotes value
    "error: invalid value '" ++ value ++ "' for '" ++ Switch.define.display ++ "': " ++ reason ++ "\n" ++ hint
  | emptyFile => "error: a value is required for '[FILES]...' but none was supplied\n" ++ hint
where
  hint : Text := "\nFor more information, try '--help'.\n"

def exitCode : Refusal → Nat
  | help => 0
  | version => 0
  | _ => 2

end Refusal

/-- The arguments read so far. -/
structure Reading where
  options : Options := {}
  /-- The switches that may not be given again. -/
  given : List Switch := []
  /-- The switch whose value is the next argument. -/
  awaiting : Option Switch := none
  /-- Whether all further arguments are files. -/
  filesOnly : Bool := false

namespace Reading

/-- The name and the value of a string definition. -/
def definition? (value : Text) : Option (Text × Text) :=
  (breakOn? "=" value).filter fun parts => !parts.1.isEmpty

/-- The options with a switch and its value taken over. -/
def options? (options : Options) (switch : Switch) (value : Text) : Except Refusal Options :=
  let overrides := options.overrides
  let path : Except Refusal Text := if value.isEmpty then .error (.withoutValue switch) else .ok value
  match switch with
  | .help => .error .help
  | .version => .error .version
  | .verbose => .ok options
  | .docbookFive => .ok { options with overrides := { overrides with docbookFive := some true } }
  | .comments => .ok { options with overrides := { overrides with comments := some true } }
  | .portability => .ok { options with overrides := { overrides with portability := some true } }
  | .quiet => .ok { options with overrides := { overrides with quiet := some true } }
  | .outputDir => path.map fun path => { options with outputDir := some path }
  | .configuration => path.map fun path => { options with configuration := some path }
  | .hints => path.map fun path => { options with overrides := { overrides with hintsFile := some path } }
  | .includeDir =>
    path.map fun path =>
      { options with overrides := { overrides with includeDirs := overrides.includeDirs ++ [path] } }
  | .ignore => .ok { options with overrides := { overrides with ignored := overrides.ignored ++ [value] } }
  | .define =>
    match definition? value with
    | some entry => .ok { options with overrides := { overrides with defines := overrides.defines ++ [entry] } }
    | none => .error (.badDefinition value)

/-- Takes over a switch with its value, which is empty for a switch without one. -/
def take (reading : Reading) (switch : Switch) (value : Text) : Except Refusal Reading := do
  let options ← options? reading.options switch value
  if reading.given.contains switch then throw (.repeated switch)
  let given := if switch.isRepeatable then reading.given else switch :: reading.given
  pure { reading with options, given, awaiting := none }

/-- Reads switches by their letters; what follows a letter whose switch has a value is the value. -/
def letters (reading : Reading) : Text → Except Refusal Reading
  | [] => .ok reading
  | c :: rest =>
    match Switch.all.find? fun switch => switch.letter? == some c with
    | none => .error (.unknown ['-', c])
    | some switch =>
      if switch.valueName?.isNone then
        match reading.take switch [] with
        | .ok reading => letters reading rest
        | .error refusal => .error refusal
      else if rest.isEmpty then .ok { reading with awaiting := some switch }
      else reading.take switch ((dropStart? "=" rest).getD rest)

/-- Reads a switch by its name, which an equals sign divides from a value. -/
def named (reading : Reading) (argument : Text) : Except Refusal Reading :=
  let (name, value) :=
    match breakOn? "=" argument with
    | some (name, value) => (name, some value)
    | none => (argument, none)
  match Switch.all.find? fun switch => switch.name == name with
  | none => .error (.unknown ("--" ++ name))
  | some switch =>
    match value with
    | some value =>
      if switch.valueName?.isSome then reading.take switch value else .error (.withValue switch value)
    | none =>
      if switch.valueName?.isSome then .ok { reading with awaiting := some switch } else reading.take switch []

def file (reading : Reading) (path : Text) : Except Refusal Reading :=
  if path.isEmpty then .error .emptyFile
  else .ok { reading with options := { reading.options with files := reading.options.files ++ [path] } }

/-- Reads one more argument. -/
def next (reading : Reading) (argument : Text) : Except Refusal Reading :=
  let asksSwitch := startsWith argument "-" && argument != "-"
  match reading.awaiting with
  | some switch => if asksSwitch then .error (.withoutValue switch) else reading.take switch argument
  | none =>
    if reading.filesOnly || !asksSwitch then reading.file argument
    else if argument == "--" then .ok { reading with filesOnly := true }
    else
      match dropStart? "--" argument with
      | some argument => reading.named argument
      | none => reading.letters (argument.drop 1)

end Reading

/-- The options that the arguments give; a variable of the environment may stand in for the configuration file. -/
def options (arguments : List Text) (env : Variables) : Except Refusal Options := do
  let reading ← arguments.foldlM Reading.next {}
  if let some switch := reading.awaiting then throw (.withoutValue switch)
  match reading.options.configuration, env.lookup "ROFFLIFT_CONFIG".toList with
  | none, some path => Reading.options? reading.options .configuration path
  | _, _ => pure reading.options

end RoffDocBook.CommandLine
