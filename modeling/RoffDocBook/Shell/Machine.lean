import RoffDocBook.FileTree
import RoffDocBook.Shell.Command

/-! The state of a running script. Text in it stands for bytes, a character for each. -/
namespace RoffDocBook.Shell
open Text

/-- Where a stream of output leads. -/
inductive Sink where
  /-- Text that is collected, under a number. -/
  | collected (index : Nat)
  | file (place : FilePath)
  | nowhere
  deriving DecidableEq, Repr

/-- How a command ends the commands around it. -/
inductive Jump where
  | leaveLoop (levels : Nat)
  | nextRound (levels : Nat)
  | leaveFunction
  | exit
  | killed (signal : Nat)
  deriving DecidableEq, Repr

structure Machine where
  files : FileTree := {}
  /-- The values of the parameters that have names. -/
  values : List (Text × Text) := []
  /-- The names of the parameters that other programs see. -/
  shared : List Text := []
  functions : List (Text × Command) := []
  /-- The name of the script. -/
  script : Text := "sh"
  arguments : List Text := []
  status : Nat := 0
  /-- What is left of the standard input. -/
  input : Text := []
  /-- What has been collected under each number. -/
  collected : List Text := [[], []]
  sinks : List (Nat × Sink) := [(1, .collected 0), (2, .collected 1)]
  /-- What is run on a signal, and under the number zero at the end. -/
  traps : List (Nat × Text) := []
  /-- Whether a command that fails ends the script. -/
  stopsOnFailure : Bool := false
  /-- Whether a parameter without a value ends the script. -/
  refusesUnset : Bool := false
  /-- Whether the patterns of paths stay as they are. -/
  keepsPatterns : Bool := false
  /-- Whether commands are only read. -/
  skipsCommands : Bool := false
  /-- The names of the parameters whose values stay as they are. -/
  fixed : List Text := []
  /-- Whether the failure of a command is looked at. -/
  guarded : Bool := false
  /-- The number of loops around the command at hand. -/
  loops : Nat := 0
  /-- The number of functions that are being carried out. -/
  calls : Nat := 0
  /-- The values to restore at the end of a function. -/
  hidden : List (Text × Option Text) := []

/-- What a script does: it changes the state, and may end the commands around it. -/
abbrev Action := ExceptT Jump (StateM Machine)

namespace Machine

/-- A number that the script takes for that of its own process. -/
def process : Text :=
  "1000"

def value? (machine : Machine) (name : Text) : Option Text :=
  match String.ofList name with
  | "?" => some (Text.ofNat machine.status)
  | "#" => some (Text.ofNat machine.arguments.length)
  | "$" => some process
  | "!" => some []
  | "-" => some (if machine.stopsOnFailure then ['e'] else [])
  | "0" => some machine.script
  | _ =>
    match toNat? name with
    | some n => machine.arguments[n - 1]?
    | none => machine.values.lookup name

def assign (machine : Machine) (name value : Text) : Machine :=
  { machine with values := (name, value) :: machine.values.filter fun entry => entry.1 != name }

def unset (machine : Machine) (name : Text) : Machine :=
  { machine with values := machine.values.filter fun entry => entry.1 != name }

/-- The characters that divide what is expanded into fields. -/
def dividers (machine : Machine) : Text :=
  (machine.values.lookup "IFS".toList).getD " \t\n"

/-- Writes to a stream. -/
def write (machine : Machine) (stream : Nat) (t : Text) : Machine :=
  match machine.sinks.lookup stream with
  | some (.collected index) => { machine with collected := machine.collected.modify index (· ++ t) }
  | some (.file place) => { machine with files := machine.files.append place (encodeBytes t) }
  | some .nowhere => machine
  | none => machine

end Machine

namespace Action

def write (t : Text) : Action Unit :=
  modify fun machine => machine.write 1 t

def setStatus (status : Nat) : Action Unit :=
  modify fun machine => { machine with status }

/-- Ends the script with a status. -/
def stop {α : Type} (status : Nat) : Action α := do
  setStatus status
  throw .exit

/-- Does something, and then changes the state even if a jump has ended it. -/
def finally_ {α : Type} (action : Action α) (change : Machine → Machine) : Action α :=
  ExceptT.mk do
    let result ← action.run
    modify change
    pure result

/-- How an action ends. -/
def outcome {α : Type} (action : Action α) : Action (Except Jump α) :=
  ExceptT.mk do
    let result ← action.run
    pure (.ok result)

/-- Does something while its failure is looked at. -/
def guarded (action : Action Unit) : Action Unit := do
  let before := (← get).guarded
  modify fun machine => { machine with guarded := true }
  finally_ action fun machine => { machine with guarded := before }

/-- Runs a script to its end, and then what is to be run at the end. The status of that counts only if it ends the
script by itself. -/
def concluded (execute : Text → Action Unit) (action : Action Unit) : Action Unit := do
  match ← outcome action with
  | .error (.killed signal) => throw (.killed signal)
  | _ => pure ()
  let machine ← get
  match machine.traps.lookup 0 with
  | none => pure ()
  | some farewell =>
    set { machine with traps := [] }
    match ← outcome (execute farewell) with
    | .error (.killed signal) => throw (.killed signal)
    | .error .exit => pure ()
    | _ => setStatus machine.status

/-- Does something with a state of its own, of which only the files, the streams and the status stay. -/
def inSubshell (execute : Text → Action Unit) (action : Action Unit) : Action Unit := do
  let before ← get
  set { before with traps := before.traps.filter fun entry => entry.2.isEmpty }
  finally_ (concluded execute action) fun after =>
    { before with
      files := { after.files with here := before.files.here }
      input := after.input
      collected := after.collected
      status := after.status }

/-- Ends a script that stops on failure after a command that has failed. -/
def checkFailure : Action Unit := do
  let machine ← get
  if machine.stopsOnFailure && !machine.guarded && machine.status != 0 then throw .exit

/-- Does something, and gives back what it writes to the standard output. -/
def collect (action : Action Unit) : Action Text := do
  let before ← get
  let index := before.collected.length
  set { before with
    collected := before.collected ++ [[]]
    sinks := (1, .collected index) :: before.sinks.filter fun entry => entry.1 != 1 }
  finally_ action fun machine => { machine with sinks := before.sinks }
  let machine ← get
  set { machine with collected := machine.collected.take index }
  pure (machine.collected.getD index [])

end Action

end RoffDocBook.Shell
