import RoffDocBook.Shell.Expansion
import RoffDocBook.Shell.Tool

/-! The commands that a shell carries out by itself, apart from those that run other scripts. -/
namespace RoffDocBook.Shell
open Text

namespace Machine

/-- The name and the value of an assignment, if a word is one. -/
def assignment? (word : Text) : Option (Text × Text) :=
  let (name, rest) := spanUntil (· == '=') word
  if name.head?.any isNameStart && name.all isNameChar && !rest.isEmpty then some (name, rest.drop 1) else none

/-- Gives a parameter a value that other programs see; without a value it keeps the one that it has. -/
def share (machine : Machine) (word : Text) : Machine :=
  match assignment? word with
  | some (name, value) => { machine.assign name value with shared := name :: machine.shared.erase name }
  | none => { machine with shared := word :: machine.shared.erase word }

/-- Hides the value of a parameter until the end of the function at hand. -/
def hide (machine : Machine) (word : Text) : Machine :=
  let name := ((assignment? word).map Prod.fst).getD word
  let machine := { machine with hidden := (name, machine.values.lookup name) :: machine.hidden }
  match assignment? word with
  | some (name, value) => machine.assign name value
  | none => machine

/-- Restores the values that have been hidden since there were a number of them. -/
def restoreHidden (machine : Machine) (count : Nat) : Machine :=
  let newest := machine.hidden.take (machine.hidden.length - count)
  let machine := newest.foldl (fun machine (name, value) =>
    match value with
    | some value => machine.assign name value
    | none => machine.unset name) machine
  { machine with hidden := machine.hidden.drop (machine.hidden.length - count) }

/-- Turns options on or off by their letters. -/
def setFlags (machine : Machine) (isOn : Bool) (flags : Text) : Machine :=
  let set (before : Bool) (flag : Char) : Bool := if flags.elem flag then isOn else before
  { machine with
    stopsOnFailure := set machine.stopsOnFailure 'e'
    refusesUnset := set machine.refusesUnset 'u'
    keepsPatterns := set machine.keepsPatterns 'f'
    skipsCommands := set machine.skipsCommands 'n' }

/-- The letter of an option that has a name. -/
def flag? (name : Text) : Option Char :=
  [("errexit", 'e'), ("nounset", 'u'), ("noglob", 'f'), ("xtrace", 'x'), ("verbose", 'v'), ("noclobber", 'C'),
    ("allexport", 'a'), ("notify", 'b'), ("monitor", 'm'), ("noexec", 'n')].findSome? fun (known, letter) =>
      if name == known.toList then some letter else none

/-- Reads options off the front of arguments: the letters of those that are turned on, the arguments after them if there
are any or dashes end the options, and the state with the options set. There is nothing if one of them is unknown. -/
def readOptions? (machine : Machine) (known : Text) : List Text → Option (Text × Option (List Text) × Machine)
  | [] => some ([], none, machine)
  | ['-'] :: rest => some ([], some rest, machine)
  | ['-', '-'] :: rest => some ([], some rest, machine)
  | argument :: rest =>
    let isOn := argument.head? == some '-'
    let flags := argument.tail
    if !isOn && argument.head? != some '+' then some ([], some (argument :: rest), machine)
    else if !flags.all known.elem then none
    else if flags.elem 'o' then
      match rest with
      | [] => none
      | name :: rest => do
        let flag ← flag? name
        let (others, rest, machine) ← readOptions? (machine.setFlags isOn (flag :: flags)) known rest
        some (flags ++ others, rest, machine)
    else do
      let (others, rest, machine) ← readOptions? (machine.setFlags isOn flags) known rest
      some (flags ++ others, rest, machine)

/-- The letters of the options that a script can set. -/
def scriptFlags : Text :=
  "abeEfiImnosuvVxC"

end Machine

/-- A line of input, each character with a flag that tells whether a backslash stood before it; what follows the line;
and whether the line is ended. -/
def inputLine (raw : Bool) : Text → List (Char × Bool) × Text × Bool
  | [] => ([], [], false)
  | '\n' :: rest => ([], rest, true)
  | '\\' :: c :: rest =>
    if raw then
      let (line, rest, isEnded) := inputLine raw (c :: rest)
      (('\\', false) :: line, rest, isEnded)
    else
      let (line, rest, isEnded) := inputLine raw rest
      (if c == '\n' then line else (c, true) :: line, rest, isEnded)
  | c :: rest =>
    let (line, rest, isEnded) := inputLine raw rest
    ((c, false) :: line, rest, isEnded)

/-- The parts of a line for a number of names; the last one gets what is left. -/
def inputParts (dividers : Text) : Nat → List (Char × Bool) → List Text
  | 0, _ => []
  | count + 1, line =>
    let isDivider (entry : Char × Bool) : Bool := !entry.2 && dividers.elem entry.1
    let isSpace (entry : Char × Bool) : Bool := isDivider entry && isBlank entry.1
    let line := line.dropWhile isSpace
    if count == 0 then [((line.reverse.dropWhile isSpace).reverse).map Prod.fst]
    else
      let first := line.takeWhile fun entry => !isDivider entry
      let rest := (line.drop first.length).dropWhile isSpace
      let rest := if rest.head?.any isDivider then rest.drop 1 else rest
      first.map Prod.fst :: inputParts dividers count rest

/-- Reads a line of input into parameters. -/
def readInput (arguments : List Text) : Action Unit := do
  let (found, names) := Tool.options ['p'] arguments
  let machine ← get
  let (line, rest, isEnded) := inputLine (Tool.hasOption found 'r') machine.input
  let parts := inputParts machine.dividers names.length line
  let machine := { machine with input := rest, status := if isEnded then 0 else 1 }
  set ((names.zip parts).foldl (fun machine (name, part) => machine.assign name part) machine)

/-- The number of a signal. -/
def signal? (name : Text) : Option Nat :=
  let name := (dropStart? "SIG" (asciiCapitals name)).getD (asciiCapitals name)
  match String.ofList name with
  | "EXIT" => some 0
  | "HUP" => some 1
  | "INT" => some 2
  | "QUIT" => some 3
  | "ABRT" => some 6
  | "KILL" => some 9
  | "USR1" => some 10
  | "SEGV" => some 11
  | "USR2" => some 12
  | "PIPE" => some 13
  | "ALRM" => some 14
  | "TERM" => some 15
  | "CHLD" => some 17
  | "CONT" => some 18
  | _ => toNat? name

/-- Sends a signal to the script itself. -/
def sendSignal (execute : Text → Action Unit) (arguments : List Text) : Action Unit := do
  let (signal, targets) :=
    match arguments with
    | ['-', 's'] :: name :: rest => (signal? name, rest)
    | ('-' :: name) :: rest => (signal? name, rest)
    | rest => (some 15, rest)
  let machine ← get
  match signal with
  | none => Action.setStatus 1
  | some signal =>
    if targets != [Machine.process] then Action.setStatus 1
    else if signal == 0 || signal == 17 || signal == 18 then Action.setStatus 0
    else if signal == 9 then throw (.killed signal)
    else
      match machine.traps.lookup signal with
      | some text =>
        execute text
        Action.setStatus 0
      | none => throw (.killed signal)

/-- Sets what is run on signals; a dash takes that back. -/
def setTraps (arguments : List Text) : Action Unit := do
  let arguments := if arguments.head? == some "--".toList then arguments.tail else arguments
  let text := arguments.headD []
  let isReset := text == "-" || (text.all Char.isDigit && !text.isEmpty)
  let names := if text == "-" || !isReset then arguments.tail else arguments
  let signals := names.filterMap signal?
  modify fun machine =>
    let others := machine.traps.filter fun entry => !signals.contains entry.1
    { machine with
      traps := if isReset then others else signals.map (fun signal => (signal, text)) ++ others
      status := if signals.length == names.length then 0 else 1 }

/-- Goes to a directory. -/
def changeDirectory (arguments : List Text) : Action Unit := do
  let machine ← get
  let target := arguments.headD ((machine.value? "HOME".toList).getD [])
  match machine.files.find target with
  | .ok place =>
    if machine.files.isDirectory place then
      set { machine with files := { machine.files with here := place }, status := 0 }
    else Action.setStatus 2
  | .error _ => Action.setStatus 2

/-- The number that the first argument tells, if there is one; what is no number ends the script. -/
def firstNumber (arguments : List Text) (default : Nat) : Action Nat := do
  match arguments.head? with
  | none => pure default
  | some argument =>
    match toNat? argument with
    | some n => pure n
    | none => Action.stop 2

/-- The commands that come before functions of the same name, and whose failure ends a script. -/
def isSpecial (name : String) : Bool :=
  [":", ".", "break", "continue", "eval", "exec", "exit", "export", "readonly", "return", "set", "shift", "trap",
    "unset"].contains name

/-- A command that the shell itself carries out. -/
def builtin? (execute : Text → Action Unit) (name : String) (arguments : List Text) : Option (Action Unit) :=
  let change (f : Machine → Machine) : Option (Action Unit) :=
    some (modify fun machine => { f machine with status := 0 })
  match name with
  | ":" => change id
  | "true" => change id
  | "false" => some (Action.setStatus 1)
  | "echo" => some do
    Action.write (echo arguments)
    Action.setStatus 0
  | "printf" => some do
    let (written, status) := printf arguments
    Action.write written
    Action.setStatus status
  | "pwd" => some do
    Action.write (Path.ofNames (← get).files.here ++ ['\n'])
    Action.setStatus 0
  | "read" => some (readInput arguments)
  | "cd" => some (changeDirectory arguments)
  | "[" => some do
    let machine ← get
    if arguments.getLast? != some [']'] then Action.setStatus 2
    else Action.setStatus (Tool.test arguments.dropLast [] machine.files).status
  | "test" => some do Action.setStatus (Tool.test arguments [] (← get).files).status
  | "export" => change fun machine => arguments.foldl Machine.share machine
  | "readonly" => change fun machine => arguments.foldl (fun machine word =>
      match Machine.assignment? word with
      | some (name, value) => { machine.assign name value with fixed := name :: machine.fixed }
      | none => { machine with fixed := word :: machine.fixed }) machine
  | "local" => some do
    if (← get).calls == 0 then Action.stop 2
    modify fun machine => { arguments.foldl Machine.hide machine with status := 0 }
  | "unset" => change fun machine =>
      let (found, names) := Tool.options [] arguments
      if Tool.hasOption found 'f' then
        { machine with functions := machine.functions.filter fun entry => !names.contains entry.1 }
      else names.foldl Machine.unset machine
  | "set" => some do
    match (← get).readOptions? Machine.scriptFlags arguments with
    | some (_, rest, machine) =>
      set { machine with arguments := rest.getD machine.arguments, status := 0 }
    | none => Action.stop 2
  | "shift" => some do
    let n ← firstNumber arguments 1
    let machine ← get
    if machine.arguments.length < n then Action.stop 2
    else set { machine with arguments := machine.arguments.drop n, status := 0 }
  | "exit" => some do
    let n ← firstNumber arguments (← get).status
    Action.stop (n % 256)
  | "return" => some do
    let n ← firstNumber arguments (← get).status
    Action.setStatus n
    throw .leaveFunction
  | "break" => some do
    let n := min (← firstNumber arguments 1) (← get).loops
    Action.setStatus 0
    if n != 0 then throw (.leaveLoop n)
  | "continue" => some do
    let n := min (← firstNumber arguments 1) (← get).loops
    Action.setStatus 0
    if n != 0 then throw (.nextRound n)
  | "eval" => some do
    Action.setStatus 0
    execute (join [' '] arguments)
  | "trap" => some (setTraps arguments)
  | "kill" => some (sendSignal execute arguments)
  | "wait" => change id
  | "umask" => change id
  | "hash" => change id
  | _ => none

end RoffDocBook.Shell
