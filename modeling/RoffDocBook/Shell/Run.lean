import RoffDocBook.Encoding.Utf8
import RoffDocBook.Shell.Builtin

/-! The run of scripts, and of the other programs that a conversion can call without leaving it. -/
namespace RoffDocBook.Shell
open Text

/-- The place of the file that output goes to, which is made empty unless the output is added to it. -/
def openOutput (machine : Machine) (path : Text) (appended : Bool) : Option (Sink × Machine) :=
  if path == "/dev/null" then some (.nowhere, machine)
  else if path == "/dev/stdout" then (machine.sinks.lookup 1).map (·, machine)
  else if path == "/dev/stderr" then (machine.sinks.lookup 2).map (·, machine)
  else do
    let place ← (machine.files.locate path).toOption
    if appended && machine.files.isFile place then some (.file place, machine)
    else
      let files ← (machine.files.write path []).toOption
      some (.file place, { machine with files })

/-- The text that input is taken from. -/
def openInput (machine : Machine) (path : Text) : Option Text :=
  if path == "/dev/null" then some []
  else if path == "/dev/stdin" then some machine.input
  else (machine.files.read? path).map decodeBytes

/-- Leads a stream elsewhere, and tells whether that is possible. -/
def redirect (execute : Text → Action Unit) (redirection : Redirection) : Action Bool := do
  let stream := redirection.stream
  let lead (machine : Machine) (sink : Sink) : Action Bool := do
    set { machine with sinks := (stream, sink) :: machine.sinks.filter fun entry => entry.1 != stream }
    pure true
  match redirection.kind with
  | .document expanded =>
    let text ←
      if expanded then
        pure (Cell.text (← expand execute expansionLevels .document redirection.target))
      else pure redirection.target
    if stream == 0 then modify fun machine => { machine with input := text }
    pure true
  | kind =>
    let target ← expandText execute redirection.target
    let machine ← get
    match kind with
    | .duplicate =>
      if target == "-" then lead machine .nowhere
      else
        match (toNat? target).bind fun stream => machine.sinks.lookup stream with
        | some sink => lead machine sink
        | none => pure (stream == 0)
    | .input =>
      match openInput machine target with
      | some text =>
        if stream == 0 then set { machine with input := text }
        pure true
      | none => pure false
    | _ =>
      match openOutput machine target (kind = .append) with
      | some (sink, machine) => lead machine sink
      | none => pure false

def redirectAll (execute : Text → Action Unit) : List Redirection → Action Bool
  | [] => pure true
  | redirection :: rest => do
    if ← redirect execute redirection then redirectAll execute rest else pure false

/-- Does something with streams that lead elsewhere. -/
def withStreams (execute : Text → Action Unit) (redirections : List Redirection) (action : Action Unit) :
    Action Unit := do
  let before ← get
  let restore (machine : Machine) : Machine :=
    { machine with
      sinks := before.sinks
      input := if redirections.any fun redirection => redirection.stream == 0 then before.input else machine.input }
  if ← redirectAll execute redirections then Action.finally_ action restore
  else
    modify restore
    Action.setStatus 2

/-- Runs a tool; one that does not exist fails. -/
def runTool (name : Text) (arguments : List Text) : Action Unit := do
  let machine ← get
  match Tool.ofName? (String.ofList (Tool.nameOf name)) with
  | some tool =>
    let run := tool arguments machine.input machine.files
    set { machine with input := run.input, files := run.files }
    Action.write run.output
    Action.setStatus run.status
  | none => Action.setStatus (if name.elem '/' && machine.files.contains name then 126 else 127)

/-- The text of a file with a script. There is nothing to run in a directory. -/
def scriptOf? (files : FileTree) (path : Text) : Option Text :=
  match files.read path with
  | .ok bytes => some (decodeBytes bytes)
  | .error .isDirectory => some []
  | .error _ => none

/-- The script that a call of a shell names, with the options before it: its text, its name and its arguments. -/
def callOf? (machine : Machine) (arguments : List Text) : Option (Text × Text × List Text × Machine) := do
  let (flags, rest, machine) ← machine.readOptions? ('c' :: 'l' :: Machine.scriptFlags) arguments
  let rest := rest.getD []
  if flags.elem 'c' then
    match rest with
    | text :: name :: arguments => some (text, name, arguments, machine)
    | [text] => some (text, "sh", [], machine)
    | [] => none
  else
    match if flags.elem 's' then none else rest.head? with
    | some path => (scriptOf? machine.files path).map fun text => (text, path, rest.tail, machine)
    | none => some (machine.input, "sh", rest, { machine with input := [] })

/-- Runs a shell with a state of its own, which gets the parameters that other programs see, and gives the signal that
has ended it. -/
def runShell (execute : Text → Action Unit) (arguments : List Text) : Action (Option Nat) := do
  let before ← get
  let fresh : Machine :=
    { before with
      values := before.values.filter fun entry => before.shared.contains entry.1
      functions := []
      traps := []
      hidden := []
      status := 0
      stopsOnFailure := false
      refusesUnset := false
      keepsPatterns := false
      skipsCommands := false
      fixed := []
      guarded := false
      loops := 0
      calls := 0 }
  match callOf? fresh arguments with
  | none =>
    Action.setStatus 2
    pure none
  | some (text, script, arguments, machine) =>
    set { machine with script, arguments }
    let result ← Action.outcome (Action.concluded execute (execute text))
    let after ← get
    let signal? : Option Nat :=
      match result with
      | .error (.killed signal) => some signal
      | _ => none
    set { before with
      files := { after.files with here := before.files.here }
      input := after.input
      collected := after.collected
      status := (signal?.map (128 + ·)).getD (after.status % 256) }
    pure signal?

/-- Runs a shell or a tool, and gives the signal that has ended it. -/
def runProgram (execute : Text → Action Unit) (name : Text) (arguments : List Text) : Action (Option Nat) := do
  if Tool.nameOf name == "sh" then runShell execute arguments
  else
    runTool name arguments
    pure none

/-- Whether a loop goes on after a round of it. -/
def goesOn (round : Action Unit) : Action Bool := do
  let loops := (← get).loops
  modify fun machine => { machine with loops := loops + 1 }
  let result ← Action.outcome round
  modify fun machine => { machine with loops }
  match result with
  | .ok _ => pure true
  | .error (.leaveLoop levels) => if levels ≤ 1 then pure false else throw (.leaveLoop (levels - 1))
  | .error (.nextRound levels) => if levels ≤ 1 then pure true else throw (.nextRound (levels - 1))
  | .error jump => throw jump

/-- Runs the lines of a script in turn. A line that makes no sense ends it. -/
def runLines (recur : Command → Action Unit) : Nat → List Token → Action Unit
  | 0, _ => pure ()
  | fuel + 1, tokens => do
    match tokens.dropWhile (· = .mark ['\n']) with
    | [] => pure ()
    | tokens =>
      match CommandReader.firstLine? tokens with
      | none => Action.stop 2
      | some (command, rest) =>
        if !(← get).skipsCommands then recur command
        runLines recur fuel rest

def runText (recur : Command → Action Unit) (t : Text) : Action Unit :=
  let tokens := tokens t
  runLines recur (tokens.length + 1) tokens

/-- The number of functions that may be called inside one another. -/
def mostCalls : Nat := 1000

/-- Calls a function with arguments. -/
def callFunction (recur : Command → Action Unit) (body : Command) (arguments : List Text) : Action Unit := do
  let before ← get
  if mostCalls ≤ before.calls then Action.stop 2
  set { before with arguments, loops := 0, calls := before.calls + 1 }
  let result ← Action.outcome (recur body)
  modify fun machine =>
    { machine.restoreHidden before.hidden.length with arguments := before.arguments, loops := before.loops, calls := before.calls }
  match result with
  | .ok _ => pure ()
  | .error .leaveFunction => pure ()
  | .error jump => throw jump

/-- Carries out a command with its arguments: a special one of the shell, a function, another one of the shell, or a
program. -/
def invoke (recur : Command → Action Unit) (functions : Bool) (name : Text) (arguments : List Text) : Action Unit := do
  let execute := runText recur
  let word := String.ofList name
  let machine ← get
  let function? := if functions && !isSpecial word then machine.functions.lookup name else none
  match function?, builtin? execute word arguments with
  | some body, _ => callFunction recur body arguments
  | none, some action => action
  | none, none =>
    match word with
    | "." =>
      match (arguments.head?.filter (·.elem '/')).bind machine.files.read? with
      | some bytes =>
        match ← Action.outcome (execute (decodeBytes bytes)) with
        | .ok _ => pure ()
        | .error .leaveFunction => pure ()
        | .error jump => throw jump
      | none => Action.stop 2
    | "exec" => pure ()
    | _ => discard (runProgram execute name arguments)

/-- Whether a word is an assignment as it is written. -/
def isAssignment (raw : Text) : Bool :=
  (Machine.assignment? raw).isSome

/-- Carries out an assignment, and gives its name. -/
def assign (execute : Text → Action Unit) (raw : Text) : Action Text := do
  match Machine.assignment? raw with
  | some (name, value) =>
    let value ← expandText execute value
    if (← get).fixed.contains name then Action.stop 2
    modify (·.assign name value)
    pure name
  | none => pure []

/-- Whether a command puts in the output of others, whose status it then has. -/
def substitutes (raw : Text) : Bool :=
  contains raw "$(" || raw.elem '\x60'

/-- The name of a command without the commands in front that only say how it is found, and whether functions count. -/
def resolve : List Text → Bool × List Text
  | name :: rest =>
    if name == "command".toList && !rest.isEmpty && (rest.headD []).head? != some '-' then (false, (resolve rest).2)
    else (true, name :: rest)
  | [] => (true, [])

/-- Tells whether there are commands under some names. -/
def describe (names : List Text) : Action Unit := do
  let machine ← get
  let isKnown (name : Text) : Bool :=
    let word := String.ofList name
    isSpecial word || (builtin? (fun _ => pure ()) word []).isSome || (Tool.ofName? word).isSome || word == "sh" ||
      (machine.functions.lookup name).isSome
  Action.write (Tool.ended (names.filter isKnown))
  Action.setStatus (if names.all isKnown then 0 else 127)

/-- Carries out a simple command. -/
def runSimple (recur : Command → Action Unit) (raws : List Text) (redirections : List Redirection) : Action Unit := do
  let execute := runText recur
  let assignments := raws.takeWhile isAssignment
  let raws := raws.drop assignments.length
  let fields := (← raws.mapM (expandFields execute)).flatten
  match resolve fields with
  | (_, []) =>
    withStreams execute redirections do
      assignments.forM fun raw => discard (assign execute raw)
      if !(assignments ++ raws).any substitutes then Action.setStatus 0
  | (functions, name :: arguments) =>
    if name == "exec".toList then
      if !(← redirectAll execute redirections) then Action.stop 2
      assignments.forM fun raw => discard (assign execute raw)
      match arguments with
      | [] => Action.setStatus 0
      | name :: arguments =>
        let signal? ← runProgram execute name arguments
        modify fun machine => { machine with traps := [] }
        throw ((signal?.map Jump.killed).getD .exit)
    else
      let before ← get
      withStreams execute redirections do
        let names ← assignments.mapM (assign execute)
        modify fun machine => { machine with shared := names ++ machine.shared }
        let run :=
          if name == "command".toList && (arguments.headD []).head? == some '-' then describe arguments.tail
          else invoke recur functions name arguments
        if names.isEmpty || isSpecial (String.ofList name) then run
        else
          Action.finally_ run fun machine =>
            let restored := names.foldl (fun machine name =>
              match before.values.lookup name with
              | some value => machine.assign name value
              | none => machine.unset name) machine
            { restored with shared := before.shared }
  Action.checkFailure

/-- Runs the body of a loop for each item. -/
def eachItem (name : Text) (round : Action Unit) : List Text → Action Unit
  | [] => pure ()
  | item :: rest => do
    modify (·.assign name item)
    if ← goesOn round then eachItem name round rest

/-- The number of rounds that a loop may take. -/
def mostRounds : Nat := 10000000

/-- Runs the body of a loop as long as a condition holds, at most `fuel` times. -/
def rounds (condition : Action Bool) (body : Action Unit) : Nat → Action Unit
  | 0 => throw (.killed 9)
  | fuel + 1 => do
    let status := (← get).status
    if ← condition then
      if ← goesOn body then rounds condition body fuel
    else Action.setStatus status

/-- Carries out a command, where `recur` carries out the commands in it. -/
def Command.step (recur : Command → Action Unit) (command : Command) : Action Unit := do
  let execute := runText recur
  let succeeds (command : Command) : Action Bool := do
    Action.guarded (recur command)
    return (← get).status == 0
  match command with
  | .nothing => pure ()
  | .simple raws redirections => runSimple recur raws redirections
  | .redirected command redirections => withStreams execute redirections (recur command)
  | .inverted command => Action.setStatus (if ← succeeds command then 1 else 0)
  | .piped first second =>
    let text ← Action.collect (Action.inSubshell execute (recur first))
    let left := (← get).input
    modify fun machine => { machine with input := text }
    Action.finally_ (Action.inSubshell execute (recur second)) fun machine => { machine with input := left }
    Action.checkFailure
  | .both first second => if ← succeeds first then recur second
  | .either first second => if !(← succeeds first) then recur second
  | .sequence first second =>
    recur first
    recur second
  | .subshell body =>
    Action.inSubshell execute (recur body)
    Action.checkFailure
  | .branch condition yes no =>
    if ← succeeds condition then recur yes
    else
      Action.setStatus 0
      recur no
  | .loop expected condition body =>
    rounds (do return (← succeeds condition) == expected) (recur body) mostRounds
  | .each name items body =>
    let items ←
      match items with
      | some raws => pure (← raws.mapM (expandFields execute)).flatten
      | none => pure (← get).arguments
    Action.setStatus 0
    eachItem name (recur body) items
  | .choice word patterns body otherwise =>
    let text ← expandText execute word
    let globs ← patterns.mapM fun raw => Cell.glob <$> expand execute expansionLevels .bare raw
    if globs.any fun glob => glob.accepts text then
      Action.setStatus 0
      recur body
    else recur otherwise
  | .definition name body =>
    modify fun machine => { machine with functions := (name, body) :: machine.functions, status := 0 }

/-- Carries out a command, with a number of commands inside one another at most; more of them break the shell. -/
def run : Nat → Command → Action Unit
  | 0, _ => throw (.killed 11)
  | fuel + 1, command => command.step (run fuel)

/-- What a program leaves behind: what it has written, how it has ended, and the files. -/
structure Outcome where
  output : List UInt8
  status : Nat
  /-- The signal that has ended the program. -/
  signal : Option Nat := none
  files : FileTree

/-- Why a path is not one of a program: no file of a tree is one. -/
def refusal (files : FileTree) (path : Text) : FileError :=
  match files.find path with
  | .ok _ => .denied
  | .error error => error

/-- Runs a program with its arguments on an input. -/
def start (env : List (Text × Text)) (files : FileTree) (program : Text) (arguments : List Text) (input : Text) :
    Except FileError Outcome :=
  let bytes (t : Text) : Text := decodeBytes (Encoding.utf8 t)
  let arguments := arguments.map bytes
  let machine : Machine :=
    { files
      values := env.map fun (name, value) => (bytes name, bytes value)
      shared := env.map fun entry => bytes entry.1
      input := bytes input }
  let outcome (machine : Machine) : Outcome :=
    { output := encodeBytes (machine.collected.headD [])
      status := machine.status % 256
      files := { machine.files with here := files.here } }
  let name := Tool.nameOf program
  if name == "sh" then
    let (result, after) := (runShell (runText (run 10000)) arguments).run machine
    .ok { outcome after with signal := result.toOption.join }
  else if (Tool.ofName? (String.ofList name)).isSome then .ok (outcome ((runTool name arguments).run machine).2)
  else if program.elem '/' then .error (refusal files program)
  else .error .missing

end RoffDocBook.Shell
