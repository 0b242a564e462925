import RoffDocBook.Shell.EditCommand

/-! The stream editor: a script of commands is run for each line of a text. -/
namespace RoffDocBook.Shell
open Text

/-- A line of text, and whether it is ended. -/
structure EditedLine where
  text : Text := []
  isEnded : Bool := true
  deriving DecidableEq, Repr

/-- The state of the editor at a line. -/
structure Editor where
  /-- The lines not yet read. -/
  lines : List EditedLine := []
  number : Nat := 0
  space : EditedLine := {}
  held : EditedLine := {}
  output : Text := []
  /-- Whether the end of the line written last is still missing. -/
  isOpen : Bool := false
  /-- What is written after the line. -/
  after : Text := []
  /-- The numbers of the commands whose range has begun, with the last lines of the ranges if they are known. -/
  active : List (Nat × Option Nat) := []
  /-- Whether there has been a substitution in the line. -/
  changed : Bool := false
  /-- Whether the text at hand is not written. -/
  deleted : Bool := false
  /-- Whether the commands are run again before the next line is read. -/
  repeats : Bool := false
  finished : Bool := false
  status : Nat := 0
  quiet : Bool := false

namespace Editor

def write (editor : Editor) (t : Text) : Editor :=
  if t.isEmpty then editor
  else { editor with output := editor.output ++ (if editor.isOpen then '\n' :: t else t), isOpen := false }

def writeLine (editor : Editor) (line : EditedLine) : Editor :=
  if line.isEnded then editor.write (line.text ++ ['\n'])
  else
    { editor with
      output := editor.output ++ (if editor.isOpen then '\n' :: line.text else line.text)
      isOpen := true }

/-- Ends the line written last. -/
def closeLine (editor : Editor) : Editor :=
  if editor.isOpen then { editor with output := editor.output ++ ['\n'], isOpen := false } else editor

/-- Writes what is to be written after the line. -/
def writeAfter (editor : Editor) : Editor :=
  { editor.write editor.after with after := [] }

def isAt (editor : Editor) : Address → Bool
  | .line number => editor.number == number
  | .last => editor.lines.isEmpty
  | .step first length =>
    if length == 0 then editor.number == first
    else decide (first ≤ editor.number) && (editor.number - first) % length == 0
  | .below _ => false
  | .regex regex folded => regex.occursIn folded editor.space.text

/-- Whether a command is for the line, and the state with its range begun or ended. -/
def selects (editor : Editor) (index : Nat) (command : EditCommand) : Bool × Editor :=
  let number := editor.number
  let (selected, editor) : Bool × Editor :=
    match command.first, command.last with
    | none, _ => (true, editor)
    | some first, none => (editor.isAt first, editor)
    | some first, some ending =>
      let others := editor.active.filter fun entry => entry.1 != index
      match editor.active.lookup index with
      | some (some last) =>
        (decide (number ≤ last), if last ≤ number then { editor with active := others } else editor)
      | some none => (true, if editor.isAt ending then { editor with active := others } else editor)
      | none =>
        if !editor.isAt first then (false, editor)
        else
          let last? : Option Nat :=
            match ending with
            | .line last => some last
            | .below count => some (number + count)
            | _ => none
          if last?.any (· ≤ number) then (true, editor)
          else (true, { editor with active := (index, last?) :: others })
  (selected != command.negated, editor)

/-- How the letters of what is put in are changed: the next one, and those after it. -/
abbrev Casing := Option Char × Option Char

/-- A text with its letters changed as some letters tell, and how the letters after it are changed. -/
def inCase (casing : Casing) (t : Text) : Text × Casing :=
  let change (letter : Option Char) (c : Char) : Char :=
    match letter with
    | some 'U' => c.toUpper
    | some 'u' => c.toUpper
    | some 'L' => c.toLower
    | some 'l' => c.toLower
    | _ => c
  match t with
  | [] => ([], casing)
  | c :: rest => (change (casing.1 <|> casing.2) c :: rest.map (change casing.2), (none, casing.2))

/-- The text of a replacement for a match. -/
def replacementText (found : Regex.Match) : Casing → List ReplacementPiece → Text
  | _, [] => []
  | casing, piece :: pieces =>
    match piece with
    | .casing letter =>
      let casing : Casing :=
        if letter == 'E' then (none, none)
        else if letter == 'U' || letter == 'L' then (casing.1, some letter)
        else (some letter, casing.2)
      replacementText found casing pieces
    | .char c =>
      let (t, casing) := inCase casing [c]
      t ++ replacementText found casing pieces
    | .group index =>
      let t := if index == 0 then found.text else (found.last.groups.lookup index).getD []
      let (t, casing) := inCase casing t
      t ++ replacementText found casing pieces

/-- The text with the matches replaced that count, and whether there were any; `count` matches have been met. -/
def substituted (substitution : Substitution) : Nat → Nat → Text → Text → Text × Bool
  | 0, _, _, t => (t, false)
  | fuel + 1, count, before, t =>
    match substitution.regex.find? substitution.folded before t with
    | none => (t, false)
    | some found =>
      let skipped := t.take (found.first.before.length - before.length)
      let counts := substitution.least ≤ count + 1
      let new := if counts then replacementText found (none, none) substitution.replacement else found.text
      let goesOn := !counts || substitution.everywhere
      let rest := found.last.rest
      if !goesOn then (skipped ++ new ++ rest, true)
      else if found.text.isEmpty then
        match rest with
        | [] => (skipped ++ new, counts)
        | c :: rest =>
          let (after, changed) := substituted substitution fuel (count + 1) (c :: found.last.before) rest
          (skipped ++ new ++ c :: after, counts || changed)
      else if rest.isEmpty then (skipped ++ new, counts)
      else
        let (after, changed) := substituted substitution fuel (count + 1) found.last.before rest
        (skipped ++ new ++ after, counts || changed)

/-- A text with what cannot be seen in it, in lines of at most sixty-nine characters and a mark. -/
def revealed (t : Text) : Text :=
  go 0 t ++ "$\n"
where
  shown (c : Char) : Text :=
    match c with
    | '\\' => "\\\\"
    | '\x07' => "\\a"
    | '\x08' => "\\b"
    | '\x0c' => "\\f"
    | '\n' => "\\n"
    | '\r' => "\\r"
    | '\t' => "\\t"
    | '\x0b' => "\\v"
    | c =>
      if ' ' ≤ c && c ≤ '~' then [c]
      else
        let digits := Nat.toDigits 8 c.toNat
        '\\' :: (List.replicate (3 - digits.length) '0' ++ digits)
  go : Nat → Text → Text
    | _, [] => []
    | width, c :: rest =>
      let piece := shown c
      if width + piece.length ≤ 69 then piece ++ go (width + piece.length) rest
      else '\\' :: '\n' :: piece ++ go piece.length rest

/-- The commands after the block that they begin in. -/
def afterBlock : Nat → List (Nat × EditCommand) → List (Nat × EditCommand)
  | _, [] => []
  | depth, (_, command) :: rest =>
    match command.edit with
    | .opening => afterBlock (depth + 1) rest
    | .closing => if depth == 0 then rest else afterBlock (depth - 1) rest
    | _ => afterBlock depth rest

/-- The commands behind a label. -/
def afterLabel (script : List (Nat × EditCommand)) (name : Text) : List (Nat × EditCommand) :=
  let isLabel (entry : Nat × EditCommand) : Bool :=
    match entry.2.edit with
    | .label other => other == name
    | _ => false
  if name.isEmpty then [] else (script.dropWhile fun entry => !isLabel entry).drop 1

/-- Runs the commands of a script that are left for the line, of which there are at most `fuel`. -/
def run (script : List (Nat × EditCommand)) : Nat → List (Nat × EditCommand) → Editor → Editor
  | 0, _, editor => editor
  | _, [], editor => editor
  | fuel + 1, (index, command) :: rest, editor =>
    let space := editor.space
    match editor.selects index command with
    | (false, editor) =>
      match command.edit with
      | .opening => run script fuel (afterBlock 0 rest) editor
      | _ => run script fuel rest editor
    | (true, editor) =>
      match command.edit with
      | .substitute substitution =>
        let (text, changed) := substituted substitution (space.text.length + 2) 0 [] space.text
        let editor := { editor with space := { space with text }, changed := editor.changed || changed }
        run script fuel rest (if changed && substitution.prints then editor.writeLine editor.space else editor)
      | .exchange old new =>
        let text := space.text.map fun c => ((old.zip new).lookup c).getD c
        run script fuel rest { editor with space := { space with text } }
      | .delete first =>
        if first && space.text.elem '\n' then
          let text := (space.text.dropWhile (· != '\n')).drop 1
          { editor with space := { space with text }, deleted := true, repeats := true }
        else { editor with deleted := true }
      | .print first =>
        let shown := if first then { text := space.text.takeWhile (· != '\n') } else space
        run script fuel rest (editor.writeLine shown)
      | .quit silent status =>
        let editor := if silent then editor else (if editor.quiet then editor else editor.writeLine space).writeAfter
        { (if silent then editor else editor.closeLine) with finished := true, deleted := true, status }
      | .append text => run script fuel rest { editor with after := editor.after ++ text }
      | .insert text => run script fuel rest (editor.write text)
      | .change text =>
        let writes := command.last.isNone || (editor.active.lookup index).isNone
        { (if writes then editor.write text else editor) with deleted := true }
      | .number => run script fuel rest (editor.write (Text.ofNat editor.number ++ ['\n']))
      | .next =>
        match editor.lines with
        | [] => { editor with finished := true }
        | line :: lines =>
          let editor := (if editor.quiet then editor else editor.writeLine space).writeAfter
          run script fuel rest { editor with lines, space := line, number := editor.number + 1 }
      | .nextAppended =>
        match editor.lines with
        | [] => { editor with finished := true }
        | line :: lines =>
          let editor := editor.writeAfter
          let space := { line with text := space.text ++ '\n' :: line.text }
          run script fuel rest { editor with lines, space, number := editor.number + 1 }
      | .hold appended =>
        let held := if appended then { editor.held with text := editor.held.text ++ '\n' :: space.text } else space
        run script fuel rest { editor with held }
      | .fetch appended =>
        let held := editor.held
        let space := if appended then { space with text := space.text ++ '\n' :: held.text } else held
        run script fuel rest { editor with space }
      | .swap => run script fuel rest { editor with space := editor.held, held := space }
      | .clear => run script fuel rest { editor with space := { space with text := [] } }
      | .reveal => run script fuel rest (editor.write (revealed space.text))
      | .branch name whenChanged =>
        let goes := whenChanged.all (· == editor.changed)
        let editor := if whenChanged.isSome then { editor with changed := false } else editor
        run script fuel (if goes then afterLabel script name else rest) editor
      | .opening => run script fuel rest editor
      | .closing => run script fuel rest editor
      | .label _ => run script fuel rest editor

/-- The number of commands that may be run for a line. -/
def mostCommands : Nat := 1000000

/-- Runs a script for the lines that are left, at most `fuel` times. -/
def runLines (script : List (Nat × EditCommand)) : Nat → Editor → Editor
  | 0, editor => editor
  | fuel + 1, editor =>
    let next? : Option Editor :=
      if editor.repeats then some { editor with repeats := false, deleted := false }
      else
        match editor.lines with
        | [] => none
        | line :: lines =>
          some { editor with lines, space := line, number := editor.number + 1, changed := false, deleted := false }
    match next? with
    | none => editor
    | some editor =>
      let editor := run script mostCommands script editor
      let editor := (if editor.quiet || editor.deleted then editor else editor.writeLine editor.space).writeAfter
      if editor.finished then editor else runLines script fuel editor

end Editor

/-- The lines of a text. -/
def editedLines (t : Text) : List EditedLine :=
  let fields := splitOn '\n' t
  let last := fields.getLastD []
  (fields.dropLast.map fun text => { text := text, isEnded := true }) ++ if last.isEmpty then [] else [{ text := last, isEnded := false }]

/-- A text as a script leaves it, and the status that the script ends with. -/
def editText (script : List EditCommand) (quiet : Bool) (t : Text) : Text × Nat :=
  let active := (script.zipIdx.filter fun (command, _) => command.first.any fun first =>
    match first with
    | .line 0 => true
    | _ => false).map fun (_, index) => (index, (none : Option Nat))
  let editor := Editor.runLines (script.zipIdx.map fun (command, index) => (index, command)) (2 * t.length + 2)
    { lines := editedLines t, active, quiet }
  (editor.output, editor.status)

end RoffDocBook.Shell
