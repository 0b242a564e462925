import RoffDocBook.Shell.Format
import RoffDocBook.Shell.Regex

/-! The commands of the stream editor, and how they are read. -/
namespace RoffDocBook.Shell
open Text

inductive Address where
  | line (number : Nat)
  | last
  /-- Every line that a number of steps leads to from a first one. -/
  | step (first length : Nat)
  /-- The line that is a number of lines below the first one of a range. -/
  | below (count : Nat)
  | regex (regex : Regex) (folded : Bool)
  deriving Repr

/-- A piece of what is put in the place of a match. -/
inductive ReplacementPiece where
  | char (c : Char)
  /-- What a group has matched, or the whole match under the number zero. -/
  | group (index : Nat)
  /-- The letter that tells which case what follows has. -/
  | casing (letter : Char)
  deriving DecidableEq, Repr

structure Substitution where
  regex : Regex
  replacement : List ReplacementPiece
  folded : Bool := false
  /-- Whether the matches after the first one that counts are replaced too. -/
  everywhere : Bool := false
  /-- The first match that counts. -/
  least : Nat := 1
  prints : Bool := false
  deriving Repr

inductive Edit where
  | substitute (substitution : Substitution)
  | exchange (old new : Text)
  /-- Deletes the text, or its first line. -/
  | delete (first : Bool)
  | print (first : Bool)
  /-- Ends the run, with or without the text written. -/
  | quit (silent : Bool) (status : Nat)
  | append (text : Text)
  | insert (text : Text)
  | change (text : Text)
  | number
  | next
  | nextAppended
  | hold (appended : Bool)
  | fetch (appended : Bool)
  | swap
  | clear
  /-- Writes the text with what cannot be seen in it. -/
  | reveal
  /-- Begins a block, which is passed over for other lines. -/
  | opening
  | closing
  | label (name : Text)
  /-- Goes on behind a label, or at the end if it has no name; perhaps only after a substitution. -/
  | branch (name : Text) (whenChanged : Option Bool)
  deriving Repr

/-- A command of a script with the lines that it is for. -/
structure EditCommand where
  first : Option Address := none
  last : Option Address := none
  negated : Bool := false
  edit : Edit
  deriving Repr

namespace EditCommand

/-- A part of a command up to its delimiter, and what follows that. A backslash keeps a delimiter in the part, and so do
square brackets if it is a regular expression. -/
def part? (isRegex : Bool) (delimiter : Char) : Nat → Text → Option (Text × Text)
  | 0, _ => none
  | _, [] => none
  | fuel + 1, c :: rest =>
    let more (kept rest : Text) : Option (Text × Text) :=
      (part? isRegex delimiter fuel rest).map fun (inside, rest) => (kept ++ inside, rest)
    if c == delimiter then some ([], rest)
    else if c == '\\' then
      match rest with
      | d :: rest => if d == delimiter then more [d] rest else more [c, d] rest
      | [] => none
    else if c == '[' && isRegex then
      match CharSet.ofBrackets? rest with
      | some (_, after) => more (c :: rest.take (rest.length - after.length)) after
      | none => more [c] rest
    else more [c] rest

/-- The pieces of a replacement. -/
def replacement : Text → List ReplacementPiece
  | [] => []
  | '\\' :: c :: rest =>
    let piece : ReplacementPiece :=
      if c.isDigit then .group (c.toNat - '0'.toNat)
      else if "ULEul".toList.elem c then .casing c
      else .char (if "afnrtv".toList.elem c then (escapeChar [c]).1 else c)
    piece :: replacement rest
  | '&' :: rest => .group 0 :: replacement rest
  | c :: rest => .char c :: replacement rest

/-- An expression with the escapes of blanks replaced, which then have their meaning in brackets too. -/
def blanksReplaced : Text → Text
  | [] => []
  | '\\' :: c :: rest =>
    if c == 'n' then '\n' :: blanksReplaced rest
    else if c == 't' then '\t' :: blanksReplaced rest
    else '\\' :: c :: blanksReplaced rest
  | c :: rest => c :: blanksReplaced rest

def regex? (extended : Bool) (t : Text) : Option Regex :=
  Regex.ofText? extended (blanksReplaced t)

/-- The number at the front of a text, and what follows it. -/
def number? (t : Text) : Option (Nat × Text) :=
  (toNat? (t.takeWhile Char.isDigit)).map fun n => (n, t.dropWhile Char.isDigit)

/-- An address at the front of a command, if one is there, and what follows it. -/
def address? (extended : Bool) (t : Text) : Option (Option Address × Text) :=
  let ofRegex (delimiter : Char) (rest : Text) : Option (Option Address × Text) := do
    let (inside, rest) ← part? true delimiter (rest.length + 1) rest
    let regex ← regex? extended inside
    match rest with
    | 'I' :: rest => some (some (.regex regex true), rest)
    | rest => some (some (.regex regex false), rest)
  match t with
  | '$' :: rest => some (some .last, rest)
  | '/' :: rest => ofRegex '/' rest
  | '\\' :: delimiter :: rest => ofRegex delimiter rest
  | '+' :: rest => (number? rest).map fun (n, rest) => (some (.below n), rest)
  | t =>
    match number? t with
    | none => some (none, t)
    | some (first, '~' :: rest) => (number? rest).map fun (length, rest) => (some (.step first length), rest)
    | some (n, rest) => some (some (.line n), rest)

/-- The flags of a substitution, and what follows them. -/
def flags : Nat → Substitution → Text → Substitution × Text
  | 0, substitution, t => (substitution, t)
  | fuel + 1, substitution, t =>
    match number? t, t with
    | some (least, rest), _ => flags fuel { substitution with least } rest
    | none, 'g' :: rest => flags fuel { substitution with everywhere := true } rest
    | none, 'p' :: rest => flags fuel { substitution with prints := true } rest
    | none, 'i' :: rest => flags fuel { substitution with folded := true } rest
    | none, 'I' :: rest => flags fuel { substitution with folded := true } rest
    | none, _ => (substitution, t)

/-- The text that a command writes, and what follows it. It begins on the next line or after blanks. -/
def writtenText (t : Text) : Text × Text :=
  let (inside, rest) :=
    match t.dropWhile isSpaceOrTab with
    | '\\' :: rest =>
      match rest.dropWhile isSpaceOrTab with
      | '\n' :: after => go after
      | _ => go rest
    | rest => go rest
  (inside ++ ['\n'], rest)
where
  go : Text → Text × Text
    | [] => ([], [])
    | '\\' :: c :: rest =>
      let (inside, rest) := go rest
      (c :: inside, rest)
    | c :: rest =>
      if c == '\n' then ([], rest)
      else
        let (inside, rest) := go rest
        (c :: inside, rest)

/-- What follows a command, if it is ended. -/
def ended? (edit : Edit) (t : Text) : Option (Edit × Text) :=
  match t.dropWhile isSpaceOrTab with
  | [] => some (edit, [])
  | c :: rest =>
    if c == ';' || c == '\n' then some (edit, rest)
    else if c == '\x7d' || c == '#' then some (edit, c :: rest)
    else none

/-- The name of a label, and what follows it. -/
def labelName (t : Text) : Text × Text :=
  spanUntil (fun c => c == ';' || isBlank c) (t.dropWhile isSpaceOrTab)

/-- What a command does, from the letter that names it on, and what follows it. -/
def edit? (extended : Bool) : Text → Option (Edit × Text)
  | [] => none
  | c :: rest =>
    let parts (isRegex : Bool) : Option (Text × Text × Text) := do
      let delimiter ← rest.head?
      let (old, rest) ← part? isRegex delimiter rest.length rest.tail
      let (new, rest) ← part? false delimiter (rest.length + 1) rest
      some (old, new, rest)
    let status := (number? (rest.dropWhile isSpaceOrTab)).getD (0, rest)
    match c with
    | 's' => do
      let (old, new, rest) ← parts true
      let (substitution, rest) :=
        flags rest.length { regex := ← regex? extended old, replacement := replacement new } rest
      if substitution.least == 0 then none else ended? (.substitute substitution) rest
    | 'y' => do
      let (old, new, rest) ← parts false
      let (old, new) := (unescaped old, unescaped new)
      if old.length != new.length then none else ended? (.exchange old new) rest
    | 'd' => ended? (.delete false) rest
    | 'D' => ended? (.delete true) rest
    | 'p' => ended? (.print false) rest
    | 'P' => ended? (.print true) rest
    | 'q' => ended? (.quit false status.1) status.2
    | 'Q' => ended? (.quit true status.1) status.2
    | '=' => ended? .number rest
    | 'n' => ended? .next rest
    | 'N' => ended? .nextAppended rest
    | 'h' => ended? (.hold false) rest
    | 'H' => ended? (.hold true) rest
    | 'g' => ended? (.fetch false) rest
    | 'G' => ended? (.fetch true) rest
    | 'x' => ended? .swap rest
    | 'z' => ended? .clear rest
    | 'l' => ended? .reveal rest
    | '\x7b' => some (.opening, rest)
    | '\x7d' => ended? .closing rest
    | ':' => some (.label (labelName rest).1, (labelName rest).2)
    | 'b' => some (.branch (labelName rest).1 none, (labelName rest).2)
    | 't' => some (.branch (labelName rest).1 (some true), (labelName rest).2)
    | 'T' => some (.branch (labelName rest).1 (some false), (labelName rest).2)
    | 'a' => if rest.isEmpty then none else some (.append (writtenText rest).1, (writtenText rest).2)
    | 'i' => if rest.isEmpty then none else some (.insert (writtenText rest).1, (writtenText rest).2)
    | 'c' => if rest.isEmpty then none else some (.change (writtenText rest).1, (writtenText rest).2)
    | _ => none
where
  /-- Characters to be exchanged, without the backslashes before them. -/
  unescaped : Text → Text
    | [] => []
    | '\\' :: c :: rest => (if "afnrtv".toList.elem c then (escapeChar [c]).1 else c) :: unescaped rest
    | c :: rest => c :: unescaped rest

/-- The commands of a script. -/
def commands? (extended : Bool) : Nat → Text → Option (List EditCommand)
  | 0, _ => none
  | fuel + 1, t => do
    let t := t.dropWhile fun c => isBlank c || c == ';'
    if t.isEmpty then some []
    else if t.head? == some '#' then commands? extended fuel (t.dropWhile (· != '\n'))
    else
      let (first, t) ← address? extended t
      let t := t.dropWhile isSpaceOrTab
      let (last, t) ←
        match t with
        | ',' :: rest => address? extended (rest.dropWhile isSpaceOrTab)
        | t => some (none, t)
      let t := t.dropWhile isSpaceOrTab
      let negated := t.head? == some '!'
      let (edit, t) ← edit? extended ((if negated then t.drop 1 else t).dropWhile isSpaceOrTab)
      return { first, last, negated, edit } :: (← commands? extended fuel t)

/-- Whether the blocks of a script are closed, with a number of them open before it. -/
def isBalanced : Nat → List EditCommand → Bool
  | depth, [] => depth == 0
  | depth, command :: rest =>
    match command.edit with
    | .opening => isBalanced (depth + 1) rest
    | .closing => depth != 0 && isBalanced (depth - 1) rest
    | _ => isBalanced depth rest

/-- Whether the label of a branch is there. -/
def hasLabel (commands : List EditCommand) (name : Text) : Bool :=
  name.isEmpty || commands.any fun command =>
    match command.edit with
    | .label other => other == name
    | _ => false

/-- The commands of a script that makes sense. -/
def script? (extended : Bool) (t : Text) : Option (List EditCommand) := do
  let commands ← commands? extended (t.length + 2) t
  let areLabelled := commands.all fun command =>
    match command.edit with
    | .branch name _ => hasLabel commands name
    | _ => true
  if isBalanced 0 commands && areLabelled then some commands else none

end EditCommand

end RoffDocBook.Shell
