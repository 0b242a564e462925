import RoffDocBook.Text.Basic

/-! The tokens of shell scripts. Words keep their quotes and expansions as they are written. -/
namespace RoffDocBook.Shell
open Text

/-- A character that begins a name. -/
def isNameStart (c : Char) : Bool :=
  c.isAlpha || c == '_'

def isNameChar (c : Char) : Bool :=
  c.isAlphanum || c == '_'

/-- What stands after a dollar sign without braces: a name, a digit or a mark with a meaning of its own. -/
def splitParameter (t : Text) : Text × Text :=
  match t with
  | [] => ([], [])
  | c :: rest =>
    if isNameStart c then (t.takeWhile isNameChar, t.dropWhile isNameChar)
    else if c.isDigit || "?#@*$!-".toList.elem c then ([c], rest)
    else ([], t)

/-- A character that ends a word. -/
def isMeta (c : Char) : Bool :=
  " \t\n;&|<>()".toList.elem c

/-- What follows a word, if it is at the front. -/
def afterWord? (word : String) (t : Text) : Option Text :=
  (dropStart? word.toList t).filter fun rest => rest.head?.all isMeta

mutual

/-- The unit at the front of a text, and what follows it: a character, an escape, a quotation or an expansion. Inside
quotation marks other quotes have no meaning. -/
def unit? : Nat → Bool → Text → Option (Text × Text)
  | 0, _, _ => none
  | _, _, [] => none
  | fuel + 1, quoted, c :: rest =>
    if c == '\\' then some (c :: rest.take 1, rest.drop 1)
    else if c == '\'' && !quoted then
      (breakOn? ['\''] rest).map fun (inside, rest) => (c :: inside ++ ['\''], rest)
    else if c == '"' && !quoted then
      (enclosed? fuel true '"' false rest).map fun (inside, rest) => (c :: inside, rest)
    else if c == '\x60' then
      (enclosed? fuel true '\x60' false rest).map fun (inside, rest) => (c :: inside, rest)
    else if c == '$' then
      match rest with
      | '(' :: rest => (enclosed? fuel false ')' true rest).map fun (inside, rest) => (c :: '(' :: inside, rest)
      | '\x7b' :: rest =>
        (enclosed? fuel quoted '\x7d' false rest).map fun (inside, rest) => (c :: '\x7b' :: inside, rest)
      | rest => some (c :: (splitParameter rest).1, (splitParameter rest).2)
    else some ([c], rest)

/-- The units up to a closing character, with it. Round brackets may be nested, and the branches of a choice have
brackets that only close; `fresh` tells whether a word may begin. -/
def enclosed? : Nat → Bool → Char → Bool → Text → Option (Text × Text)
  | 0, _, _, _, _ => none
  | _, _, _, _, [] => none
  | fuel + 1, quoted, closer, fresh, c :: rest =>
    if c == closer then some ([c], rest)
    else
      let choice? := if fresh && closer == ')' then (afterWord? "case" (c :: rest)).bind (choice? fuel true) else none
      match choice? with
      | some (inside, rest) =>
        (enclosed? fuel quoted closer false rest).map fun (after, rest) => ("case" ++ inside ++ after, rest)
      | none => do
        let (piece, rest) ←
          if c == '(' && closer == ')' then
            (enclosed? fuel quoted ')' true rest).map fun (inside, rest) => (c :: inside, rest)
          else unit? fuel quoted (c :: rest)
        let (after, rest) ← enclosed? fuel quoted closer (isMeta c) rest
        pure (piece ++ after, rest)

/-- The units of a choice up to the word that closes it, with that. -/
def choice? : Nat → Bool → Text → Option (Text × Text)
  | 0, _, _ => none
  | _, _, [] => none
  | fuel + 1, fresh, c :: rest =>
    match if fresh then afterWord? "esac" (c :: rest) else none with
    | some rest => some ("esac", rest)
    | none => do
      let (piece, rest) ←
        match if fresh then afterWord? "case" (c :: rest) else none with
        | some rest => (choice? fuel true rest).map fun (inside, rest) => ("case" ++ inside, rest)
        | none => unit? fuel false (c :: rest)
      let (after, rest) ← choice? fuel (isMeta c) rest
      pure (piece ++ after, rest)

end

/-- A bound on the steps that the units of a text take. -/
def bound (t : Text) : Nat :=
  2 * t.length + 2

/-- The units of a text. What is not closed counts as written. -/
def units (quoted : Bool) (t : Text) : List Text :=
  go t.length t
where
  go : Nat → Text → List Text
    | 0, _ => []
    | _, [] => []
    | fuel + 1, c :: rest =>
      match unit? (bound (c :: rest)) quoted (c :: rest) with
      | some (piece, rest) => piece :: go fuel rest
      | none => [c] :: go fuel rest

/-- The word at the front of a text as it is written; there is none if a quotation in it is not closed. -/
def word? : Nat → Text → Option (Text × Text)
  | 0, _ => none
  | _, [] => some ([], [])
  | fuel + 1, c :: rest =>
    if isMeta c then some ([], c :: rest)
    else do
      let (piece, rest) ← unit? (bound (c :: rest)) false (c :: rest)
      let (after, rest) ← word? fuel rest
      pure (piece ++ after, rest)

/-- A word without its quotes, where nothing is expanded. -/
def unquote (raw : Text) : Text :=
  (units false raw).flatMap fun piece =>
    match piece with
    | ['\\', '\n'] => []
    | ['\\', c] => [c]
    | '\'' :: inside => inside.dropLast
    | '"' :: inside => inside.dropLast
    | piece => piece

inductive Token where
  /-- A word as it is written. -/
  | word (raw : Text)
  /-- A mark between commands. -/
  | mark (text : Text)
  /-- The mark of a redirection; the word after it tells where the stream leads. -/
  | redirection (stream : Nat) (mark : Text)
  /-- Input that is given in the script itself. -/
  | document (stream : Nat) (expanded : Bool) (body : Text)
  /-- Something that is not closed. -/
  | unfinished
  deriving DecidableEq, Repr

/-- The first of the marks that a text begins with, and what follows it. -/
def anyMark? (marks : List String) (t : Text) : Option (Text × Text) :=
  marks.findSome? fun (mark : String) => (dropStart? mark.toList t).map fun rest => (mark.toList, rest)

/-- The lines up to one that is the given word, and what follows it. -/
def documentLines (delimiter : Text) (stripped : Bool) : Nat → Text → Text × Text
  | 0, t => ([], t)
  | _, [] => ([], [])
  | fuel + 1, t =>
    let (line, rest) := spanUntil (· == '\n') t
    let line := if stripped then line.dropWhile (· == '\t') else line
    if line == delimiter then ([], rest.drop 1)
    else
      let (body, after) := documentLines delimiter stripped fuel (rest.drop 1)
      (line ++ '\n' :: body, after)

/-- The tokens of a script. -/
def tokens (script : Text) : List Token :=
  go (2 * script.length + 2) script
where
  redirected (fuel : Nat) (stream : Option Nat) (mark t : Text) : List Token :=
    if mark == "<<" || mark == "<<-" then
      match word? (t.length + 1) (t.dropWhile isSpaceOrTab) with
      | none => [.unfinished]
      | some (raw, rest) =>
        let (line, after) := spanUntil (· == '\n') rest
        let (body, after) := documentLines (unquote raw) (mark == "<<-") after.length (after.drop 1)
        let expanded := !raw.any fun c => c == '\'' || c == '"' || c == '\\'
        .document (stream.getD 0) expanded body :: go fuel (line ++ '\n' :: after)
    else .redirection (stream.getD (if mark.head? == some '<' then 0 else 1)) mark :: go fuel t
  go : Nat → Text → List Token
    | 0, _ => []
    | _, [] => []
    | fuel + 1, c :: rest =>
      if c == '\\' && rest.head? == some '\n' then go fuel (rest.drop 1)
      else if isSpaceOrTab c then go fuel rest
      else if c == '#' then go fuel (rest.dropWhile (· != '\n'))
      else
        match anyMark? ["&&", "||", ";;", ";", "&", "|", "(", ")", "\n"] (c :: rest) with
        | some (mark, rest) => .mark mark :: go fuel rest
        | none =>
          match anyMark? redirections (c :: rest) with
          | some (mark, rest) => redirected fuel none mark rest
          | none =>
            match word? (rest.length + 2) (c :: rest) with
            | none => [.unfinished]
            | some (raw, rest) =>
              match (if raw.all Char.isDigit then anyMark? redirections rest else none) with
              | some (mark, rest) => redirected fuel (toNat? raw) mark rest
              | none => .word raw :: go fuel rest
  redirections : List String :=
    ["<<-", "<<", "<&", ">&", ">>", ">|", "<>", "<", ">"]

end RoffDocBook.Shell
