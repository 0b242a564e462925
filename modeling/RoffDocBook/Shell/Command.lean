import RoffDocBook.Shell.Token

/-! The commands of shell scripts, and how they are read from tokens. -/
namespace RoffDocBook.Shell
open Text

/-- What a redirection does with its stream. -/
inductive RedirectionKind where
  | input
  | output
  | append
  /-- The stream leads where another one leads. -/
  | duplicate
  /-- The target is the input itself, in which parameters may be expanded. -/
  | document (expanded : Bool)
  deriving DecidableEq, Repr

structure Redirection where
  stream : Nat
  kind : RedirectionKind
  target : Text
  deriving DecidableEq, Repr

inductive Command where
  | nothing
  | simple (words : List Text) (redirections : List Redirection)
  | redirected (command : Command) (redirections : List Redirection)
  | inverted (command : Command)
  | piped (first second : Command)
  /-- The second command is run if the first one succeeds. -/
  | both (first second : Command)
  /-- The second command is run if the first one fails. -/
  | either (first second : Command)
  | sequence (first second : Command)
  | subshell (body : Command)
  | branch (condition yes no : Command)
  /-- The body is run as long as the success of the condition is the expected one. -/
  | loop (expected : Bool) (condition body : Command)
  /-- The body is run for each item; without items, for each argument. -/
  | each (name : Text) (items : Option (List Text)) (body : Command)
  | choice (word : Text) (patterns : List Text) (body otherwise : Command)
  | definition (name : Text) (body : Command)
  deriving Repr

/-- Readers of commands, which take tokens off the front. -/
abbrev CommandReader := StateT (List Token) Option

namespace CommandReader

def peek? : CommandReader (Option Token) :=
  fun tokens => some (tokens.head?, tokens)

/-- Takes a token off the front if it is there. -/
def skip (token : Token) : CommandReader Bool :=
  fun tokens => if tokens.head? = some token then some (true, tokens.tail) else some (false, tokens)

def expect (token : Token) : CommandReader Unit := do
  if !(← skip token) then failure

def skipMark (mark : String) : CommandReader Bool :=
  skip (.mark mark.toList)

def skipWord (word : String) : CommandReader Bool :=
  skip (.word word.toList)

def expectWord (word : String) : CommandReader Unit :=
  expect (.word word.toList)

/-- Passes over line ends. -/
def skipLines : CommandReader Unit :=
  fun tokens => some ((), tokens.dropWhile (· = .mark ['\n']))

/-- The words at the front. -/
def wordList : CommandReader (List Text) :=
  fun tokens =>
    let isWord : Token → Bool
      | .word _ => true
      | _ => false
    let raw? : Token → Option Text
      | .word raw => some raw
      | _ => none
    some ((tokens.takeWhile isWord).filterMap raw?, tokens.dropWhile isWord)

/-- The words that only end what other words begin. -/
def closers : List String :=
  ["then", "else", "elif", "fi", "do", "done", "esac", "\x7d"]

/-- Whether a list of commands is over. -/
def atEnd : CommandReader Bool := do
  match ← peek? with
  | none => pure true
  | some (.mark mark) => pure (mark == ")" || mark == ";;")
  | some (.word raw) => pure (closers.any fun closer => raw == closer.toList)
  | some _ => pure false

def kindOf (mark : Text) : RedirectionKind :=
  if mark == ">>" then .append
  else if mark == ">&" || mark == "<&" then .duplicate
  else if mark == "<" || mark == "<>" then .input
  else .output

/-- A redirection, if one is at the front. -/
def redirection? : CommandReader (Option Redirection) := do
  match ← get with
  | .redirection stream mark :: .word target :: rest =>
    set rest
    pure (some { stream, kind := kindOf mark, target })
  | .redirection .. :: _ => failure
  | .document stream expanded body :: rest =>
    set rest
    pure (some { stream, kind := .document expanded, target := body })
  | _ => pure none

def redirections : Nat → CommandReader (List Redirection)
  | 0 => pure []
  | fuel + 1 => do
    match ← redirection? with
    | some redirection => return redirection :: (← redirections fuel)
    | none => pure []

/-- The words and the redirections of a simple command. -/
def simpleParts : Nat → CommandReader (List Text × List Redirection)
  | 0 => failure
  | fuel + 1 => do
    if let some redirection ← redirection? then
      let (words, redirections) ← simpleParts fuel
      return (words, redirection :: redirections)
    match ← peek? with
    | some (.word raw) =>
      discard (skip (.word raw))
      let (words, redirections) ← simpleParts fuel
      pure (raw :: words, redirections)
    | some .unfinished => failure
    | _ => pure ([], [])

/-- The patterns of a branch up to the bracket after them. -/
def patterns : Nat → CommandReader (List Text)
  | 0 => failure
  | fuel + 1 => do
    match ← peek? with
    | some (.word raw) =>
      discard (skip (.word raw))
      if ← skipMark "|" then return raw :: (← patterns fuel)
      expect (.mark [')'])
      pure [raw]
    | _ => failure

mutual

/-- Commands up to the end of a list of them. -/
def list : Nat → CommandReader Command
  | 0 => failure
  | fuel + 1 => do
    skipLines
    if ← atEnd then pure .nothing
    else
      let first ← alternatives fuel
      if (← skipMark ";") || (← skipMark "&") || (← skipMark "\n") then
        return .sequence first (← list fuel)
      pure first

/-- A list with at least one command. -/
def body : Nat → CommandReader Command
  | 0 => failure
  | fuel + 1 => do
    match ← list fuel with
    | .nothing => failure
    | command => pure command

/-- Pipelines with the marks for success and failure between them. -/
def alternatives : Nat → CommandReader Command
  | 0 => failure
  | fuel + 1 => do
    let first ← pipeline fuel
    furtherAlternatives fuel first

def furtherAlternatives : Nat → Command → CommandReader Command
  | 0, _ => failure
  | fuel + 1, before => do
    if ← skipMark "&&" then
      skipLines
      furtherAlternatives fuel (.both before (← pipeline fuel))
    else if ← skipMark "||" then
      skipLines
      furtherAlternatives fuel (.either before (← pipeline fuel))
    else pure before

def pipeline : Nat → CommandReader Command
  | 0 => failure
  | fuel + 1 => do
    if ← skipWord "!" then return .inverted (← pipes fuel)
    pipes fuel

def pipes : Nat → CommandReader Command
  | 0 => failure
  | fuel + 1 => do
    let first ← command fuel
    if ← skipMark "|" then
      skipLines
      return .piped first (← pipes fuel)
    pure first

/-- A command between two marks, with the redirections after it. -/
def command : Nat → CommandReader Command
  | 0 => failure
  | fuel + 1 => do
    if ← atEnd then failure
    match ← compound? fuel with
    | some compound =>
      match ← redirections fuel with
      | [] => pure compound
      | redirections => pure (.redirected compound redirections)
    | none =>
      match ← get with
      | .word name :: .mark ['('] :: .mark [')'] :: rest =>
        set rest
        skipLines
        return .definition name (← command fuel)
      | _ =>
        match ← simpleParts fuel with
        | ([], []) => failure
        | (words, redirections) => pure (.simple words redirections)

/-- A command made of others, if a word or a mark opens one. -/
def compound? : Nat → CommandReader (Option Command)
  | 0 => failure
  | fuel + 1 => do
    match ← peek? with
    | some (.mark mark) =>
      if mark != "(" then return none
      discard (skipMark "(")
      let inside ← body fuel
      expect (.mark [')'])
      return some (Command.subshell inside)
    | some (.word raw) =>
      let opened ← get
      set opened.tail
      match String.ofList raw with
      | "\x7b" =>
        let inside ← body fuel
        expectWord "\x7d"
        return some inside
      | "if" => some <$> conditional fuel
      | "while" => some <$> loop fuel true
      | "until" => some <$> loop fuel false
      | "for" => some <$> each fuel
      | "case" => some <$> choice fuel
      | _ =>
        set opened
        return none
    | _ => return none

/-- What follows the word that opens a condition. -/
def conditional : Nat → CommandReader Command
  | 0 => failure
  | fuel + 1 => do
    let condition ← body fuel
    expectWord "then"
    let yes ← body fuel
    if ← skipWord "elif" then return .branch condition yes (← conditional fuel)
    let no ← if ← skipWord "else" then body fuel else pure .nothing
    expectWord "fi"
    pure (.branch condition yes no)

def loop : Nat → Bool → CommandReader Command
  | 0, _ => failure
  | fuel + 1, expected => do
    let condition ← body fuel
    return .loop expected condition (← doGroup fuel)

def doGroup : Nat → CommandReader Command
  | 0 => failure
  | fuel + 1 => do
    expectWord "do"
    let inside ← body fuel
    expectWord "done"
    pure inside

def each : Nat → CommandReader Command
  | 0 => failure
  | fuel + 1 => do
    match ← get with
    | .word name :: rest =>
      set rest
      skipLines
      let items ←
        if ← skipWord "in" then
          let items ← wordList
          if !(← skipMark ";") && !(← skipMark "\n") then failure
          pure (some items)
        else
          discard (skipMark ";")
          pure none
      skipLines
      return .each name items (← doGroup fuel)
    | _ => failure

/-- What follows the word that opens a choice. -/
def choice : Nat → CommandReader Command
  | 0 => failure
  | fuel + 1 => do
    match ← get with
    | .word word :: rest =>
      set rest
      skipLines
      expectWord "in"
      choices fuel word
    | _ => failure

/-- The branches of a choice up to the word that closes it. -/
def choices : Nat → Text → CommandReader Command
  | 0, _ => failure
  | fuel + 1, word => do
    skipLines
    if ← skipWord "esac" then pure .nothing
    else
      discard (skipMark "(")
      let patterns ← patterns fuel
      let inside ← list fuel
      if ← skipMark ";;" then return .choice word patterns inside (← choices fuel word)
      skipLines
      expectWord "esac"
      pure (.choice word patterns inside .nothing)

end

/-- The commands of a line. -/
def line : Nat → CommandReader Command
  | 0 => failure
  | fuel + 1 => do
    let first ← alternatives fuel
    if (← skipMark ";") || (← skipMark "&") then
      if (← peek?).all (· = .mark ['\n']) then pure first
      else return .sequence first (← line fuel)
    else if (← peek?).all (· = .mark ['\n']) then pure first
    else failure

/-- The commands of the first line that has any, and the tokens after it. -/
def firstLine? (tokens : List Token) : Option (Command × List Token) :=
  (do skipLines; line (20 * tokens.length + 20)) tokens

end CommandReader

end RoffDocBook.Shell
