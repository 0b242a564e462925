import RoffDocBook.Hints
import RoffDocBook.Text.Basic
import RoffDocBook.TokenReader

/-! The parts of the synopsis of a command and their markup. -/
namespace RoffDocBook.Synopsis
open Text

/-- Whether a part must be given. -/
inductive Choice where
  | plain | required | optional
  deriving DecidableEq, Repr

def Choice.attribute : Choice → Text
  | plain => "plain"
  | required => "req"
  | optional => "opt"

inductive WordKind where
  | option
  | replaceable
  /-- A redirection of the shell. -/
  | redirect
  /-- Anything else, which is kept as text. -/
  | generic
  deriving DecidableEq, Repr

/-- Words that redirect, as escaped text. -/
def redirections : List Text :=
  ["&lt;", "&gt;", "&gt;&gt;", "2&gt;", "2&gt;&amp;1", "&lt;&lt;", "|&amp;"]

/-- What a word on a synopsis line is. -/
def WordKind.ofToken (token : Text) : WordKind :=
  let opensOption : Bool :=
    match token with
    | sign :: c :: _ => (sign == '-' || sign == '+') && (isLetterOrNumber c || c == '-' || c == '?' || c == '#')
    | _ => false
  if redirections.contains token then .redirect
  else if opensOption then .option
  else if token.all fun c => !isLetterOrNumber c then .generic
  else .replaceable

inductive Node where
  | word (kind : WordKind) (token : Text) (repeats : Bool)
  /-- Parts that belong together. -/
  | arg (choice : Choice) (repeats : Bool) (children : List Node)
  /-- Alternatives. -/
  | group (choice : Choice) (repeats : Bool) (children : List Node)

namespace Node

def ofToken (token : Text) : Node :=
  word (WordKind.ofToken token) token false

/-- The same part with a mark that it can be repeated. -/
def repeated : Node → Node
  | word kind token _ => word kind token true
  | arg choice _ children => arg choice true children
  | group choice _ children => group choice true children

/-- The markup of a word within another part. -/
def wordMarkup (kind : WordKind) (token : Text) : Text :=
  match kind with
  | .option =>
    match breakOn? "=" token with
    | some (option, c :: value) => "<option>" ++ option ++ "=</option><replaceable>" ++ c :: value ++ "</replaceable>"
    | _ => "<option>" ++ token ++ "</option>"
  | .replaceable => "<replaceable>" ++ token ++ "</replaceable>"
  | .redirect => token
  | .generic => token

def repeatAttribute (repeats : Bool) : Text :=
  if repeats then " rep='repeat'" else ""

mutual

/-- The markup of a part on its own. -/
def markup : Node → Text
  | word kind token repeats =>
    "<arg choice='plain'" ++ repeatAttribute repeats ++ ">" ++ wordMarkup kind token ++ "</arg>"
  | arg choice repeats children =>
    "<arg choice='" ++ choice.attribute ++ "'" ++ repeatAttribute repeats ++ ">" ++
      join " " ((inlineMarkups children).filter fun markup => !markup.isEmpty) ++ "</arg>"
  | group choice repeats children =>
    "<group choice='" ++ choice.attribute ++ "'" ++ repeatAttribute repeats ++ ">" ++
      (markups children).flatten ++ "</group>"

/-- The markup of a part within an `arg`, where a word has no element around it. -/
def inlineMarkup : Node → Text
  | word kind token _ => wordMarkup kind token
  | arg choice repeats children => markup (arg choice repeats children)
  | group choice repeats children => markup (group choice repeats children)

def markups : List Node → List Text
  | [] => []
  | node :: rest => markup node :: markups rest

def inlineMarkups : List Node → List Text
  | [] => []
  | node :: rest => inlineMarkup node :: inlineMarkups rest

end

/-- One of several alternatives as a part of its own. -/
def ofAlternative : List Node → Node
  | [word kind token repeats] => arg .plain repeats [word kind token false]
  | [node] => node
  | nodes => arg .plain false nodes

/-- The part that a bracketed sequence of alternatives makes. -/
def ofAlternatives (choice : Choice) : List (List Node) → Node
  | [[word kind token repeats]] => arg choice false [word kind token repeats]
  | [[arg inner repeats children]] =>
    if choice = .required && inner = .optional then arg choice false [arg inner repeats children]
    else arg choice repeats children
  | [[group inner repeats children]] =>
    if choice = .required && inner = .optional then arg choice false [group inner repeats children]
    else group choice repeats children
  | [nodes] => arg choice false nodes
  | alternatives => group choice false ((alternatives.filter fun nodes => !nodes.isEmpty).map ofAlternative)

end Node

end RoffDocBook.Synopsis

/-! The synopsis of a command: a name, and its options and arguments with brackets, alternatives and ellipses. -/
namespace RoffDocBook.Synopsis
open Text

/-- What came of the attempt to read lines as a synopsis of some kind. -/
inductive Verdict (α : Type) where
  | parsed (result : α)
  /-- The lines are not of this kind. -/
  | declined
  /-- The lines look like this kind, but cannot be read as it. -/
  | failed (reason : Text)

/-- What is known about the names of commands. -/
structure CommandContext where
  names : List Text
  hints : Hints

def CommandContext.isKnown (context : CommandContext) (word : Text) : Bool :=
  context.names.contains word || context.hints.is word .command

namespace Command

/-- Blanks around brackets, bars and ellipses. -/
def space : Text → Text
  | [] => []
  | '.' :: '.' :: '.' :: rest => " ... " ++ space rest
  | c :: rest => if "[]\x7b\x7d|".toList.elem c then ' ' :: c :: ' ' :: space rest else c :: space rest

/-- Whether a line reads as a sentence. -/
def isProse (line : Text) : Bool :=
  let all := words line
  if all.length < 4 || line.elem '[' || line.elem '|' then false
  else
    let isProseWord (word : Text) : Bool :=
      let word := (word.reverse.dropWhile fun c => ".,;:".toList.elem c).reverse
      !word.isEmpty && word.all isLetter
    let count := all.countP isProseWord
    let ends := (trimEnd line).getLast?.any fun c => ".:,".toList.elem c
    all.length * 7 ≤ count * 10 && (ends || count == all.length)

/-- How much a word after the first speaks for a synopsis. -/
def wordScore (word : Text) : Nat :=
  (if startsWith word "-" && 1 < word.length then 2 else 0) +
    (if word.elem '[' || word.elem '|' then 2 else 0) +
    (if contains word "..." || word.elem '=' then 1 else 0)

/-- Whether a line can be the first one of the synopsis of a command. -/
def opensSynopsis (line : Text) (context : CommandContext) : Bool :=
  match words line with
  | [] => false
  | first :: rest =>
    if first.head?.any fun c => "-[\x7b|#".toList.elem c then false
    else if !first.all fun c => isLetterOrNumber c || "._+-/:".toList.elem c then false
    else if context.isKnown first then true
    else if isProse line then false
    else
      2 ≤ rest.foldr (fun word score => wordScore word + score) 0 && List.count '[' line == List.count ']' line &&
        List.count '\x7b' line == List.count '\x7d' line

/-- Whether a line goes on with the synopsis of the line before it. -/
def continuesSynopsis (line : Text) : Bool :=
  let line := trimStart line
  (line.head?.any fun c => "[\x7b-|".toList.elem c) && !startsWith line "--- "

/-- The alternatives of a sequence that is being read, each with its most recent part first. -/
structure Sequence where
  finished : List (List Node) := []
  nodes : List Node := []

namespace Sequence

def push (sequence : Sequence) (node : Node) : Sequence :=
  { sequence with nodes := node :: sequence.nodes }

/-- Begins the next alternative. -/
def bar (sequence : Sequence) : Sequence :=
  { finished := sequence.nodes :: sequence.finished, nodes := [] }

/-- All alternatives in order. -/
def alternatives (sequence : Sequence) : List (List Node) :=
  ((sequence.nodes :: sequence.finished).map List.reverse).reverse

end Sequence

/-- An open bracket, with the sequence outside it. -/
structure Level where
  choice : Choice
  outer : Sequence

/-- The bracket that closes a level. -/
def Level.closer (level : Level) : Text :=
  if level.choice = .optional then "]" else "\x7d"

structure Progress where
  /-- Tokens that have been read, the most recent first. -/
  seen : List Text := []
  levels : List Level := []
  here : Sequence := {}

/-- The tokens read last, for messages. -/
def Progress.recent (progress : Progress) : Text :=
  join " " (progress.seen.take 6).reverse

def quoted (text : Text) : Text :=
  "\x60" ++ text ++ "\x60"

/-- Whether a token can be what a redirection applies to. -/
def isTarget (token : Text) : Bool :=
  !(token == TokenReader.lineEnd || token == "[" || token == "\x7b" || token == "]" || token == "\x7d" ||
    token == "|" || token == "...")

/-- A word as a part; a redirection binds the word after it. -/
def readWord (reader : TokenReader) (progress : Progress) (token : Text) : Progress × TokenReader :=
  if WordKind.ofToken token = .redirect then
    let (target, reader) := reader.peekToken
    match target.filter isTarget with
    | some target =>
      let node := Node.arg .plain false [Node.ofToken token, Node.ofToken target]
      ({ progress with seen := target :: progress.seen, here := progress.here.push node }, reader.popToken.2)
    | none => ({ progress with here := progress.here.push (Node.ofToken token) }, reader)
  else ({ progress with here := progress.here.push (Node.ofToken token) }, reader)

/-- What one token after the command name does. The end of a line is no token here. -/
def readToken (reader : TokenReader) (progress : Progress) (token : Text) : Except Text (Progress × TokenReader) :=
  let progress := { progress with seen := token :: progress.seen }
  if token == "[" || token == "\x7b" then
    let choice : Choice := if token == "[" then .optional else .required
    .ok ({ progress with levels := { choice, outer := progress.here } :: progress.levels, here := {} }, reader)
  else if token == "]" || token == "\x7d" then
    match progress.levels with
    | level :: levels =>
      if level.closer == token then
        let node := Node.ofAlternatives level.choice progress.here.alternatives
        .ok ({ progress with levels, here := level.outer.push node }, reader)
      else .error ("unbalanced " ++ quoted token ++ " in " ++ quoted progress.recent)
    | [] => .error ("unbalanced " ++ quoted token ++ " in " ++ quoted progress.recent)
  else if token == "|" then .ok ({ progress with here := progress.here.bar }, reader)
  else if token == "..." then
    match progress.here.nodes with
    | node :: nodes => .ok ({ progress with here := { progress.here with nodes := node.repeated :: nodes } }, reader)
    | [] => .error ("ellipsis with nothing to repeat in " ++ quoted progress.recent)
  else .ok (readWord reader progress token)

/-- The alternatives outside all brackets, read up to the end of the synopsis in at most `fuel` tokens. -/
def readSequence : Nat → TokenReader → Progress → Except Text (List (List Node)) × TokenReader
  | 0, reader, progress => (.ok progress.here.alternatives, reader)
  | fuel + 1, reader, progress =>
    match reader.popToken with
    | (none, reader) =>
      match progress.levels with
      | level :: _ =>
        (.error ("missing " ++ quoted level.closer ++ " after " ++ quoted progress.recent), reader)
      | [] => (.ok progress.here.alternatives, reader)
    | (some token, reader) =>
      if token == TokenReader.lineEnd then
        if progress.levels.isEmpty && !reader.peekLine?.any continuesSynopsis then
          (.ok progress.here.alternatives, reader)
        else readSequence fuel reader progress
      else
        match readToken reader progress token with
        | .ok (progress, reader) => readSequence fuel reader progress
        | .error reason => (.error reason, reader)

/-- The markup of a synopsis. -/
def markup (command : Text) (nodes : List Node) : Text :=
  let parts := (nodes.map Node.markup).filter fun markup => !markup.isEmpty
  "<cmdsynopsis>\n<command>" ++ command ++ "</command>\n" ++ parts.flatMap (· ++ ['\n']) ++ "</cmdsynopsis>"

/-- Reads one synopsis: its markup and the name of the command. Nothing is read unless there is one. -/
def parse (reader : TokenReader) (context : CommandContext) : Verdict (Text × Text) × TokenReader :=
  match reader.peekLine? with
  | none => (.declined, reader)
  | some line =>
    if !opensSynopsis line context then (.declined, reader)
    else
      let spaced := reader.setSpacing (some space)
      let (command, after) := spaced.popToken
      let progress : Progress := { seen := command.toList.filter (· != TokenReader.lineEnd) }
      let (result, after) := readSequence (spaced.tokenBound + 1) after progress
      let back := (after.setSpacing none).restore reader.mark
      match command, result with
      | _, .error reason => (.failed reason, back)
      | none, .ok _ => (.declined, back)
      | some command, .ok [nodes] => (.parsed (markup command nodes, command), after.setSpacing none)
      | some command, .ok _ => (.failed ("alternation outside brackets after " ++ command), back)

end Command

end RoffDocBook.Synopsis
