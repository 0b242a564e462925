import RoffDocBook.Text.Basic

/-! What is known about the tokens of a document: the element that each is marked up with. Hints of one document
become hints of the whole run when it ends, and are written as comments that read back. -/
namespace RoffDocBook
open Text

/-- The elements that a hint can name. -/
inductive HintTag where
  | application | command | constant | envar | errorcode | filename | function | literal | option | parameter
  | replaceable | systemitem | type | varname
  deriving DecidableEq, Repr

namespace HintTag

def all : List HintTag :=
  [application, command, constant, envar, errorcode, filename, function, literal, option, parameter, replaceable,
    systemitem, type, varname]

def name : HintTag → String
  | application => "application"
  | command => "command"
  | constant => "constant"
  | envar => "envar"
  | errorcode => "errorcode"
  | filename => "filename"
  | function => "function"
  | literal => "literal"
  | option => "option"
  | parameter => "parameter"
  | replaceable => "replaceable"
  | systemitem => "systemitem"
  | type => "type"
  | varname => "varname"

def ofName? (name : Text) : Option HintTag :=
  all.find? fun tag => tag.name.toList == name

end HintTag

/-- Tokens with their tags, in ascending order of the tokens. -/
abbrev HintTable := List (Text × HintTag)

namespace HintTable

def get? (table : HintTable) (token : Text) : Option HintTag :=
  table.lookup token

def put (token : Text) (tag : HintTag) : HintTable → HintTable
  | [] => [(token, tag)]
  | entry :: rest =>
    if token = entry.1 then (token, tag) :: rest
    else if token < entry.1 then (token, tag) :: entry :: rest
    else entry :: put token tag rest

/-- One table overridden by another. -/
def override (table newer : HintTable) : HintTable :=
  newer.foldl (fun table entry => put entry.1 entry.2 table) table

end HintTable

inductive HintScope where
  | global
  | document
  deriving DecidableEq, Repr

/-- The hints of the whole run and those of the document at hand. -/
structure Hints where
  global : HintTable := []
  document : HintTable := []
  deriving Inhabited

namespace Hints

/-- Records a hint; the empty token carries none. -/
def set (hints : Hints) (scope : HintScope) (token : Text) (tag : HintTag) : Hints :=
  if token.isEmpty then hints
  else
    match scope with
    | .global => { hints with global := HintTable.put token tag hints.global }
    | .document => { hints with document := HintTable.put token tag hints.document }

/-- The tag of a token; the document's own hint comes first. -/
def get? (hints : Hints) (token : Text) : Option HintTag :=
  HintTable.get? hints.document token <|> HintTable.get? hints.global token

def is (hints : Hints) (token : Text) (tag : HintTag) : Bool :=
  hints.get? token == some tag

/-- All tokens that carry the tag in either scope, in ascending order. -/
def tokensWith (hints : Hints) (tag : HintTag) : List Text :=
  let having (table : HintTable) := table.filter fun entry => entry.2 == tag
  (HintTable.override (having hints.global) (having hints.document)).map Prod.fst

/-- The hints in force, those of the document over those of the run. -/
def effective (hints : Hints) : HintTable :=
  HintTable.override hints.global hints.document

def beginDocument (hints : Hints) : Hints :=
  { hints with document := [] }

/-- Makes the hints of the finished document hints of the run. -/
def endDocument (hints : Hints) : Hints :=
  { global := hints.effective, document := [] }

/-- The token and the tag of a hint comment. -/
def parseComment? (line : Text) : Option (Text × Text) := do
  let body :=
    match line with
    | '.' :: rest => trimStart rest
    | '\'' :: rest => trimStart rest
    | _ => line
  let body ← dropStart? "\\\"" body
  let body ← dropStart? "|" (trimStart body)
  match words body with
  | [mark, token, as, tag] => if mark == "mark" && as == "as" then some (token, tag) else none
  | _ => none

def formatComment (token tag : Text) : Text :=
  ".\\\" | mark " ++ token ++ " as " ++ tag

/-- Records the hint of a comment line, and tells whether it was one with a known tag. -/
def readLine (hints : Hints) (scope : HintScope) (line : Text) : Hints × Bool :=
  match parseComment? line with
  | none => (hints, false)
  | some (token, tag) =>
    match HintTag.ofName? tag with
    | none => (hints, false)
    | some tag => (hints.set scope token tag, true)

/-- Reads the hint comments among the lines of a text, and counts those accepted. -/
def read (hints : Hints) (scope : HintScope) (t : Text) : Hints × Nat :=
  (lines t).foldl
    (fun state line =>
      let result := state.1.readLine scope line
      (result.1, if result.2 then state.2 + 1 else state.2))
    (hints, 0)

/-- The hints of the run as comments, one a line. -/
def dump (hints : Hints) : Text :=
  hints.global.flatMap fun entry => formatComment entry.1 entry.2.name ++ "\n"

end Hints

end RoffDocBook
