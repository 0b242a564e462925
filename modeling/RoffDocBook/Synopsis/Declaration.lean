import RoffDocBook.Markup.Escape

/-! Declarations of C functions: their tokens, their parameters, and their markup. -/
namespace RoffDocBook.Synopsis
open Text Markup

/-- A character of a name or a number. -/
def isNameChar (c : Char) : Bool :=
  isLetterOrNumber c || c == '_'

/-- A word read backwards as a token, if there is one. -/
def flushWord (word : Text) : List Text :=
  if word.isEmpty then [] else [word.reverse]

/-- The words and the marks of a text, where `word` is what has been read of a word, backwards. -/
def tokensFrom : Text → Text → List Text
  | word, [] => flushWord word
  | word, '.' :: '.' :: '.' :: rest => flushWord word ++ ("..." : Text) :: tokensFrom [] rest
  | word, c :: cs =>
    if isNameChar c then tokensFrom (c :: word) cs
    else if isBlank c then flushWord word ++ tokensFrom [] cs
    else flushWord word ++ [c] :: tokensFrom [] cs

/-- The tokens of C text: words, ellipses, and single marks. -/
def tokens (t : Text) : List Text :=
  tokensFrom [] t

/-- Whether a text ends in one of some characters. -/
def endsIn (t : Text) (ends : Text) : Bool :=
  t.getLast?.any fun c => ends.elem c

/-- Text with one more token, and a blank between them unless one of the two clings to the other. -/
def attach (t token : Text) : Text :=
  let clings := endsIn t "*([" || (["*", ")", "[", "]", ","] : List Text).contains token
  if t.isEmpty then token
  else if !clings || (token == "*" && !endsIn t "*(") then t ++ " " ++ token
  else t ++ token

/-- Tokens of a declaration as text. -/
def joinTokens (ts : List Text) : Text :=
  ts.foldl attach []

/-- The tokens before the parenthesis that closes one opened before, and those after it; `depth` more are open. -/
def closing? : Nat → List Text → Option (List Text × List Text)
  | _, [] => none
  | depth, token :: rest =>
    let keep (found : List Text × List Text) := (token :: found.1, found.2)
    if token == "(" then (closing? (depth + 1) rest).map keep
    else if token == ")" then
      match depth with
      | 0 => some ([], rest)
      | depth + 1 => (closing? depth rest).map keep
    else (closing? depth rest).map keep

/-- The parts between commas outside brackets, `depth` of which are open. -/
def splitCommas : Nat → List Text → List (List Text)
  | _, [] => [[]]
  | depth, token :: rest =>
    let extend (parts : List (List Text)) : List (List Text) :=
      match parts with
      | [] => [[token]]
      | part :: parts => (token :: part) :: parts
    if token == "(" || token == "[" then extend (splitCommas (depth + 1) rest)
    else if token == ")" || token == "]" then extend (splitCommas (depth - 1) rest)
    else if token == "," && depth == 0 then [] :: splitCommas depth rest
    else extend (splitCommas depth rest)

/-- The tokens before the first occurrence of one, and those after it. -/
def breakAt? (mark : Text) : List Text → Option (List Text × List Text)
  | [] => none
  | token :: rest =>
    if token == mark then some ([], rest) else (breakAt? mark rest).map fun found => (token :: found.1, found.2)

inductive Parameter where
  | void
  /-- Any further arguments. -/
  | varargs
  /-- A name with the text of its type before and after it. -/
  | named (before name after : Text)
  | functionPointer (before name parameters : Text)
  /-- A type without a name. -/
  | unnamed (type : Text)
  deriving DecidableEq

namespace Parameter

/-- A parameter that is a pointer to a function, from the tokens before its first parenthesis and after it. -/
def functionPointer? (before after : List Text) : Option Parameter := do
  let (inner, rest) ← closing? 0 after
  let name ← inner.reverse.find? isIdentifier
  match rest with
  | first :: second :: more =>
    if first == "(" && (second :: more).getLast? == some (")" : Text) then
      some (functionPointer (joinTokens before) name (joinTokens (second :: more).dropLast))
    else none
  | _ => none

/-- Whether a token can stand in the declaration of a plain parameter. -/
def isAllowed (token : Text) : Bool :=
  isIdentifier token || (["*", "[", "]", "&"] : List Text).contains token || token.all Char.isDigit

/-- A parameter from its tokens. -/
def ofTokens? (ts : List Text) : Option Parameter :=
  if ts = [("void" : Text)] then some void
  else if ts = [("..." : Text)] then some varargs
  else
    match breakAt? "(" ts with
    | some (before, after) => functionPointer? before after
    | none =>
      let head : List Text := ts.takeWhile fun token => token != ("[" : Text)
      let name : Text := head.getLastD []
      if head.isEmpty || !ts.all isAllowed then none
      else if head.length == 1 || !isIdentifier name then some (unnamed (joinTokens ts))
      else some (named (joinTokens head.dropLast) name (ts.drop head.length).flatten)

def markup : Parameter → Text
  | void => "<void/>"
  | varargs => "<varargs/>"
  | named before name after =>
    "<paramdef>" ++ escape before ++ (if endsIn before "*" then "" else " ") ++ "<parameter>" ++ escape name ++
      "</parameter>" ++ escape after ++ "</paramdef>"
  | functionPointer before name parameters =>
    "<paramdef>" ++ escape before ++ " (*<parameter>" ++ escape name ++ "</parameter>)<funcparams>" ++
      escape parameters ++ "</funcparams></paramdef>"
  | unnamed type => "<paramdef>" ++ escape type ++ "</paramdef>"

end Parameter

/-- The head of a function. -/
structure Prototype where
  returnType : Text
  name : Text
  parameters : List Parameter
  deriving DecidableEq

namespace Prototype

/-- A function head from the text of its declaration, with the names in its list that may be declared after it. -/
def parse? (t : Text) : Option (Prototype × List Text) := do
  let (head, rest) ← breakAt? "(" (tokens t)
  let name ← head.getLast?
  let specifiers := head.dropLast
  let (inside, trailer) ← closing? 0 rest
  if rest.head? == some ("*" : Text) || !isIdentifier name ||
      !specifiers.all (fun token => isIdentifier token || token == "*") ||
      !(trailer.isEmpty || trailer == [(";" : Text)]) then
    none
  else
    let parameters ← if inside.isEmpty then some [] else (splitCommas 0 inside).mapM Parameter.ofTokens?
    let bare (parameter : Parameter) : Option Text :=
      match parameter with
      | .unnamed type => if isIdentifier type && trailer.isEmpty then some type else none
      | _ => none
    some ({ returnType := joinTokens specifiers, name, parameters }, parameters.filterMap bare)

def markup (prototype : Prototype) : Text :=
  let separator : Text := if prototype.returnType.isEmpty || endsIn prototype.returnType "*" then "" else " "
  "<funcprototype>\n<funcdef>" ++ escape prototype.returnType ++ separator ++ "<function>" ++
    escape prototype.name ++ "</function></funcdef>\n" ++
    (if prototype.parameters.isEmpty then "<void/>\n" else "") ++
    prototype.parameters.flatMap (fun parameter => parameter.markup ++ ['\n']) ++ "</funcprototype>"

end Prototype

end RoffDocBook.Synopsis
