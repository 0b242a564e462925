import RoffDocBook.Mdoc.Inline

/-! The synopsis of commands and functions in the semantic manual package, which its requests spell out. -/
namespace RoffDocBook.Mdoc
open Text

namespace Piece

/-- A piece as an element of its own. -/
def outer : Piece → Text
  | argument markup optional repeats =>
    "<arg choice='" ++ (if optional then "opt" else "plain" : Text) ++ "'" ++
      (if repeats then " rep='repeat'" else "" : Text) ++ ">" ++ markup ++ "</arg>"
  | group markup => markup
  | separator => []

/-- A piece inside another one, where a plain argument needs no element. -/
def inner : Piece → Text
  | argument markup false false => markup
  | piece => piece.outer

/-- The pieces between separators. -/
def alternatives : List Piece → List (List Piece)
  | [] => [[]]
  | piece :: pieces =>
    match alternatives pieces with
    | [] => [[piece]]
    | first :: others => if piece == .separator then [] :: first :: others else (piece :: first) :: others

def joinInner (pieces : List Piece) : Text :=
  join " " (pieces.map inner)

/-- The contents of a bracket as one piece. -/
def bracket (pieces : List Piece) : Piece :=
  match alternatives pieces with
  | first :: second :: others =>
    group
      ("<group choice='opt'>" ++
        (first :: second :: others).flatMap
          (fun pieces => ("<arg choice='plain'>" ++ joinInner pieces ++ "</arg>" : Text)) ++
        "</group>")
  | _ =>
    match pieces with
    | [argument markup false repeats] => argument markup true repeats
    | _ => argument (joinInner pieces) true false

/-- A piece marked as one that can be given again. -/
def repeated : Piece → Piece
  | argument markup optional _ => argument markup optional true
  | piece => piece

end Piece

namespace Command

def push (command : Command) (piece : Piece) : Command :=
  { command with pieces := piece :: command.pieces }

def openBracket (command : Command) : Command :=
  { command with pieces := [], outer := command.pieces :: command.outer }

/-- Closes the innermost bracket, if one is open. -/
def closeBracket (command : Command) : Command :=
  match command.outer with
  | [] => command
  | pieces :: outer => { command with pieces := Piece.bracket command.pieces.reverse :: pieces, outer }

/-- Marks the last piece as one that can be given again. -/
def markRepeated (command : Command) : Command :=
  match command.pieces with
  | [] => command
  | piece :: pieces => { command with pieces := piece.repeated :: pieces }

/-- The synopsis as an element, with all brackets closed. -/
def markup (command : Command) : Text :=
  let closed := command.outer.foldl (fun command _ => command.closeBracket) command
  let pieces := closed.pieces.reverse.filter fun piece => piece != .separator
  "<cmdsynopsis>\n<command>" ++ command.name ++ "</command>" ++
    pieces.flatMap (fun piece => '\n' :: piece.outer) ++ "\n</cmdsynopsis>"

end Command

/-- The last part of a parameter, which is its name, and what comes before it. -/
def splitName (t : Text) : Text × Text :=
  let isNameChar (c : Char) : Bool := c.isAlphanum || c == '_'
  ((t.reverse.dropWhile isNameChar).reverse, (t.reverse.takeWhile isNameChar).reverse)

/-- A parameter that is a pointer to a function: what comes before it, its name, and its own parameters. -/
def functionPointer? (parameter : Text) : Option (Text × Text × Text) := do
  let (before, rest) ← breakOn? "(*" parameter
  let (name, rest) ← breakOn? ")" rest
  let inner := ((trim rest).dropWhile (· == '('))
  pure (before, trim name, (inner.reverse.dropWhile (· == ')')).reverse)

/-- The markup of a parameter in a prototype. -/
def parameterMarkup (parameter : Text) : Text :=
  let parameter := trim parameter
  if parameter.isEmpty || parameter == "void".toList then "<void/>"
  else if parameter == "...".toList then "<varargs/>"
  else
    match functionPointer? parameter with
    | some (before, name, inner) =>
      "<paramdef>" ++ before ++ "(*<parameter>" ++ name ++ "</parameter>)<funcparams>" ++ inner ++
        "</funcparams></paramdef>"
    | none =>
      let (body, suffix) := spanUntil (· == '[') parameter
      let (before, name) := splitName body
      if name.isEmpty then "<paramdef>" ++ parameter ++ "</paramdef>"
      else "<paramdef>" ++ before ++ "<parameter>" ++ name ++ "</parameter>" ++ suffix ++ "</paramdef>"

namespace Functions

/-- Puts the collected lines of information into the body. -/
def takeInfo (functions : Functions) : Functions :=
  if functions.info.isEmpty then functions
  else
    let markup : Text := "<funcsynopsisinfo>" ++ unlines functions.info.reverse ++ "</funcsynopsisinfo>"
    { functions with info := [], body := markup :: functions.body }

def inform (functions : Functions) (line : Text) : Functions :=
  { functions with info := line :: functions.info }

/-- Adds the prototype of a function, which uses up the type collected for it. -/
def addPrototype (functions : Functions) (name : Text) (parameters : List Text) : Functions :=
  let functions := functions.takeInfo
  let type := functions.returnType.getD []
  let gap : Text := if type.isEmpty || endsWith type "*" then "" else " "
  let parameters : Text :=
    if parameters.isEmpty then "<void/>\n"
    else parameters.flatMap fun parameter => parameterMarkup parameter ++ "\n"
  let markup : Text :=
    "<funcprototype>\n<funcdef>" ++ type ++ gap ++ "<function>" ++ name ++ "</function></funcdef>\n" ++ parameters ++
      "</funcprototype>"
  { functions with returnType := none, body := markup :: functions.body }

end Functions

end RoffDocBook.Mdoc

namespace RoffDocBook.Document
open Text Markup Mdoc

/-- Changes the command synopsis that is being collected, if there is one. -/
def mapCommand (doc : Document) (change : Command → Command) : Document :=
  { doc with mdoc := { doc.mdoc with command := doc.mdoc.command.map change } }

/-- Writes the command synopsis that has been collected. -/
def writeCommand (doc : Document) : Document :=
  match doc.mdoc.command with
  | none => doc
  | some command =>
    let doc := { doc with mdoc := { doc.mdoc with command := none } }
    let doc := if command.outer.isEmpty then doc else doc.warn .unclosedOption
    doc.closeParagraph.emitMarkup command.markup

/-- Writes the function synopsis that has been collected. -/
def writeFunctions (doc : Document) : Document :=
  match doc.mdoc.functions with
  | none => doc
  | some functions =>
    let doc := { doc with mdoc := { doc.mdoc with functions := none } }
    let (functions, doc) :=
      match functions.collecting with
      | some (name, parameters) => (functions.addPrototype name parameters, doc.warn (.withoutPartner "Fo" "Fc"))
      | none => (functions, doc)
    let functions := functions.takeInfo
    if functions.body.isEmpty then doc
    else
      doc.closeParagraph.emitMarkup
        ("<funcsynopsis>\n" ++ unlines functions.body.reverse ++ "\n</funcsynopsis>")

/-- Writes the synopsis that has been collected. -/
def writeSynopsis (doc : Document) : Document :=
  doc.writeCommand.writeFunctions

/-- The tags of a request's arguments in the synopsis of a command. -/
def synopsisTags? (token : Text) : Option (Text × Text) :=
  match String.ofList token with
  | "Fl" => some ("<option>-", "</option>")
  | "Cm" | "Ic" | "Li" => some ("<option>", "</option>")
  | "Ar" | "Pa" | "Va" | "Ev" | "Dv" => some ("<replaceable>", "</replaceable>")
  | _ => none

/-- Adds an argument to the synopsis, and tells whether it is more than punctuation. -/
def synopsisArgument (doc : Document) (tags : Text × Text) (argument : Text) : Bool × Document :=
  if argument == ['|'] then (false, doc.mapCommand (·.push .separator))
  else if argument == "...".toList then (false, doc.mapCommand Command.markRepeated)
  else if isPunctuation argument then (false, doc)
  else
    let (markup, doc) := doc.renderIsolated argument
    (true, doc.mapCommand (·.push (.argument (tags.1 ++ markup ++ tags.2) false false)))

/-- Adds arguments to the synopsis, and tells whether one of them is more than punctuation. -/
def synopsisArguments (doc : Document) (tags : Text × Text) (arguments : List Text) : Bool × Document :=
  arguments.foldl
    (fun result argument =>
      let (added, doc) := result.2.synopsisArgument tags argument
      (result.1 || added, doc))
    (false, doc)

/-- What stands in a synopsis for an option or an argument without a name. -/
def synopsisFallback (doc : Document) (token : Text) : Document :=
  match String.ofList token with
  | "Fl" => doc.mapCommand (·.push (.argument "<option>-</option>" false false))
  | "Ar" => doc.mapCommand (·.push (.argument "<replaceable>file</replaceable>" false true))
  | _ => doc

/-- Adds a token to the synopsis, and tells how many of the tokens after it belong to it. -/
def synopsisToken (doc : Document) (token : Text) (rest : List Text) : Document × Nat :=
  let arguments := ownArguments rest
  match synopsisTags? token with
  | some tags =>
    let (added, doc) := doc.synopsisArguments tags arguments
    (if added then doc else doc.synopsisFallback token, arguments.length)
  | none =>
    match String.ofList token with
    | "Oo" => (doc.mapCommand Command.openBracket, 0)
    | "Oc" => (doc.mapCommand Command.closeBracket, 0)
    | "Ns" | "Bk" | "Ek" | "Xo" | "Xc" => (doc, 0)
    | "Sm" => (doc, if rest.head?.any fun next => next == "on".toList || next == "off".toList then 1 else 0)
    | "|" => (doc.mapCommand (·.push .separator), 0)
    | "..." => (doc.mapCommand Command.markRepeated, 0)
    | _ =>
      if isCallable token then
        let (markup, doc) := doc.renderTokens (token :: arguments)
        (doc.mapCommand (·.push (.argument (stripTags markup) false false)), arguments.length)
      else if isPunctuation token then (doc, 0)
      else
        let (markup, doc) := doc.renderIsolated token
        (doc.mapCommand (·.push (.argument (stripTags markup) false false)), 0)

/-- Adds the tokens of a request to the synopsis of a command. -/
def synopsisTokens (doc : Document) (tokens : List Text) : Document :=
  match tokens with
  | [] => doc
  | token :: rest =>
    if token == "Op".toList then
      ((doc.mapCommand Command.openBracket).synopsisTokens rest).mapCommand Command.closeBracket
    else
      let (doc, n) := doc.synopsisToken token rest
      doc.synopsisTokens (rest.drop n)
termination_by tokens.length
decreasing_by all_goals (simp; try omega)

/-- Begins the synopsis of a command, which is the page's own one unless another is named. -/
def beginCommand (doc : Document) (arguments : List Text) : Document :=
  let doc := doc.writeSynopsis
  let begin_ (doc : Document) (name : Text) (rest : List Text) : Document :=
    { doc with mdoc := { doc.mdoc with command := some { name } } }.synopsisTokens rest
  match arguments with
  | first :: rest =>
    if isCallable first || isPunctuation first then begin_ doc doc.mdoc.mainName arguments
    else
      let (name, doc) := doc.renderIsolated first
      begin_ doc (stripTags name) rest
  | [] => begin_ doc doc.mdoc.mainName arguments

/-- A request in the synopsis of functions. -/
def functionRequest (doc : Document) (request : String) (arguments : List Text) : Document :=
  let (rendered, doc) := renderAll doc.writeCommand arguments
  let functions := doc.mdoc.functions.getD {}
  let keep (functions : Functions) : Document :=
    { doc with mdoc := { doc.mdoc with functions := some functions } }
  match request with
  | "Fd" | "Vt" => keep (functions.inform (join " " rendered))
  | "In" => keep (functions.inform ("#include &lt;" ++ join " " rendered ++ "&gt;"))
  | "Ft" => keep { functions with returnType := some (join " " rendered) }
  | "Fn" =>
    match rendered with
    | [] => keep functions
    | name :: parameters =>
      keep (functions.addPrototype name (parameters.filter fun parameter => !isPunctuation parameter))
  | "Fo" => keep { functions with collecting := some (join " " rendered, []) }
  | "Fa" =>
    match functions.collecting with
    | some (name, parameters) => keep { functions with collecting := some (name, parameters ++ rendered) }
    | none => keep (functions.inform (join " " rendered))
  | _ =>
    match functions.collecting with
    | some (name, parameters) => keep ({ functions with collecting := none }.addPrototype name parameters)
    | none => (keep functions).warn (.withoutPartner "Fc" "Fo")

end RoffDocBook.Document
