import RoffDocBook.Mdoc.List
import RoffDocBook.Package.Man

/-! The requests of manual pages in the semantic style. -/
namespace RoffDocBook.Document
open Text Markup Mdoc

/-- Requests that go on with a synopsis; any other one ends it. -/
def synopsisRequests : List String :=
  ["Ar", "Bk", "Cm", "Dv", "Ek", "Fa", "Fc", "Fd", "Fl", "Fn", "Fo", "Ft", "Ic", "In", "Li", "Nm", "Ns", "Oc", "Oo",
    "Op", "Pa", "Sm", "Va", "Vt", "Xc", "Xo"]

/-- Requests that belong to the synopsis of functions. -/
def functionRequests : List String :=
  ["Fd", "In", "Ft", "Fn", "Fo", "Fa", "Fc", "Vt"]

/-- What happens before any package is asked about a request: the request can end the synopsis. -/
def mdocPrepare (doc : Document) (request : String) : Document :=
  if doc.mdoc.part == .synopsis && !synopsisRequests.contains request then doc.writeSynopsis else doc

/-- A text unless it is blank. -/
def unlessBlank (t : Text) : Option Text :=
  if isAllBlank t then none else some t

/-- The date of a page, without the marks of a version control system. -/
def mdocDate (t : Text) : Option Text :=
  let mark : Text := "$Mdocdate:"
  unlessBlank (trim ((dropMarks mark t.length t).reverse.dropWhile (· == '$')).reverse)
where
  /-- The text without any number of marks at its start. -/
  dropMarks (mark : Text) : Nat → Text → Text
  | 0, t => t
  | left + 1, t =>
    match dropStart? mark t with
    | some rest => dropMarks mark left rest
    | none => t

/-- Writes the names without a purpose, if they have not been written yet; whether the purpose is missed. -/
def writeNamesAlone (doc : Document) (complain : Bool) : Document :=
  if doc.mdoc.part == .name && !doc.mdoc.named && !doc.mdoc.names.isEmpty then
    let doc := if complain then doc.warn .namelessPurpose else doc
    let doc := doc.emitNames doc.mdoc.names []
    { doc with mdoc := { doc.mdoc with named := true } }
  else doc

/-- Begins a section. The names of a page and its synopsis have elements of their own. -/
def mdocSection (doc : Document) (arguments : List Text) (depth : Nat) : Document :=
  let (title, doc) := (doc.writeNamesAlone true).renderTokens arguments
  let plain := asciiCapitals (trim (stripTags title))
  let enter (doc : Document) (part : Part) : Document := { doc with mdoc := { doc.mdoc with part } }
  let special := depth == 1 && doc.isManualPage
  if special && nameTitles.contains plain then enter (doc.popSections 1) .name
  else if special && plain == "SYNOPSIS".toList then enter (doc.pushSynopsis title) .synopsis
  else (enter doc .other).pushSection depth title

/-- Adds names to those of the page. -/
def addPageNames (doc : Document) (arguments : List Text) : Document :=
  let (names, doc) := renderAll doc (arguments.filter fun argument => !isPunctuation argument)
  { doc with mdoc := { doc.mdoc with names := doc.mdoc.names ++ names.map stripTags } }

/-- The sentence that some requests stand for. -/
def standardSentence (doc : Document) (request : String) (arguments : List Text) : Text × Document :=
  let subject (doc : Document) : Text × Document :=
    match arguments.find? fun argument => argument != "-std".toList with
    | some argument => doc.renderIsolated argument
    | none => (doc.mdoc.mainName, doc)
  match request with
  | "Rv" =>
    let (name, doc) := subject doc
    ("The <function>" ++ name ++ "</function>() function returns the value 0 if successful; otherwise the value " ++
        "-1 is returned and the global variable <varname>errno</varname> is set to indicate the error.",
      doc)
  | "Ex" =>
    let (name, doc) := subject doc
    ("The <command>" ++ name ++ "</command> utility exits 0 on success, and &gt;0 if an error occurs.", doc)
  | "Bt" => ("is currently in beta test.", doc)
  | _ => ("currently under development.", doc)

/-- Parameters of a function that was opened within text, of which `before` were given before. -/
def textParameters (doc : Document) (before : Nat) : List Text → Text × Document
  | [] => ([], doc)
  | argument :: rest =>
    let (markup, doc) := doc.renderIsolated argument
    let (others, doc) := textParameters doc (before + 1) rest
    let comma : Text := if before == 0 then "" else ", "
    (comma ++ "<parameter>" ++ markup ++ "</parameter>" ++ others, doc)

/-- Writes a line of text that a request's tokens make up. -/
def textTokens (doc : Document) (tokens : List Text) : Document :=
  let (text, doc) := doc.renderTokens tokens
  doc.textLine text

/-- Sets the number of parameters of a function that is open within text. -/
def setParameters (doc : Document) (parameters : Option Nat) : Document :=
  { doc with mdoc := { doc.mdoc with parameters } }

/-- The key of a request that gives a field of a reference. -/
def referenceKey? (request : String) : Option Char :=
  match request.toList with
  | ['%', key] => if key.toNat < 128 then some key else none
  | _ => none

/-- A field of a reference, or text where no reference is open. -/
def referenceField (doc : Document) (request : Request) (key : Char) : Document :=
  let (value, doc) := doc.renderTokens request.arguments
  match doc.mdoc.reference with
  | some fields => { doc with mdoc := { doc.mdoc with reference := some ((key, value) :: fields) } }
  | none => (doc.warn (.outside request.name "Rs")).textLine value

/-- A request that is not bound to a part of the page. -/
def mdocGeneral (doc : Document) (request : Request) : Outcome :=
  let arguments := request.arguments
  let tokens := request.name.toList :: arguments
  match referenceKey? request.name with
  | some key => .done (doc.referenceField request key)
  | none =>
    match request.name with
    | "Fo" =>
      let (name, doc) := doc.renderIsolated (request.argument 0)
      .done ((doc.textLine ("<function>" ++ name ++ "</function>(")).setParameters (some 0))
    | "Fc" =>
      let (rest, doc) := (doc.setParameters none).renderTokens arguments
      .done (doc.textLine (')' :: rest))
    | "Bl" => .done (doc.beginMdocList arguments)
    | "It" => .done (doc.mdocItem arguments)
    | "El" => .done doc.endMdocList
    | "Bd" => .done (doc.beginMdocDisplay arguments)
    | "Ed" => .done doc.endMdocDisplay
    | "D1" =>
      let (text, doc) := doc.renderTokens arguments
      .done (doc.closeParagraph.emitMarkup ("<blockquote remap='D1'><para>" ++ text ++ "</para></blockquote>"))
    | "Dl" =>
      let (text, doc) := doc.renderTokens arguments
      .done (doc.closeParagraph.emitMarkup ("<literallayout remap='Dl'>" ++ text ++ "</literallayout>"))
    | "Bf" =>
      let font :=
        match String.ofList (request.argument 0) with
        | "-emphasis" | "Em" => "I"
        | "-literal" | "Li" => "CW"
        | _ => "B"
      .done (doc.setFont font)
    | "Ef" => .done (doc.setFont "R")
    | "Rs" => .done { doc with mdoc := { doc.mdoc with reference := some [] } }
    | "Re" => .done doc.endReference
    | "Rv" | "Ex" | "Bt" | "Ud" =>
      let (text, doc) := doc.standardSentence request.name arguments
      .done (doc.textLine text)
    | _ =>
      if doc.mdoc.part == .synopsis && doc.mdoc.command.isSome && synopsisRequests.contains request.name then
        .done (doc.synopsisTokens tokens)
      else if isCallable request.name.toList || request.name == "Nd" then .done (doc.textTokens tokens)
      else .declined

/-- What a request of a manual page in the semantic style does. -/
def mdocRequest (doc : Document) (request : Request) : Outcome :=
  let arguments := request.arguments
  match request.name, doc.mdoc.part with
  | "Dd", _ => .done { doc with front := { doc.front with date := mdocDate (join " " arguments) } }
  | "Dt", _ =>
    let field (i : Nat) : Option Text := if (request.argument i).isEmpty then none else some (request.argument i)
    .done { doc with front := { doc.front with title := field 0, volume := field 1 } }
  | "Os", _ => .done { doc with front := { doc.front with source := unlessBlank (trim (join " " arguments)) } }
  | "Sh", _ => .done (doc.mdocSection arguments 1)
  | "Ss", _ => .done (doc.mdocSection arguments 2)
  | "Pp", _ => .done doc.closeParagraph
  | "Lp", _ => .done doc.closeParagraph
  | "Nm", .name => .done (doc.addPageNames arguments)
  | "Nd", .name =>
    let (purpose, doc) := doc.renderTokens arguments
    let doc := doc.emitNames doc.mdoc.names purpose
    .done { doc with mdoc := { doc.mdoc with named := true } }
  | "Nm", .synopsis => .done (doc.beginCommand arguments)
  | "Fa", part =>
    match part, doc.mdoc.parameters with
    | .synopsis, _ => .done (doc.functionRequest request.name arguments)
    | _, some before =>
      let (text, doc) := doc.textParameters before arguments
      .done ((doc.setParameters (some (before + arguments.length))).textLine text)
    | _, none => doc.mdocGeneral request
  | name, .synopsis =>
    if functionRequests.contains name then .done (doc.functionRequest name arguments) else doc.mdocGeneral request
  | _, _ => doc.mdocGeneral request

/-- Ends what the package has left open at the end of the source. -/
def mdocFinish (doc : Document) : Document :=
  let doc := doc.writeSynopsis.writeNamesAlone false
  let doc := doc.mdoc.lists.foldl (fun (doc : Document) _ => (doc.warn (.unclosed "Bl")).endMdocList) doc
  match doc.mdoc.reference with
  | some _ => (doc.warn (.unclosed "Rs")).endReference
  | none => doc

end RoffDocBook.Document
