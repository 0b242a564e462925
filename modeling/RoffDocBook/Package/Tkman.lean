import RoffDocBook.Package.Request

/-! The further requests of pages for widgets and library procedures. -/
namespace RoffDocBook.Document
open Text Markup

/-- Opens a list of terms unless the innermost list is of the same request. -/
def continueTerms (doc : Document) (opener : String) : Document :=
  if doc.topList?.any fun frame => frame.opener == opener then doc else doc.beginList opener .terms

/-- An argument of a procedure with its type and its direction. -/
def procedureArgument (doc : Document) (request : Request) : Document :=
  let direction : Text := if (request.argument 2).isEmpty then "" else " (" ++ request.argument 2 ++ ")"
  let (term, doc) :=
    doc.renderIsolated ("\\fI" ++ request.argument 0 ++ "\\fR \\fB" ++ request.argument 1 ++ "\\fR" ++ direction)
  (doc.continueTerms "AP").beginItem (some term)

/-- An option of a widget under its three names. -/
def widgetOption (doc : Document) (request : Request) : Document :=
  let name (doc : Document) (label : Text) (i : Nat) : Text × Document :=
    doc.renderIsolated (label ++ ": \\fB" ++ request.argument i ++ "\\fR")
  let (onLine, doc) := name doc "Command-Line Name" 0
  let (inDatabase, doc) := name doc "Database Name" 1
  let (inClass, doc) := name doc "Database Class" 2
  (doc.continueTerms "OP").beginItem (some (join "</term><term>" [onLine, inDatabase, inClass]))

/-- The words of the lines up to the request that ends a list of standard options. -/
def gatherOptions (doc : Document) : List Text × Document :=
  go doc.input.length doc
where
  go : Nat → Document → List Text × Document
  | 0, doc => ([], doc.warn (.withoutPartner "SO" "SE"))
  | left + 1, doc =>
    let (lines, doc) := doc.gatherLines
    let options := lines.flatMap (fieldsBy fun c => c == '\t' || c == ' ')
    match doc.nextRawLine with
    | (none, doc) => (options, doc.warn (.withoutPartner "SO" "SE"))
    | (some line, doc) =>
      if doc.isRequest line ["SE"] then (options, doc)
      else
        let (others, doc) := go left doc
        (options ++ others, doc)

/-- The options as members of a list. -/
def optionMembers (doc : Document) : List Text → Text × Document
  | [] => ([], doc)
  | option :: rest =>
    let (markup, doc) := doc.renderIsolated option
    let (others, doc) := optionMembers doc rest
    ("<member><option>" ++ markup ++ "</option></member>" ++ others, doc)

/-- A section with the standard options that a widget supports. -/
def standardOptions (doc : Document) (page : Text) : Document :=
  let (options, doc) := (doc.pushSection 1 "STANDARD OPTIONS").gatherOptions
  let page : Text := if page.isEmpty then "options" else page
  let (members, doc) := doc.optionMembers options
  (doc.emitMarkup ("<para><simplelist type='vert'>" ++ members ++ "</simplelist></para>")).emitMarkup
    ("<para>See the <citerefentry><refentrytitle>" ++ page ++
      "</refentrytitle></citerefentry> manual entry for details on the standard options.</para>")

/-- Closes a display; complains if the request that opens one is missing. -/
def closeOpened (doc : Document) (closer opener : String) : Document :=
  let (ended, doc) := doc.endDisplay
  if ended then doc else doc.warn (.withoutPartner closer opener)

/-- Text in typographic quotation marks. -/
def inQuotes (text : Text) : Text :=
  "&#8220;" ++ text ++ "&#8221;"

/-- What a request of the further ones for widgets and procedures does. -/
def tkmanRequest (doc : Document) (request : Request) : Outcome :=
  let argument := request.argument
  match request.name with
  | "AP" => .done (doc.procedureArgument request)
  | "OP" => if request.arguments.length == 3 then .done (doc.widgetOption request) else .declined
  | "CS" => .done (doc.beginDisplay .program "CS")
  | "CE" => .done (doc.closeOpened "CE" "CS")
  | "DS" => .done (doc.beginDisplay .literal "DS")
  | "DE" => .done (doc.closeOpened "DE" "DS")
  | "SO" => .done (doc.standardOptions (argument 0))
  | "SE" => .done (doc.warn (.withoutPartner "SE" "SO"))
  | "QW" => .done (doc.textLine (inQuotes (argument 0) ++ argument 1))
  | "PQ" => .done (doc.textLine ("(" ++ inQuotes (argument 0) ++ argument 1 ++ ")" ++ argument 2))
  | "QR" =>
    .done (doc.textLine (inQuotes (argument 0) ++ "&#8211;" ++ inQuotes (argument 1) ++ argument 2))
  | "MT" => if request.arguments.isEmpty then .done (doc.textLine (inQuotes [])) else .declined
  | _ => .declined

end RoffDocBook.Document
