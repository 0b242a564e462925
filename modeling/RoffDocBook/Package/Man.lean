import RoffDocBook.Synopsis.Lift

/-! The requests of manual pages in the classic style. -/
namespace RoffDocBook.Document
open Text Markup

/-- A field of the title line as plain text, if there is any. -/
def titleField (request : Request) (i : Nat) : Option Text :=
  let value := trim (stripTags (Inline.plainText (request.argument i)))
  if value.isEmpty then none else some value

/-- The title line of a page. -/
def manTitle (doc : Document) (request : Request) : Document :=
  let doc :=
    { doc with
      front :=
        { doc.front with
          title := titleField request 0
          volume := titleField request 1
          date := titleField request 2
          source := titleField request 3
          manual := titleField request 4 } }
  if doc.front.title.isNone then doc.warn .withoutTitle else doc

/-- The title of a section: its arguments, or what the next line says. -/
def manHeading (doc : Document) (request : Request) : Text × Document :=
  if !request.arguments.isEmpty then (join " " request.arguments, doc)
  else
    let control := doc.nextIsControl
    let (line, doc) := doc.nextLine
    if control then
      match line.bind doc.splitControl? with
      | some (_, rest) => (join " " (ControlLine.arguments rest), doc)
      | none => ([], doc)
    else (line.getD [], doc)

/-- Titles of the section that names the page, in capitals. -/
def nameTitles : List Text :=
  ["NAME", "NAMN", "NOM", "NOMBRE"]

/-- Titles of the section with the synopsis, in capitals. -/
def synopsisTitles : List Text :=
  ["SYNOPSIS", "SYNTAX", "SYNOPSE", "SINOPSIS"]

/-- Begins a section. The names of a page and its synopsis have elements of their own. -/
def manSection (doc : Document) (request : Request) (depth : Nat) : Document :=
  let (title, doc) := doc.manHeading request
  let plain := asciiCapitals (trim (stripTags (Inline.plainText title)))
  let special := depth == 1 && doc.isManualPage
  if special && nameTitles.contains plain then
    let (text, doc) := (doc.popSections 1).gatherText
    doc.nameSection text
  else if special && synopsisTitles.contains plain then
    let (markup, doc) := doc.renderIsolated title
    ((doc.pushSynopsis markup).liftSynopsis ["SH", "SS"]).2
  else
    let (markup, doc) := doc.renderIsolated title
    doc.pushSection depth markup

/-- The lines of a synopsis block after its first one, and whether the block is closed. The request of the next block
or section is left in the input. -/
def manSynopsisLines (doc : Document) : List Text × Bool × Document :=
  go doc.input.length doc
where
  go : Nat → Document → List Text × Bool × Document
  | 0, doc => ([], false, doc)
  | left + 1, doc =>
    match doc.nextRawLine with
    | (none, doc) => ([], false, doc)
    | (some line, doc) =>
      if doc.isRequest line ["SY", "SH", "SS"] then ([], false, doc.pushLine line)
      else if doc.isRequest line ["YS"] then ([line], true, doc)
      else
        let (lines, closed, doc) := go left doc
        (line :: lines, closed, doc)

/-- A synopsis block: a command if it reads as one, and otherwise text. -/
def manSynopsis (doc : Document) (request : Request) : Document :=
  let (lines, closed, doc) := doc.manSynopsisLines
  match doc.synopsis? (request.line :: lines) with
  | some display => display.markup.foldl emitMarkup doc.closeParagraph
  | none =>
    let doc := if closed then doc else doc.warn (.withoutPartner "SY" "YS")
    let doc := doc.closeParagraph.textLine ("\\fB" ++ join " " request.arguments ++ "\\fR")
    { doc with input := doc.input.pushLines lines }

/-- The text of a link up to the request that ends it, and what follows the link. -/
def manLinkText (doc : Document) (closer : String) : List Text × Text × Document :=
  go doc.input.length doc
where
  go : Nat → Document → List Text × Text × Document
  | 0, doc => ([], [], doc.warn (.missingEnd closer))
  | left + 1, doc =>
    match doc.input.nextLine? with
    | none => ([], [], doc.warn (.missingEnd closer))
    | some next =>
      if doc.isRequest next [closer] then
        let (line, doc) := doc.nextLine
        match line.bind doc.splitControl? with
        | some (_, rest) => ([], join " " (ControlLine.arguments rest), doc)
        | none => ([], [], doc)
      else if doc.nextIsControl then ([], [], doc)
      else
        let (line, doc) := doc.nextLine
        let (markup, doc) := doc.renderIsolated (trim (line.getD []))
        let (texts, tail, doc) := go left doc
        (markup :: texts, tail, doc)

/-- A link to a page or to a mail address. -/
def manLink (doc : Document) (target : Text) (closer : String) (mail : Bool) : Document :=
  let target := stripTags (Inline.plainText target)
  let (texts, tail, doc) := doc.manLinkText closer
  let text := join " " texts
  let markup : Text :=
    if !mail then doc.linkMarkup target text
    else if text.isEmpty || text == target then "<email>" ++ target ++ "</email>"
    else doc.linkMarkup ("mailto:" ++ escapeAttribute target) text
  doc.textLine (markup ++ tail)

/-- A paragraph whose tag is the next line of text. -/
def taggedParagraph (doc : Document) : Document :=
  let opener (doc : Document) : Option String := doc.topList?.map (·.opener)
  let doc := if opener doc == some "IP" then doc.endList else doc
  let doc := if opener doc == some "TP" then doc else doc.beginList "TP" .terms
  doc.beginItem none

/-- An option of a synopsis block, with its argument. -/
def manOption (request : Request) : Text :=
  let argument : Text :=
    if (request.argument 1).isEmpty then "" else " \\fI" ++ join " " (request.arguments.drop 1) ++ "\\fR"
  "[\\fB" ++ request.argument 0 ++ "\\fR" ++ argument ++ "]"

/-- What a request of a manual page in the classic style does. -/
def manRequest (doc : Document) (request : Request) : Outcome :=
  let arguments := request.arguments
  match request.name with
  | "TH" => .done (doc.manTitle request)
  | "SH" => .done (doc.manSection request 1)
  | "SS" => .done (doc.manSection request 2)
  | "PP" | "LP" | "P" | "HP" => .done doc.closeParagraph
  | "TP" => .done doc.taggedParagraph
  | "TQ" =>
    let (added, doc) := doc.addTerm
    .done (if added then doc else doc.warn .withoutTagged)
  | "IP" => .done (doc.indentedParagraph (request.argument 0) "IP")
  | "RS" => .done ((doc.beginList "RS" .blockquote).beginItem none)
  | "RE" =>
    let (ended, doc) := doc.endListBy "RS"
    .done (if ended then doc else doc.warn .withoutIndent)
  | "B" | "SB" => .done (doc.fontLine arguments "B")
  | "I" => .done (doc.fontLine arguments "I")
  | "SM" => .done (doc.fontLine arguments "R")
  | "BI" => .done (doc.alternateFonts arguments "B" "I")
  | "BR" => .done (doc.alternateFonts arguments "B" "R")
  | "IB" => .done (doc.alternateFonts arguments "I" "B")
  | "IR" => .done (doc.alternateFonts arguments "I" "R")
  | "RB" => .done (doc.alternateFonts arguments "R" "B")
  | "RI" => .done (doc.alternateFonts arguments "R" "I")
  | "SY" => .done (doc.manSynopsis request)
  | "OP" => .done (doc.textLine (manOption request))
  | "YS" => .done doc.closeParagraph
  | "UR" => .done (doc.manLink (request.argument 0) "UE" false)
  | "MT" => .done (doc.manLink (request.argument 0) "ME" true)
  | "UE" | "ME" => .done (doc.warn (.withoutOpener request.name))
  | "EX" => .done (doc.beginDisplay .program "EX")
  | "EE" =>
    let (ended, doc) := doc.endDisplay
    .done (if ended then doc else doc.warn (.withoutPartner "EE" "EX"))
  | "IX" => .done (doc.indexTerm arguments)
  | _ => .declined

end RoffDocBook.Document
