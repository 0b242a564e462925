import RoffDocBook.Package.Request

/-! What the packages for papers have in common: the front matter, the abstract, and headings with depths. -/
namespace RoffDocBook.Document
open Text Markup

/-- Takes the title of the paper from the lines of text that follow. -/
def paperTitle (doc : Document) : Document :=
  let (text, doc) := doc.gatherText
  let (title, doc) := doc.renderIsolated text
  { doc with front := { doc.front with title := if isAllBlank title then none else some title } }

/-- Sets the date of the paper. -/
def paperDate (doc : Document) (arguments : List Text) : Document :=
  let text := join " " arguments
  if isAllBlank text then { doc with front := { doc.front with date := none } }
  else
    let (date, doc) := doc.renderIsolated text
    { doc with front := { doc.front with date := some date } }

def addAuthor (doc : Document) (text : Text) : Document :=
  let (name, doc) := doc.renderIsolated text
  { doc with front := { doc.front with authors := doc.front.authors ++ [{ name }] } }

/-- Gives an affiliation to the authors that have none. -/
def setAffiliation (doc : Document) (text : Text) : Document :=
  let (affiliation, doc) := doc.renderIsolated text
  let affiliated (author : Author) : Author :=
    { author with affiliation := some (author.affiliation.getD affiliation) }
  { doc with front := { doc.front with authors := doc.front.authors.map affiliated } }

/-- Begins to collect the abstract. -/
def beginAbstract (doc : Document) : Document :=
  { doc.closeParagraph.beginDiversion with inAbstract := true }

/-- Adds the collected abstract to the front matter. -/
def endAbstract (doc : Document) (opener closer : String) : Document :=
  if !doc.inAbstract then doc.warn (.withoutPartner closer opener)
  else
    let (lines, doc) := { doc with inAbstract := false }.endDiversion
    match paragraphs? lines with
    | some body => { doc with front := { doc.front with abstract := doc.front.abstract ++ [body] } }
    | none => doc

/-- Ends an abstract that is open at the end of the source. -/
def finishAbstract (doc : Document) (opener closer : String) : Document :=
  if doc.inAbstract then (doc.warn (.withoutPartner opener closer)).endAbstract opener closer else doc

/-- The depth of a heading that an argument gives. -/
def headingDepth (argument : Text) : Nat :=
  max 1 ((toNatBelow? Word.count64 argument).getD 1)

/-- Begins a section whose heading is given, or is the text that follows. -/
def paperHeading (doc : Document) (depth : Nat) (arguments : List Text) : Document :=
  let (text, doc) := doc.headingText arguments
  let (title, doc) := doc.renderIsolated text
  doc.pushSection depth title

/-- Closes a display that a request ends. -/
def closeDisplay (doc : Document) : Document :=
  let (ended, doc) := doc.endDisplay
  if ended then doc else doc.warn (.withoutDisplay "DE")

/-- Passes over the lines up to a request, which complains if it is missing. -/
def skipTo (doc : Document) (closer : String) : Document :=
  (doc.gatherBlock closer).2

/-- Writes a word in a font between what comes before it and what follows it, or changes the font if there is no
word. -/
def wordInFont (doc : Document) (arguments : List Text) (font : String) : Document :=
  match arguments with
  | [] => doc.setFont font
  | word :: rest =>
    doc.textLine (rest.getD 1 [] ++ "\\f" ++ font.toList ++ word ++ "\\fR" ++ rest.getD 0 [])

end RoffDocBook.Document
