import RoffDocBook.Package.Paper

/-! The requests of the manuscript package. -/
namespace RoffDocBook.Document
open Text Markup

/-- A heading, which is the text up to the next request. -/
def msHeading (doc : Document) (argument : Text) : Document :=
  let (text, doc) := doc.gatherText
  let (title, doc) := doc.renderIsolated text
  let doc := if isAllBlank (stripTags title) then doc.warn .emptyHeading else doc
  doc.pushSection (headingDepth argument) title

/-- What a request of the manuscript package does. -/
def msRequest (doc : Document) (request : Request) : Outcome :=
  let arguments := request.arguments
  match request.name with
  | "TL" => .done doc.paperTitle
  | "AU" =>
    let (lines, doc) := doc.gatherLines
    .done (lines.foldl addAuthor doc)
  | "AI" =>
    let (lines, doc) := doc.gatherLines
    .done (doc.setAffiliation (join ", " lines))
  | "ND" | "DA" => .done (doc.paperDate arguments)
  | "AB" => .done doc.beginAbstract
  | "AE" => .done (doc.endAbstract "AB" "AE")
  | "NH" | "SH" => .done (doc.msHeading (request.argument 0))
  | "PP" | "LP" | "XP" => .done doc.closeParagraph
  | "QP" | "RS" => .done ((doc.beginList request.name .blockquote).beginItem none)
  | "IP" => .done (doc.indentedParagraph (request.argument 0) "IP")
  | "RE" =>
    let (ended, doc) := doc.endListBy "RS"
    .done (if ended then doc else doc.warn .withoutIndent)
  | "DS" | "ID" | "LD" | "CD" | "BD" => .done (doc.beginDisplay .literal request.name)
  | "DE" => .done doc.closeDisplay
  | "FS" => .done doc.beginFootnote
  | "FE" => .done doc.endFootnote
  | "B" | "R" | "BI" | "CW" => .done (doc.wordInFont arguments request.name)
  | "I" | "UL" => .done (doc.wordInFont arguments "I")
  | "XS" => .done (doc.skipTo "XE")
  | "[" => .done (doc.skipTo "]")
  | _ => .declined

end RoffDocBook.Document
