import RoffDocBook.Package.Paper

/-! The requests of the memorandum package. -/
namespace RoffDocBook.Document
open Text Markup

/-- A heading with a text of its own and one that is set after it. -/
def mmHeading (doc : Document) (request : Request) : Document :=
  let (text, doc) := doc.headingText ((request.arguments.drop 1).take 1)
  let (title, doc) := doc.renderIsolated text
  let (suffix, doc) := doc.renderIsolated (request.argument 2)
  doc.pushSection (headingDepth (request.argument 0)) (title ++ suffix)

/-- The attribute for the way in which the items of a list are numbered. -/
def numeration (style : Text) : Text :=
  match String.ofList style with
  | "a" => " numeration='loweralpha'"
  | "A" => " numeration='upperalpha'"
  | "i" => " numeration='lowerroman'"
  | "I" => " numeration='upperroman'"
  | _ => ""

/-- An item of the innermost list. -/
def mmItem (doc : Document) (arguments : List Text) : Document :=
  match doc.topList? with
  | none => (doc.warn (.outsideList "LI")).closeParagraph
  | some frame =>
    if frame.kind = .terms then
      let (term, doc) := doc.renderIsolated (join " " arguments)
      doc.beginItem (some term)
    else doc.beginItem none

/-- Text that takes turns in two fonts, or a change to the first one. -/
def mmFont (doc : Document) (arguments : List Text) (first second : String) : Document :=
  if arguments.isEmpty then doc.setFont first else doc.alternateFonts arguments first second

/-- What a request of the memorandum package does. -/
def mmRequest (doc : Document) (request : Request) : Outcome :=
  let arguments := request.arguments
  let joined := join " " arguments
  match request.name with
  | "TL" => .done doc.paperTitle
  | "AU" => .done (if isAllBlank (request.argument 0) then doc else doc.addAuthor (request.argument 0))
  | "AF" => .done (doc.setAffiliation joined)
  | "ND" => .done (doc.paperDate arguments)
  | "AS" => .done doc.beginAbstract
  | "AE" => .done (doc.endAbstract "AS" "AE")
  | "H" => .done (doc.mmHeading request)
  | "HU" => .done (doc.paperHeading (if doc.sectionDepth > 0 then 2 else 1) arguments)
  | "P" => .done doc.closeParagraph
  | "AL" => .done (doc.beginListWith "AL" .ordered (numeration (request.argument 0)))
  | "RL" | "LB" => .done (doc.beginList request.name .ordered)
  | "BL" => .done (doc.beginListWith "BL" .itemized " mark='bullet'")
  | "DL" => .done (doc.beginListWith "DL" .itemized " mark='dash'")
  | "ML" => .done (doc.beginList "ML" .itemized)
  | "VL" => .done (doc.beginList "VL" .terms)
  | "LI" => .done (doc.mmItem arguments)
  | "LE" => .done (if doc.openLists.isEmpty then doc.warn (.withoutList "LE") else doc.endList)
  | "DS" | "DF" => .done (doc.beginDisplay .literal request.name)
  | "DE" => .done doc.closeDisplay
  | "FS" | "RS" => .done doc.beginFootnote
  | "FE" | "RF" => .done doc.endFootnote
  | "TB" =>
    let (title, doc) := doc.renderIsolated joined
    .done { doc with tableTitle := some title }
  | "FG" | "EC" | "EX" =>
    let (caption, doc) := doc.renderIsolated joined
    .done (doc.closeParagraph.emitMarkup
      ("<para remap='" ++ request.name.toList ++ "'>" ++ caption ++ "</para>"))
  | "B" => .done (doc.mmFont arguments "B" "R")
  | "I" => .done (doc.mmFont arguments "I" "R")
  | "R" => .done (doc.setFont "R")
  | "BI" => .done (doc.alternateFonts arguments "B" "I")
  | "BR" => .done (doc.alternateFonts arguments "B" "R")
  | "IB" => .done (doc.alternateFonts arguments "I" "B")
  | "IR" => .done (doc.alternateFonts arguments "I" "R")
  | "RB" => .done (doc.alternateFonts arguments "R" "B")
  | "RI" => .done (doc.alternateFonts arguments "R" "I")
  | _ => .declined

end RoffDocBook.Document
