import RoffDocBook.Package.Paper

/-! The requests of the package for research papers. -/
namespace RoffDocBook.Document
open Text Markup

/-- Opens the block that a letter stands for. -/
def beginLettered (doc : Document) (letter : Char) : Document :=
  let push (doc : Document) (block : LetteredBlock) : Document :=
    { doc with lettered := (letter, block) :: doc.lettered }
  match letter with
  | 'q' => push ((doc.beginList "(q" .blockquote).beginItem none) .quote
  | 'l' => push (doc.beginDisplay .literal "(l") .display
  | 'f' => push doc.beginFootnote .footnote
  | 'b' | 'z' | 'c' => push doc.closeParagraph .keep
  | _ => push (doc.warn (.unknownBlock [letter])) .keep

/-- Closes one block. -/
def closeLettered (doc : Document) : LetteredBlock → Document
  | .quote => (doc.endListBy "(q").2
  | .display => doc.endDisplay.2
  | .footnote => doc.endFootnote
  | .keep => doc.closeParagraph

/-- Closes the innermost block with a letter and the blocks inside it. -/
def endLettered (doc : Document) (letter : Char) : Document :=
  match doc.lettered.dropWhile fun entry => entry.1 != letter with
  | [] => doc.warn (.withoutPartner (String.ofList [')', letter]) (String.ofList ['(', letter]))
  | entry :: outer =>
    let inner := doc.lettered.takeWhile fun entry => entry.1 != letter
    (inner ++ [entry]).foldl (fun doc entry => doc.closeLettered entry.2) { doc with lettered := outer }

/-- Closes the blocks that are open at the end of the source. -/
def finishLettered (doc : Document) : Document :=
  doc.lettered.foldl
    (fun doc entry => (doc.warn (.unclosed (String.ofList ['(', entry.1]))).endLettered entry.1)
    doc

/-- The middle part of a title line, or else its first part that is not empty. -/
def middlePart? (rest : Text) : Option Text :=
  match trim rest with
  | [] => none
  | delimiter :: body =>
    let parts := (splitOn delimiter body).map trim
    ((parts[1]?).filter fun part => !part.isEmpty) <|> parts.find? fun part => !part.isEmpty

/-- An item of a list, which a request for an item opens. -/
def meItem (doc : Document) (opener : String) (kind : ListKind) : Document :=
  let doc :=
    match doc.topList? with
    | some frame =>
      if frame.opener == opener then doc
      else if ["np", "bu", "ip"].contains frame.opener then doc.endList.beginList opener kind
      else doc.beginList opener kind
    | none => doc.beginList opener kind
  doc.beginItem none

/-- What a request of the package for research papers does. -/
def meRequest (doc : Document) (request : Request) : Outcome :=
  let arguments := request.arguments
  match request.name with
  | "sh" => .done (doc.paperHeading (headingDepth (request.argument 0)) (arguments.drop 1))
  | "uh" | "+c" | "$c" => .done (doc.paperHeading 1 arguments)
  | "pp" | "lp" => .done doc.closeParagraph
  | "ip" => .done (doc.indentedParagraph (request.argument 0) "ip")
  | "np" => .done (doc.meItem "np" .ordered)
  | "bu" => .done (doc.meItem "bu" .itemized)
  | "b" => .done (doc.wordInFont (arguments.take 2) "B")
  | "i" | "u" => .done (doc.wordInFont (arguments.take 2) "I")
  | "r" => .done (doc.wordInFont (arguments.take 2) "R")
  | "bi" => .done (doc.wordInFont (arguments.take 2) "BI")
  | "q" => .done (doc.textLine ("&#8220;" ++ request.argument 0 ++ "&#8221;" ++ request.argument 1))
  | "tl" =>
    if doc.front.title.isNone && doc.sectionDepth == 0 then
      match middlePart? request.rest with
      | some part =>
        let (title, doc) := doc.renderIsolated part
        .done { doc with front := { doc.front with title := some title } }
      | none => .declined
    else .declined
  | "(x" => .done (doc.skipTo ")x")
  | "(d" => .done (doc.skipTo ")d")
  | name =>
    match name.toList with
    | ['(', letter] => if letter.toNat < 128 then .done (doc.beginLettered letter) else .declined
    | [')', letter] => if letter.toNat < 128 then .done (doc.endLettered letter) else .declined
    | _ => .declined

end RoffDocBook.Document
