import RoffDocBook.Package.Request

/-! The requests of pages that are generated from program documentation. -/
namespace RoffDocBook
open Text

namespace Document

/-- What a request of a generated page does. Index entries that repeat the structure of the page are dropped. -/
def pod2manRequest (doc : Document) (request : Request) : Outcome :=
  let arguments := request.arguments
  match request.name with
  | "Vb" => .done (doc.beginDisplay .literal "Vb")
  | "Ve" =>
    let (ended, doc) := doc.endDisplay
    .done (if ended then doc else doc.warn (.withoutPartner "Ve" "Vb"))
  | "Sp" => .done (if doc.inDisplay then doc.textLine [] else doc.closeParagraph)
  | "IX" =>
    let structural : List Text := ["Title", "Header", "Name"]
    .done (if structural.contains (request.argument 0) then doc else doc.indexTerm (arguments.drop 1))
  | "Sh" =>
    let (text, doc) := doc.headingText arguments
    let (title, doc) := doc.renderIsolated text
    .done (doc.pushSection 2 title)
  | "Ip" => .done (doc.indentedParagraph (request.argument 0) "IP")
  | _ => .declined

end Document

namespace Package

/-- A source without the definitions of accents that a generated page begins with: the lines from the one that warns
of them through the one that removes their helpers. -/
def dropAccents (source : Text) : Text :=
  match breakOn? "Fear.  Run.  Save yourself." source with
  | none => source
  | some (before, after) =>
    match breakOn? "\n.rm #[" after with
    | none => source
    | some (_, rest) =>
      let kept := (before.reverse.dropWhile (· != '\n')).reverse
      kept ++ (rest.dropWhile (· != '\n')).drop 1

end Package

end RoffDocBook
