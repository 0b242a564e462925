import RoffDocBook.Document.Section
import RoffDocBook.Markup.Scan

/-! The whole document around its body: the declarations, the front matter, and a remark on its origin. -/
namespace RoffDocBook
open Text Markup

/-- The version of the program that the remark names. -/
def programVersion : Text := "0.1.24"

/-- The numeral of a number in capital hexadecimal digits, with zeros in front up to a width. -/
def Text.hexadecimal (width n : Nat) : Text :=
  let digits := (Nat.toDigits 16 n).map Char.toUpper
  List.replicate (width - digits.length) '0' ++ digits

namespace Document

/-- The declarations of what the body refers to: entities in the fifth edition, and files in the fourth. -/
def declarations (doc : Document) : List Text :=
  if doc.isFifth then
    doc.entities.map fun (entity : String) =>
      let name := entity.toList
      let code := ((Glyph.ofEntity? name).map (·.code)).getD 0xFFFD
      "<!ENTITY " ++ name ++ " \"&#x" ++ hexadecimal 4 code ++ ";\">"
  else
    doc.inclusions.map fun inclusion =>
      "<!ENTITY " ++ inclusion.entity ++ " SYSTEM '" ++ escapeAttribute inclusion.target ++ "'>"

/-- The document type declaration, which the fifth edition has only for its entities. -/
def documentType (doc : Document) : Text :=
  let subset : Text := if doc.declarations.isEmpty then "" else " [\n" ++ unlines doc.declarations ++ "\n]"
  if doc.isFifth then
    if subset.isEmpty then "" else "<!DOCTYPE " ++ doc.topElement ++ subset ++ ">\n"
  else
    "<!DOCTYPE " ++ doc.topElement ++ " PUBLIC \"-//OASIS//DTD DocBook XML V4.5//EN\" " ++
      "\"http://www.oasis-open.org/docbook/xml/4.5/docbookx.dtd\"" ++ subset ++ ">\n"

/-- An element with a text, if there is a text. -/
def optionalElement (startTag endTag : Text) (text : Option Text) : Text :=
  match text with
  | some text => startTag ++ text ++ endTag
  | none => []

/-- The title of the document, which is its file name if it has no other. -/
def titleOrName (doc : Document) : Text :=
  doc.front.title.getD doc.name.toList

/-- What a manual page says about itself. -/
def pageInformation (doc : Document) : Text :=
  let front := doc.front
  let remark (class_ : Text) (text : Option Text) : Text :=
    optionalElement ("<refmiscinfo class='" ++ class_ ++ "'>") "</refmiscinfo>\n"
      (text.filter fun text => !text.isEmpty)
  "<refmeta>\n<refentrytitle>" ++ doc.titleOrName ++ "</refentrytitle>\n" ++
    optionalElement "<manvolnum>" "</manvolnum>\n" front.volume ++ remark "date" front.date ++
    remark "source" front.source ++ remark "manual" front.manual ++ "</refmeta>\n"

def authorMarkup (fifth : Bool) (author : Author) : Text :=
  let name : Text :=
    if fifth then "<personname>" ++ author.name ++ "</personname>" else "<othername>" ++ author.name ++ "</othername>"
  "<author>" ++ name ++
    optionalElement "<affiliation><orgname>" "</orgname></affiliation>" author.affiliation ++ "</author>\n"

/-- What an article says about itself, if there is anything. -/
def articleInformation (doc : Document) : Text :=
  let front := doc.front
  if front.title.isNone && front.authors.isEmpty && front.date.isNone then []
  else
    let element : Text := if doc.isFifth then "info" else "articleinfo"
    let authors : Text :=
      if front.authors.isEmpty then ""
      else "<authorgroup>\n" ++ front.authors.flatMap (authorMarkup doc.isFifth) ++ "</authorgroup>\n"
    let abstract : Text :=
      if front.abstract.isEmpty then ""
      else "<abstract>\n" ++ front.abstract.flatMap (· ++ ['\n']) ++ "</abstract>\n"
    Tag.startOf element ++ "\n" ++ optionalElement "<title>" "</title>\n" front.title ++ authors ++
      optionalElement "<date>" "</date>\n" front.date ++ abstract ++ Tag.endOf element ++ "\n"

/-- The beginning of a start tag with an identifier, in the form of the fifth edition. -/
def fifthIdentifier? (_ : Option Char) (t : Text) : Option (Text × Nat) := do
  let rest ← dropStart? "<" t
  let name := rest.takeWhile fun c => isWordChar c || c == ':' || c == '-'
  let _ ← dropStart? " id='" (rest.drop name.length)
  if name.head?.any Char.isAlpha then some ("<" ++ name ++ " xml:id='", name.length + 6) else none

/-- The names of the packages that were used, in ascending order. -/
def firedNames (doc : Document) : List String :=
  (Package.all.filter doc.fired.contains).map Package.name |>.mergeSort fun a b => decide (a ≤ b)

/-- The remark on the origin of the document. -/
def origin (doc : Document) : Text :=
  "<!-- Converted by rofflift " ++ programVersion ++ " from " ++ replace doc.name.toList "--" "- -" ++ ": " ++
    ", ".intercalate doc.firedNames ++ " -->\n"

/-- The whole document around a body. -/
def assemble (doc : Document) (body : Text) : Text :=
  let element := doc.topElement
  let id := Slug.ofTitle doc.titleOrName
  let startTag : Text :=
    if doc.isFifth then
      "<" ++ element ++ " xmlns='http://docbook.org/ns/docbook' xmlns:xlink='http://www.w3.org/1999/xlink' " ++
        "xmlns:xi='http://www.w3.org/2001/XInclude' version='5.0' xml:id='" ++ id ++ "'>\n"
    else "<" ++ element ++ " id='" ++ id ++ "'>\n"
  let content := if doc.isFifth then replaceFound fifthIdentifier? body else body
  "<?xml version=\"1.0\" encoding=\"UTF-8\"?>\n" ++ doc.documentType ++ startTag ++
    (if doc.isManualPage then doc.pageInformation else doc.articleInformation) ++ content ++
    (if body.isEmpty then [] else ['\n']) ++ "</" ++ element ++ ">\n" ++ doc.origin

end Document

end RoffDocBook
