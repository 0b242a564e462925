import RoffDocBook.Document.Section

/-! Paragraphs with a tag, the kind of list that a tag implies, and links within text. -/
namespace RoffDocBook
open Text Markup

/-- Tags that are a bullet. -/
def bulletTags : List Text :=
  ["\\(bu", "\\[bu]", "*", "-", "o", "\\(em", "\\-", "&#8226;"]

/-- The kind of list that the tag of an indented paragraph implies: bullets and numbers are no terms. -/
def ListKind.ofTag (tag : Text) : ListKind :=
  let plain := trim (Inline.plainText tag)
  if bulletTags.contains (trim tag) || plain == ['•'] || plain == ['·'] then .itemized
  else
    let number := (plain.reverse.dropWhile fun c => c == '.' || c == ')').reverse.dropWhile (· == '(')
    let numeric := !number.isEmpty && number.all Char.isDigit
    if numeric && (number.length < plain.length || plain.length ≤ 2) then .ordered else .terms

namespace Document

/-- A paragraph with a tag: an item of the list that its request opened, or of a new list if the tag implies another
kind. Without a tag it is an indented block. -/
def indentedParagraph (doc : Document) (tag : Text) (request : String) : Document :=
  if isAllBlank tag then
    match doc.topList? with
    | some frame =>
      if frame.opener == request || frame.opener == "TP" || frame.opener == "RS" then doc.closeParagraph
      else (doc.beginList request .blockquote).beginItem none
    | none => (doc.beginList request .blockquote).beginItem none
  else
    let kind := ListKind.ofTag tag
    let doc :=
      match doc.topList? with
      | some frame =>
        if frame.opener == request && frame.kind = kind then doc
        else if frame.opener == request || frame.opener == "TP" then doc.endList.beginList request kind
        else doc.beginList request kind
      | none => doc.beginList request kind
    if kind = .terms then
      let (term, doc) := doc.renderIsolated tag
      doc.beginItem (some term)
    else doc.beginItem none

/-- A link within text; without a text of its own it shows its target. -/
def linkMarkup (doc : Document) (target text : Text) : Text :=
  let text := if isAllBlank text then target else text
  if doc.isFifth then "<link xlink:href='" ++ escapeAttribute target ++ "'>" ++ text ++ "</link>"
  else "<ulink url='" ++ escapeAttribute target ++ "'>" ++ text ++ "</ulink>"

/-- The first text with any markup, and the texts after it. -/
def firstTerm? (doc : Document) : List Text → Option (Text × List Text) × Document
  | [] => (none, doc)
  | text :: rest =>
    let (markup, doc) := doc.renderIsolated text
    if markup.isEmpty then firstTerm? doc rest else (some (markup, rest), doc)

/-- Writes an entry of the index: the first two texts with any markup are its terms. -/
def indexTerm (doc : Document) (texts : List Text) : Document :=
  match doc.firstTerm? texts with
  | (none, doc) => doc
  | (some (primary, rest), doc) =>
    let (found, doc) := doc.firstTerm? rest
    let secondary : Text :=
      match found with
      | some (markup, _) => "<secondary>" ++ markup ++ "</secondary>"
      | none => ""
    let markup : Text := "<indexterm><primary>" ++ primary ++ "</primary>" ++ secondary ++ "</indexterm>"
    if doc.inParagraph then doc.append markup else doc.emitMarkup markup

end Document

end RoffDocBook
