import RoffDocBook.Document.Section

/-! The names that a manual page describes and what they are for. -/
namespace RoffDocBook
open Text Markup

namespace NameLine

/-- What can separate the names from the purpose, apart from a hyphen between blanks. -/
def separators : List Text :=
  ["\\-", "\\(em", "\\[em]", "\\(en", "&#8212;"]

/-- Whether a text begins with a blank. -/
def beginsBlank (t : Text) : Bool :=
  t.head?.any isBlank

/-- The text before and after the first separator, where `afterBlank` tells whether a blank comes before the text. A
separator is followed by a blank. -/
def splitFrom? : Bool → Text → Option (Text × Text)
  | _, [] => none
  | afterBlank, c :: cs =>
    match separators.findSome? fun separator => (dropStart? separator (c :: cs)).filter beginsBlank with
    | some rest => some ([], rest)
    | none =>
      if afterBlank && c == '-' && beginsBlank cs then some ([], cs)
      else (splitFrom? (isBlank c) cs).map fun found => (c :: found.1, found.2)

/-- The names and the purpose on a line, unless it has no separator or no name. -/
def parse? (t : Text) : Option (List Text × Text) := do
  let found ← splitFrom? false t
  let names := (splitOn ',' (trimEnd found.1)).map fun name => trim (stripTags (Inline.plainText name))
  let names := names.filter fun name => !name.isEmpty
  if names.isEmpty then none else some (names, trim found.2)

end NameLine

namespace Document

/-- The tag that the names of a page in this section of the manual have. -/
def nameTag? (volume : Option Text) : Option HintTag :=
  match volume.bind List.head? with
  | some c =>
    if "168".toList.elem c then some .command else if "23".toList.elem c then some .function else none
  | none => none

/-- Records a hint unless there is one for the token. -/
def learn (doc : Document) (token : Text) (tag : HintTag) : Document :=
  if (doc.hints.get? token).isSome then doc else { doc with hints := doc.hints.set .document token tag }

/-- Writes the names of the page and its purpose, and remembers the names. -/
def emitNames (doc : Document) (names : List Text) (purpose : Text) : Document :=
  let doc := { doc with front := { doc.front with names := doc.front.names ++ names } }
  let doc :=
    match nameTag? doc.front.volume with
    | some tag => names.foldl (fun (doc : Document) name => doc.learn name tag) doc
    | none => doc
  let (purpose, doc) := doc.renderIsolated purpose
  let markup : Text :=
    "<refnamediv>" ++ names.flatMap (fun name => ("<refname>" ++ name ++ "</refname>" : Text)) ++
      "<refpurpose>" ++ purpose ++ "</refpurpose></refnamediv>"
  doc.closeParagraph.emitMarkup markup

/-- Writes what the text of a NAME section tells, or else the title of the page with all of the text. -/
def nameSection (doc : Document) (text : Text) : Document :=
  match NameLine.parse? text with
  | some (names, purpose) => doc.emitNames names purpose
  | none =>
    let name := doc.front.title.getD doc.name.toList
    (doc.warn .noNameSeparator).emitNames [lowerCase name] text

end Document

end RoffDocBook
