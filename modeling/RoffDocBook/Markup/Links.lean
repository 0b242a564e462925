import RoffDocBook.Markup.Scan

/-! Links in running text: addresses of documents, mail addresses, and references to manual pages. -/
namespace RoffDocBook.Markup
open Text

/-- Whether a word begins or ends between two characters. -/
def isWordEdge (before after : Option Char) : Bool :=
  before.any isWordChar != after.any isWordChar

/-- A reference to a manual page by its title and section. -/
def pageReference (title volume : Text) : Text :=
  "<citerefentry><refentrytitle>" ++ title ++ "</refentrytitle><manvolnum>" ++ volume ++
    "</manvolnum></citerefentry>"

/-- The section of the manual in parentheses at the start of a text. -/
def readVolume? (t : Text) : Option Text :=
  match t with
  | '(' :: 'n' :: ')' :: _ => some ['n']
  | '(' :: c :: rest =>
    let letters := rest.takeWhile fun c => c.isAlpha || c == '+'
    if '1' ≤ c && c ≤ '9' && rest[letters.length]? == some ')' then some (c :: letters) else none
  | _ => none

/-- The characters of an address at the start of a text. -/
def addressChars : Text → Text
  | '&' :: 'a' :: 'm' :: 'p' :: ';' :: rest => "&amp;" ++ addressChars rest
  | c :: rest => if isBlank c || "<>\"'&".toList.elem c then [] else c :: addressChars rest
  | [] => []

/-- The address of a document at the start of a text. -/
def readAddress? (t : Text) : Option Text :=
  (["https://", "http://", "ftp://"] : List Text).findSome? fun scheme =>
    (dropStart? scheme t).bind fun rest =>
      if (addressChars rest).isEmpty then none else some (scheme ++ addressChars rest)

def isLocalChar (c : Char) : Bool :=
  isWordChar c || c == '.' || c == '+' || c == '-'

def isLabelChar (c : Char) : Bool :=
  isWordChar c || c == '-'

/-- The labels of a domain after its first one, each after a point; `fuel` is a bound on their number. -/
def domainLabels : Nat → Text → Text
  | 0, _ => []
  | fuel + 1, '.' :: rest =>
    let label := rest.takeWhile isLabelChar
    if label.isEmpty then [] else '.' :: label ++ domainLabels fuel (rest.dropWhile isLabelChar)
  | _, _ => []

/-- The mail address at the start of a text. Its domain has at least two labels. -/
def readMail? (t : Text) : Option Text :=
  let account := t.takeWhile isLocalChar
  match account, t.dropWhile isLocalChar with
  | _ :: _, '@' :: rest =>
    let label := rest.takeWhile isLabelChar
    let labels := domainLabels rest.length (rest.dropWhile isLabelChar)
    if label.isEmpty || labels.isEmpty then none else some (account ++ '@' :: label ++ labels)
  | _, _ => none

/-- The name of a manual page and its section at the start of a text. -/
def readPage? (t : Text) : Option (Text × Text) :=
  match t with
  | c :: _ =>
    let isNameChar (c : Char) : Bool := isWordChar c || ".+:-".toList.elem c
    let name := t.takeWhile isNameChar
    if c.isAlpha || c == '_' then (readVolume? (t.dropWhile isNameChar)).map (name, ·) else none
  | [] => none

/-- An address as a link. Punctuation at its end is not part of it. -/
def addressLink (fifth : Bool) (address : Text) : Text :=
  let target := (address.reverse.dropWhile fun c => ".,;:)!?".toList.elem c).reverse
  let tail := address.drop target.length
  if fifth then "<link xlink:href='" ++ target ++ "'>" ++ target ++ "</link>" ++ tail
  else "<ulink url='" ++ target ++ "'>" ++ target ++ "</ulink>" ++ tail

/-- The link that begins at the start of a text, with the number of characters that it stands for. -/
def readLink? (fifth : Bool) (previous : Option Char) (t : Text) : Option (Text × Nat) :=
  if !isWordEdge previous t.head? then none
  else
    match readAddress? t with
    | some address => some (addressLink fifth address, address.length)
    | none =>
      match readMail? t with
      | some mail => some ("<email>" ++ mail ++ "</email>", mail.length)
      | none => (readPage? t).map fun page => (pageReference page.1 page.2, page.1.length + page.2.length + 2)

/-- Text between markup with its links marked up. -/
def linkText (fifth : Bool) (t : Text) : Text :=
  replaceFound (readLink? fifth) t

/-- A reference to a manual page whose name is in a font of its own. -/
def readEmphasizedPage? (_ : Option Char) (t : Text) : Option (Text × Nat) := do
  let rest ← dropStart? "<emphasis" t
  let inside := rest.takeWhile (· != '>')
  let rest := rest.drop (inside.length + 1)
  let name := rest.takeWhile fun c => isWordChar c || ".:+-".toList.elem c
  let rest ← dropStart? "</emphasis>" (rest.drop name.length)
  let volume ← readVolume? rest
  if name.isEmpty then none
  else some (pageReference name volume, 9 + inside.length + 1 + name.length + 11 + volume.length + 2)

/-- Elements in which nothing is made a link. -/
def unlinkedElements : List Text :=
  ["citerefentry", "cmdsynopsis", "command", "email", "filename", "funcsynopsis", "function", "indexterm", "link",
    "literal", "option", "programlisting", "refmeta", "refname", "replaceable", "ulink"]

/-- The comment or tag at the start of a text. -/
def readMarkup? (t : Text) : Option (Text × Nat) :=
  let comment : Option Text :=
    (dropStart? "<!--" t).bind fun rest => (breakOn? "-->" rest).map fun found => "<!--" ++ found.1 ++ "-->"
  let tag : Option Text :=
    match t with
    | '<' :: rest =>
      let inside := rest.takeWhile (· != '>')
      if inside.isEmpty || rest.length ≤ inside.length then none else some ('<' :: inside ++ ['>'])
    | _ => none
  (comment <|> tag).map fun markup => (markup, markup.length)

/-- How deep the text after some markup is inside elements without links. -/
def unlinkedDepth (depth : Nat) (markup : Text) : Nat :=
  match Tag.first? markup with
  | some tag =>
    if unlinkedElements.contains tag.name && !tag.isEmpty then if tag.isEnd then depth - 1 else depth + 1 else depth
  | none => depth

/-- The items with links in the text between markup; `text` is the text before them, read backwards. -/
def linkItems (fifth : Bool) : Nat → Text → List (Item Text) → Text
  | depth, text, [] => if depth == 0 then linkText fifth text.reverse else text.reverse
  | depth, text, .char c :: rest => linkItems fifth depth (c :: text) rest
  | depth, text, .found markup :: rest =>
    (if depth == 0 then linkText fifth text.reverse else text.reverse) ++ markup ++
      linkItems fifth (unlinkedDepth depth markup) [] rest

/-- Markup with links for the addresses and references in its text. -/
def liftLinks (body : Text) (fifth : Bool) : Text :=
  linkItems fifth 0 [] (items readMarkup? (replaceFound readEmphasizedPage? body))

end RoffDocBook.Markup
