import RoffDocBook.Text.Basic

/-! Left-to-right scans of a text for things that a recogniser finds, and the tags that a scan finds in markup. -/
namespace RoffDocBook.Markup
open Text

/-- The text with what a recogniser finds replaced. The recogniser sees the character before and the text from there,
and answers with the replacement and the number of characters that it stands for; `skip` of those are still to be
passed over. -/
def replaceFoundFrom (recognise : Option Char → Text → Option (Text × Nat)) : Nat → Option Char → Text → Text
  | _, _, [] => []
  | skip + 1, _, c :: cs => replaceFoundFrom recognise skip (some c) cs
  | 0, previous, c :: cs =>
    match recognise previous (c :: cs) with
    | some (replacement, length) => replacement ++ replaceFoundFrom recognise (length - 1) (some c) cs
    | none => c :: replaceFoundFrom recognise 0 (some c) cs

/-- The text with what a recogniser finds replaced, from left to right and without overlap. -/
def replaceFound (recognise : Option Char → Text → Option (Text × Nat)) (t : Text) : Text :=
  replaceFoundFrom recognise 0 none t

/-- A part of a text: something that was found, or a character outside everything found. -/
inductive Item (α : Type) where
  | char (c : Char)
  | found (thing : α)

/-- The parts of a text by a recogniser, which answers with the number of characters of what it finds. -/
def itemsFrom {α : Type} (recognise : Text → Option (α × Nat)) : Nat → Text → List (Item α)
  | _, [] => []
  | skip + 1, _ :: cs => itemsFrom recognise skip cs
  | 0, c :: cs =>
    match recognise (c :: cs) with
    | some (thing, length) => .found thing :: itemsFrom recognise (length - 1) cs
    | none => .char c :: itemsFrom recognise 0 cs

def items {α : Type} (recognise : Text → Option (α × Nat)) (t : Text) : List (Item α) :=
  itemsFrom recognise 0 t

/-- A start tag, an end tag or the tag of an empty element. -/
structure Tag where
  /-- The tag as it is written. -/
  written : Text
  name : Text
  isEnd : Bool
  isEmpty : Bool
  deriving DecidableEq

/-- A character after the first one of an element's name. -/
def isTagNameChar (c : Char) : Bool :=
  isWordChar c || c == ':' || c == '.' || c == '-'

/-- The tag at the start of a text. -/
def Tag.read? (t : Text) : Option (Tag × Nat) :=
  match t with
  | '<' :: rest =>
    let (isEnd, rest) : Bool × Text :=
      match rest with
      | '/' :: rest => (true, rest)
      | rest => (false, rest)
    match rest with
    | [] => none
    | c :: _ =>
      let name := rest.takeWhile isTagNameChar
      let after := rest.dropWhile isTagNameChar
      let tag (inside : Text) (isEmpty : Bool) : Option (Tag × Nat) :=
        let written := '<' :: ((if isEnd then ['/'] else []) ++ name ++ inside ++ ['>'])
        some ({ written, name, isEnd, isEmpty }, written.length)
      if !c.isAlpha then none
      else
        match after with
        | '>' :: _ => tag [] false
        | '/' :: '>' :: _ => tag ['/'] true
        | b :: more =>
          let inside := more.takeWhile (· != '>')
          if isBlank b && inside.length < more.length then
            tag (b :: inside) (inside.getLast? == some '/')
          else none
        | [] => none
  | _ => none

/-- The first tag in a text. -/
def Tag.first? : Text → Option Tag
  | [] => none
  | c :: cs =>
    match Tag.read? (c :: cs) with
    | some (tag, _) => some tag
    | none => first? cs

def Tag.startOf (name : Text) : Text :=
  "<" ++ name ++ ">"

def Tag.endOf (name : Text) : Text :=
  "</" ++ name ++ ">"

end RoffDocBook.Markup

/-! The repair of font elements: those left open at the edge of a block are closed there, and stray ends are dropped. -/
namespace RoffDocBook.Markup
open Text

/-- The elements that fonts open and close. -/
def fontElements : List Text :=
  ["emphasis", "literal"]

/-- Elements inside a line, which do not end the fonts around them. -/
def inlineElements : List Text :=
  ["application", "citerefentry", "citetitle", "command", "constant", "email", "envar", "errorcode", "filename",
    "function", "indexterm", "link", "manvolnum", "option", "parameter", "primary", "quote", "refentrytitle",
    "replaceable", "secondary", "subscript", "superscript", "systemitem", "type", "ulink", "varname"]

/-- The end tags of open elements, the innermost first. -/
def endTags (opened : List Text) : Text :=
  opened.flatMap Tag.endOf

/-- What a tag becomes, and the font elements open after it, given those open before it, the innermost first. -/
def repairTag (opened : List Text) (tag : Tag) : Text × List Text :=
  if fontElements.contains tag.name && !tag.isEmpty then
    if !tag.isEnd then (tag.written, tag.name :: opened)
    else if opened.contains tag.name then
      let inner := opened.takeWhile (· != tag.name)
      (endTags inner ++ tag.written, opened.drop (inner.length + 1))
    else ([], opened)
  else if inlineElements.contains tag.name then (tag.written, opened)
  else (endTags opened ++ tag.written, [])

/-- The repaired text of the items, given the font elements open before them. -/
def repairItems : List Text → List (Item Tag) → Text
  | opened, [] => endTags opened
  | opened, .char c :: rest => c :: repairItems opened rest
  | opened, .found tag :: rest => (repairTag opened tag).1 ++ repairItems (repairTag opened tag).2 rest

/-- Markup in which font elements are properly closed. -/
def closeTags (body : Text) : Text :=
  repairItems [] (items Tag.read? body)

end RoffDocBook.Markup
