import RoffDocBook.Mdoc.Synopsis

/-! The lists, displays and references of the semantic manual package. -/
namespace RoffDocBook.Document
open Text Markup Mdoc

/-- The style of a list, which is the first of its options that does not concern its layout. -/
def listStyle (arguments : List Text) : Text :=
  let layout : List Text := ["-compact", "-width", "-offset"]
  (arguments.find? fun argument => !layout.contains argument && startsWith argument "-").getD "-tag"

/-- The kind of list that a style asks for, with its attributes. -/
def listKind? (style : Text) : Option (ListKind × Text) :=
  match String.ofList style with
  | "-bullet" => some (.itemized, " mark='bullet'")
  | "-dash" | "-hyphen" => some (.itemized, " mark='dash'")
  | "-item" => some (.itemized, " mark='none'")
  | "-enum" => some (.ordered, "")
  | "-tag" | "-hang" | "-ohang" | "-inset" | "-diag" => some (.terms, "")
  | _ => none

/-- Opens a list; one of columns becomes a table. -/
def beginMdocList (doc : Document) (arguments : List Text) : Document :=
  let style := listStyle arguments
  let push (doc : Document) (list : OpenList) : Document :=
    { doc with mdoc := { doc.mdoc with lists := list :: doc.mdoc.lists } }
  if style == "-column".toList then push doc.closeParagraph (.columns [])
  else
    match listKind? style with
    | some (kind, attributes) => push (doc.beginListWith "Bl" kind attributes) (.items (kind == .terms))
    | none => push ((doc.warn (.unknownListType style)).beginListWith "Bl" .terms "") (.items true)

/-- The tokens of an item that goes on over the lines up to the request that ends it. -/
def extendItem (doc : Document) (arguments : List Text) : List Text × Document :=
  let (tokens, closed, doc) := go doc.input.length doc
  (arguments ++ tokens, if closed then doc else doc.warn (.withoutPartner "Xo" "Xc"))
where
  go : Nat → Document → List Text × Bool × Document
  | 0, doc => ([], false, doc)
  | left + 1, doc =>
    match doc.nextLine with
    | (none, doc) => ([], false, doc)
    | (some line, doc) =>
      match doc.splitControl? line with
      | some ("Xc", rest) => (ControlLine.arguments rest, true, doc)
      | some (name, rest) =>
        let (tokens, closed, doc) := go left doc
        (name.toList :: ControlLine.arguments rest ++ tokens, closed, doc)
      | none =>
        let (tokens, closed, doc) := go left doc
        (words line ++ tokens, closed, doc)

/-- The fields between occurrences of a token. -/
def splitTokens (separator : Text) : List Text → List (List Text)
  | [] => [[]]
  | token :: tokens =>
    match splitTokens separator tokens with
    | [] => [[token]]
    | field :: fields => if token == separator then [] :: field :: fields else (token :: field) :: fields

/-- The cells of a row of columns. -/
def columnCells (doc : Document) : List (List Text) → List Text × Document
  | [] => ([], doc)
  | field :: fields =>
    let (markup, doc) := doc.renderTokens field
    let (others, doc) := columnCells doc fields
    ((splitOn '\t' markup).map trim ++ others, doc)

/-- An item of the innermost list. -/
def mdocItem (doc : Document) (arguments : List Text) : Document :=
  let (arguments, doc) :=
    if arguments.getLast? == some "Xo".toList then doc.extendItem arguments.dropLast else (arguments, doc)
  match doc.mdoc.lists with
  | [] => doc.warn (.outside "It" "Bl")
  | .columns rows :: outer =>
    let (cells, doc) := doc.columnCells (splitTokens "Ta" arguments)
    { doc with mdoc := { doc.mdoc with lists := .columns (cells :: rows) :: outer } }
  | .items true :: _ =>
    let (term, doc) := doc.renderTokens arguments
    doc.beginItem (some term)
  | .items false :: _ =>
    let doc := doc.beginItem none
    if arguments.isEmpty then doc
    else
      let (text, doc) := doc.renderTokens arguments
      doc.textLine text

/-- Writes rows as a table without a title. -/
def writeColumns (doc : Document) (rows : List (List Text)) : Document :=
  let width := (rows.map List.length).foldl max 0
  if width == 0 then doc
  else
    let row (cells : List Text) : Text :=
      "<row>" ++ cells.flatMap (fun cell => ("<entry>" ++ cell ++ "</entry>" : Text)) ++ "</row>\n"
    doc.closeParagraph.emitMarkup
      ("<informaltable remap='Bl' frame='none'>\n<tgroup cols='" ++ ofNat width ++ "'>\n<tbody>\n" ++
        rows.flatMap row ++ "</tbody>\n</tgroup>\n</informaltable>")

/-- Closes the innermost list. -/
def endMdocList (doc : Document) : Document :=
  match doc.mdoc.lists with
  | [] => doc.warn (.withoutPartner "El" "Bl")
  | list :: outer =>
    let doc := { doc with mdoc := { doc.mdoc with lists := outer } }
    match list with
    | .items _ => (doc.endListBy "Bl").2
    | .columns rows => doc.writeColumns rows.reverse

/-- Opens a display: literal text, an indented block, or no more than a new paragraph. -/
def beginMdocDisplay (doc : Document) (arguments : List Text) : Document :=
  let has (option : String) : Bool := arguments.contains option.toList
  let (display, doc) :=
    if has "-literal" || has "-unfilled" then (OpenDisplay.literal, doc.beginDisplay .literal "Bd")
    else if has "-offset" then (OpenDisplay.indented, (doc.beginList "Bd" .blockquote).beginItem none)
    else (OpenDisplay.plain, doc.closeParagraph)
  { doc with mdoc := { doc.mdoc with displays := display :: doc.mdoc.displays } }

/-- Closes the innermost display. -/
def endMdocDisplay (doc : Document) : Document :=
  match doc.mdoc.displays with
  | [] => doc.warn (.withoutPartner "Ed" "Bd")
  | display :: outer =>
    let doc := { doc with mdoc := { doc.mdoc with displays := outer } }
    match display with
    | .literal => doc.endDisplay.2
    | .indented => (doc.endListBy "Bd").2
    | .plain => doc.closeParagraph

/-- Names in a sentence. -/
def enumeration (names : List Text) : Text :=
  match names.reverse with
  | [] => []
  | [name] => name
  | [second, first] => first ++ " and " ++ second
  | last :: before => join ", " before.reverse ++ ", and " ++ last

/-- Fields of a reference in their order, with what is written around them. -/
def referenceFields : List (Char × Text × Text) :=
  [('T', "<citetitle>", "</citetitle>"), ('B', "<citetitle pubwork='book'>", "</citetitle>"),
    ('J', "<citetitle pubwork='journal'>", "</citetitle>"), ('R', "", ""), ('V', "vol. ", ""), ('N', "no. ", ""),
    ('I', "", ""), ('C', "", ""), ('P', "pp. ", ""), ('Q', "", ""), ('D', "", ""), ('O', "", "")]

/-- A reference as a paragraph: its authors first, and the links to it last. -/
def endReference (doc : Document) : Document :=
  match doc.mdoc.reference with
  | none => doc.warn (.withoutPartner "Re" "Rs")
  | some fields =>
    let doc := { doc with mdoc := { doc.mdoc with reference := none } }
    let values (key : Char) : List Text :=
      fields.reverse.filterMap fun field => if field.1 == key then some field.2 else none
    let authors := values 'A'
    let parts :=
      (if authors.isEmpty then [] else [enumeration authors]) ++
        referenceFields.flatMap (fun field => (values field.1).map fun value => field.2.1 ++ value ++ field.2.2) ++
        (values 'U').map fun url => doc.linkMarkup (stripTags url) url
    doc.closeParagraph.emitMarkup ("<para remap='Rs'>" ++ join ", " parts ++ ".</para>")

end RoffDocBook.Document
