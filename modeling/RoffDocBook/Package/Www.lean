import RoffDocBook.Package.Request

/-! The requests for hypertext: links, anchors, images and lists. -/
namespace RoffDocBook.Document
open Text Markup

/-- A link with its text and what follows it. -/
def webLink (doc : Document) (request : Request) : Document :=
  let target := stripTags (Inline.plainText (request.argument 0))
  let (text, doc) := doc.renderIsolated (request.argument 1)
  doc.textLine (doc.linkMarkup target text ++ request.argument 2)

/-- A mail address with its text and what follows it. -/
def mailLink (doc : Document) (request : Request) : Document :=
  let address := stripTags (Inline.plainText (request.argument 0))
  let (text, doc) := doc.renderIsolated (request.argument 1)
  let markup : Text :=
    if text.isEmpty || text == address then "<email>" ++ address ++ "</email>"
    else doc.linkMarkup ("mailto:" ++ escapeAttribute address) text
  doc.textLine (markup ++ request.argument 2)

/-- A place that a link can lead to. -/
def anchor (doc : Document) (name : Text) : Document :=
  let markup : Text := "<anchor id='" ++ Slug.ofTitle name ++ "'/>"
  if doc.inParagraph then doc.append markup else doc.emitMarkup markup

/-- An image, whose file is the first argument that does not place it. -/
def webImage (doc : Document) (request : Request) : Document :=
  let places : List Text := ["-l", "-r", "-c", "-L", "-R"]
  let file := (request.arguments.find? fun argument => !places.contains argument).getD []
  if file.isEmpty then doc.warn (.withoutFile request.name)
  else
    doc.closeParagraph.emitMarkup
      ("<mediaobject><imageobject><imagedata fileref='" ++ escapeAttribute file ++ "'/></imageobject></mediaobject>")

/-- Closes the lists up to one that a request opened. -/
def closeWebList (doc : Document) (closer opener : String) : Document :=
  let (ended, doc) := doc.endListBy opener
  if ended then doc else doc.warn (.withoutPartner closer opener)

/-- What a request for hypertext does. -/
def wwwRequest (doc : Document) (request : Request) : Outcome :=
  match request.name with
  | "URL" | "FTP" => .done (doc.webLink request)
  | "MTO" => .done (doc.mailLink request)
  | "HR" => .done doc.closeParagraph
  | "TAG" => .done (doc.anchor (request.argument 0))
  | "IMG" | "PIMG" | "MPIMG" => .done (doc.webImage request)
  | "ULS" => .done (doc.beginList "ULS" .itemized)
  | "OLS" => .done (doc.beginList "OLS" .ordered)
  | "ULE" => .done (doc.closeWebList "ULE" "ULS")
  | "OLE" => .done (doc.closeWebList "OLE" "OLS")
  | "LI" =>
    if doc.topList?.any fun frame => frame.opener == "ULS" || frame.opener == "OLS" then .done (doc.beginItem none)
    else .declined
  | _ => .declined

end RoffDocBook.Document
