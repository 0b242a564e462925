import RoffDocBook.Package.Request

/-! Requests that bring in other files: packages, files of requests, and files of text. -/
namespace RoffDocBook
open Text Markup

/-- The package that a file of request definitions stands for. -/
def Package.ofFile? (file : Text) : Option Package :=
  let base := (splitOn '/' file).getLastD []
  let base := (dropStart? "tmac." base).getD base
  let stem := String.ofList ((dropEnd? ".tmac" base).getD base)
  if ["an", "man", "andoc"].contains stem then some .man
  else if ["doc", "mdoc"].contains stem then some .mdoc
  else if ["s", "ms"].contains stem then some .ms
  else if ["e", "me"].contains stem then some .me
  else if ["m", "mm"].contains stem then some .mm
  else if stem == "www" then some .www
  else if stem == "man.macros" then some .tkman
  else none

namespace Document

/-- The bytes of a file in the first directory that has it; the directory of the source comes before the others. -/
def searchFile? (doc : Document) (file : Text) (directories : List String) : Option (List UInt8) :=
  if startsWith file "/" then doc.files.read? file
  else
    (doc.sourceDir.toList ++ directories).findSome? fun directory =>
      doc.files.read? (Path.within directory.toList file)

/-- Puts the lines of a file in front of the input. -/
def splice (doc : Document) (bytes : List UInt8) : Document :=
  { doc with input := doc.input.pushLines ((Text.lines (decodeBytes bytes)).map escape) }

/-- Whether a text holds requests and blank lines only. -/
def isRequestsOnly (doc : Document) (t : Text) : Bool :=
  (Text.lines t).all fun line =>
    isAllBlank line || ControlLine.isControl line doc.formatter.control doc.formatter.noBreak

/-- Asks for a package after the line at hand. -/
def requestPackage (doc : Document) (package : Package) : Document :=
  { doc with pending := doc.pending ++ [package] }

/-- Writes a reference to a file that is not read. -/
def referToFile (doc : Document) (file : Text) : Document :=
  let (markup, doc) := doc.addInclusion file
  doc.closeParagraph.emitMarkup markup

/-- Includes a file: its lines if it holds requests only, and otherwise a reference to it. -/
def sourceFile (doc : Document) (file : Text) : Document :=
  if file.isEmpty then doc.warn (.withoutFileName "so")
  else
    match Package.ofFile? file with
    | some package => doc.requestPackage package
    | none =>
      match doc.searchFile? file doc.settings.includeDirs with
      | none => (doc.warn (.fileNotFound file)).referToFile file
      | some bytes => if doc.isRequestsOnly (decodeBytes bytes) then doc.splice bytes else doc.referToFile file

/-- Includes a file of request definitions, under its own name or the usual names made from it. -/
def sourcePackage (doc : Document) (file : Text) : Document :=
  match Package.ofFile? file with
  | some package => doc.requestPackage package
  | none =>
    let found :=
      [file, file ++ ".tmac", "tmac." ++ file].findSome? fun name => doc.searchFile? name doc.settings.packageDirs
    match found with
    | some bytes => doc.splice bytes
    | none => doc.warn (.packageNotFound file)

end Document

end RoffDocBook
