import RoffDocBook.Conversion.Run
import RoffDocBook.Document.Assembly
import RoffDocBook.Encoding
import RoffDocBook.Markup.Emphasis
import RoffDocBook.Markup.Links
import RoffDocBook.Markup.Scan
import RoffDocBook.Package.Detection

/-! The conversion of one file: its packages are detected, its input is run, and the document is assembled. -/
namespace RoffDocBook
open Text Markup

/-- What does not change from file to file. -/
structure Environment where
  settings : Settings := {}
  files : FileTree := {}
  converters : List Converter := []
  /-- The number of steps after which a run stops that would not end. -/
  limit : Nat := 1000000000

/-- The outcome of a conversion. -/
structure Conversion where
  /-- The document with the names of the packages used in it. -/
  result : Except Failure (Text × List String)
  /-- The hints of the run after the conversion. -/
  hints : Hints
  diagnostics : List Diagnostic
  /-- The files after the conversion. -/
  files : FileTree

namespace Conversion

/-- The source as a package prepares it. -/
def preprocess (source : Text) : Package → Text
  | .pod2man => Package.dropAccents source
  | _ => source

/-- What a package does at the end of the source. -/
def finishPackage (doc : Document) : Package → Document
  | .mdoc => doc.mdocFinish
  | .ms => doc.finishAbstract "AB" "AE"
  | .mm => doc.finishAbstract "AS" "AE"
  | .me => doc.finishLettered
  | _ => doc

/-- The body of a document with its tags repaired, its links lifted and its emphasis replaced by what it stands for. -/
def polish (doc : Document) (lines : List Text) : Text × Document :=
  let body := liftLinks (closeTags (unlines lines)) doc.isFifth
  let hints := inferHints body doc.hints
  (applyHints body hints, { doc with hints })

/-- The document that a finished run gives. -/
def conclude (doc : Document) : Except Failure Text × Document :=
  let (lines, doc) := (doc.active.foldl finishPackage doc).finish
  let (body, doc) := polish doc lines
  let result := do
    let document ← Encoding.encode (doc.assemble body) doc.settings.encodings
    match doc.diagnostics.errors with
    | 0 => pure document
    | count => throw (.flawed count document)
  (result, doc)

/-- A run at the start of a source. -/
def prepare (environment : Environment) (hints : Hints) (name : String) (source : Text) (detection : Detection) : Run :=
  let hints := (hints.beginDocument.read .document source).1
  let doc := Document.start name environment.settings hints
  let directory := (Path.directory? name.toList).filter fun directory => !directory.isEmpty
  let sourceDir := directory.map String.ofList
  let run : Run := { doc := { doc with sourceDir, files := environment.files }, converters := environment.converters }
  let run := (.troff :: detection.major :: detection.minors).foldl Run.activate run
  { run with
    doc := { run.doc with input := Input.ofText (run.doc.active.foldl preprocess (escape source)) } }

/-- Converts the bytes of a file under its name. -/
def ofBytes (environment : Environment) (hints : Hints) (name : String) (bytes : List UInt8) : Conversion :=
  let source := replace (decodeBytes bytes) "\r\n" "\n"
  match Detection.detect name source with
  | .error failure => { result := .error failure, hints, diagnostics := [], files := environment.files }
  | .ok detection =>
    let (result, doc) :=
      match (prepare environment hints name source detection).runAll environment.limit with
      | .ok run => conclude run.doc
      | .error (message, run) => (.error (.aborted message), run.doc)
    { result := result.map fun document => (document, doc.firedNames)
      hints := doc.hints.endDocument
      diagnostics := doc.diagnostics.entries
      files := doc.files }

/-- Converts files in turn; each one learns from those before it. -/
def ofFiles : Environment → Hints → List (String × List UInt8) → List Conversion
  | _, _, [] => []
  | environment, hints, (name, bytes) :: rest =>
    let conversion := ofBytes environment hints name bytes
    conversion :: ofFiles { environment with files := conversion.files } conversion.hints rest

end Conversion

end RoffDocBook
