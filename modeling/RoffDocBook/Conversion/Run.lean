import RoffDocBook.Package.Formatter
import RoffDocBook.Package.Mdoc
import RoffDocBook.Package.Me
import RoffDocBook.Package.Mm
import RoffDocBook.Package.Ms
import RoffDocBook.Package.Pod2man
import RoffDocBook.Package.Tkman
import RoffDocBook.Package.Www
import RoffDocBook.Table.Markup
import RoffDocBook.Conversion.Converter

/-! The run through the input of a document: each item in turn is text, or a request that is offered to the packages in
use. -/
namespace RoffDocBook
open Text Markup

/-- A document with the states of its packages and the converters for its blocks. -/
structure Run where
  doc : Document
  converters : List Converter := []

/-- How a step ends: the run goes on, or the source has ended it. -/
abbrev RunResult := Except (Text × Run) Run

/-- What a line of input asks for. -/
inductive Statement where
  | comment (text : Text)
  /-- Only the end of a block was on the line. -/
  | nothing
  /-- A request, by its control line. -/
  | control (line : Text)
  | text (line : Text)
  deriving DecidableEq

/-- Whether a line goes on with the next one: it ends in an odd number of backslashes. -/
def endsInContinuation (line : Text) : Bool :=
  (line.reverse.takeWhile (· == '\\')).length % 2 == 1

/-- A control line without a comment at its end, and without the blanks before the comment. -/
def dropComment (line : Text) : Text :=
  match go line with
  | some before => trimEnd before
  | none => line
where
  /-- The text before a comment, if there is one. -/
  go : Text → Option Text
    | [] => none
    | '\\' :: c :: rest => if c == '"' || c == '#' then some [] else (go rest).map fun before => '\\' :: c :: before
    | c :: rest => (go rest).map (c :: ·)

namespace Run

/-- Brings a package into use, unless it is in use or another one determines the kind of document. -/
def activate (run : Run) (package : Package) : Run :=
  let doc := run.doc
  if doc.active.contains package || (package.exclusive && doc.major?.isSome) then run
  else
    let define_ (table : Bindings Text) (entry : String × String) : Bindings Text :=
      if table.contains entry.1 then table else table.put entry.1 entry.2.toList
    let strings := package.descriptor.strings.foldl define_ doc.formatter.strings
    { run with
      doc := { doc with active := package :: doc.active, formatter := { doc.formatter with strings } } }

/-- Brings the packages into use that the last line has asked for. -/
def activatePending (run : Run) : Run :=
  run.doc.pending.foldl activate { run with doc := { run.doc with pending := [] } }

/-- The markup around a converted block. -/
def wrapBlock (kind : BlockKind) (markup : Text) : Text :=
  match kind with
  | .equation => "<informalequation>" ++ markup ++ "</informalequation>"
  | .diagram =>
    "<mediaobject remap='PS'><imageobject><imagedata format='SVG'>" ++ markup ++
      "</imagedata></imageobject></mediaobject>"

/-- The answer of the first converter that does not pass a block on, and the files after it. -/
def convertBlock (converters : List Converter) (files : FileTree) (kind : BlockKind) (source : Text) :
    BlockResult × FileTree :=
  match converters with
  | [] => (.passed, files)
  | converter :: rest =>
    match converter files kind source with
    | (.passed, files) => convertBlock rest files kind source
    | answer => answer

/-- Writes a block as it is. -/
def keepBlock (doc : Document) (opener : String) (lines : List Text) : Document :=
  (lines.foldl Document.emitMarkup (doc.beginDisplay .literal opener)).endDisplay.2

/-- An equation or a diagram, which becomes what a converter makes of it and is kept as it is otherwise. -/
def embeddedBlock (run : Run) (kind : BlockKind) (request : Request) : Run :=
  let (lines, doc) := run.doc.gatherBlock kind.closer
  let doc := doc.closeParagraph
  let (result, files) := convertBlock run.converters doc.files kind (unescape (unlines lines))
  let doc := { doc with files }
  let doc :=
    match result with
    | .markup text => doc.emitMarkup (wrapBlock kind text)
    | .failed reason =>
      let doc := doc.warn (.blockNotConverted kind.opener reason)
      keepBlock doc request.name lines
    | .passed =>
      let doc := if run.converters.isEmpty then doc.warn (.blockKept kind.opener) else doc
      keepBlock doc request.name lines
  { run with doc }

/-- A table. -/
def table (run : Run) (request : Request) : Run :=
  let (lines, doc) := run.doc.gatherBlock "TE"
  let lines := lines.map doc.formatter.expand
  { run with doc := (doc.closeParagraph.renderTable lines (request.argument 0 == ['H'])).closeParagraph }

/-- What a package does with a request. -/
def interpret (doc : Document) (package : Package) (request : Request) : Outcome :=
  match package with
  | .troff => doc.formatterRequest request
  | .man => doc.manRequest request
  | .mdoc => doc.mdocRequest request
  | .ms => doc.msRequest request
  | .me => doc.meRequest request
  | .mm => doc.mmRequest request
  | .pod2man => doc.pod2manRequest request
  | .tkman => doc.tkmanRequest request
  | .www => doc.wwwRequest request

/-- What a package does even with a request that it does not know. -/
def prepare (doc : Document) (package : Package) (request : Request) : Document :=
  match package with
  | .mdoc => doc.mdocPrepare request.name
  | _ => doc

/-- Notes that a package has carried out a request. -/
def noteFired (doc : Document) (package : Package) : Document :=
  if doc.fired.contains package then doc else { doc with fired := package :: doc.fired }

/-- Offers a request to packages in turn; complains if none knows it. -/
def offer (run : Run) (request : Request) : List Package → RunResult
  | [] => .ok { run with doc := (run.doc.error (.unhandled request.name)).emitUnhandled request.line }
  | package :: rest =>
    let doc := prepare run.doc package request
    match interpret doc package request with
    | .declined => offer { run with doc } request rest
    | .done doc => .ok { run with doc := noteFired doc package }
    | .aborted message doc => .error (message, { run with doc })

/-- What the request ends before it is carried out: lists and the paragraph. -/
def breakBefore (doc : Document) (name : String) : Document :=
  let doc := if doc.isListBreak name then doc.breakLists name else doc
  if doc.isParagraphBreak name || doc.isSectionBreak name then doc.closeParagraph else doc

/-- Carries out a control line. -/
def execute (run : Run) (line : Text) : RunResult :=
  match run.doc.splitControl? line with
  | none => .ok run
  | some (name, rest) =>
    if run.doc.isIgnored name then .ok { run with doc := run.doc.emitComment line }
    else if run.doc.isUnportable name then
      .ok { run with doc := (run.doc.remark (.notPortable name)).emitComment line }
    else
      let doc := breakBefore run.doc name
      let run := { run with doc }
      let reduced := doc.formatter.reductions.get? name
      let request : Request :=
        { name := reduced.getD name, arguments := ControlLine.arguments rest, rest, line }
      if request.name == "TS" then .ok (run.table request)
      else if request.name == "EQ" then .ok (run.embeddedBlock .equation request)
      else if request.name == "PS" then .ok (run.embeddedBlock .diagram request)
      else if reduced.isNone && doc.formatter.macros.contains request.name then
        .ok { run with doc := doc.invoke request }
      else run.offer request doc.active

/-- A line with the lines that it goes on with. -/
def joinContinuations : Nat → Document → Text → Text × Document
  | 0, doc, line => (if endsInContinuation line then line.dropLast else line, doc)
  | left + 1, doc, line =>
    if endsInContinuation line then
      match doc.nextRawLine with
      | (some next, doc) => joinContinuations left doc (line.dropLast ++ next)
      | (none, doc) => (line.dropLast, doc)
    else (line, doc)

/-- What a line asks for once its references to strings are replaced; the end of a block leaves nothing of itself. -/
def statementOf (doc : Document) (line : Text) : Statement :=
  if ControlLine.isComment line then .comment (ControlLine.commentText line)
  else
    let expanded := doc.formatter.expand line
    let closes := contains line "\\\x7d" || contains expanded "\\\x7d"
    let opened := if closes then replace expanded "\\\x7d" "" else expanded
    if closes && isAllBlank opened then .nothing
    else
      let statement := (dropStart? "\\\x7b" opened).getD opened
      if ControlLine.isControl statement doc.formatter.control doc.formatter.noBreak then
        .control (dropComment statement)
      else .text statement

/-- What a line of input asks for, with the run after the lines that it goes on with. -/
def readStatement (run : Run) (line : Text) : Statement × Run :=
  let (line, doc) := joinContinuations run.doc.input.length run.doc line
  (statementOf doc line, { run with doc })

/-- Carries out a line of input. -/
def interpretLine (run : Run) (line : Text) : RunResult :=
  match run.readStatement line with
  | (.comment text, run) => .ok { run with doc := run.doc.emitComment text }
  | (.nothing, run) => .ok run
  | (.control line, run) => run.execute line
  | (.text line, run) => .ok { run with doc := run.doc.textLine line }

/-- Carries out the next item of the input. -/
def step (run : Run) : RunResult :=
  let doc := run.doc
  let result : RunResult :=
    match doc.input with
    | [] => .ok run
    | .line text number :: rest =>
      { run with doc := { doc with input := rest, line := number.getD doc.line } }.interpretLine text
    | .finish number :: rest =>
      let formatter := { doc.formatter with invocations := doc.formatter.invocations.tail }
      .ok { run with doc := { doc with input := rest, line := number, formatter } }
    | .markup text :: rest => .ok { run with doc := { doc with input := rest }.emitMarkup text }
    | .paragraphEnd :: rest => .ok { run with doc := { doc with input := rest }.closeParagraph }
  result.map activatePending

/-- Carries out the input, in at most `limit` steps. -/
def runAll : Nat → Run → RunResult
  | 0, run => .ok run
  | limit + 1, run =>
    if run.doc.input.isEmpty then .ok run
    else
      match run.step with
      | .ok run => runAll limit run
      | .error stopped => .error stopped

end Run

end RoffDocBook
