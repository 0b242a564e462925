import RoffDocBook.ControlLine
import RoffDocBook.Document.Complaint
import RoffDocBook.FileTree
import RoffDocBook.Formatter.Condition
import RoffDocBook.Hints
import RoffDocBook.Inline.Escape
import RoffDocBook.Inline.Font
import RoffDocBook.Input
import RoffDocBook.Mdoc.State
import RoffDocBook.Package.Basic
import RoffDocBook.Settings
import RoffDocBook.Slug

/-! A document while it is being converted: what is still to be read, the state of the formatter, and the output with
the elements that are open in it. -/
namespace RoffDocBook
open Text

structure Author where
  name : Text
  affiliation : Option Text := none
  deriving DecidableEq, Repr

/-- What is known about the document as a whole. -/
structure FrontMatter where
  title : Option Text := none
  /-- The section of the manual. -/
  volume : Option Text := none
  date : Option Text := none
  source : Option Text := none
  manual : Option Text := none
  authors : List Author := []
  /-- The names that the page describes. -/
  names : List Text := []
  /-- Paragraphs of the abstract, as markup. -/
  abstract : List Text := []

inductive ListKind where
  /-- A list of terms with their descriptions. -/
  | terms
  | itemized
  | ordered
  /-- An indented block without items. -/
  | blockquote
  deriving DecidableEq, Repr

def ListKind.element : ListKind → Text
  | terms => "variablelist"
  | itemized => "itemizedlist"
  | ordered => "orderedlist"
  | blockquote => "blockquote"

inductive DisplayKind where
  | literal
  | program
  deriving DecidableEq, Repr

def DisplayKind.element : DisplayKind → Text
  | literal => "literallayout"
  | program => "programlisting"

/-- An open list. -/
structure ListFrame where
  /-- The request that opened it. -/
  opener : String
  kind : ListKind
  items : Nat := 0
  itemOpen : Bool := false
  /-- The number of output lines before its start tag. -/
  start : Nat
  deriving DecidableEq, Repr

/-- An open display. -/
structure DisplayFrame where
  kind : DisplayKind
  opener : String
  /-- Whether text is filled again after it. -/
  fillAfter : Bool
  deriving DecidableEq, Repr

/-- A block that is open inside a section. -/
inductive OpenBlock where
  | list (frame : ListFrame)
  | display (frame : DisplayFrame)
  deriving DecidableEq, Repr

structure OpenSection where
  depth : Nat
  element : Text
  /-- The number of output lines before its start tag. -/
  start : Nat
  deriving DecidableEq, Repr

/-- Markup that is to be put around the next line of text. -/
structure Trap where
  before : Text
  after : Text
  deriving DecidableEq, Repr

/-- Output that is set aside while a diversion collects text. -/
structure Suspended where
  lines : List Text
  inParagraph : Bool
  deriving DecidableEq, Repr

/-- A file that is referred to instead of being read. -/
structure Inclusion where
  entity : Text
  target : Text
  deriving DecidableEq, Repr

/-- What a block that a paper opens with a parenthesis and a letter is in the output. -/
inductive LetteredBlock where
  | quote
  | display
  | footnote
  | keep
  deriving DecidableEq, Repr

structure Document where
  /-- The file name in messages. -/
  name : String
  /-- The directory in which included files are looked for first. -/
  sourceDir : Option String := none
  settings : Settings := {}
  files : FileTree := {}
  formatter : Formatter.State
  input : Input := []
  diagnostics : Diagnostics
  hints : Hints := {}
  ids : IdRegistry := []
  front : FrontMatter := {}
  /-- The packages in use, the most recent first. -/
  active : List Package := []
  /-- Packages that the source has asked for and that come into use after the line at hand. -/
  pending : List Package := []
  /-- Packages that a request has been found in. -/
  fired : List Package := []
  /-- The title of the next table. -/
  tableTitle : Option Text := none
  /-- The title of the innermost section as plain text. -/
  sectionName : Option Text := none
  line : Nat := 0
  fonts : FontState := {}
  /-- The output lines of the innermost diversion, or of the document, the most recent first. -/
  lines : List Text := []
  /-- The output outside the open diversions, the innermost first. -/
  suspended : List Suspended := []
  inParagraph : Bool := false
  /-- Whether the next piece of output continues the last line. -/
  joinNext : Bool := false
  trap : Option Trap := none
  /-- The open lists and displays, the innermost first. -/
  blocks : List OpenBlock := []
  /-- The open sections, the innermost first. -/
  sections : List OpenSection := []
  substitutes : List (Char × Text) := []
  tabStops : List Nat := []
  /-- Entities that the output uses, in ascending order. -/
  entities : List String := []
  /-- Files referred to, in the order of their first use. -/
  inclusions : List Inclusion := []
  /-- Whether a diversion collects the abstract. -/
  inAbstract : Bool := false
  /-- The open blocks with a letter, the innermost first. -/
  lettered : List (Char × LetteredBlock) := []
  /-- What the semantic manual package knows of the page. -/
  mdoc : Mdoc.State := {}

namespace Document

/-- A document before its first line is read. -/
def start (name : String) (settings : Settings) (hints : Hints) : Document :=
  let formatter := Formatter.State.initial settings.today
  let strings := settings.defines.foldl (fun table define => table.put define.1 define.2) formatter.strings
  { name, settings, hints
    formatter := { formatter with strings }
    diagnostics := { file := name, portability := settings.portability } }

def warn (doc : Document) (complaint : Complaint) : Document :=
  { doc with
    diagnostics := doc.diagnostics.raise .warning doc.line doc.formatter.expanding complaint.message }

def error (doc : Document) (complaint : Complaint) : Document :=
  { doc with
    diagnostics := doc.diagnostics.raise .error doc.line doc.formatter.expanding complaint.message }

/-- A complaint that counts only if remarks on portability are wanted. -/
def remark (doc : Document) (complaint : Complaint) : Document :=
  { doc with diagnostics := doc.diagnostics.remark doc.line doc.formatter.expanding complaint.message }

/-- Whether a table of some active package holds a request. -/
def listed (doc : Document) (table : Descriptor → List String) (request : String) : Bool :=
  doc.active.any fun package => (table package.descriptor).contains request

def isIgnored (doc : Document) (request : String) : Bool :=
  doc.settings.ignored.contains request || doc.listed Descriptor.ignored request

def isUnportable (doc : Document) (request : String) : Bool :=
  doc.listed Descriptor.unportable request

def isImmutable (doc : Document) (request : String) : Bool :=
  doc.listed Descriptor.immutable request

def isListBreak (doc : Document) (request : String) : Bool :=
  doc.listed Descriptor.listBreaks request

def isScoped (doc : Document) (request : String) : Bool :=
  doc.listed Descriptor.scopedLists request

def isSectionBreak (doc : Document) (request : String) : Bool :=
  doc.listed Descriptor.sectionBreaks request

def isParagraphBreak (doc : Document) (request : String) : Bool :=
  doc.listed Descriptor.paragraphBreaks request

/-- The package that determines the kind of document. -/
def major? (doc : Document) : Option Package :=
  doc.active.find? Package.exclusive

/-- The element of the whole document. -/
def topElement (doc : Document) : String :=
  match doc.major? with
  | some package => package.descriptor.topElement
  | none => "article"

def isManualPage (doc : Document) : Bool :=
  doc.topElement == "refentry"

def isFifth (doc : Document) : Bool :=
  doc.settings.edition == .five

/-- The next raw line of input. Ends of expansions before it are passed, and other items stop the search. -/
def nextRawLine (doc : Document) : Option Text × Document :=
  go doc.input doc
where
  go : Input → Document → Option Text × Document
  | .line text number :: rest, doc => (some text, { doc with input := rest, line := number.getD doc.line })
  | .finish number :: rest, doc =>
    go rest
      { doc with
        input := rest
        line := number
        formatter := { doc.formatter with invocations := doc.formatter.invocations.tail } }
  | _, doc => (none, doc)

/-- The next line of input with its references to strings and arguments replaced. -/
def nextLine (doc : Document) : Option Text × Document :=
  match doc.nextRawLine with
  | (some line, doc) => (some (doc.formatter.expand line), doc)
  | (none, doc) => (none, doc)

/-- The name and the rest of a control line, by the control characters in force. -/
def splitControl? (doc : Document) (line : Text) : Option (String × Text) :=
  ControlLine.split? line doc.formatter.control doc.formatter.noBreak

/-- The request on the next line of input. -/
def nextRequest? (doc : Document) : Option String :=
  doc.input.nextLine?.bind fun line => (doc.splitControl? line).map Prod.fst

/-- Whether the next line of input is a control line. -/
def nextIsControl (doc : Document) : Bool :=
  doc.input.nextLine?.any fun line =>
    ControlLine.isControl line doc.formatter.control doc.formatter.noBreak

def pushLine (doc : Document) (line : Text) : Document :=
  { doc with input := doc.input.pushLine line }

/-- Whether a line is a control line with one of the requests. -/
def isRequest (doc : Document) (line : Text) (requests : List String) : Bool :=
  (doc.splitControl? line).any fun found => requests.contains found.1

/-- Adds text to the last output line, or makes it the first one. -/
def append (doc : Document) (text : Text) : Document :=
  match doc.lines with
  | [] => { doc with joinNext := false, lines := [text] }
  | last :: before => { doc with joinNext := false, lines := (last ++ text) :: before }

/-- Writes a piece of output: on a line of its own, or at the end of the last line where that was asked for. -/
def emit (doc : Document) (text : Text) : Document :=
  match doc.joinNext, doc.lines with
  | true, last :: before => { doc with joinNext := false, lines := (last ++ text) :: before }
  | _, lines => { doc with joinNext := false, lines := text :: lines }

/-- Writes markup, one output line for each of its lines. -/
def emitMarkup (doc : Document) (markup : Text) : Document :=
  (Text.lines markup).foldl emit doc

/-- Removes the output lines after the first `n`. -/
def truncate (doc : Document) (n : Nat) : Document :=
  { doc with lines := doc.lines.drop (doc.lines.length - n) }

/-- The text of a comment in a form that a comment can hold. -/
def commentable (text : Text) : Text :=
  ((replace text "--" "- -").reverse.dropWhile (· == '-')).reverse

/-- Writes a comment, if comments are wanted. -/
def emitComment (doc : Document) (text : Text) : Document :=
  if doc.settings.comments then doc.emit ("<!-- " ++ trim (commentable text) ++ " -->") else doc

/-- Writes a line of source that was not understood as a comment. -/
def emitUnhandled (doc : Document) (line : Text) : Document :=
  doc.emit ("<!-- " ++ commentable line ++ " -->")

end Document

end RoffDocBook
