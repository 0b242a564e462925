import RoffDocBook.Formatter.Expression
import RoffDocBook.Text.Basic

/-! What can be wrong with a source, and the wording of each complaint. -/
namespace RoffDocBook

inductive Complaint where
  | badCharacterNumber (number : Text)
  | unknownFont (name : Text)
  | unknownGlyph (name : Text)
  | emptySection
  | footnoteEndAlone
  /-- A request of a pair occurs without the other one. -/
  | withoutPartner (request partner : String)
  /-- A request that ends a display occurs outside one. -/
  | withoutDisplay (request : String)
  /-- A request that ends a list occurs outside one. -/
  | withoutList (request : String)
  | outsideList (request : String)
  | emptyHeading
  | withoutTagged
  | withoutIndent
  | withoutOpener (request : String)
  | withoutTitle
  | withoutFile (request : String)
  | withoutFileName (request : String)
  | outside (request opener : String)
  | unclosed (opener : String)
  | unclosedOption
  | missingEnd (request : String)
  | unknownStandard (abbreviation : Text)
  | unknownListType (type : Text)
  | unknownBlock (letter : Text)
  | namelessPurpose
  | noNameSeparator
  | synopsisNotParsed (reason : Text)
  | badGuard (error : Formatter.ExpressionError) (request : String)
  | badRegisterValue (error : Formatter.ExpressionError) (register : String)
  | elseAlone
  | loopNotInterpreted
  /-- A message that the source itself asks for. -/
  | userMessage (text : Text)
  | namelessString
  | renameNeedsTwo
  | unterminatedMacro (name : String)
  | namelessMacro
  | immutableMacro (name : String)
  | nestedTooDeeply (name : String)
  | unterminatedIgnore
  | unterminatedBlock
  | fileNotFound (file : Text)
  | packageNotFound (file : Text)
  | badSubstitute (unit : Text)
  | markupSubstitute
  | notPortable (request : String)
  | unhandled (request : String)
  | blockNotConverted (opener : String) (reason : Text)
  | blockKept (opener : String)
  | tableWithoutFormat
  | tableWithoutRows
  deriving DecidableEq

/-- The wording of a complaint. -/
def Complaint.message : Complaint → String
  | badCharacterNumber number => "bad \\N argument \x60" ++ String.ofList number ++ "\x60"
  | unknownFont name => "unknown font " ++ String.ofList name
  | unknownGlyph name => "unknown glyph \\[" ++ String.ofList name ++ "]"
  | emptySection => "empty section deleted"
  | footnoteEndAlone => "footnote end without start"
  | withoutPartner request partner => "." ++ request ++ " without ." ++ partner
  | withoutDisplay request => "." ++ request ++ " without display"
  | withoutList request => "." ++ request ++ " without list"
  | outsideList request => "." ++ request ++ " outside a list"
  | emptyHeading => "heading without text"
  | withoutTagged => ".TQ without a preceding tagged paragraph"
  | withoutIndent => ".RE without matching .RS"
  | withoutOpener request => "." ++ request ++ " without opening macro"
  | withoutTitle => ".TH without a title"
  | withoutFile request => "." ++ request ++ " without a file"
  | withoutFileName request => "." ++ request ++ " without a file name"
  | outside request opener => "." ++ request ++ " outside ." ++ opener
  | unclosed opener => "unclosed ." ++ opener
  | unclosedOption => "unclosed .Oo in synopsis"
  | missingEnd request => "missing ." ++ request
  | unknownStandard abbreviation => "unknown standard " ++ String.ofList abbreviation
  | unknownListType type => "unknown list type " ++ String.ofList type
  | unknownBlock letter => "unknown block .(" ++ String.ofList letter
  | namelessPurpose => "NAME section without .Nd"
  | noNameSeparator => "NAME section has no name/purpose separator"
  | synopsisNotParsed reason => "synopsis not parsed: " ++ String.ofList reason
  | badGuard error request => error.message ++ " in ." ++ request
  | badRegisterValue error register => error.message ++ " in .nr " ++ register
  | elseAlone => ".el without matching .ie"
  | loopNotInterpreted => ".while loops are not interpreted"
  | userMessage text => String.ofList text
  | namelessString => "string definition without a name"
  | renameNeedsTwo => "rename needs two names"
  | unterminatedMacro name => "macro ." ++ name ++ " is not terminated"
  | namelessMacro => "macro definition without a name"
  | immutableMacro name => "ignoring redefinition of ." ++ name
  | nestedTooDeeply name => "macro ." ++ name ++ " nested too deeply"
  | unterminatedIgnore => "unterminated .ig"
  | unterminatedBlock => "unterminated conditional block"
  | fileNotFound file => "cannot find included file " ++ String.ofList file ++ ", referencing it instead"
  | packageNotFound file => "cannot find macro package " ++ String.ofList file
  | badSubstitute unit => "cannot translate " ++ String.ofList unit
  | markupSubstitute => "cannot translate markup characters"
  | notPortable request => "." ++ request ++ " is not portable; ignored"
  | unhandled request => "unhandled request ." ++ request
  | blockNotConverted opener reason => "." ++ opener ++ " block not translated: " ++ String.ofList reason
  | blockKept opener => "." ++ opener ++ " block kept as literal text"
  | tableWithoutFormat => "table has no column format"
  | tableWithoutRows => "table has no rows"

end RoffDocBook

/-! Located messages about one source file, in the style of a compiler. -/
namespace RoffDocBook

inductive Severity where
  | warning
  | error
  deriving DecidableEq, Repr

def Severity.label : Severity → String
  | .warning => "warning"
  | .error => "error"

structure Diagnostic where
  severity : Severity
  file : String
  line : Nat
  /-- The innermost user request that was being expanded. -/
  expanding : Option String
  message : String
  deriving DecidableEq, Repr

def Diagnostic.render (d : Diagnostic) : String :=
  "\"" ++ d.file ++ "\", line " ++ toString d.line ++ ": " ++ d.severity.label ++ ": " ++ d.message ++
    (match d.expanding with
    | some name => " [in macro ." ++ name ++ "]"
    | none => "")

/-- The diagnostics of one file, in the order in which they were raised. -/
structure Diagnostics where
  file : String
  /-- Whether remarks on portability are kept. -/
  portability : Bool
  entries : List Diagnostic := []

namespace Diagnostics

def raise (ds : Diagnostics) (severity : Severity) (line : Nat) (expanding : Option String) (message : String) :
    Diagnostics :=
  { ds with entries := ds.entries ++ [{ severity, file := ds.file, line, expanding, message }] }

/-- A remark on portability counts as a warning, and is dropped unless such remarks are wanted. -/
def remark (ds : Diagnostics) (line : Nat) (expanding : Option String) (message : String) : Diagnostics :=
  if ds.portability then ds.raise .warning line expanding message else ds

def errors (ds : Diagnostics) : Nat :=
  ds.entries.countP fun d => d.severity == .error

def warnings (ds : Diagnostics) : Nat :=
  ds.entries.countP fun d => d.severity == .warning

end Diagnostics

end RoffDocBook
