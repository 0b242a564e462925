import RoffDocBook.Configuration.Expansion
import RoffDocBook.Conversion.Converter
import RoffDocBook.Shell.Run

/-! Converters that hand a block to a program and look for the converted markup in what it writes. -/
namespace RoffDocBook
open Text

/-- The root element of the markup that a block is converted to. -/
def BlockKind.element : BlockKind → String
  | equation => "math"
  | diagram => "svg"

/-- Why a program has not converted a block. -/
inductive CommandFailure where
  | notStarted (program : Text) (reason : FileError)
  /-- The program has ended with a status of failure, or a signal has ended it. -/
  | status (program : Text) (code : Option Nat)
  | withoutMarkup (program : Text) (element : String)
  deriving DecidableEq

def CommandFailure.message : CommandFailure → String
  | notStarted program reason => "cannot run " ++ String.ofList program ++ ": " ++ reason.message
  | status program (some code) => String.ofList program ++ " exited with status " ++ toString code
  | status program none => String.ofList program ++ " exited with a signal"
  | withoutMarkup program element => String.ofList program ++ " produced no <" ++ element ++ "> markup"

/-- A program that converts blocks of one kind. -/
structure ConverterCommand where
  kind : BlockKind
  program : Text
  arguments : List Text
  deriving DecidableEq

namespace ConverterCommand

/-- The converter of a command line, unless it is blank. -/
def ofLine? (kind : BlockKind) (line : Text) : Option ConverterCommand :=
  match words line with
  | program :: arguments => some { kind, program, arguments }
  | [] => none

/-- A block between its own requests, as a program reads it. -/
def block (kind : BlockKind) (source : Text) : Text :=
  let source := (source.reverse.dropWhile (· == '\n')).reverse
  "." ++ kind.opener ++ "\n" ++ source ++ "\n." ++ kind.closer ++ "\n"

/-- The text from the first start tag of an element, after which the text goes on as given. -/
def fromTag? (opening : Text) : Text → Option Text
  | [] => none
  | c :: cs =>
    match dropStart? opening (c :: cs) with
    | some rest => if rest.head?.any isWordChar then fromTag? opening cs else some rest
    | none => fromTag? opening cs

/-- The text from the first start tag of an element to its last end tag. -/
def element? (name : String) (t : Text) : Option Text := do
  let opening := "<" ++ name.toList
  let closing := "</" ++ name.toList ++ ">"
  let (inside, _) ← breakOnLast? closing (← fromTag? opening t)
  pure (opening ++ inside ++ closing)

/-- The text without its declarations of a version of XML and the blanks after them; `fuel` is a bound on the length. -/
def dropDeclarations : Nat → Text → Text
  | 0, t => t
  | _, [] => []
  | fuel + 1, c :: cs =>
    let declaration := do
      let rest ← dropStart? "<?xml" (c :: cs)
      let (inside, rest) ← breakOn? ">" rest
      if endsWith inside "?" then some (trimStart rest) else none
    match declaration with
    | some rest => dropDeclarations fuel rest
    | none => c :: dropDeclarations fuel cs

/-- The markup of a block in what a program has written. -/
def markup (command : ConverterCommand) (outcome : Shell.Outcome) : Except CommandFailure Text :=
  if outcome.signal.isSome then .error (.status command.program none)
  else if outcome.status != 0 then .error (.status command.program (some outcome.status))
  else
    match element? command.kind.element (Encoding.decodeLossy outcome.output) with
    | some markup => .ok (dropDeclarations markup.length markup)
    | none => .error (.withoutMarkup command.program command.kind.element)

/-- Converts a block, and gives the files after that. -/
def run (command : ConverterCommand) (env : Variables) (files : FileTree) (source : Text) :
    Except CommandFailure Text × FileTree :=
  match Shell.start env files command.program command.arguments (block command.kind source) with
  | .error reason => (.error (.notStarted command.program reason), files)
  | .ok outcome => (command.markup outcome, outcome.files)

/-- The converter that a command is. -/
def converter (command : ConverterCommand) (env : Variables) : Converter := fun files kind source =>
  if kind = command.kind then
    match command.run env files source with
    | (.ok markup, files) => (.markup markup, files)
    | (.error failure, files) => (.failed failure.message.toList, files)
  else (.passed, files)

end ConverterCommand

end RoffDocBook
