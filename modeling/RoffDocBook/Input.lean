import RoffDocBook.Text.Basic

/-! The input that is still to be read: lines of the source, with the marks that the expansion of requests leaves. -/
namespace RoffDocBook
open Text

inductive WorkItem where
  /-- A line of source text, with its number if it was read from the file itself. -/
  | line (text : Text) (number : Option Nat)
  /-- The end of an expanded request, with the number of the line that invoked it. -/
  | finish (number : Nat)
  /-- Markup that goes straight to the output. -/
  | markup (text : Text)
  /-- The end of a paragraph. -/
  | paragraphEnd
  deriving DecidableEq, Repr

/-- The items still to be read, the next one first. -/
abbrev Input := List WorkItem

namespace Input

/-- The lines of a text, numbered from one. -/
def ofText (t : Text) : Input :=
  (lines t).mapIdx fun i line => .line line (some (i + 1))

def pushLine (input : Input) (line : Text) : Input :=
  .line line none :: input

def pushLines (input : Input) (lines : List Text) : Input :=
  lines.map (WorkItem.line · none) ++ input

/-- The next item, if it is a line. -/
def nextLine? : Input → Option Text
  | .line text _ :: _ => some text
  | _ => none

/-- What follows the end of the innermost expansion, with the number of the line that invoked it. -/
def unwind? : Input → Option (Nat × Input)
  | [] => none
  | .finish number :: rest => some (number, rest)
  | _ :: rest => unwind? rest

end Input

end RoffDocBook
