import RoffDocBook.Text.Basic

/-! What the semantic manual package keeps between requests: the page's names, the open blocks, and the synopsis and
the reference that are being collected. -/
namespace RoffDocBook.Mdoc

/-- The parts of a page in which requests have a meaning of their own. -/
inductive Part where
  | name
  | synopsis
  | other
  deriving DecidableEq, Repr

inductive OpenList where
  | items (terms : Bool)
  /-- A list of rows, of which the most recent comes first. -/
  | columns (rows : List (List Text))
  deriving DecidableEq

inductive OpenDisplay where
  | literal
  | indented
  | plain
  deriving DecidableEq, Repr

/-- An element of a command's synopsis. -/
inductive Piece where
  | argument (markup : Text) (optional repeats : Bool)
  /-- Alternatives that are in brackets. -/
  | group (markup : Text)
  /-- The bar between alternatives. -/
  | separator
  deriving DecidableEq

/-- The synopsis of a command. The pieces are those inside the innermost open bracket, and `outer` has those before
each open bracket; the most recent comes first. -/
structure Command where
  name : Text
  pieces : List Piece := []
  outer : List (List Piece) := []

/-- The synopsis of functions. Finished parts and lines of information have the most recent first. -/
structure Functions where
  body : List Text := []
  info : List Text := []
  returnType : Option Text := none
  /-- The name and the parameters of the prototype that is being collected. -/
  collecting : Option (Text × List Text) := none

structure State where
  part : Part := .other
  names : List Text := []
  /-- Whether the names have been written with their purpose. -/
  named : Bool := false
  /-- The open lists, the innermost first. -/
  lists : List OpenList := []
  /-- The open displays, the innermost first. -/
  displays : List OpenDisplay := []
  /-- The fields of the open reference, the most recent first. -/
  reference : Option (List (Char × Text)) := none
  command : Option Command := none
  functions : Option Functions := none
  /-- The number of parameters since a function was opened within text. -/
  parameters : Option Nat := none

/-- The name of the page, which is the first of its names. -/
def State.mainName (state : State) : Text :=
  state.names.headD []

end RoffDocBook.Mdoc

/-! The words of a line in the semantic manual package, and lines of text built from them. -/
namespace RoffDocBook.Mdoc
open Text

/-- Requests that can be called from the arguments of another one. -/
def callable : List Text :=
  (["Ac", "Ad", "An", "Ao", "Ap", "Aq", "Ar", "At", "Bc", "Bo", "Bq", "Brc", "Bro", "Brq", "Bsx", "Bx", "Cd", "Cm",
    "Dc", "Do", "Dq", "Dv", "Dx", "Ec", "Em", "Eo", "Er", "Ev", "Fa", "Fc", "Fl", "Fn", "Fo", "Fr", "Ft", "Fx", "Ic",
    "In", "Li", "Lk", "Ms", "Mt", "Nm", "No", "Ns", "Nx", "Oc", "Oo", "Op", "Ot", "Ox", "Pa", "Pc", "Pf", "Po", "Pq",
    "Qc", "Ql", "Qo", "Qq", "Sc", "So", "Sq", "St", "Sx", "Sy", "Ta", "Tn", "Ux", "Va", "Vt", "Xc", "Xo", "Xr"] :
    List String).map String.toList

def isCallable (token : Text) : Bool :=
  callable.contains token

def isClosing (token : Text) : Bool :=
  match token with
  | [c] => ".,:;)]?!".toList.elem c
  | _ => false

def isOpening (token : Text) : Bool :=
  token == ['('] || token == ['[']

def isPunctuation (token : Text) : Bool :=
  isClosing token || isOpening token || token == ['|']

/-- The arguments before the next call. -/
def ownArguments (tokens : List Text) : List Text :=
  tokens.takeWhile fun token => !isCallable token

/-- The arguments without the closing punctuation at their end, and that punctuation. -/
def splitTrailing (tokens : List Text) : List Text × List Text :=
  ((tokens.reverse.dropWhile isClosing).reverse, (tokens.reverse.takeWhile isClosing).reverse)

theorem length_splitTrailing_le (tokens : List Text) : (splitTrailing tokens).1.length ≤ tokens.length := by
  simpa [splitTrailing] using (List.dropWhile_suffix (p := isClosing) (l := tokens.reverse)).length_le

/-- Text with blanks between its words. -/
structure Line where
  text : Text := []
  /-- Whether the next word follows without a blank. -/
  tight : Bool := false

namespace Line

def word (line : Line) (markup : Text) : Line :=
  { text := line.text ++ (if line.text.isEmpty || line.tight then markup else ' ' :: markup), tight := false }

/-- Text after which the next word follows without a blank. -/
def opening (line : Line) (markup : Text) : Line :=
  { line.word markup with tight := true }

/-- Text that follows without a blank. -/
def closing (line : Line) (markup : Text) : Line :=
  { text := line.text ++ markup, tight := false }

def punctuation (line : Line) (token : Text) : Line :=
  if isClosing token then line.closing token
  else if isOpening token then line.opening token
  else line.word token

end Line

end RoffDocBook.Mdoc
