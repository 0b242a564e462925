import RoffDocBook.Bindings
import RoffDocBook.Number.Word
import RoffDocBook.Text.Basic

/-! The civil calendar: the date of a day counted from 1 January 1970. -/
namespace RoffDocBook

structure Date where
  year : Int
  month : Int
  day : Int
  /-- One for Sunday to seven for Saturday. -/
  weekday : Int
  deriving DecidableEq, Repr

/-- The date of a day, by the cycle of 400 years that begins on 1 March. -/
def Date.ofDay (day : Nat) : Date :=
  let shifted : Int := day + 719468
  let cycle := shifted / 146097
  let inCycle := shifted % 146097
  let yearInCycle := (inCycle - inCycle / 1460 + inCycle / 36524 - inCycle / 146096) / 365
  let dayInYear := inCycle - (365 * yearInCycle + yearInCycle / 4 - yearInCycle / 100)
  let monthFromMarch := (5 * dayInYear + 2) / 153
  let month := if monthFromMarch < 10 then monthFromMarch + 3 else monthFromMarch - 9
  { year := yearInCycle + cycle * 400 + (if month ≤ 2 then 1 else 0)
    month
    day := dayInYear - (153 * monthFromMarch + 2) / 5 + 1
    weekday := (day + 4) % 7 + 1 }

end RoffDocBook

/-! What the formatter remembers between lines: strings, macros, number registers and the arguments of the macros that
are being expanded; and the references to them inside a line. -/
namespace RoffDocBook.Formatter
open Text

/-- One macro that is being expanded. -/
structure Invocation where
  name : String
  arguments : List Text
  /-- The line of the source that invoked it. -/
  line : Nat
  deriving DecidableEq, Repr

inductive Register where
  | value (value step : Int64)
  /-- The number of arguments of the innermost macro. -/
  | argumentCount
  /-- One in fill mode and zero otherwise. -/
  | fillMode
  deriving DecidableEq

structure State where
  strings : Bindings Text := []
  macros : Bindings (List Text) := []
  registers : Bindings Register := []
  /-- Guards of two-armed conditionals whose second arm is still to come, the most recent first. -/
  guards : List Bool := []
  /-- The macros that are being expanded, the innermost first. -/
  invocations : List Invocation := []
  control : Char := '.'
  noBreak : Char := '\''
  /-- The name that ends a macro definition, if not the usual one. -/
  definitionEnd : Option String := none
  /-- User macros that do no more than call a standard one, with that one. -/
  reductions : Bindings String := []
  /-- Glyphs that the source defines itself. -/
  glyphs : Bindings Text := []
  fill : Bool := true

/-- How often string references are replaced in one line before those left are given up. -/
def expansionPasses : Nat := 16

namespace State

/-- The formatter before the first line, on a given day. -/
def initial (today : Nat) : State :=
  let date := Date.ofDay today
  let fixed : List (String × Int) :=
    [(".g", 1), (".H", 1), (".V", 1), (".x", 1), (".y", 23), (".Y", 0), (".l", 65), (".i", 0), (".s", 10),
      (".v", 1), ("yr", date.year - 1900), ("mo", date.month), ("dy", date.day), ("dw", date.weekday)]
  { registers :=
      (".$", .argumentCount) :: (".u", .fillMode) ::
        fixed.map fun entry => (entry.1, .value (Int64.ofInt entry.2) 0) }

def setRegister (s : State) (name : String) (value step : Int64) : State :=
  { s with registers := s.registers.put name (.value value step) }

/-- The value of a register; one that was never set is zero. -/
def register (s : State) (name : String) : Int64 :=
  match s.registers.get? name with
  | some (.value value _) => value
  | some .argumentCount => Word.clamp ((s.invocations.head?.map (·.arguments.length)).getD 0)
  | some .fillMode => Word.ofBool s.fill
  | none => 0

/-- The value of a register after its step has been added or subtracted. -/
def stepRegister (s : State) (name : String) (sign : Int64) : Int64 × State :=
  match s.registers.get? name with
  | some (.value value step) =>
    (value + sign * step, s.setRegister name (value + sign * step) step)
  | _ => (s.register name, s)

/-- The innermost macro that is being expanded. -/
def expanding (s : State) : Option String :=
  s.invocations.head?.map (·.name)

end State

/-- The name at the start of a text, written as one character, as two after a parenthesis, or in brackets; and the
text after it. -/
def readName : Text → String × Text
  | [] => ("", [])
  | '(' :: rest => (String.ofList (rest.take 2), rest.drop 2)
  | '[' :: rest =>
    let found := spanUntil (· == ']') rest
    (String.ofList found.1, found.2.drop 1)
  | c :: rest => (String.ofList [c], rest)

/-- The text of the argument reference after `\$`, and the text after the reference. -/
def argumentText (invocation : Invocation) : Text → Text × Text
  | [] => ([], [])
  | '*' :: rest => (join " " invocation.arguments, rest)
  | '@' :: rest => (join " " (invocation.arguments.map fun a => "\"" ++ a ++ "\""), rest)
  | c :: rest =>
    let numbered (n : Option Nat) : Text :=
      match n with
      | some (n + 1) => invocation.arguments.getD n []
      | _ => []
    if c == '0' then (invocation.name.toList, rest)
    else if c == '(' || c == '[' then
      let found := readName (c :: rest)
      (numbered (toNat? found.1.toList), found.2)
    else if c.isDigit then (numbered (toNat? [c]), rest)
    else ([], c :: rest)

theorem length_readName_le (t : Text) : (readName t).2.length ≤ t.length := by
  unfold readName
  split
  · simp
  · simp; omega
  · rename_i rest
    have := length_spanUntil_le (· == ']') rest
    simp only [List.length_drop, List.length_cons]
    omega
  · simp

theorem length_argumentText_le (invocation : Invocation) (t : Text) :
    (argumentText invocation t).2.length ≤ t.length := by
  unfold argumentText
  split
  · simp
  · simp
  · simp
  · rename_i c rest _ _
    have := length_readName_le (c :: rest)
    dsimp only
    split
    · simp
    · split
      · exact this
      · split <;> simp

/-- The name that a string reference uses: the first word of what is written. -/
def stringName (written : String) : String :=
  String.ofList ((words written.toList).headD [])

namespace State

/-- The line with each reference to a string or to an argument replaced once. -/
def expandOnce (s : State) : Text → Text
  | [] => []
  | '\\' :: '*' :: rest =>
    let found := readName rest
    (s.strings.get? (stringName found.1)).getD [] ++ expandOnce s found.2
  | '\\' :: '$' :: rest =>
    match s.invocations with
    | [] => '\\' :: '$' :: expandOnce s rest
    | invocation :: _ => (argumentText invocation rest).1 ++ expandOnce s (argumentText invocation rest).2
  | '\\' :: c :: rest => '\\' :: c :: expandOnce s rest
  | c :: rest => c :: expandOnce s rest
termination_by t => t.length
decreasing_by
  all_goals simp only [List.length_cons]
  · have := length_readName_le rest; omega
  · omega
  · have := length_argumentText_le ‹_› rest; omega
  · omega
  · omega

/-- Whether the line may hold a reference to a string or to an argument. -/
def mentionsStrings (line : Text) : Bool :=
  contains line "\\*" || contains line "\\$"

/-- Replacement repeated until nothing changes, at most a number of times. -/
def expandPasses (s : State) : Nat → Text → Text
  | 0, line => line
  | passes + 1, line =>
    let next := s.expandOnce line
    if next == line then line else if mentionsStrings next then expandPasses s passes next else next

/-- The line with its references to strings replaced, and inside a macro also those to arguments. -/
def expand (s : State) (line : Text) : Text :=
  if mentionsStrings line then s.expandPasses expansionPasses line else line

/-- The value that the register reference after `\n` stands for, with the text after it. -/
def readRegister (s : State) : Text → Int64 × Text × State
  | '+' :: rest =>
    let found := readName rest
    let result := s.stepRegister found.1 1
    (result.1, found.2, result.2)
  | '-' :: rest =>
    let found := readName rest
    let result := s.stepRegister found.1 (-1)
    (result.1, found.2, result.2)
  | rest =>
    let found := readName rest
    (s.register found.1, found.2, s)

theorem length_readRegister_le (s : State) (t : Text) : (s.readRegister t).2.1.length ≤ t.length := by
  unfold readRegister
  split
  · rename_i rest; have := length_readName_le rest; simp; omega
  · rename_i rest; have := length_readName_le rest; simp; omega
  · exact length_readName_le t

/-- The line with its register references replaced by their values, from left to right. -/
def interpolate (s : State) : Text → Text × State
  | [] => ([], s)
  | '\\' :: 'n' :: rest =>
    let found := s.readRegister rest
    let result := interpolate found.2.2 found.2.1
    (ofInt found.1.toInt ++ result.1, result.2)
  | '\\' :: c :: rest =>
    let result := interpolate s rest
    ('\\' :: c :: result.1, result.2)
  | c :: rest =>
    let result := interpolate s rest
    (c :: result.1, result.2)
termination_by t => t.length
decreasing_by
  all_goals simp only [List.length_cons]
  · have := length_readRegister_le s rest; omega
  · omega
  · omega

end State

end RoffDocBook.Formatter
