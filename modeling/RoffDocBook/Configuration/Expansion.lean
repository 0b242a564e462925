import RoffDocBook.Text.Basic

/-! References to environment variables in the values of a configuration. -/
namespace RoffDocBook
open Text

/-- The environment variables that are set, with their values. -/
abbrev Variables := List (Text × Text)

namespace Variables

/-- A character of a name that needs no braces. -/
def isNameChar (c : Char) : Bool :=
  isLetterOrNumber c || c == '_'

/-- The name in a braced reference, and the value to take where it is not set. -/
def splitDefault (reference : Text) : Text × Option Text :=
  match breakOn? ":-" reference with
  | some (name, default) => if name.isEmpty then (reference, none) else (name, some default)
  | none => (reference, none)

/-- The text with its references replaced by values, where a doubled dollar sign stands for one; the error is the name
of a variable that is not set. `fuel` is a bound on the length. -/
def substitute (env : Variables) : Nat → Text → Except Text Text
  | 0, t => .ok t
  | _, [] => .ok []
  | fuel + 1, '$' :: rest =>
    match rest with
    | '\x7b' :: rest =>
      match breakOn? "\x7d" rest with
      | none => do return "$\x7b" ++ (← substitute env fuel rest)
      | some (reference, rest) =>
        let (name, default) := splitDefault reference
        match env.lookup name <|> default with
        | some value => do return value ++ (← substitute env fuel rest)
        | none => .error name
    | '$' :: rest => do return '$' :: (← substitute env fuel rest)
    | _ =>
      let name := rest.takeWhile isNameChar
      if name.isEmpty then do return '$' :: (← substitute env fuel rest)
      else
        match env.lookup name with
        | some value => do return value ++ (← substitute env fuel (rest.drop name.length))
        | none => .error name
  | fuel + 1, c :: rest => do return c :: (← substitute env fuel rest)

/-- A value with its references replaced; one without a braced reference stays as it is. -/
def expand (env : Variables) (value : Text) : Except Text Text :=
  if contains value "$\x7b" then substitute env value.length value else .ok value

end Variables

end RoffDocBook
