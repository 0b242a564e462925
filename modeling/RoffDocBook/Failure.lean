import RoffDocBook.Text.Basic

/-! The ways in which a file fails to be converted. -/
namespace RoffDocBook

inductive Failure where
  | emptyInput
  /-- No request of any known package occurs in the file. -/
  | noPackage
  /-- The file does nothing but include another one. -/
  | inclusionOnly (target : Text)
  /-- The bytes of the document fit none of the encodings. -/
  | undecodable (tried : List String)
  /-- The source itself asked for the end of the conversion. -/
  | aborted (message : Text)
  /-- A document was made, but errors were reported on the way. -/
  | flawed (count : Nat) (document : Text)
  deriving DecidableEq

namespace Failure

def message : Failure → String
  | emptyInput => "input is empty"
  | noPackage => "no troff macro package triggers found"
  | inclusionOnly target => "file only includes " ++ String.ofList target ++ "; translate that file instead"
  | undecodable tried => "output could not be decoded as any of: " ++ ", ".intercalate tried
  | aborted message => "aborted by .ab request: " ++ String.ofList message
  | flawed count _ => toString count ++ " translation error(s)"

/-- The exit status that tells this failure from the others. -/
def exitCode : Failure → Nat
  | inclusionOnly _ => 2
  | flawed _ _ => 3
  | _ => 1

end Failure

end RoffDocBook
