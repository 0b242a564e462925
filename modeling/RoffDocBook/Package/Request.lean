import RoffDocBook.Document.Paragraph

/-! A request read from a control line, and what becomes of it when a package is asked to carry it out. -/
namespace RoffDocBook

structure Request where
  name : String
  arguments : List Text
  /-- The line after the name, as it is written. -/
  rest : Text
  /-- The whole line. -/
  line : Text

/-- An argument by its position from zero, and the empty text where there is none. -/
def Request.argument (request : Request) (i : Nat) : Text :=
  request.arguments.getD i []

inductive Outcome where
  /-- The package does not know the request. -/
  | declined
  | done (doc : Document)
  /-- The request ends the conversion. -/
  | aborted (message : Text) (doc : Document)

end RoffDocBook
