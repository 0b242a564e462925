import RoffDocBook.Hints
import RoffDocBook.Markup.Scan
import RoffDocBook.Vocabulary

/-! Emphasised tokens: what their form tells about them, and the elements that hints turn them into. -/
namespace RoffDocBook.Markup
open Text

/-- A token set in a font of its own. -/
structure Emphasized where
  /-- The font: bold, italic or both. -/
  font : Text
  token : Text

/-- The emphasised token at the start of a text, without tags inside. -/
def Emphasized.read? (t : Text) : Option (Emphasized × Nat) := do
  let strong : Text := "<emphasis role='strong'"
  let weak : Text := "<emphasis"
  let attempt (lead font : Text) : Option (Emphasized × Nat) := do
    let opening := lead ++ " remap='" ++ font ++ "'>"
    let rest ← dropStart? opening t
    let token := rest.takeWhile (· != '<')
    let _ ← dropStart? "</emphasis>" (rest.drop token.length)
    if token.isEmpty then none else some ({ font, token }, opening.length + token.length + 11)
  ([strong, weak] : List Text).findSome? fun lead =>
    (["B", "I", "BI"] : List Text).findSome? fun font => attempt lead font

/-- What a token is, as far as its form tells. -/
def guessTag? (emphasized : Emphasized) : Option HintTag :=
  let token := emphasized.token
  let opensOption : Bool :=
    match token with
    | '-' :: c :: _ => c.isAlphanum || c == '-'
    | _ => false
  if 1 < token.length && startsWith token "/" then some .filename
  else if Vocabulary.isEnvironmentName (token.dropWhile (· == '$')) then some .envar
  else if Vocabulary.isErrorName token then some .errorcode
  else if emphasized.font == "B" && opensOption then some .option
  else none

/-- Hints with a guess for each emphasised token that there is none for. -/
def inferHints (body : Text) (hints : Hints) : Hints :=
  (items Emphasized.read? body).foldl
    (fun (hints : Hints) item =>
      match item with
      | .char _ => hints
      | .found emphasized =>
        if (hints.get? emphasized.token).isSome || emphasized.token.any isBlank then hints
        else
          match guessTag? emphasized with
          | some tag => hints.set .document emphasized.token tag
          | none => hints)
    hints

/-- Markup in which emphasised tokens have the elements that the hints tell. -/
def applyHints (body : Text) (hints : Hints) : Text :=
  replaceFound
    (fun _ t => do
      let (emphasized, length) ← Emphasized.read? t
      let tag ← hints.get? emphasized.token
      let name : Text := tag.name
      some ("<" ++ name ++ " remap='" ++ emphasized.font ++ "'>" ++ emphasized.token ++ "</" ++ name ++ ">", length))
    body

end RoffDocBook.Markup
