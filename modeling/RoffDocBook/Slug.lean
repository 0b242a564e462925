import RoffDocBook.Markup.Escape

/-! Identifiers of elements: the canonical form of a title, and the numbering of titles that share one. -/
namespace RoffDocBook
open Text

namespace Slug

/-- Small letters and digits with single hyphens for the separators between them, where `dashed` tells that no
hyphen may come next. -/
def squeeze : Bool → Text → Text
  | _, [] => []
  | dashed, c :: cs =>
    if c.isAlphanum then c.toLower :: squeeze false cs
    else if !dashed && (isBlank c || c == '-' || c == '_' || c == '.') then '-' :: squeeze true cs
    else squeeze dashed cs

/-- The canonical identifier of a title; it begins with a letter. -/
def ofTitle (title : Text) : Text :=
  let body := squeeze true (trim (Markup.stripTags title))
  let body := (dropEnd? ['-'] body).getD body
  match body with
  | [] => ['x']
  | c :: cs => if c.isAlpha then c :: cs else 'x' :: c :: cs

end Slug

/-- How often each base of an identifier has been given out, the most recent base first. -/
abbrev IdRegistry := List (Text × Nat)

namespace IdRegistry

/-- How often a base has been given out. -/
def uses (ids : IdRegistry) (base : Text) : Nat :=
  (ids.lookup base).getD 0

/-- Whether a base has been given out. -/
def contains (ids : IdRegistry) (base : Text) : Bool :=
  (ids.lookup base).isSome

/-- A new identifier for a title: its slug, with a number after the first use. -/
def make (ids : IdRegistry) (title : Text) : Text × IdRegistry :=
  let base := Slug.ofTitle title
  let n := ids.uses base
  (if n == 0 then base else base ++ "-" ++ ofNat n, (base, n + 1) :: ids)

end IdRegistry

end RoffDocBook
