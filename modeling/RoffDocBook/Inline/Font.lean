import RoffDocBook.Text.Basic

/-! The fonts of running text and the elements that stand for them. -/
namespace RoffDocBook

inductive Font where
  | roman | bold | italic | boldItalic | constant | constantBold | constantItalic
  deriving DecidableEq, Repr, Inhabited

namespace Font

/-- The font with a name or a position. -/
def ofName? (name : String) : Option Font :=
  if ["R", "1", "CR", "TR", "HR"].contains name then some roman
  else if ["B", "3", "TB", "HB"].contains name then some bold
  else if ["I", "2", "TI", "HI"].contains name then some italic
  else if ["BI", "4", "TBI", "HBI"].contains name then some boldItalic
  else if ["CW", "C", "L", "CO"].contains name then some constant
  else if ["CB", "CWB"].contains name then some constantBold
  else if ["CI", "CWI"].contains name then some constantItalic
  else none

def openTag : Font → Text
  | roman => ""
  | bold => "<emphasis role='strong' remap='B'>"
  | italic => "<emphasis remap='I'>"
  | boldItalic => "<emphasis role='strong' remap='BI'>"
  | constant => "<literal remap='CW'>"
  | constantBold => "<literal remap='CB'>"
  | constantItalic => "<literal remap='CI'>"

def closeTag : Font → Text
  | roman => ""
  | bold | italic | boldItalic => "</emphasis>"
  | constant | constantBold | constantItalic => "</literal>"

end Font

/-- The font in force and the one before it. -/
structure FontState where
  current : Font := .roman
  previous : Font := .roman
  /-- Whether the element of the current font has been opened. -/
  opened : Bool := false
  deriving DecidableEq, Repr

namespace FontState

/-- The tag that closes the font element, if one is open. -/
def closing (fonts : FontState) : Text :=
  if fonts.opened then fonts.current.closeTag else []

/-- The font that a name asks for: no name and `P` ask for the one before. -/
def target? (fonts : FontState) (name : String) : Option Font :=
  if name == "" || name == "P" then some fonts.previous else Font.ofName? name

/-- A change of font within a line, with the tags that it writes. -/
def switchTo (fonts : FontState) (font : Font) : FontState × Text :=
  ({ current := font, previous := fonts.current, opened := font != .roman }, fonts.closing ++ font.openTag)

end FontState

end RoffDocBook
