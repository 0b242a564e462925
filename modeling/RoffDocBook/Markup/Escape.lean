import RoffDocBook.Text.Basic

/-! The escaped forms of XML character data and attribute values, and the removal of tags from them. -/
namespace RoffDocBook.Markup
open Text

def escapeChar : Char → Text
  | '&' => "&amp;"
  | '<' => "&lt;"
  | '>' => "&gt;"
  | c => [c]

/-- Plain text as character data. -/
def escape (t : Text) : Text :=
  t.flatMap escapeChar

def escapeAttributeChar : Char → Text
  | '\'' => "&apos;"
  | '"' => "&quot;"
  | '<' => "&lt;"
  | '>' => "&gt;"
  | c => [c]

/-- Character data as an attribute value; references stay as they are. -/
def escapeAttribute (t : Text) : Text :=
  t.flatMap escapeAttributeChar

/-- Plain text again. The ampersand is restored last, so that no reference is read twice. -/
def unescape (t : Text) : Text :=
  replace (replace (replace (replace (replace t "&lt;" "<") "&gt;" ">") "&quot;" "\"") "&apos;" "'") "&amp;" "&"

/-- The characters outside tags, where `inside` tells whether the text begins within one. -/
def stripTagsFrom : Bool → Text → Text
  | _, [] => []
  | true, c :: cs => stripTagsFrom (c != '>') cs
  | false, c :: cs =>
    if c == '<' && cs.elem '>' then stripTagsFrom true cs else c :: stripTagsFrom false cs

/-- Character data without the tags in it; an angle bracket that is never closed stays. -/
def stripTags (t : Text) : Text :=
  stripTagsFrom false t

end RoffDocBook.Markup
