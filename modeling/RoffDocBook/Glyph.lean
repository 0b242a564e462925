import RoffDocBook.Text.Basic

/-! The special characters of the source language by name, with the entities and code points that they stand for. -/
namespace RoffDocBook

structure Glyph where
  name : String
  /-- The name of the entity, unless the character is plain ASCII. -/
  entity : Option String
  code : Nat
  deriving DecidableEq, Repr

namespace Glyph

private def named (name entity : String) (code : Nat) : Glyph := ⟨name, some entity, code⟩

private def plain (name : String) (code : Nat) : Glyph := ⟨name, none, code⟩

/-- The known glyphs. Where a name occurs twice, the first entry counts. -/
def all : List Glyph :=
  [named "em" "mdash" 0x2014, named "en" "ndash" 0x2013, plain "hy" 0x2d, named "mi" "minus" 0x2212,
   named "lq" "ldquo" 0x201c, named "rq" "rdquo" 0x201d, named "oq" "lsquo" 0x2018, named "cq" "rsquo" 0x2019,
   plain "aq" 0x27, plain "dq" 0x22, named "Fo" "laquo" 0xab, named "Fc" "raquo" 0xbb,
   named "fo" "lsaquo" 0x2039, named "fc" "rsaquo" 0x203a, named "Bq" "bdquo" 0x201e, named "bq" "sbquo" 0x201a,
   named "bu" "bull" 0x2022, named "ci" "cir" 0x25cb, named "sq" "squ" 0x25a1, named "dg" "dagger" 0x2020,
   named "dd" "Dagger" 0x2021, named "sc" "sect" 0xa7, named "ps" "para" 0xb6, named "co" "copy" 0xa9,
   named "rg" "reg" 0xae, named "tm" "trade" 0x2122, named "de" "deg" 0xb0, named "ct" "cent" 0xa2,
   named "Po" "pound" 0xa3, named "Ye" "yen" 0xa5, named "Eu" "euro" 0x20ac, named "eu" "euro" 0x20ac,
   named "OK" "check" 0x2713, named "hA" "hArr" 0x21d4, named "+-" "plusmn" 0xb1, named "mu" "times" 0xd7,
   named "di" "divide" 0xf7, named "<=" "le" 0x2264, named ">=" "ge" 0x2265, named "!=" "ne" 0x2260,
   named "==" "equiv" 0x2261, named "~=" "cong" 0x2245, named "~~" "asymp" 0x2248, named "ap" "sim" 0x223c,
   named "if" "infin" 0x221e, named "sr" "radic" 0x221a, named "pd" "part" 0x2202, named "gr" "nabla" 0x2207,
   named "is" "int" 0x222b, named "pt" "prop" 0x221d, named "es" "empty" 0x2205, named "mo" "isin" 0x2208,
   named "sb" "sub" 0x2282, named "sp" "sup" 0x2283, named "ib" "sube" 0x2286, named "ip" "supe" 0x2287,
   named "ca" "cap" 0x2229, named "cu" "cup" 0x222a, named "no" "not" 0xac, named "AN" "and" 0x2227,
   named "OR" "or" 0x2228, named "fa" "forall" 0x2200, named "te" "exist" 0x2203, named "**" "lowast" 0x2217,
   named "12" "frac12" 0xbd, named "14" "frac14" 0xbc, named "34" "frac34" 0xbe, named "S1" "sup1" 0xb9,
   named "S2" "sup2" 0xb2, named "S3" "sup3" 0xb3, named "->" "rarr" 0x2192, named "<-" "larr" 0x2190,
   named "<>" "harr" 0x2194, named "ua" "uarr" 0x2191, named "da" "darr" 0x2193, named "rA" "rArr" 0x21d2,
   named "lA" "lArr" 0x21d0, named "la" "lang" 0x2329, named "ra" "rang" 0x232a, plain "lB" 0x5b,
   plain "rB" 0x5d, plain "lC" 0x7b, plain "rC" 0x7d, plain "rs" 0x5c, plain "sl" 0x2f, plain "ba" 0x7c,
   plain "br" 0x7c, plain "or" 0x7c, plain "ti" 0x7e, plain "ha" 0x5e, plain "ul" 0x5f, plain "ru" 0x5f,
   plain "at" 0x40, plain "sh" 0x23, plain "Do" 0x24, plain "pl" 0x2b, plain "eq" 0x3d, plain "fm" 0x27,
   named "aa" "acute" 0xb4, plain "ga" 0x60, named "a-" "macr" 0xaf, named "ad" "uml" 0xa8,
   named "ac" "cedil" 0xb8, named "r!" "iexcl" 0xa1, named "r?" "iquest" 0xbf, named "ss" "szlig" 0xdf,
   named "ff" "fflig" 0xfb00, named "fi" "filig" 0xfb01, named "fl" "fllig" 0xfb02, named ":a" "auml" 0xe4,
   named ":o" "ouml" 0xf6, named ":u" "uuml" 0xfc, named ":A" "Auml" 0xc4, named ":O" "Ouml" 0xd6,
   named ":U" "Uuml" 0xdc, named ":e" "euml" 0xeb, named ":i" "iuml" 0xef, named "'a" "aacute" 0xe1,
   named "'e" "eacute" 0xe9, named "'i" "iacute" 0xed, named "'o" "oacute" 0xf3, named "'u" "uacute" 0xfa,
   named "'E" "Eacute" 0xc9, named "`a" "agrave" 0xe0, named "`e" "egrave" 0xe8, named "^a" "acirc" 0xe2,
   named "^e" "ecirc" 0xea, named "^o" "ocirc" 0xf4, named "~n" "ntilde" 0xf1, named "~N" "Ntilde" 0xd1,
   named ",c" "ccedil" 0xe7, named ",C" "Ccedil" 0xc7, named "oa" "aring" 0xe5, named "oA" "Aring" 0xc5,
   named "/o" "oslash" 0xf8, named "/O" "Oslash" 0xd8, named "ae" "aelig" 0xe6, named "AE" "AElig" 0xc6,
   named "*a" "alpha" 0x3b1, named "*b" "beta" 0x3b2, named "*g" "gamma" 0x3b3, named "*d" "delta" 0x3b4,
   named "*e" "epsilon" 0x3b5, named "*l" "lambda" 0x3bb, named "*m" "mu" 0x3bc, named "*p" "pi" 0x3c0,
   named "*s" "sigma" 0x3c3, named "*t" "tau" 0x3c4, named "*W" "Omega" 0x3a9]

def lookup? (name : Text) : Option Glyph :=
  all.find? fun glyph => glyph.name.toList == name

def ofEntity? (entity : Text) : Option Glyph :=
  all.find? fun glyph => (glyph.entity.map String.toList) == some entity

/-- The name of a glyph without the escape that it is written as. -/
def bareName (written : Text) : Text :=
  match Text.dropStart? "\\(" written with
  | some name => name
  | none =>
    match Text.dropStart? "\\[" written with
    | some name => (name.reverse.dropWhile (· == ']')).reverse
    | none => written

/-- Entities that need no declaration in any document. -/
def predefinedEntities : List String :=
  ["amp", "lt", "gt", "quot", "apos"]

end Glyph

end RoffDocBook
