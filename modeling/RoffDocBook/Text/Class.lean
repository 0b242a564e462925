import RoffDocBook.Text.Letters

/-! Character classes of running text, over all of Unicode, and the change of case that titles need. -/
namespace RoffDocBook.Text

/-- White space, with the line and paragraph separators and the spaces of fixed width. -/
def isBlank (c : Char) : Bool :=
  c == ' ' || (9 ≤ c.toNat && c.toNat ≤ 13) || c.toNat == 0x85 || c.toNat == 0xA0 ||
    c.toNat == 0x1680 || (0x2000 ≤ c.toNat && c.toNat ≤ 0x200A) || c.toNat == 0x2028 ||
    c.toNat == 0x2029 || c.toNat == 0x202F || c.toNat == 0x205F || c.toNat == 0x3000

/-- Whether a code point lies in one of the ranges. -/
def within (ranges : List (Nat × Nat)) (n : Nat) : Bool :=
  ranges.any fun range => range.1 ≤ n && n ≤ range.2

/-- A letter of any script. -/
def isLetter (c : Char) : Bool :=
  if c.toNat < 128 then c.isAlpha else within letterRanges c.toNat

/-- A letter or a number of any script. -/
def isLetterOrNumber (c : Char) : Bool :=
  if c.toNat < 128 then c.isAlphanum
  else within letterRanges c.toNat || within digitRanges c.toNat || within otherNumberRanges c.toNat

/-- A character that can stand inside a word: a letter, a decimal digit, a mark, or an underscore. -/
def isWordChar (c : Char) : Bool :=
  if c.toNat < 128 then c.isAlphanum || c == '_'
  else
    (within letterRanges c.toNat || within digitRanges c.toNat || within wordMarkRanges c.toNat) &&
      !within recentRanges c.toNat

/-- A blank that separates the arguments of a request. -/
def isSpaceOrTab (c : Char) : Bool :=
  c == ' ' || c == '\t'

/-- The lower-case form of a character, which is more than one character only for a dotted capital I. -/
def lower (c : Char) : List Char :=
  if c.toNat < 128 then [c.toLower]
  else if c.toNat == 0x130 then ['i', '\u0307']
  else
    match lowerRuns.find? fun run =>
        run.1 ≤ c.toNat && c.toNat ≤ run.2.1 && (c.toNat - run.1) % run.2.2.1 == 0 with
    | some run => [Char.ofNat (c.toNat + run.2.2.2).toNat]
    | none => [c]

/-- A letter that has a case. -/
def isCased (c : Char) : Bool :=
  within casedRanges c.toNat

/-- A mark or a sign that does not count where the case of its neighbours matters. -/
def isCaseIgnorable (c : Char) : Bool :=
  within caseIgnorableRanges c.toNat

/-- The ASCII capital that a character is written with in capitals, and the character itself if there is none. -/
def asciiCapital (c : Char) : Char :=
  if c.toNat == 0x131 then 'I' else if c.toNat == 0x17F then 'S' else c.toUpper

end RoffDocBook.Text
