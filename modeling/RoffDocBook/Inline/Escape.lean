import RoffDocBook.Glyph
import RoffDocBook.Markup.Escape

/-! The escapes inside a line of text: how their arguments are written, the pieces that a line consists of, and the
text that is left without them. Lines come as escaped character data, so an argument is read by logical characters. -/
namespace RoffDocBook.Inline
open Text Markup

/-- The first logical character of escaped text, and the text after it. -/
def logicalChar? : Text → Option (Char × Text)
  | [] => none
  | '&' :: 'l' :: 't' :: ';' :: rest => some ('<', rest)
  | '&' :: 'g' :: 't' :: ';' :: rest => some ('>', rest)
  | '&' :: 'a' :: 'm' :: 'p' :: ';' :: rest => some ('&', rest)
  | c :: rest => some (c, rest)

/-- The name of an escape, as one logical character, as two after a parenthesis, or in brackets. -/
def readName : Text → Text × Text
  | [] => ([], [])
  | '(' :: rest =>
    match logicalChar? rest with
    | none => ([], rest)
    | some (a, rest) =>
      match logicalChar? rest with
      | none => ([a], rest)
      | some (b, rest) => ([a, b], rest)
  | '[' :: rest =>
    let found := spanUntil (· == ']') rest
    (unescape found.1, found.2.drop 1)
  | c :: rest =>
    match logicalChar? (c :: rest) with
    | some (a, rest) => ([a], rest)
    | none => ([], [])

/-- An argument between two occurrences of one character, and the text after it. -/
def readDelimited : Text → Text × Text
  | [] => ([], [])
  | delimiter :: rest =>
    let found := spanUntil (· == delimiter) rest
    (found.1, found.2.drop 1)

theorem length_logicalChar?_lt {t : Text} {c : Char} {rest : Text} (h : logicalChar? t = some (c, rest)) :
    rest.length < t.length := by
  unfold logicalChar? at h
  split at h <;> simp_all <;> omega

theorem length_readDelimited_le (t : Text) : (readDelimited t).2.length ≤ t.length := by
  cases t with
  | nil => simp [readDelimited]
  | cons d rest =>
    have := length_spanUntil_le (· == d) rest
    simp only [readDelimited, List.length_drop, List.length_cons]
    omega

theorem length_readName_le (t : Text) : (readName t).2.length ≤ t.length := by
  unfold readName
  split
  · simp
  · rename_i rest
    cases h : logicalChar? rest with
    | none => simp
    | some a =>
      have ha := length_logicalChar?_lt h
      cases h' : logicalChar? a.2 with
      | none => simp [h']; omega
      | some b => have := length_logicalChar?_lt h'; simp [h']; omega
  · rename_i rest
    have := length_spanUntil_le (· == ']') rest
    simp only [List.length_drop, List.length_cons]
    omega
  · rename_i c rest _ _
    cases h : logicalChar? (c :: rest) with
    | none => simp
    | some a => have := length_logicalChar?_lt h; simp at this ⊢; omega

/-- Escapes that are dropped together with an argument in delimiters. -/
def dropsDelimited (c : Char) : Bool :=
  "ABDHLRSXZblox".toList.elem c

/-- Escapes that are dropped together with a name. -/
def dropsName (c : Char) : Bool :=
  "FOVYgkmM$".toList.elem c

/-- Escapes that are dropped alone. -/
def dropsAlone (c : Char) : Bool :=
  "|^%:c,/\x7b\x7daEprduz".toList.elem c

/-- Whether a text goes on with the rest of an escaped ampersand. -/
def afterAmpersand : Text → Text
  | 'a' :: 'm' :: 'p' :: ';' :: rest => rest
  | t => t

/-- The pieces of a line of text. -/
inductive Piece where
  /-- Text that is written as it is. -/
  | plain (text : Text)
  /-- A change of font, by the name of the new one. -/
  | font (name : Text)
  | glyph (name : Text)
  /-- A character given by its number. -/
  | numbered (number : Text)
  /-- The width of a text. -/
  | width (text : Text)
  deriving DecidableEq

/-- The pieces of a line up to a comment in it. Registers, sizes and motions are left in the text. -/
def pieces : Text → List Piece
  | [] => []
  | '\\' :: [] => []
  | '\\' :: e :: rest =>
    if e == 'f' then .font (readName rest).1 :: pieces (readName rest).2
    else if e == '(' || e == '[' then .glyph (readName (e :: rest)).1 :: pieces (readName (e :: rest)).2
    else if e == 'C' then .glyph (unescape (readDelimited rest).1) :: pieces (readDelimited rest).2
    else if e == 'N' then .numbered (readDelimited rest).1 :: pieces (readDelimited rest).2
    else if e == '&' then pieces (afterAmpersand rest)
    else if e == '"' || e == '#' then []
    else if dropsAlone e then pieces rest
    else if e == ' ' || e == '~' then .plain "&#160;" :: pieces rest
    else if e == '0' then .plain " " :: pieces rest
    else if e == 'e' || e == '\\' then .plain "&#92;" :: pieces rest
    else if e == 't' then .plain "\t" :: pieces rest
    else if e == 'n' || e == 's' || e == 'h' || e == 'v' then .plain ['\\', e] :: pieces rest
    else if e == 'w' then .width (unescape (readDelimited rest).1) :: pieces (readDelimited rest).2
    else if dropsDelimited e then pieces (readDelimited rest).2
    else if dropsName e then pieces (readName rest).2
    else .plain [e] :: pieces rest
  | c :: rest => .plain [c] :: pieces rest
termination_by t => t.length
decreasing_by
  all_goals simp only [List.length_cons]
  all_goals try omega
  · have := length_readName_le rest; omega
  · have := length_readName_le (e :: rest); simp only [List.length_cons] at this; omega
  · have := length_readDelimited_le rest; omega
  · have := length_readDelimited_le rest; omega
  · have : (afterAmpersand rest).length ≤ rest.length := by unfold afterAmpersand; split <;> simp; omega
    omega
  · have := length_readDelimited_le rest; omega
  · have := length_readDelimited_le rest; omega
  · have := length_readName_le rest; omega

/-- A sign in front of an argument is passed over. -/
def afterSign : Text → Text
  | '+' :: rest => rest
  | '-' :: rest => rest
  | t => t

/-- The text after the argument of a change of size within plain text. -/
def afterPlainSize (t : Text) : Text :=
  match afterSign t with
  | c :: rest => if c.isDigit then rest else (readName (c :: rest)).2
  | [] => []

theorem length_afterSign_le (t : Text) : (afterSign t).length ≤ t.length := by
  unfold afterSign
  split <;> simp

theorem length_afterPlainSize_le (t : Text) : (afterPlainSize t).length ≤ t.length := by
  have signed := length_afterSign_le t
  unfold afterPlainSize
  split
  · rename_i c rest h
    have := length_readName_le (c :: rest)
    rw [h] at signed
    simp only [List.length_cons] at *
    split
    · omega
    · omega
  · simp

/-- A glyph as escaped text, and an unknown glyph as its name. -/
def plainGlyph (name : Text) : Text :=
  match Glyph.lookup? name with
  | some glyph => escape [Char.ofNat glyph.code]
  | none => escape name

/-- The text after an escape with a name; only the name of a register may have a sign. -/
def afterNamed (e : Char) (t : Text) : Text :=
  (readName (if e == 'n' then afterSign t else t)).2

theorem length_afterNamed_le (e : Char) (t : Text) : (afterNamed e t).length ≤ t.length := by
  have := length_afterSign_le t
  unfold afterNamed
  split
  · have := length_readName_le (afterSign t); omega
  · exact length_readName_le t

/-- The text of a line without its escapes; it stays escaped character data. -/
def plainText : Text → Text
  | [] => []
  | '\\' :: [] => []
  | '\\' :: e :: rest =>
    if "fnFkmMgYV*$".toList.elem e then plainText (afterNamed e rest)
    else if e == '(' || e == '[' then plainGlyph (readName (e :: rest)).1 ++ plainText (readName (e :: rest)).2
    else if e == 's' then plainText (afterPlainSize rest)
    else if e == '&' then plainText (afterAmpersand rest)
    else if e == '"' || e == '#' then []
    else if e == '-' then '-' :: plainText rest
    else if e == 'e' || e == '\\' then '\\' :: plainText rest
    else if e == ' ' || e == '~' || e == '0' then ' ' :: plainText rest
    else if dropsAlone e then plainText rest
    else if dropsDelimited e || "hvwNC".toList.elem e then plainText (readDelimited rest).2
    else e :: plainText rest
  | c :: rest => c :: plainText rest
termination_by t => t.length
decreasing_by
  all_goals simp only [List.length_cons]
  all_goals try omega
  · have := length_afterNamed_le e rest; omega
  · have := length_readName_le (e :: rest); simp only [List.length_cons] at this; omega
  · have := length_afterPlainSize_le rest; omega
  · have : (afterAmpersand rest).length ≤ rest.length := by unfold afterAmpersand; split <;> simp; omega
    omega
  · have := length_readDelimited_le rest; omega

/-- The text after the argument of a change of size: a number of one or two digits after an optional sign, two
characters after a parenthesis, or an argument in brackets or quotes. -/
def afterSize (t : Text) : Text :=
  match afterSign t with
  | '(' :: rest => rest.drop 2
  | '[' :: rest => (spanUntil (· == ']') rest).2.drop 1
  | '\'' :: rest => (spanUntil (· == '\'') rest).2.drop 1
  | c :: rest =>
    if c.isDigit then
      match rest with
      | d :: more => if c != '0' && d.isDigit && c < '4' then more else rest
      | [] => []
    else c :: rest
  | [] => []

theorem length_afterSize_le (t : Text) : (afterSize t).length ≤ t.length := by
  have := length_afterSign_le t
  unfold afterSize
  split
  · rename_i rest h; rw [h] at this; simp at this ⊢; omega
  · rename_i rest h; rw [h] at this; have := length_spanUntil_le (· == ']') rest; simp at *; omega
  · rename_i rest h; rw [h] at this; have := length_spanUntil_le (· == '\'') rest; simp at *; omega
  · rename_i c rest _ _ _ h
    rw [h] at this
    split
    · split
      · split <;> simp at * <;> omega
      · simp
    · exact this
  · simp

/-- The line without changes of size and vertical motions, and with a blank for each horizontal motion. -/
def stripMotions : Text → Text
  | [] => []
  | '\\' :: 's' :: rest => stripMotions (afterSize rest)
  | '\\' :: 'v' :: rest => stripMotions (readDelimited rest).2
  | '\\' :: 'h' :: rest => ' ' :: stripMotions (readDelimited rest).2
  | '\\' :: c :: rest => '\\' :: c :: stripMotions rest
  | c :: rest => c :: stripMotions rest
termination_by t => t.length
decreasing_by
  all_goals simp only [List.length_cons]
  all_goals try omega
  · have := length_afterSize_le rest; omega
  · have := length_readDelimited_le rest; omega
  · have := length_readDelimited_le rest; omega

end RoffDocBook.Inline
