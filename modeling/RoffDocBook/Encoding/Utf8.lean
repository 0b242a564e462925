import RoffDocBook.Text.Basic

/-! Text in UTF-8. -/
namespace RoffDocBook.Encoding

/-- The value of a byte that continues a character. -/
def continuation? (byte : UInt8) : Option Nat :=
  if 0x80 ≤ byte && byte < 0xC0 then some (byte.toNat - 0x80) else none

/-- The code point at the start of bytes in UTF-8, and the bytes after it. Each code point has its shortest form
only. -/
def codePoint? : List UInt8 → Option (Nat × List UInt8)
  | [] => none
  | a :: rest =>
    if a < 0x80 then some (a.toNat, rest)
    else if 0xC2 ≤ a && a < 0xE0 then
      match rest with
      | b :: rest => do
        let b ← continuation? b
        some ((a.toNat - 0xC0) * 64 + b, rest)
      | _ => none
    else if 0xE0 ≤ a && a < 0xF0 then
      match rest with
      | b :: c :: rest => do
        let b ← continuation? b
        let c ← continuation? c
        let n := ((a.toNat - 0xE0) * 64 + b) * 64 + c
        if n < 0x800 || (0xD800 ≤ n && n < 0xE000) then none else some (n, rest)
      | _ => none
    else if 0xF0 ≤ a && a < 0xF5 then
      match rest with
      | b :: c :: d :: rest => do
        let b ← continuation? b
        let c ← continuation? c
        let d ← continuation? d
        let n := (((a.toNat - 0xF0) * 64 + b) * 64 + c) * 64 + d
        if n < 0x10000 || 0x110000 ≤ n then none else some (n, rest)
      | _ => none
    else none

/-- The characters of bytes in UTF-8, each with the number of bytes before it; `fuel` is a bound on the bytes. -/
def decodeUtf8 : Nat → Nat → List UInt8 → Option (List (Nat × Char))
  | 0, _, bytes => if bytes.isEmpty then some [] else none
  | fuel + 1, before, bytes =>
    match bytes with
    | [] => some []
    | _ =>
      match codePoint? bytes with
      | none => none
      | some (n, rest) =>
        (decodeUtf8 fuel (before + (Char.ofNat n).utf8Size) rest).map ((before, Char.ofNat n) :: ·)

/-- The text that bytes in UTF-8 stand for. -/
def decodeText? (bytes : List UInt8) : Option Text :=
  (decodeUtf8 bytes.length 0 bytes).map fun chars => chars.map Prod.snd

/-- Whether bytes are the start of a character that more bytes would end. -/
def isUnfinished (bytes : List UInt8) : Bool :=
  [1, 2].any fun count =>
    match codePoint? (bytes ++ List.replicate count 0x80) with
    | some (_, rest) => rest.isEmpty
    | none => false

/-- The number of bytes at the start of bytes that are not a character: as many of them as start one, but at least
one. -/
def brokenLength (bytes : List UInt8) : Nat :=
  ([3, 2].find? fun count => count ≤ bytes.length && isUnfinished (bytes.take count)).getD 1

/-- The characters of bytes in UTF-8, with a mark in the place of what is none; `fuel` is a bound on the bytes. -/
def decodeMarked : Nat → List UInt8 → Text
  | 0, _ => []
  | _, [] => []
  | fuel + 1, bytes =>
    match codePoint? bytes with
    | some (n, rest) => Char.ofNat n :: decodeMarked fuel rest
    | none => '\uFFFD' :: decodeMarked fuel (bytes.drop (brokenLength bytes))

/-- The text that bytes in UTF-8 stand for, with a mark in the place of what stands for nothing. -/
def decodeLossy (bytes : List UInt8) : Text :=
  decodeMarked bytes.length bytes

/-- The bytes of a character in UTF-8. -/
def utf8Char (c : Char) : List UInt8 :=
  let n := c.toNat
  let byte (lead bits : Nat) : UInt8 := (lead + bits).toUInt8
  if n < 0x80 then [byte 0 n]
  else if n < 0x800 then [byte 0xC0 (n / 64), byte 0x80 (n % 64)]
  else if n < 0x10000 then [byte 0xE0 (n / 4096), byte 0x80 (n / 64 % 64), byte 0x80 (n % 64)]
  else [byte 0xF0 (n / 262144), byte 0x80 (n / 4096 % 64), byte 0x80 (n / 64 % 64), byte 0x80 (n % 64)]

def utf8 (t : Text) : List UInt8 :=
  t.flatMap utf8Char

end RoffDocBook.Encoding
