import RoffDocBook.Document.Assembly
import RoffDocBook.Encoding.Utf8
import RoffDocBook.Failure

/-! The encodings of a source. A document is made of its bytes, read as characters below 256, and of characters that
the conversion itself has made; the bytes are decoded at the end, and the others become references. -/
namespace RoffDocBook
open Text

namespace Encoding

/-- The bytes of a document, and the other characters with the number of bytes before each. -/
def separateFrom : Nat → Text → List UInt8 × List (Nat × Char)
  | _, [] => ([], [])
  | before, c :: cs =>
    if c.toNat < 256 then
      let (bytes, others) := separateFrom (before + 1) cs
      (c.toNat.toUInt8 :: bytes, others)
    else
      let (bytes, others) := separateFrom before cs
      (bytes, (before, c) :: others)

def reference (c : Char) : Text :=
  "&#x" ++ hexadecimal 0 c.toNat ++ ";"

/-- Decoded characters, each with the number of bytes before it, with the references between them. A reference comes
before the first character that does not begin before it. -/
def weave : List (Nat × Char) → List (Nat × Char) → Text
  | others, [] => others.flatMap fun other => reference other.2
  | others, (before, c) :: rest =>
    (others.takeWhile fun other => other.1 ≤ before).flatMap (fun other => reference other.2) ++
      c :: weave (others.dropWhile fun other => other.1 ≤ before) rest

/-- The characters of bytes of one character each. -/
def decodeSingle (bytes : List UInt8) : List (Nat × Char) :=
  bytes.mapIdx fun before byte => (before, Char.ofNat byte.toNat)

/-- The characters of bytes in an encoding, unless it is unknown or the bytes do not fit it. -/
def decode? (encoding : String) (bytes : List UInt8) : Option (List (Nat × Char)) :=
  let name := encoding.toLower
  if name == "utf-8" || name == "utf8" then decodeUtf8 bytes.length 0 bytes
  else if name == "iso-8859-1" || name == "latin-1" || name == "latin1" then some (decodeSingle bytes)
  else if name == "ascii" || name == "us-ascii" then
    if bytes.all (· < 0x80) then some (decodeSingle bytes) else none
  else none

/-- The document with its bytes decoded by the first encoding that fits. -/
def encode (document : Text) (encodings : List String) : Except Failure Text :=
  let (bytes, others) := separateFrom 0 document
  match encodings.findSome? (decode? · bytes) with
  | some characters => .ok (weave others characters)
  | none => .error (.undecodable encodings)

end Encoding

end RoffDocBook
