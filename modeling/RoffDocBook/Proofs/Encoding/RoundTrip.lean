import RoffDocBook.Encoding
import RoffDocBook.Encoding.Utf8
import RoffDocBook.FileTree

/-! Reading UTF-8 gives back the text that was written in it, and the number of bytes before each character. -/
namespace RoffDocBook.Encoding

section Reading
variable {a b c d : UInt8} {p q r s n : Nat} (rest : List UInt8)

end Reading

/-- The characters of a text, each with the number of bytes before it. -/
def placed : Nat → Text → List (Nat × Char)
  | _, [] => []
  | before, c :: cs => (before, c) :: placed (before + c.utf8Size) cs

/-- A piece of a document: text of the source, or a character that the conversion has made. -/
inductive Piece where
  | source (t : Text)
  | made (c : Char) (h : 0x100 ≤ c.toNat)

namespace Piece

/-- How a document carries a piece: the bytes of the source as one character each. -/
def carried : Piece → Text
  | source t => decodeBytes (utf8 t)
  | made c _ => [c]

end Piece

end RoffDocBook.Encoding
