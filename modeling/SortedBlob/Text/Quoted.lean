import SortedBlob.Bytes
import SortedBlob.Text.Control

/-!
How a single byte is shown in a message.
-/

namespace SortedBlob.Text

/-- The bytes whose code point has a glyph of its own: neither a control, the no-break space
nor the soft hyphen. -/
def isPrintable (byte : UInt8) : Bool :=
  0x20 ≤ byte && byte < 0x7F || 0xA0 < byte && byte ≠ 0xAD

def escaped (byte : UInt8) : String :=
  match byte with
  | 0x00 => "\\0"
  | 0x09 => "\\t"
  | 0x0A => "\\n"
  | 0x0D => "\\r"
  | 0x27 => "\\'"
  | 0x5C => "\\\\"
  | _ =>
      if isPrintable byte then String.singleton (Char.ofNat byte.toNat)
      else codePoint byte.toNat

/-- The byte as the character of its code point, between single quotes. -/
def quoted (byte : UInt8) : String := "'" ++ escaped byte ++ "'"

end SortedBlob.Text
