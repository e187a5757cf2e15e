import SortedBlob.Bytes
import SortedBlob.Text.Quoted

/-!
Bytes as pairs of hexadecimal digits: written in lower case, read in either.
-/

namespace SortedBlob

inductive HexError where
  | oddLength
  | invalidDigit (byte : UInt8) (position : Nat)
  deriving DecidableEq, Repr

def HexError.message : HexError → String
  | .oddLength => "Odd number of digits"
  | .invalidDigit byte position =>
      "Invalid character " ++ Text.quoted byte ++ " at position " ++ toString position

namespace Hex

def pair (byte : UInt8) : List Char :=
  [Nat.digitChar (byte.toNat / 16), Nat.digitChar (byte.toNat % 16)]

def encode (bytes : Bytes) : String :=
  String.ofList (bytes.flatMap pair)

def digit? (byte : UInt8) : Option UInt8 :=
  if 0x30 ≤ byte && byte ≤ 0x39 then some (byte - 0x30)
  else if 0x61 ≤ byte && byte ≤ 0x66 then some (byte - 0x61 + 10)
  else if 0x41 ≤ byte && byte ≤ 0x46 then some (byte - 0x41 + 10)
  else none

def digitAt (byte : UInt8) (position : Nat) : Except HexError UInt8 :=
  match digit? byte with
  | some value => .ok value
  | none => .error (.invalidDigit byte position)

def decodePairs (position : Nat) : Bytes → Except HexError Bytes
  | [] => .ok []
  | [_] => .error .oddLength
  | high :: low :: rest => do
      let h ← digitAt high position
      let l ← digitAt low (position + 1)
      let bytes ← decodePairs (position + 2) rest
      return (h * 16 + l) :: bytes

/-- An odd number of digits is reported before any digit is looked at. -/
def decode (text : Bytes) : Except HexError Bytes :=
  if text.length % 2 = 1 then .error .oddLength else decodePairs 0 text

/-- A word as eight digits behind `0x`. -/
def word (n : UInt32) : String :=
  "0x" ++ encode (Bytes.ofUInt32 n).reverse

end Hex

end SortedBlob
