import SortedBlob.Bytes

/-!
Text in UTF-8. Ill-formed input falls into pieces, each the longest start of a character
that its bytes could still have become, or a single byte.
-/

namespace SortedBlob.Utf8

/-- What a first byte promises: the bits it gives, how many bytes follow, and the
range of the first of them. -/
structure Lead where
  bits : Nat
  tails : Nat
  low : UInt8
  high : UInt8
  deriving DecidableEq, Repr

def lead? (byte : UInt8) : Option Lead :=
  if byte < 0x80 then some ⟨byte.toNat, 0, 0x80, 0xBF⟩
  else if byte < 0xC2 then none
  else if byte < 0xE0 then some ⟨byte.toNat - 0xC0, 1, 0x80, 0xBF⟩
  else if byte = 0xE0 then some ⟨0x0, 2, 0xA0, 0xBF⟩
  else if byte = 0xED then some ⟨0xD, 2, 0x80, 0x9F⟩
  else if byte < 0xF0 then some ⟨byte.toNat - 0xE0, 2, 0x80, 0xBF⟩
  else if byte = 0xF0 then some ⟨0, 3, 0x90, 0xBF⟩
  else if byte < 0xF4 then some ⟨byte.toNat - 0xF0, 3, 0x80, 0xBF⟩
  else if byte = 0xF4 then some ⟨4, 3, 0x80, 0x8F⟩
  else none

/-- Six more bits from each following byte, up to the first that does not fit. -/
def tails : (count : Nat) → (low high : UInt8) → (code : Nat) → Bytes → Option Nat × Bytes
  | 0, _, _, code, rest => (some code, rest)
  | _ + 1, _, _, _, [] => (none, [])
  | count + 1, low, high, code, byte :: rest =>
      if low ≤ byte && byte ≤ high then
        tails count 0x80 0xBF (code * 64 + (byte.toNat - 0x80)) rest
      else (none, byte :: rest)

def next (byte : UInt8) (rest : Bytes) : Option Char × Bytes :=
  match lead? byte with
  | none => (none, rest)
  | some lead =>
      let (code, rest) := tails lead.tails lead.low lead.high lead.bits rest
      (code.map Char.ofNat, rest)

theorem tails_length_le (count : Nat) (low high : UInt8) (code : Nat) (bytes : Bytes) :
    (tails count low high code bytes).2.length ≤ bytes.length := by
  induction count generalizing low high code bytes with
  | zero => simp [tails]
  | succ count ih =>
      cases bytes with
      | nil => simp [tails]
      | cons byte rest =>
          simp only [tails]
          split
          · exact Nat.le_succ_of_le (ih _ _ _ rest)
          · exact Nat.le_refl _

theorem next_length_le (byte : UInt8) (rest : Bytes) :
    (next byte rest).2.length ≤ rest.length := by
  unfold next
  split
  · exact Nat.le_refl _
  · exact tails_length_le _ _ _ _ _

/-- The characters in order, with `none` for each ill-formed piece. -/
def pieces : Bytes → List (Option Char)
  | [] => []
  | byte :: rest => (next byte rest).1 :: pieces (next byte rest).2
termination_by bytes => bytes.length
decreasing_by exact Nat.lt_succ_of_le (next_length_le byte rest)

def decode? (bytes : Bytes) : Option (List Char) :=
  (pieces bytes).mapM id

def decodeLossy (bytes : Bytes) : List Char :=
  (pieces bytes).map (Option.getD · (Char.ofNat 0xFFFD))

def encode (text : List Char) : Bytes :=
  text.flatMap String.utf8EncodeChar

end SortedBlob.Utf8
