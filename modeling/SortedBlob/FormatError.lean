import SortedBlob.Hex

/-!
The ways in which the bytes of a blob can violate its layout.
-/

namespace SortedBlob

inductive FormatError where
  | badMagic (found : Bytes)
  | unsupportedVersion (found supported : UInt32)
  | trailerChecksum (stored computed : UInt32)
  | unsupportedKeySize (keySize max : UInt32)
  | keySizeMismatch (expected found : UInt32)
  | truncatedTrailer (expected actual : Nat)
  | indexSizeOverflow (entryCount recordSize : UInt64)
  | indexEndOverflow (indexOffset indexLength : UInt64)
  | indexOutOfBounds (indexOffset indexLength required blobLength : UInt64)
  | truncatedRecord (position : UInt64) (expected actual : Nat)
  | unsortedIndex (position : UInt64)
  | truncatedValue (expected : UInt32) (actual : Nat)
  | valueOutOfBounds (offset : UInt64) (length : UInt32) (regionEnd : UInt64)
  deriving DecidableEq, Repr

def Bytes.decimalList (bytes : Bytes) : String :=
  "[" ++ ", ".intercalate (bytes.map fun byte => toString byte.toNat) ++ "]"

def FormatError.message : FormatError → String
  | .badMagic found => "Invalid blob magic: got " ++ Bytes.decimalList found
  | .unsupportedVersion found supported =>
      s!"Unsupported blob version {found} (supported up to {supported})"
  | .trailerChecksum stored computed =>
      "Trailer checksum mismatch: stored " ++ Hex.word stored ++ ", computed " ++ Hex.word
        computed
  | .unsupportedKeySize keySize max =>
    s!"Unsupported key size {keySize} (must be 1..={max})"
  | .keySizeMismatch expected found =>
      s!"Key size mismatch: expected {expected}, blob declares {found}"
  | .truncatedTrailer expected actual =>
      s!"Truncated trailer: expected {expected} bytes, got {actual}"
  | .indexSizeOverflow entryCount recordSize =>
      s!"Trailer out of bounds: index size overflows: {entryCount} records of {recordSize} bytes"
  | .indexEndOverflow indexOffset indexLength =>
      s!"Trailer out of bounds: index end overflows: offset {indexOffset} + {indexLength} bytes"
  | .indexOutOfBounds indexOffset indexLength required blobLength =>
      s!"Trailer out of bounds: index [{indexOffset}, +{indexLength}) and trailer need " ++
        s!"{required} bytes, blob has {blobLength}"
  | .truncatedRecord position expected actual =>
      s!"Truncated index record at position {position}: expected {expected} bytes, got {actual}"
  | .unsortedIndex position => s!"Index is not strictly sorted at position {position}"
  | .truncatedValue expected actual =>
      s!"Truncated value: expected {expected} bytes, got {actual}"
  | .valueOutOfBounds offset length regionEnd =>
      s!"Value [{offset}, +{length}) outside value region [0, {regionEnd})"

instance decidableEqExcept {ε α : Type} [DecidableEq ε] [DecidableEq α] :
    DecidableEq (Except ε α)
  | .ok _, .ok _ => decidable_of_iff _ ⟨congrArg Except.ok, Except.ok.inj⟩
  | .error _, .error _ => decidable_of_iff _ ⟨congrArg Except.error, Except.error.inj⟩
  | .ok _, .error _ => isFalse nofun
  | .error _, .ok _ => isFalse nofun

end SortedBlob
