import SortedBlob.Checksum
import SortedBlob.Config
import SortedBlob.FormatError
import SortedBlob.Span
import SortedBlob.Word

/-!
The last forty bytes of a blob, which tell where its index lies.
-/

namespace SortedBlob

structure Trailer where
  version : UInt32
  keySize : UInt32
  entryCount : UInt64
  /-- The start of the index, where the values end. -/
  indexOffset : UInt64
  deriving DecidableEq, Repr

namespace Trailer

def magic : Bytes := [0x52, 0x41, 0x4E, 0x47, 0x45, 0x4B, 0x56, 0x00]

def currentVersion : UInt32 := 1

def size : UInt64 := 40

/-- How many of its bytes the checksum covers. -/
def coveredSize : Nat := 32

/-- What a record of the index holds besides its key. -/
def recordSuffixSize : UInt64 := 12

def ofCounts (keySize : UInt32) (entryCount indexOffset : UInt64) : Trailer :=
  ⟨currentVersion, keySize, entryCount, indexOffset⟩

def recordSize (t : Trailer) : UInt64 :=
  t.keySize.toUInt64 + recordSuffixSize

def indexLength? (t : Trailer) : Option UInt64 :=
  Word.mul? t.entryCount t.recordSize

/-- The bytes of the records from `low` up to `high`. Its arithmetic is exact on a trailer
that passed `validate`, for positions up to the entry count. -/
def recordsSpan (t : Trailer) (low high : UInt64) : Span :=
  ⟨t.indexOffset + low * t.recordSize, t.indexOffset + high * t.recordSize⟩

def recordSpan (t : Trailer) (position : UInt64) : Span :=
  t.recordsSpan position (position + 1)

/-- The bytes that the checksum covers. -/
def covered (t : Trailer) : Bytes :=
  magic ++ Bytes.ofUInt32 t.version ++ Bytes.ofUInt32 t.keySize ++
    Bytes.ofUInt64 t.entryCount ++ Bytes.ofUInt64 t.indexOffset

def encode (t : Trailer) : Bytes :=
  t.covered ++ Bytes.ofUInt32 (Crc32.checksum t.covered) ++ [0, 0, 0, 0]

@[simp] theorem length_covered (t : Trailer) : t.covered.length = coveredSize := by
  simp [covered, magic, coveredSize]

@[simp] theorem length_encode (t : Trailer) : t.encode.length = size.toNat := by
  simp [encode, coveredSize, size]

/-- The fields where `encode` puts them. -/
def ofBytes (bytes : Bytes) : Trailer where
  version := Bytes.uint32At bytes 8
  keySize := Bytes.uint32At bytes 12
  entryCount := Bytes.uint64At bytes 16
  indexOffset := Bytes.uint64At bytes 24

@[simp] theorem ofBytes_encode (t : Trailer) : ofBytes t.encode = t := by
  have version : Bytes.uint32At t.encode 8 = t.version := by
    simp only [encode, covered, List.append_assoc]
    exact Bytes.uint32At_append t.version _ (by simp [magic])
  have keySize : Bytes.uint32At t.encode 12 = t.keySize := by
    simp only [encode, covered, List.append_assoc]
    rw [← List.append_assoc]
    exact Bytes.uint32At_append t.keySize _ (by simp [magic])
  have entryCount : Bytes.uint64At t.encode 16 = t.entryCount := by
    simp only [encode, covered, List.append_assoc]
    rw [← List.append_assoc, ← List.append_assoc]
    exact Bytes.uint64At_append t.entryCount _ (by simp [magic])
  have indexOffset : Bytes.uint64At t.encode 24 = t.indexOffset := by
    simp only [encode, covered, List.append_assoc]
    rw [← List.append_assoc, ← List.append_assoc, ← List.append_assoc]
    exact Bytes.uint64At_append t.indexOffset _ (by simp [magic])
  simp only [ofBytes, version, keySize, entryCount, indexOffset]

/-- Checks the length, the magic, the version and, when asked to, the
checksum, in this order. -/
def decode (bytes : Bytes) (verifyChecksum : Bool) : Except FormatError Trailer :=
  let found := bytes.take 8
  let t := ofBytes bytes
  let stored := Bytes.uint32At bytes coveredSize
  let computed := Crc32.checksum (bytes.take coveredSize)
  if bytes.length ≠ size.toNat then .error (.truncatedTrailer size.toNat bytes.length)
  else if found ≠ magic then .error (.badMagic found)
  else if t.version = 0 ∨ currentVersion < t.version then
    .error (.unsupportedVersion t.version currentVersion)
  else if verifyChecksum ∧ stored ≠ computed then .error (.trailerChecksum stored computed)
  else .ok t

def checkKeySize (t : Trailer) (config : Config) : Except FormatError Unit :=
  if t.keySize = 0 ∨ config.maxKeySize < t.keySize then
    .error (.unsupportedKeySize t.keySize config.maxKeySize)
  else
    match config.expectedKeySize with
    | none => .ok ()
    | some expected =>
        if expected = t.keySize then .ok ()
        else .error (.keySizeMismatch expected t.keySize)

/-- The index and the trailer must end within the blob. -/
def checkBounds (t : Trailer) (blobLength : UInt64) : Except FormatError Unit :=
  match t.indexLength? with
  | none => .error (.indexSizeOverflow t.entryCount t.recordSize)
  | some indexLength =>
      match (Word.add? t.indexOffset indexLength).bind (Word.add? · size) with
      | none => .error (.indexEndOverflow t.indexOffset indexLength)
      | some required =>
          if blobLength < required then
            .error (.indexOutOfBounds t.indexOffset indexLength required blobLength)
          else .ok ()

def validate (t : Trailer) (blobLength : UInt64) (config : Config) :
    Except FormatError Unit := do
  t.checkKeySize config
  t.checkBounds blobLength

end Trailer

end SortedBlob
