import SortedBlob.Trailer

/-!
Records of the index: a key and the place of its value.
-/

namespace SortedBlob

structure Record where
  key : Bytes
  valueOffset : UInt64
  valueLength : UInt32
  deriving DecidableEq, Repr

namespace Record

def size (keySize : Nat) : Nat :=
  keySize + Trailer.recordSuffixSize.toNat

def encode (r : Record) : Bytes :=
  r.key ++ Bytes.ofUInt64 r.valueOffset ++ Bytes.ofUInt32 r.valueLength

@[simp] theorem length_encode (r : Record) : r.encode.length = size r.key.length := by
  simp [encode, size, Trailer.recordSuffixSize]

/-- The fields where `encode` puts them. -/
def ofBytes (keySize : Nat) (bytes : Bytes) : Record where
  key := bytes.take keySize
  valueOffset := Bytes.uint64At bytes keySize
  valueLength := Bytes.uint32At bytes (keySize + 8)

theorem ofBytes_encode {keySize : Nat} {r : Record} (h : r.key.length = keySize) :
    ofBytes keySize r.encode = r := by
  unfold ofBytes encode
  simp only [List.append_assoc]
  congr 1
  · rw [← h, List.take_left']
    rfl
  · exact Bytes.uint64At_append r.valueOffset _ h
  · rw [← List.append_assoc, ← List.append_nil (Bytes.ofUInt32 r.valueLength)]
    exact Bytes.uint32At_append r.valueLength _ (by simp [h])

/-- The position is that of the record in its index; only an error shows it. -/
def decode (bytes : Bytes) (keySize : Nat) (position : UInt64) :
    Except FormatError Record :=
  if bytes.length = size keySize then .ok (ofBytes keySize bytes)
  else .error (.truncatedRecord position (size keySize) bytes.length)

theorem decode_encode {keySize : Nat} {r : Record} (h : r.key.length = keySize)
    (position : UInt64) : decode r.encode keySize position = .ok r := by
  rw [decode, if_pos (by rw [length_encode, h]), ofBytes_encode h]

def valueSpan? (r : Record) : Option Span :=
  (Word.add? r.valueOffset r.valueLength.toUInt64).map (Span.mk r.valueOffset)

end Record

/-! An index is its records one after the other. -/

def Index.encode (records : List Record) : Bytes :=
  records.flatMap Record.encode

def Index.decode (keySize : Nat) : (count : Nat) → Bytes → List Record
  | 0, _ => []
  | count + 1, bytes =>
      Record.ofBytes keySize (bytes.take (Record.size keySize)) ::
        decode keySize count (bytes.drop (Record.size keySize))

end SortedBlob
