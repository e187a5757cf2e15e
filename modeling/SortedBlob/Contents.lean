import SortedBlob.Record

/-!
What a blob holds when it is read plainly, without a search: the records of its index, and
the value of a key by going through all of them.
-/

namespace SortedBlob

def Trailer.recordsIn (t : Trailer) (blob : Bytes) : List Record :=
  Index.decode t.keySize.toNat t.entryCount.toNat (blob.drop t.indexOffset.toNat)

/-- The value of a record, which has to end before the index. -/
def Record.valueIn (r : Record) (t : Trailer) (blob : Bytes) : Except FormatError Bytes :=
  if r.valueOffset.toNat + r.valueLength.toNat ≤ t.indexOffset.toNat then
    .ok (Bytes.slice blob r.valueOffset.toNat r.valueLength.toNat)
  else .error (.valueOutOfBounds r.valueOffset r.valueLength t.indexOffset)

def Trailer.valueIn (t : Trailer) (blob key : Bytes) : Except FormatError (Option Bytes) :=
  match (t.recordsIn blob).find? fun r => r.key == key with
  | none => .ok none
  | some r => (r.valueIn t blob).map some

end SortedBlob
