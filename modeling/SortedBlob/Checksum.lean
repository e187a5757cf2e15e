import SortedBlob.Bytes

/-!
The CRC-32 of IEEE 802.3, least significant bit first.
-/

namespace SortedBlob.Crc32

def polynomial : UInt32 := 0xEDB88320

def shift (state : UInt32) : UInt32 :=
  if state &&& 1 = 1 then (state >>> 1) ^^^ polynomial else state >>> 1

def shifts : Nat → UInt32 → UInt32
  | 0, state => state
  | n + 1, state => shifts n (shift state)

def absorb (state : UInt32) (byte : UInt8) : UInt32 :=
  shifts 8 (state ^^^ byte.toUInt32)

def state (bytes : Bytes) : UInt32 :=
  bytes.foldl absorb 0xFFFFFFFF

def checksum (bytes : Bytes) : UInt32 :=
  state bytes ^^^ 0xFFFFFFFF

end SortedBlob.Crc32
