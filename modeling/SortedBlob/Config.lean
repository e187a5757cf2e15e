/-!
What a reader of blobs may be told.
-/

namespace SortedBlob

structure Config where
  /-- How many index ranges are kept; none when it is zero. -/
  readCacheCapacity : Nat := 4096
  /-- Windows of at most this many records are read at once; below two
  there is no such window. -/
  scanThreshold : UInt64 := 8
  /-- The largest key size a blob may declare. -/
  maxKeySize : UInt32 := 1024
  /-- The only key size a blob may declare, if one is given. -/
  expectedKeySize : Option UInt32 := none
  verifyTrailerChecksum : Bool := true
  deriving DecidableEq, Repr

instance : Inhabited Config := ⟨{}⟩

def Config.withoutReadCache (config : Config) : Config :=
  { config with readCacheCapacity := 0 }

end SortedBlob
