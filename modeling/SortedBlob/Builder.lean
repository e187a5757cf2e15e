import SortedBlob.IoError
import SortedBlob.Record

/-!
Collecting pairs for a blob, and the blob they make: the values in key
order, the index, the trailer.
-/

namespace SortedBlob

inductive BuildError where
  | io (error : IoError)
  | keySize (expected : UInt32) (actual : Nat)
  | duplicateKey (key : Bytes)
  | valueTooLong (length : Nat)
  | unsupportedKeySize (keySize : UInt32)
  deriving DecidableEq, Repr

def BuildError.message : BuildError → String
  | .io error => "IO error: " ++ error.message
  | .keySize expected actual =>
    s!"Key size mismatch: expected {expected} bytes, got {actual}"
  | .duplicateKey key => "Duplicate key: " ++ Hex.encode key
  | .valueTooLong length =>
    s!"Blob too large: value of {length} bytes exceeds u32 length field"
  | .unsupportedKeySize size => s!"Unsupported key size {size}"

/-- Pairs of a key and a value. -/
abbrev Entries := List (Bytes × Bytes)

namespace Entries

/-- Into pairs in increasing order of their keys; nothing when the key is there already. -/
def insert? (key value : Bytes) : Entries → Option Entries
  | [] => some [(key, value)]
  | (k, v) :: rest =>
      if key < k then some ((key, value) :: (k, v) :: rest)
      else if key = k then none
      else (insert? key value rest).map ((k, v) :: ·)

def values (entries : Entries) : List Bytes := entries.map Prod.snd

/-- Where the last value ends when the first starts at `offset`. -/
def endOffset (offset : UInt64) : Entries → UInt64
  | [] => offset
  | (_, value) :: rest => endOffset (offset + UInt64.ofNat value.length) rest

/-- Each value starts where the one before it ends. -/
def records (offset : UInt64) : Entries → List Record
  | [] => []
  | (key, value) :: rest =>
      ⟨key, offset, UInt32.ofNat value.length⟩ ::
        records (offset + UInt64.ofNat value.length) rest

@[simp] theorem length_records (offset : UInt64) (entries : Entries) :
    (records offset entries).length = entries.length := by
  induction entries generalizing offset with
  | nil => rfl
  | cons _ rest ih => simp [records, ih]

end Entries

structure Builder where
  keySize : UInt32
  /-- In strictly increasing order of the keys, all of which have the key size. -/
  entries : Entries
  deriving DecidableEq, Repr

namespace Builder

def new (keySize : UInt32) : Except BuildError Builder :=
  if keySize = 0 then .error (.unsupportedKeySize keySize) else .ok ⟨keySize, []⟩

def add (b : Builder) (key value : Bytes) : Except BuildError Builder :=
  if key.length ≠ b.keySize.toNat then .error (.keySize b.keySize key.length)
  else if UInt32.size ≤ value.length then .error (.valueTooLong value.length)
  else
    match b.entries.insert? key value with
    | none => .error (.duplicateKey key)
    | some entries => .ok { b with entries }

/-- Adds what can be added and leaves out the rest. -/
def addAll (b : Builder) : Entries → Builder
  | [] => b
  | (key, value) :: rest =>
      match b.add key value with
      | .ok b => b.addAll rest
      | .error _ => b.addAll rest

def records (b : Builder) : List Record := b.entries.records 0

def trailer (b : Builder) : Trailer :=
  Trailer.ofCounts b.keySize (UInt64.ofNat b.entries.length) (b.entries.endOffset 0)

/-- The blob in the pieces in which it is written. -/
def pieces (b : Builder) : List Bytes :=
  b.entries.values ++ [Index.encode b.records, b.trailer.encode]

def blob (b : Builder) : Bytes := b.pieces.flatten

end Builder

end SortedBlob
