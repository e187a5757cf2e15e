import SortedBlob.Bytes
import SortedBlob.IoError
import SortedBlob.Span

/-!
Where a blob lies: its length, and its bytes by range.
-/

namespace SortedBlob

structure Store where
  length : UInt64
  read : Span → Except IoError Bytes

def Span.inverted (span : Span) : IoError :=
  let ⟨start, stop⟩ := span
  ⟨.invalidInput, s!"inverted range [{start}, {stop})"⟩

def Span.pastEnd (span : Span) (length : UInt64) : IoError :=
  let ⟨start, stop⟩ := span
  ⟨.unexpectedEof, s!"range [{start}, {stop}) past end of {length}-byte blob"⟩

namespace Store

def ofBytes (bytes : Bytes) : Store :=
  let length := UInt64.ofNat bytes.length
  { length
    read := fun span =>
      if span.stop < span.start then .error span.inverted
      else if length < span.stop then .error (span.pastEnd length)
      else .ok (Bytes.slice bytes span.start.toNat span.width.toNat) }

/-! A store that is zero but for a few segments, of which later ones
lie over earlier ones. -/

/-- What `base`, the bytes from `start` on, becomes under a segment at `offset`. -/
def overlay (start : Nat) (base : Bytes) (offset : Nat) (segment : Bytes) : Bytes :=
  let lead := offset - start
  let piece := (segment.drop (start - offset)).take (base.length - lead)
  if piece.isEmpty then base else base.take lead ++ piece ++ base.drop (lead + piece.length)

def sparseReadLimit : UInt64 := 1048576

def sparse (length : UInt64) (segments : List (UInt64 × Bytes)) : Store where
  length := length
  read span :=
    if span.stop < span.start ∨ length < span.stop ∨ sparseReadLimit < span.width then
      .error ⟨.unexpectedEof, "sparse range"⟩
    else
      .ok (segments.foldl
        (fun base (offset, segment) => overlay span.start.toNat base offset.toNat segment)
        (List.replicate span.width.toNat 0))

end Store

end SortedBlob
