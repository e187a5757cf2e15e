import SortedBlob.Source

/-!
A store that answers wrongly on demand.
-/

namespace SortedBlob

structure Faults where
  /-- A length to report in place of the true one. -/
  length : Option UInt64 := none
  failLength : Option IoError.Kind := none
  failRead : Option IoError.Kind := none
  /-- How many reads are still let through before they fail. -/
  readsBeforeFailure : Nat := 0
  /-- Where a read starts that is never answered. -/
  stallAt : Option UInt64 := none
  /-- What a read that starts there is answered with. -/
  served : List (UInt64 × Bytes) := []
  /-- By how many bytes the answer to a read that starts there is too long. -/
  resized : List (UInt64 × Int) := []
  deriving Repr

namespace Faults

def injected (kind : IoError.Kind) : Interruption :=
  .failed ⟨kind, "injected failure"⟩

/-- Cut at the end, or extended there with bytes `0xEE`. -/
def resize (delta : Int) (bytes : Bytes) : Bytes :=
  bytes.take (bytes.length - (-delta).toNat) ++ List.replicate delta.toNat 0xEE

def answer (faults : Faults) (store : Store) (span : Span) : Reply Bytes :=
  if faults.stallAt = some span.start then .error .dropped
  else
    match faults.served.lookup span.start with
    | some bytes => .ok bytes
    | none =>
        match store.read span with
        | .error error => .error (.failed error)
        | .ok bytes => .ok (resize ((faults.resized.lookup span.start).getD 0) bytes)

def read (store : Store) (span : Span) (faults : Faults) : Reply Bytes × Faults :=
  match faults.failRead, faults.readsBeforeFailure with
  | none, _ => (faults.answer store span, faults)
  | some kind, 0 => (.error (injected kind), faults)
  | some _, left + 1 =>
    (faults.answer store span, { faults with readsBeforeFailure := left })

def reportedLength (store : Store) (faults : Faults) : Reply UInt64 :=
  match faults.failLength with
  | some kind => .error (injected kind)
  | none => .ok (faults.length.getD store.length)

end Faults

def Store.faultySource (store : Store) : Source Faults where
  ask _ faults := faults
  length faults := (faults.reportedLength store, faults)
  read _ span faults := faults.read store span

end SortedBlob
