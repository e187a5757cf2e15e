import SortedBlob.Plan
import SortedBlob.Store

/-!
Whoever answers the requests of readers. A source may answer one request differently each
time, may fail, and may never answer, in which case the reader that waits is dropped.
-/

namespace SortedBlob

inductive Request where
  | length
  | read (purpose : Purpose) (span : Span)
  deriving DecidableEq, Repr

/-- Why a reader never saw the end of its plan. -/
inductive Interruption where
  | failed (error : IoError)
  | dropped
  deriving DecidableEq, Repr

abbrev Reply (α : Type) := Except Interruption α

/-- A source first gets a request, by `ask`, and some time later answers it. -/
structure Source (σ : Type) where
  ask : Request → σ → σ
  length : σ → Reply UInt64 × σ
  read : Purpose → Span → σ → Reply Bytes × σ

def Store.source (store : Store) : Source Unit where
  ask _ state := state
  length state := (.ok store.length, state)
  read _ span state := ((store.read span).mapError .failed, state)

/-- What a plan comes to when every request is answered from the store. -/
def Plan.eval {α : Type} (store : Store) : Plan α → Except IoError α
  | .done result => .ok result
  | .length next => (next store.length).eval store
  | .read _ span next =>
      match store.read span with
      | .error error => .error error
      | .ok bytes => (next bytes).eval store

inductive Signal where
  | asked (request : Request)
  | length (reply : Reply UInt64)
  | read (purpose : Purpose) (span : Span) (reply : Reply Bytes)

namespace Source

variable {σ : Type}

/-- The source with everything that passed between it and its readers, the latest first. -/
def recorded (source : Source σ) : Source (σ × List Signal) where
  ask request state := (source.ask request state.1, .asked request :: state.2)
  length state :=
    let (reply, inner) := source.length state.1
    (reply, inner, .length reply :: state.2)
  read purpose span state :=
    let (reply, inner) := source.read purpose span state.1
    (reply, inner, .read purpose span reply :: state.2)

end Source

namespace Signal

def span? : Signal → Option Span
  | .asked (.read _ span) => some span
  | _ => none

def asksLength : Signal → Bool
  | .asked .length => true
  | _ => false

end Signal

end SortedBlob
