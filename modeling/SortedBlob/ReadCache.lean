import SortedBlob.Bytes
import SortedBlob.Span

/-!
Ranges that were read before. They are kept first come, first served, and never given up.
Main statements: `get?_offer_of_get?` and `size_offer_le`.
-/

namespace SortedBlob

structure ReadCache where
  capacity : Nat
  entries : List (Span × Bytes)
  deriving DecidableEq, Repr

namespace ReadCache

def empty (capacity : Nat) : ReadCache := ⟨capacity, []⟩

def size (cache : ReadCache) : Nat := cache.entries.length

def get? (cache : ReadCache) (span : Span) : Option Bytes :=
  cache.entries.lookup span

/-- Only a complete range is taken, and only while there is room. -/
def accepts (cache : ReadCache) (span : Span) (bytes : Bytes) : Bool :=
  bytes.length == span.width.toNat && cache.size < cache.capacity &&
    (cache.get? span).isNone

def offer (cache : ReadCache) (span : Span) (bytes : Bytes) : ReadCache :=
  if cache.accepts span bytes then { cache with entries := (span, bytes) :: cache.entries }
  else cache

@[simp] theorem get?_empty (capacity : Nat) (span : Span) :
    (empty capacity).get? span = none := rfl

@[simp] theorem capacity_offer (cache : ReadCache) (span : Span) (bytes : Bytes) :
    (cache.offer span bytes).capacity = cache.capacity := by
  unfold offer
  split <;> rfl

theorem get?_offer (cache : ReadCache) (span other : Span) (bytes : Bytes) :
    (cache.offer span bytes).get? other =
      if cache.accepts span bytes = true ∧ other = span then some bytes
      else cache.get? other := by
  unfold offer
  cases accepted : cache.accepts span bytes with
  | false => simp
  | true =>
      by_cases same : other = span
      · simp [get?, same]
      · simp [get?, List.lookup_cons, same, beq_eq_false_iff_ne.mpr same]

theorem get?_offer_of_get? {cache : ReadCache} {other : Span} {found : Bytes}
    (h : cache.get? other = some found) (span : Span) (bytes : Bytes) :
    (cache.offer span bytes).get? other = some found := by
  rw [get?_offer, if_neg, h]
  rintro ⟨accepted, rfl⟩
  simp [accepts, h] at accepted

theorem size_offer_le {cache : ReadCache} (h : cache.size ≤ cache.capacity) (span : Span)
    (bytes : Bytes) : (cache.offer span bytes).size ≤ cache.capacity := by
  unfold offer
  split
  · rename_i accepted
    simp only [accepts, Bool.and_eq_true, decide_eq_true_eq] at accepted
    exact accepted.1.2
  · exact h

end ReadCache

end SortedBlob
