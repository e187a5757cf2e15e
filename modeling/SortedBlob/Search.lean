import SortedBlob.Plan
import SortedBlob.Record

/-!
Finding a key in the index: the window of positions where it can lie is halved with one read
per step, until it is small enough to be read at once and halved in memory. Every key read
must lie between the keys that bound the window.
-/

namespace SortedBlob

/-- The positions from `low` up to `high`, and the keys just outside of them. -/
structure Window where
  low : UInt64
  high : UInt64
  below : Option Bytes
  above : Option Bytes
  deriving DecidableEq, Repr

def between (below above : Option Bytes) (key : Bytes) : Bool :=
  below.all (fun bound => bound < key) && above.all (fun bound => key < bound)

/-- The first position whose key is not between its predecessor's and `above`. -/
def firstDisorder? (above : Option Bytes) (previous : Option Bytes) (position : UInt64) :
    List Record → Option UInt64
  | [] => none
  | r :: rest =>
      if between previous above r.key then
        firstDisorder? above (some r.key) (position + 1) rest
      else some position

namespace Index

/-- Halves the `count` places from `first` on until one is left. No place is left out that
holds the key, if the records are in order. -/
def narrow (records : List Record) (key : Bytes) (first count : Nat)
    (inside : 0 < count ∧ first + count ≤ records.length) : Fin records.length :=
  if _h : 1 < count then
    if key < records[first + count / 2].key then
      narrow records key first (count - count / 2) (by omega)
    else narrow records key (first + count / 2) (count - count / 2) (by omega)
  else ⟨first, by omega⟩
termination_by count

/-- Where in memory, among records that are in order, the one with the key is. -/
def place? (records : List Record) (key : Bytes) : Option (Fin records.length) :=
  if h : 0 < records.length then
    let place := narrow records key 0 records.length (by omega)
    if (records.get place).key = key then some place else none
  else none

end Index

namespace Window

def whole (entryCount : UInt64) : Window := ⟨0, entryCount, none, none⟩

def width (w : Window) : UInt64 := w.high - w.low

def middle (w : Window) : UInt64 := w.low + w.width / 2

/-- What is left of the window when `key` was found in the middle and is too small. -/
def upperHalf (w : Window) (key : Bytes) : Window :=
  { w with low := w.middle + 1, below := some key }

/-- What is left of the window when `key` was found in the middle and is too large. -/
def lowerHalf (w : Window) (key : Bytes) : Window :=
  { w with high := w.middle, above := some key }

theorem toNat_width {w : Window} (h : w.low < w.high) :
    w.width.toNat = w.high.toNat - w.low.toNat :=
  UInt64.toNat_sub_of_le _ _ (UInt64.le_of_lt h)

theorem toNat_middle {w : Window} (h : w.low < w.high) :
    w.middle.toNat = w.low.toNat + (w.high.toNat - w.low.toNat) / 2 := by
  have ordered := UInt64.lt_iff_toNat_lt.mp h
  have bound := w.high.toNat_lt_size
  have half : (w.width / 2).toNat = (w.high.toNat - w.low.toNat) / 2 := by
    rw [UInt64.toNat_div, toNat_width h]
    rfl
  rw [middle, Word.toNat_add_of_lt (by omega), half]

theorem middle_lt {w : Window} (h : w.low < w.high) : w.middle < w.high := by
  have ordered := UInt64.lt_iff_toNat_lt.mp h
  have middle := toNat_middle h
  rw [UInt64.lt_iff_toNat_lt]
  omega

theorem low_le_middle {w : Window} (h : w.low < w.high) : w.low ≤ w.middle := by
  rw [UInt64.le_iff_toNat_le, toNat_middle h]
  exact Nat.le_add_right _ _

theorem upperHalf_narrower {w : Window} (h : w.low < w.high) (key : Bytes) :
    (w.upperHalf key).high.toNat - (w.upperHalf key).low.toNat <
      w.high.toNat - w.low.toNat := by
  have ordered := UInt64.lt_iff_toNat_lt.mp h
  have middle := toNat_middle h
  have next := Word.toNat_succ_of_lt (middle_lt h)
  simp only [upperHalf, next]
  omega

theorem lowerHalf_narrower {w : Window} (h : w.low < w.high) (key : Bytes) :
    (w.lowerHalf key).high.toNat - (w.lowerHalf key).low.toNat <
      w.high.toNat - w.low.toNat := by
  have ordered := UInt64.lt_iff_toNat_lt.mp h
  have middle := toNat_middle h
  simp only [lowerHalf]
  omega

/-- The answer from all records of the window, given their bytes. The whole window is
checked before the key is looked for. -/
def scan (w : Window) (t : Trailer) (key : Bytes) (bytes : Bytes) :
    Except FormatError (Option Record) :=
  let expected := (t.recordsSpan w.low w.high).width.toNat
  if bytes.length ≠ expected then .error (.truncatedRecord w.low expected bytes.length)
  else
    let records := Index.decode t.keySize.toNat w.width.toNat bytes
    match firstDisorder? w.above w.below w.low records with
    | some position => .error (.unsortedIndex position)
    | none => .ok ((Index.place? records key).map records.get)

def search (t : Trailer) (scanThreshold : UInt64) (key : Bytes) (w : Window) :
    Plan (Except FormatError (Option Record)) :=
  if _h : w.low < w.high then
    if 1 < scanThreshold ∧ w.width ≤ scanThreshold then
      .read .index (t.recordsSpan w.low w.high) fun bytes => .done (w.scan t key bytes)
    else
      .read .index (t.recordSpan w.middle) fun bytes =>
        match Record.decode bytes t.keySize.toNat w.middle with
        | .error error => .done (.error error)
        | .ok r =>
            if between w.below w.above r.key = false then
              .done (.error (.unsortedIndex w.middle))
            else if r.key = key then .done (.ok (some r))
            else if r.key < key then search t scanThreshold key (w.upperHalf r.key)
            else search t scanThreshold key (w.lowerHalf r.key)
  else .done (.ok none)
termination_by w.high.toNat - w.low.toNat
decreasing_by
  · exact upperHalf_narrower ‹_› _
  · exact lowerHalf_narrower ‹_› _

end Window

end SortedBlob
