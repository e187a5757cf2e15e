import SortedBlob.Bytes

/-!
Words as fields of a byte string: a field that was read is written back as it was, and
nothing but its own bytes is read.
-/

namespace SortedBlob.Bytes

variable {bytes : Bytes} {start count width : Nat}

/-- Digits beyond the width make no difference. -/
theorem littleEndian_mod (width n : Nat) :
    littleEndian width (n % bound width) = littleEndian width n := by
  have digits := littleEndian_toNat (littleEndian width n)
  rw [length_littleEndian, toNat_littleEndian] at digits
  exact digits

theorem bound_le {first second : Nat} (h : first ≤ second) :
    bound first ≤ bound second := by
  induction h with
  | refl => exact Nat.le_refl _
  | step _ ih =>
      rw [bound]
      omega

theorem toNat_lt_of_length_le (h : bytes.length ≤ width) : toNat bytes < bound width :=
  Nat.lt_of_lt_of_le (toNat_lt bytes) (bound_le h)

theorem eq_of_toNat_eq {other : Bytes} (length : bytes.length = other.length)
    (same : toNat bytes = toNat other) : bytes = other := by
  rw [← littleEndian_toNat bytes, ← littleEndian_toNat other, length, same]

theorem toNat_ofUInt32 (n : UInt32) : toNat (ofUInt32 n) = n.toNat := by
  rw [ofUInt32, toNat_littleEndian]
  exact Nat.mod_eq_of_lt n.toNat_lt_size

theorem ofUInt32_ofNat (n : Nat) : ofUInt32 (UInt32.ofNat n) = littleEndian 4 n := by
  rw [ofUInt32, UInt32.toNat_ofNat']
  exact littleEndian_mod 4 n

theorem ofUInt64_ofNat (n : Nat) : ofUInt64 (UInt64.ofNat n) = littleEndian 8 n := by
  rw [ofUInt64, UInt64.toNat_ofNat']
  exact littleEndian_mod 8 n

theorem length_slice_of_le (h : start + count ≤ bytes.length) :
    (slice bytes start count).length = count := by
  rw [length_slice]
  omega

theorem littleEndian_slice (h : start + count ≤ bytes.length) :
    littleEndian count (toNat (slice bytes start count)) = slice bytes start count := by
  have digits := littleEndian_toNat (slice bytes start count)
  rw [length_slice_of_le h] at digits
  exact digits

theorem ofUInt32_uint32At (h : start + 4 ≤ bytes.length) :
    ofUInt32 (uint32At bytes start) = slice bytes start 4 := by
  rw [uint32At, ofUInt32_ofNat, littleEndian_slice h]

theorem ofUInt64_uint64At (h : start + 8 ≤ bytes.length) :
    ofUInt64 (uint64At bytes start) = slice bytes start 8 := by
  rw [uint64At, ofUInt64_ofNat, littleEndian_slice h]

theorem toNat_uint32At (h : start + 4 ≤ bytes.length) :
    (uint32At bytes start).toNat = toNat (slice bytes start 4) := by
  have small := toNat_lt (slice bytes start 4)
  rw [length_slice_of_le h] at small
  exact UInt32.toNat_ofNat_of_lt' small

theorem exists_uint32_iff {P : UInt32 → Prop} (h : start + 4 ≤ bytes.length) :
    (∃ word : UInt32, word.toNat = toNat (slice bytes start 4) ∧ P word) ↔
      P (uint32At bytes start) := by
  rw [← toNat_uint32At h]
  constructor
  · rintro ⟨word, same, holds⟩
    rwa [← UInt32.toNat_inj.mp same]
  · intro holds
    exact ⟨_, rfl, holds⟩

theorem slice_append_slice (bytes : Bytes) (start first second : Nat) :
    slice bytes start first ++ slice bytes (start + first) second =
      slice bytes start (first + second) := by
  rw [slice, slice, slice, ← List.drop_drop, List.take_add]

theorem take_slice_drop (bytes : Bytes) (start count : Nat) :
    bytes.take start ++ (slice bytes start count ++ bytes.drop (start + count)) =
      bytes := by
  rw [slice, ← List.drop_drop, List.take_append_drop, List.take_append_drop]

theorem slice_take (h : start + count ≤ width) :
    slice (bytes.take width) start count = slice bytes start count := by
  rw [slice, slice, List.drop_take, List.take_take, Nat.min_eq_left (by omega)]

theorem uint32At_take (h : start + 4 ≤ width) :
    uint32At (bytes.take width) start = uint32At bytes start := by
  rw [uint32At, uint32At, slice_take h]

theorem uint64At_take (h : start + 8 ≤ width) :
    uint64At (bytes.take width) start = uint64At bytes start := by
  rw [uint64At, uint64At, slice_take h]

end SortedBlob.Bytes
