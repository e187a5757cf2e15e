import SortedBlob.Checksum
import SortedBlob.Proofs.ByteFields

/-!
The checksum as algebra over exclusive or: a shift of the state is linear and loses nothing,
so a state tells the last four bytes that led to it (`absorbs_eq`), and all bytes that end
with their own checksum lead to one and the same state (`state_append_checksum`).
-/

namespace SortedBlob.Crc32

theorem and_one_cases (state : UInt32) : state &&& 1 = 0 ∨ state &&& 1 = 1 := by
  have bit : (state &&& 1).toNat = state.toNat % 2 := by
    rw [UInt32.toNat_and]
    exact Nat.and_one_is_mod _
  rw [← UInt32.toNat_inj, ← UInt32.toNat_inj, bit]
  exact Nat.mod_two_eq_zero_or_one _

theorem xor_and_one (first second : UInt32) :
    (first ^^^ second) &&& 1 = (first &&& 1) ^^^ (second &&& 1) := by
  rw [← UInt32.toNat_inj]
  simp only [UInt32.toNat_and, UInt32.toNat_xor, Nat.and_xor_distrib_right]

theorem shift_of_even {state : UInt32} (even : state &&& 1 = 0) :
    shift state = state >>> 1 := by
  rw [shift, even]
  rfl

theorem shift_of_odd {state : UInt32} (odd : state &&& 1 = 1) :
    shift state = (state >>> 1) ^^^ polynomial := by
  rw [shift, if_pos odd]

theorem shift_xor (first second : UInt32) :
    shift (first ^^^ second) = shift first ^^^ shift second := by
  have bit := xor_and_one first second
  cases and_one_cases first with
  | inl even =>
      cases and_one_cases second with
      | inl even' =>
          rw [even, even'] at bit
          rw [shift_of_even bit, shift_of_even even, shift_of_even even',
            UInt32.shiftRight_xor]
      | inr odd' =>
          rw [even, odd'] at bit
          rw [shift_of_odd bit, shift_of_even even, shift_of_odd odd',
            UInt32.shiftRight_xor, UInt32.xor_assoc]
  | inr odd =>
      cases and_one_cases second with
      | inl even' =>
          rw [odd, even'] at bit
          rw [shift_of_odd bit, shift_of_odd odd, shift_of_even even',
            UInt32.shiftRight_xor]
          ac_rfl
      | inr odd' =>
          rw [odd, odd'] at bit
          rw [shift_of_even bit, shift_of_odd odd, shift_of_odd odd', UInt32.shiftRight_xor]
          -- The polynomial comes in twice.
          calc (first >>> 1) ^^^ (second >>> 1)
              = (first >>> 1) ^^^ (second >>> 1) ^^^ (polynomial ^^^ polynomial) := by
                rw [UInt32.xor_self, UInt32.xor_zero]
            _ = ((first >>> 1) ^^^ polynomial) ^^^ ((second >>> 1) ^^^ polynomial) := by
                ac_rfl

/-- The polynomial has the one bit that no state has once it is shifted. -/
theorem eq_zero_of_shift {state : UInt32} (h : shift state = 0) : state = 0 := by
  have small := state.toNat_lt
  have half : (state >>> 1).toNat = state.toNat / 2 := by
    rw [UInt32.toNat_shiftRight]
    rfl
  rcases and_one_cases state with even | odd
  · rw [shift_of_even even, ← UInt32.toNat_inj, half] at h
    rw [← UInt32.toNat_inj, UInt32.toNat_and] at even
    have bit : state.toNat % 2 = 0 := (Nat.and_one_is_mod _).symm.trans even
    rw [← UInt32.toNat_inj]
    have zero : (0 : UInt32).toNat = 0 := rfl
    omega
  · rw [shift_of_odd odd, UInt32.xor_eq_zero_iff, ← UInt32.toNat_inj, half] at h
    have high : polynomial.toNat = 0xEDB88320 := rfl
    omega

theorem shift_injective {first second : UInt32} (h : shift first = shift second) :
    first = second := by
  apply UInt32.xor_eq_zero_iff.mp
  apply eq_zero_of_shift
  rw [shift_xor, h, UInt32.xor_self]

/-- Nothing but a bit that falls out is folded back. -/
theorem shift_double {n : Nat} (h : 2 * n < UInt32.size) :
    shift (UInt32.ofNat (2 * n)) = UInt32.ofNat n := by
  have exact : (UInt32.ofNat (2 * n)).toNat = 2 * n := UInt32.toNat_ofNat_of_lt' h
  have even : UInt32.ofNat (2 * n) &&& 1 = 0 := by
    rw [← UInt32.toNat_inj, UInt32.toNat_and, exact]
    exact (Nat.and_one_is_mod _).trans (Nat.mul_mod_right 2 n)
  rw [shift_of_even even, ← UInt32.toNat_inj, UInt32.toNat_shiftRight, exact,
    UInt32.toNat_ofNat_of_lt' (by omega)]
  exact Nat.mul_div_cancel_left n (by decide)

theorem shifts_xor (count : Nat) (first second : UInt32) :
    shifts count (first ^^^ second) = shifts count first ^^^ shifts count second := by
  induction count generalizing first second with
  | zero => rfl
  | succ count ih => simp only [shifts, shift_xor, ih]

theorem shifts_injective (count : Nat) {first second : UInt32}
    (h : shifts count first = shifts count second) : first = second := by
  induction count generalizing first second with
  | zero => exact h
  | succ count ih => exact shift_injective (ih h)

theorem shifts_add (first second : Nat) (state : UInt32) :
    shifts (first + second) state = shifts second (shifts first state) := by
  induction first generalizing state with
  | zero => rw [Nat.zero_add, shifts]
  | succ first ih => rw [Nat.succ_add, shifts, ih, shifts]

theorem shifts_eight {n : Nat} (h : 256 * n < UInt32.size) :
    shifts 8 (UInt32.ofNat (256 * n)) = UInt32.ofNat n := by
  have doubled : 256 * n = 2 * (2 * (2 * (2 * (2 * (2 * (2 * (2 * n))))))) := by omega
  rw [doubled]
  simp (disch := omega) only [shifts, shift_double]

/-- A byte and a multiple of 256 have no bit in common. -/
theorem ofNat_byte_add (byte : UInt8) {n : Nat} (h : byte.toNat + 256 * n < UInt32.size) :
    UInt32.ofNat (byte.toNat + 256 * n) = byte.toUInt32 ^^^ UInt32.ofNat (256 * n) := by
  have small : byte.toNat < 2 ^ 8 := byte.toNat_lt
  have disjoint : 2 ^ 8 * n + byte.toNat = byte.toNat ^^^ (2 ^ 8 * n) := by
    apply Nat.eq_of_testBit_eq
    intro position
    rw [Nat.testBit_two_pow_mul_add _ small, Nat.testBit_xor, Nat.testBit_two_pow_mul]
    by_cases low : position < 8
    · simp [low, Nat.not_le.mpr low]
    · have clear : byte.toNat.testBit position = false :=
        Nat.testBit_lt_two_pow
          (Nat.lt_of_lt_of_le small (Nat.pow_le_pow_right (by decide) (by omega)))
      simp [low, clear, Nat.not_lt.mp low]
  rw [← UInt32.toNat_inj, UInt32.toNat_xor, UInt32.toNat_ofNat_of_lt' h,
    UInt32.toNat_ofNat_of_lt' (by omega), UInt8.toNat_toUInt32, Nat.add_comm]
  exact disjoint

/-- Up to four bytes are taken in as the number that they write, all at once. -/
theorem absorbs_eq (bytes : Bytes) (short : bytes.length ≤ 4) (state : UInt32) :
    bytes.foldl absorb state =
      shifts (8 * bytes.length) (state ^^^ UInt32.ofNat (Bytes.toNat bytes)) := by
  induction bytes generalizing state with
  | nil => exact UInt32.xor_zero.symm
  | cons byte rest ih =>
      have whole : byte.toNat + 256 * Bytes.toNat rest < UInt32.size :=
        Bytes.toNat_lt_of_length_le short
      calc rest.foldl absorb (absorb state byte)
          = shifts (8 * rest.length)
              (shifts 8 (state ^^^ byte.toUInt32) ^^^ UInt32.ofNat (Bytes.toNat rest)) :=
            ih (Nat.le_of_succ_le short) _
        _ = shifts (8 * rest.length)
              (shifts 8
                (state ^^^ byte.toUInt32 ^^^ UInt32.ofNat (256 * Bytes.toNat rest))) := by
            rw [shifts_xor 8 (state ^^^ byte.toUInt32), shifts_eight (by omega)]
        _ = shifts (8 * (rest.length + 1))
              (state ^^^ UInt32.ofNat (byte.toNat + 256 * Bytes.toNat rest)) := by
            rw [← shifts_add, ofNat_byte_add byte whole, UInt32.xor_assoc, Nat.mul_succ,
              Nat.add_comm]

theorem absorbs_injective (bytes : Bytes) {first second : UInt32}
    (h : bytes.foldl absorb first = bytes.foldl absorb second) : first = second := by
  induction bytes generalizing first second with
  | nil => exact h
  | cons byte rest ih => exact (UInt32.xor_left_inj _).mp (shifts_injective 8 (ih h))

theorem eq_of_absorbs_eq {state : UInt32} {bytes other : Bytes}
    (length : bytes.length = other.length) (short : bytes.length ≤ 4)
    (h : bytes.foldl absorb state = other.foldl absorb state) : bytes = other := by
  rw [absorbs_eq bytes short, absorbs_eq other (length ▸ short), length] at h
  have word := (UInt32.xor_right_inj _).mp (shifts_injective _ h)
  have fits := Bytes.toNat_lt_of_length_le short
  have fits' := Bytes.toNat_lt_of_length_le (length ▸ short)
  apply Bytes.eq_of_toNat_eq length
  rw [← UInt32.toNat_ofNat_of_lt' fits, word, UInt32.toNat_ofNat_of_lt' fits']

/-- Bytes that lead to the same state do not differ in one stretch of four bytes only. -/
theorem eq_of_state_eq {bytes other : Bytes} (start : Nat)
    (length : bytes.length = other.length)
    (near : ∀ position, bytes[position]? ≠ other[position]? →
      start ≤ position ∧ position < start + 4)
    (h : state bytes = state other) : bytes = other := by
  have same {position : Nat} (apart : position < start ∨ start + 4 ≤ position) :
      bytes[position]? = other[position]? := by
    apply Decidable.not_not.mp
    intro differ
    have := near position differ
    omega
  have before : bytes.take start = other.take start := by
    apply List.ext_getElem?
    intro position
    rw [List.getElem?_take, List.getElem?_take]
    split
    · exact same (.inl (by assumption))
    · rfl
  have after : bytes.drop (start + 4) = other.drop (start + 4) := by
    apply List.ext_getElem?
    intro position
    rw [List.getElem?_drop, List.getElem?_drop]
    exact same (.inr (Nat.le_add_right _ _))
  have parts := Bytes.take_slice_drop bytes start 4
  have parts' := Bytes.take_slice_drop other start 4
  have window : Bytes.slice bytes start 4 = Bytes.slice other start 4 := by
    rw [← parts, ← parts', before, after] at h
    simp only [state, List.foldl_append] at h
    refine eq_of_absorbs_eq ?_ ?_ (absorbs_injective _ h)
    · rw [Bytes.length_slice, Bytes.length_slice, length]
    · rw [Bytes.length_slice]
      exact Nat.min_le_left _ _
  rw [← parts, ← parts', before, window, after]

/-- Where all bytes lead that end with their own checksum. -/
def residue : UInt32 := shifts 32 0xFFFFFFFF

theorem state_append_checksum (bytes : Bytes) :
    state (bytes ++ Bytes.ofUInt32 (checksum bytes)) = residue := by
  have four : (Bytes.ofUInt32 (checksum bytes)).length = 4 := Bytes.length_ofUInt32 _
  calc state (bytes ++ Bytes.ofUInt32 (checksum bytes))
      = (Bytes.ofUInt32 (checksum bytes)).foldl absorb (state bytes) := List.foldl_append
    _ = shifts 32 (state bytes ^^^ checksum bytes) := by
        rw [absorbs_eq _ (Nat.le_of_eq four), four, Bytes.toNat_ofUInt32,
          UInt32.ofNat_toNat]
    _ = residue := by
        rw [checksum, ← UInt32.xor_assoc, UInt32.xor_self, UInt32.zero_xor]
        rfl

end SortedBlob.Crc32
