/-!
Byte strings, their pieces, and numbers written least significant byte first.
Main statements: `toNat_littleEndian` and `littleEndian_toNat`, which make
the two directions inverse.
-/

namespace SortedBlob

abbrev Bytes := List UInt8

namespace Bytes

def slice (bytes : Bytes) (start count : Nat) : Bytes :=
  (bytes.drop start).take count

@[simp] theorem length_slice (bytes : Bytes) (start count : Nat) :
    (slice bytes start count).length = min count (bytes.length - start) := by
  simp [slice]

def littleEndian : (width : Nat) → Nat → Bytes
  | 0, _ => []
  | width + 1, n => UInt8.ofNat n :: littleEndian width (n / 256)

def toNat : Bytes → Nat
  | [] => 0
  | byte :: rest => byte.toNat + 256 * toNat rest

/-- How many byte strings have the width. -/
def bound : (width : Nat) → Nat
  | 0 => 1
  | width + 1 => 256 * bound width

@[simp] theorem length_littleEndian (width n : Nat) :
    (littleEndian width n).length = width := by
  induction width generalizing n with
  | zero => rfl
  | succ width ih => simp [littleEndian, ih]

theorem toNat_lt (bytes : Bytes) : toNat bytes < bound bytes.length := by
  induction bytes with
  | nil => simp [toNat, bound]
  | cons byte rest ih =>
      have := byte.toNat_lt
      simp only [toNat, List.length_cons, bound]
      omega

theorem toNat_littleEndian (width n : Nat) :
    toNat (littleEndian width n) = n % bound width := by
  induction width generalizing n with
  | zero => simp [littleEndian, toNat, bound, Nat.mod_one]
  | succ width ih =>
      have digit : (UInt8.ofNat n).toNat = n % 256 := by simp
      rw [littleEndian, toNat, ih, digit, bound, Nat.mod_mul]

theorem littleEndian_toNat (bytes : Bytes) :
    littleEndian bytes.length (toNat bytes) = bytes := by
  induction bytes with
  | nil => rfl
  | cons byte rest ih =>
      have low := byte.toNat_lt
      have quotient : (byte.toNat + 256 * toNat rest) / 256 = toNat rest := by omega
      have digit : UInt8.ofNat (byte.toNat + 256 * toNat rest) = byte := by
        apply UInt8.toNat_inj.mp
        rw [UInt8.toNat_ofNat']
        omega
      simp only [toNat, List.length_cons, littleEndian, quotient, digit, ih]

def ofUInt32 (n : UInt32) : Bytes := littleEndian 4 n.toNat

def ofUInt64 (n : UInt64) : Bytes := littleEndian 8 n.toNat

@[simp] theorem length_ofUInt32 (n : UInt32) : (ofUInt32 n).length = 4 :=
  length_littleEndian 4 n.toNat

@[simp] theorem length_ofUInt64 (n : UInt64) : (ofUInt64 n).length = 8 :=
  length_littleEndian 8 n.toNat

def uint32At (bytes : Bytes) (start : Nat) : UInt32 :=
  UInt32.ofNat (toNat (slice bytes start 4))

def uint64At (bytes : Bytes) (start : Nat) : UInt64 :=
  UInt64.ofNat (toNat (slice bytes start 8))

theorem slice_append {start count : Nat} {before piece : Bytes} (after : Bytes)
    (hstart : before.length = start) (hcount : piece.length = count) :
    slice (before ++ (piece ++ after)) start count = piece := by
  subst hstart hcount
  simp [slice]

theorem uint32At_append {start : Nat} {before : Bytes} (n : UInt32) (after : Bytes)
    (h : before.length = start) :
    uint32At (before ++ (ofUInt32 n ++ after)) start = n := by
  have fits : n.toNat < bound 4 := n.toNat_lt_size
  rw [uint32At, slice_append after h (length_ofUInt32 n), ofUInt32, toNat_littleEndian,
    Nat.mod_eq_of_lt fits, UInt32.ofNat_toNat]

theorem uint64At_append {start : Nat} {before : Bytes} (n : UInt64) (after : Bytes)
    (h : before.length = start) :
    uint64At (before ++ (ofUInt64 n ++ after)) start = n := by
  have fits : n.toNat < bound 8 := n.toNat_lt_size
  rw [uint64At, slice_append after h (length_ofUInt64 n), ofUInt64, toNat_littleEndian,
    Nat.mod_eq_of_lt fits, UInt64.ofNat_toNat]

end Bytes

end SortedBlob
