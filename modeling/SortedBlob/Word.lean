/-!
Sums and products of 64-bit words that refuse to wrap, and plain ones that do not. Main
statements: `add?_eq` and `mul?_eq`, which read the former over the natural numbers.
-/

namespace SortedBlob.Word

def add? (a b : UInt64) : Option UInt64 :=
  if a.toNat + b.toNat < UInt64.size then some (a + b) else none

def mul? (a b : UInt64) : Option UInt64 :=
  if a.toNat * b.toNat < UInt64.size then some (a * b) else none

theorem toNat_add_of_lt {a b : UInt64} (fits : a.toNat + b.toNat < UInt64.size) :
    (a + b).toNat = a.toNat + b.toNat := by
  rw [UInt64.toNat_add]
  exact Nat.mod_eq_of_lt fits

theorem toNat_add_ofNat {a : UInt64} {count : Nat} (fits : a.toNat + count < UInt64.size) :
    (a + UInt64.ofNat count).toNat = a.toNat + count := by
  have exact : (UInt64.ofNat count).toNat = count := UInt64.toNat_ofNat_of_lt' (by omega)
  rw [toNat_add_of_lt (by omega), exact]

theorem toNat_mul_of_lt {a b : UInt64} (fits : a.toNat * b.toNat < UInt64.size) :
    (a * b).toNat = a.toNat * b.toNat := by
  rw [UInt64.toNat_mul]
  exact Nat.mod_eq_of_lt fits

theorem add?_eq_some_iff {a b c : UInt64} :
    add? a b = some c ↔ c.toNat = a.toNat + b.toNat := by
  have := c.toNat_lt_size
  unfold add?
  split
  · rename_i fits
    rw [Option.some.injEq, ← UInt64.toNat_inj, toNat_add_of_lt fits]
    exact eq_comm
  · simp only [reduceCtorEq, false_iff]
    omega

theorem add?_eq_none_iff {a b : UInt64} :
    add? a b = none ↔ UInt64.size ≤ a.toNat + b.toNat := by
  simp [add?]

theorem mul?_eq (a b : UInt64) :
    mul? a b =
      if a.toNat * b.toNat < UInt64.size then some (UInt64.ofNat (a.toNat * b.toNat))
        else none := by
  rw [mul?, UInt64.ofNat_mul, UInt64.ofNat_toNat, UInt64.ofNat_toNat]

theorem add?_eq (a b : UInt64) :
    add? a b =
      if a.toNat + b.toNat < UInt64.size then some (UInt64.ofNat (a.toNat + b.toNat))
        else none := by
  rw [add?, UInt64.ofNat_add, UInt64.ofNat_toNat, UInt64.ofNat_toNat]

/-- A sum of three that refuses to wrap refuses at the end, too. -/
theorem add?_bind_add? (a b c : UInt64) :
    (add? a b).bind (add? · c) =
      if a.toNat + b.toNat + c.toNat < UInt64.size then
        some (UInt64.ofNat (a.toNat + b.toNat + c.toNat))
      else none := by
  rw [add?_eq]
  by_cases fits : a.toNat + b.toNat < UInt64.size
  · rw [if_pos fits, Option.bind_some, add?_eq, UInt64.toNat_ofNat_of_lt' fits]
  · rw [if_neg fits, Option.bind_none, if_neg (by omega)]

/-! A word below another has a successor, which is its own plus one. -/

theorem toNat_succ_of_lt {n m : UInt64} (h : n < m) : (n + 1).toNat = n.toNat + 1 := by
  have below := UInt64.lt_iff_toNat_lt.mp h
  exact toNat_add_of_lt (Nat.lt_of_le_of_lt below m.toNat_lt_size)

theorem lt_succ_of_lt {n m : UInt64} (h : n < m) : n < n + 1 := by
  rw [UInt64.lt_iff_toNat_lt, toNat_succ_of_lt h]
  exact Nat.lt_succ_self _

theorem succ_le_of_lt {n m : UInt64} (h : n < m) : n + 1 ≤ m := by
  rw [UInt64.le_iff_toNat_le, toNat_succ_of_lt h]
  exact UInt64.lt_iff_toNat_lt.mp h

end SortedBlob.Word
