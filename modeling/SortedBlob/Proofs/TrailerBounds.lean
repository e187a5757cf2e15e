import SortedBlob.Trailer

/-!
What `Trailer.validate` decides, over the natural numbers, and why the unchecked arithmetic
on the spans of records is exact once it has decided.
-/

namespace SortedBlob

namespace Trailer

/-- The index and the trailer end within a blob of the length. -/
def FitsIn (t : Trailer) (blobLength : UInt64) : Prop :=
  t.indexOffset.toNat + t.entryCount.toNat * t.recordSize.toNat + size.toNat ≤
    blobLength.toNat

def AllowedBy (t : Trailer) (config : Config) : Prop :=
  t.keySize ≠ 0 ∧ t.keySize ≤ config.maxKeySize ∧
    ∀ expected, config.expectedKeySize = some expected → expected = t.keySize

theorem toNat_recordSize (t : Trailer) : t.recordSize.toNat = t.keySize.toNat + 12 := by
  have bound := t.keySize.toNat_lt
  have suffix : recordSuffixSize.toNat = 12 := rfl
  have size : UInt64.size = 2 ^ 64 := rfl
  have fits : t.keySize.toUInt64.toNat + recordSuffixSize.toNat < UInt64.size := by
    rw [UInt32.toNat_toUInt64]
    omega
  rw [recordSize, Word.toNat_add_of_lt fits, UInt32.toNat_toUInt64, suffix]

theorem recordSize_pos (t : Trailer) : 0 < t.recordSize.toNat := by
  rw [t.toNat_recordSize]
  exact Nat.succ_pos _

theorem checkKeySize_eq_ok_iff {t : Trailer} {config : Config} :
    t.checkKeySize config = .ok () ↔ t.AllowedBy config := by
  unfold checkKeySize AllowedBy
  split
  · rename_i refused
    simp only [reduceCtorEq, false_iff]
    rintro ⟨positive, allowed, _⟩
    rcases refused with zero | large
    · exact positive zero
    · exact UInt32.not_le.mpr large allowed
  · rename_i kept
    obtain ⟨positive, allowed⟩ := not_or.mp kept
    cases config.expectedKeySize with
    | none => simp [positive, UInt32.not_lt.mp allowed]
    | some expected =>
        by_cases hexpected : expected = t.keySize
        · simp [hexpected, positive, UInt32.not_lt.mp allowed]
        · simp [hexpected]

/-- The bytes that the index takes. -/
def indexExtent (t : Trailer) : Nat := t.entryCount.toNat * (t.keySize.toNat + 12)

/-- The bytes up to the end of the trailer, when it follows the index. -/
def leastLength (t : Trailer) : Nat := t.indexOffset.toNat + t.indexExtent + 40

/-- What is said of an index that does not fit. -/
def misfit (t : Trailer) (blobLength : UInt64) : FormatError :=
  if UInt64.size ≤ t.indexExtent then .indexSizeOverflow t.entryCount t.recordSize
  else if UInt64.size ≤ t.leastLength then
    .indexEndOverflow t.indexOffset (UInt64.ofNat t.indexExtent)
  else
    .indexOutOfBounds t.indexOffset (UInt64.ofNat t.indexExtent)
      (UInt64.ofNat t.leastLength) blobLength

theorem indexExtent_eq (t : Trailer) :
    t.entryCount.toNat * t.recordSize.toNat = t.indexExtent := by
  rw [indexExtent, toNat_recordSize]

theorem fitsIn_iff {t : Trailer} {blobLength : UInt64} :
    t.FitsIn blobLength ↔ t.leastLength ≤ blobLength.toNat := by
  rw [FitsIn, indexExtent_eq]
  rfl

/-- The two checked sums and the checked product decide as the exact ones do. -/
theorem checkBounds_eq (t : Trailer) (blobLength : UInt64) :
    t.checkBounds blobLength =
      if t.leastLength ≤ blobLength.toNat then .ok ()
        else .error (t.misfit blobLength) := by
  have bound := blobLength.toNat_lt_size
  have extent_le : t.indexExtent ≤ t.leastLength := by
    rw [leastLength]
    omega
  unfold checkBounds misfit indexLength?
  rw [Word.mul?_eq, indexExtent_eq]
  by_cases large : UInt64.size ≤ t.indexExtent
  · rw [if_neg (Nat.not_lt.mpr large), if_neg (by omega), if_pos large]
  · have least : t.indexOffset.toNat + (UInt64.ofNat t.indexExtent).toNat + size.toNat =
        t.leastLength := by
      rw [UInt64.toNat_ofNat_of_lt' (Nat.not_le.mp large)]
      rfl
    rw [if_pos (Nat.not_le.mp large), if_neg large]
    simp only [Word.add?_bind_add?, least]
    by_cases far : UInt64.size ≤ t.leastLength
    · rw [if_neg (Nat.not_lt.mpr far), if_neg (by omega), if_pos far]
    · have short : blobLength < UInt64.ofNat t.leastLength ↔
          ¬ t.leastLength ≤ blobLength.toNat := by
        rw [UInt64.lt_iff_toNat_lt, UInt64.toNat_ofNat_of_lt' (Nat.not_le.mp far),
          Nat.not_le]
      simp only [if_pos (Nat.not_le.mp far), if_neg far, short, ite_not]

theorem checkBounds_eq_ok_iff {t : Trailer} {blobLength : UInt64} :
    t.checkBounds blobLength = .ok () ↔ t.FitsIn blobLength := by
  rw [checkBounds_eq, fitsIn_iff]
  split
  · rename_i fits
    exact iff_of_true rfl fits
  · rename_i misfits
    exact iff_of_false nofun misfits

theorem validate_eq_ok_iff {t : Trailer} {blobLength : UInt64} {config : Config} :
    t.validate blobLength config = .ok () ↔ t.AllowedBy config ∧ t.FitsIn blobLength := by
  rw [← checkKeySize_eq_ok_iff, ← checkBounds_eq_ok_iff]
  unfold validate
  cases t.checkKeySize config with
  | error error => simp [bind, Except.bind]
  | ok _ => simp [bind, Except.bind]

/-- A position of the index, in bytes. -/
def recordStart (t : Trailer) (position : Nat) : Nat :=
  t.indexOffset.toNat + position * t.recordSize.toNat

theorem recordStart_le {t : Trailer} {low high : Nat} (h : low ≤ high) :
    t.recordStart low ≤ t.recordStart high :=
  Nat.add_le_add_left (Nat.mul_le_mul_right _ h) _

theorem FitsIn.recordStart_add_size_le {t : Trailer} {blobLength : UInt64}
    (fits : t.FitsIn blobLength) {position : Nat} (h : position ≤ t.entryCount.toNat) :
    t.recordStart position + size.toNat ≤ blobLength.toNat :=
  Nat.le_trans (Nat.add_le_add_right (recordStart_le h) _) fits

/-- The word computed for a position, which is the sum of unchecked
words, is the exact one. -/
theorem FitsIn.toNat_position {t : Trailer} {blobLength : UInt64}
    (fits : t.FitsIn blobLength) {position : UInt64} (h : position ≤ t.entryCount) :
    (t.indexOffset + position * t.recordSize).toNat = t.recordStart position.toNat := by
  have bound := blobLength.toNat_lt_size
  have inside := fits.recordStart_add_size_le (UInt64.le_iff_toNat_le.mp h)
  rw [recordStart] at inside
  have product : (position * t.recordSize).toNat = position.toNat * t.recordSize.toNat :=
    Word.toNat_mul_of_lt (by omega)
  rw [Word.toNat_add_of_lt (by omega), product]
  rfl

theorem FitsIn.toNat_start {t : Trailer} {blobLength low high : UInt64}
    (fits : t.FitsIn blobLength) (hlow : low ≤ t.entryCount) :
    (t.recordsSpan low high).start.toNat = t.recordStart low.toNat :=
  fits.toNat_position hlow

theorem FitsIn.toNat_stop {t : Trailer} {blobLength low high : UInt64}
    (fits : t.FitsIn blobLength) (hhigh : high ≤ t.entryCount) :
    (t.recordsSpan low high).stop.toNat = t.recordStart high.toNat :=
  fits.toNat_position hhigh

theorem FitsIn.start_le_stop {t : Trailer} {blobLength low high : UInt64}
    (fits : t.FitsIn blobLength) (horder : low ≤ high) (hhigh : high ≤ t.entryCount) :
    (t.recordsSpan low high).start ≤ (t.recordsSpan low high).stop := by
  rw [UInt64.le_iff_toNat_le, fits.toNat_start (UInt64.le_trans horder hhigh),
    fits.toNat_stop hhigh]
  exact recordStart_le (UInt64.le_iff_toNat_le.mp horder)

theorem FitsIn.toNat_width {t : Trailer} {blobLength low high : UInt64}
    (fits : t.FitsIn blobLength) (horder : low ≤ high) (hhigh : high ≤ t.entryCount) :
    (t.recordsSpan low high).width.toNat =
      (high.toNat - low.toNat) * t.recordSize.toNat := by
  have order := UInt64.le_iff_toNat_le.mp horder
  rw [Span.width, UInt64.toNat_sub_of_le _ _ (fits.start_le_stop horder hhigh),
    fits.toNat_start (UInt64.le_trans horder hhigh), fits.toNat_stop hhigh, recordStart,
    recordStart, Nat.sub_mul]
  omega

end Trailer

end SortedBlob
