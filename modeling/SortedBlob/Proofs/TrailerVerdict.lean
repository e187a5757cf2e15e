import SortedBlob.Proofs.TrailerBounds

/-!
Every answer of `Trailer.validate`, by exact numbers. Main statement:
`Trailer.validate_exact`.
-/

namespace SortedBlob

def Config.Supports (config : Config) (keySize : UInt32) : Prop :=
  1 ≤ keySize.toNat ∧ keySize.toNat ≤ config.maxKeySize.toNat

def Config.Expects (config : Config) (keySize : UInt32) : Prop :=
  ∀ expected, config.expectedKeySize = some expected → expected = keySize

namespace Trailer

/-- What is said of an index that does not fit, in words. -/
def misfitText (indexOffset entryCount recordSize blobLength : Nat) : String :=
  let extent := entryCount * recordSize
  let needed := indexOffset + extent + 40
  if UInt64.size ≤ extent then
    s!"Trailer out of bounds: index size overflows: {entryCount} records of {recordSize} bytes"
  else if UInt64.size ≤ needed then
    s!"Trailer out of bounds: index end overflows: offset {indexOffset} + {extent} bytes"
  else
    s!"Trailer out of bounds: index [{indexOffset}, +{extent}) and trailer need " ++
      s!"{needed} bytes, blob has {blobLength}"

theorem allowedBy_iff {t : Trailer} {config : Config} :
    t.AllowedBy config ↔ config.Supports t.keySize ∧ config.Expects t.keySize := by
  have positive : t.keySize ≠ 0 ↔ 1 ≤ t.keySize.toNat := by
    rw [Nat.one_le_iff_ne_zero, ne_eq, ne_eq, ← UInt32.toNat_inj]
    rfl
  rw [AllowedBy, positive, UInt32.le_iff_toNat_le, ← and_assoc]
  rfl

theorem checkKeySize_eq_error_iff {t : Trailer} {config : Config} {error : FormatError} :
    t.checkKeySize config = .error error ↔
      (¬ config.Supports t.keySize ∧
        error = .unsupportedKeySize t.keySize config.maxKeySize) ∨
        (config.Supports t.keySize ∧ ∃ expected, config.expectedKeySize = some expected ∧
          expected ≠ t.keySize ∧ error = .keySizeMismatch expected t.keySize) := by
  have refused : (t.keySize = 0 ∨ config.maxKeySize < t.keySize) ↔
      ¬ config.Supports t.keySize := by
    rw [Config.Supports, UInt32.lt_iff_toNat_lt, ← UInt32.toNat_inj, UInt32.toNat_zero]
    omega
  unfold checkKeySize
  by_cases supported : config.Supports t.keySize
  · rw [if_neg (by simpa [refused] using supported)]
    cases config.expectedKeySize with
    | none => simp [supported]
    | some expected =>
        by_cases same : expected = t.keySize
        · simp [supported, same]
        · simp [supported, same, eq_comm]
  · rw [if_pos (refused.mpr supported)]
    simp [supported, eq_comm]

theorem message_misfit (t : Trailer) (blobLength : UInt64) :
    (t.misfit blobLength).message =
      misfitText t.indexOffset.toNat t.entryCount.toNat (t.keySize.toNat + 12)
        blobLength.toNat := by
  unfold misfit misfitText leastLength indexExtent
  by_cases large : UInt64.size ≤ t.entryCount.toNat * (t.keySize.toNat + 12)
  · simp only [if_pos large]
    rw [← toNat_recordSize]
    rfl
  · have extent := UInt64.toNat_ofNat_of_lt' (Nat.not_le.mp large)
    by_cases far :
        UInt64.size ≤ t.indexOffset.toNat + t.entryCount.toNat * (t.keySize.toNat + 12) + 40
    · have text (offset length : UInt64) :
        (FormatError.indexEndOverflow offset length).message =
          let shown := length.toNat
          s!"Trailer out of bounds: index end overflows: offset {offset} + {shown} bytes" :=
            rfl
      simp only [if_neg large, if_pos far, text, extent]
      rfl
    · have needed := UInt64.toNat_ofNat_of_lt' (Nat.not_le.mp far)
      have text (offset length required blobLength : UInt64) :
          (FormatError.indexOutOfBounds offset length required blobLength).message =
            let shown := length.toNat
            let least := required.toNat
            s!"Trailer out of bounds: index [{offset}, +{shown}) and trailer need " ++
              s!"{least} bytes, blob has {blobLength}" := rfl
      simp only [if_neg large, if_neg far, text, extent, needed]
      rfl

theorem validate_eq_error_iff {t : Trailer} {blobLength : UInt64} {config : Config}
    {error : FormatError} :
    t.validate blobLength config = .error error ↔
      t.checkKeySize config = .error error ∨
        (t.AllowedBy config ∧ blobLength.toNat < t.leastLength ∧
          error = t.misfit blobLength) := by
  unfold validate
  cases hkey : t.checkKeySize config with
  | error first =>
      have refused : ¬ t.AllowedBy config := by
        rw [← checkKeySize_eq_ok_iff, hkey]
        simp
      simp [refused, bind, Except.bind]
  | ok _ =>
      have allowed := checkKeySize_eq_ok_iff.mp hkey
      by_cases fits : t.leastLength ≤ blobLength.toNat
      · simp [checkBounds_eq, fits, Nat.not_lt.mpr fits, bind, Except.bind]
      · simp [checkBounds_eq, fits, Nat.not_le.mp fits, allowed, bind, Except.bind, eq_comm]

/-- A trailer is accepted when its key size is supported and expected and the blob is long
enough, as numbers of any size go, and is else refused for the first of these that fails.
Once it is accepted, the words computed for a stretch of records are the exact ones, and lie
between the start of the index and that of the trailer. -/
theorem validate_exact (t : Trailer) (blobLength : UInt64) (config : Config) :
    (t.validate blobLength config = .ok () ↔
      (1 ≤ t.keySize.toNat ∧ t.keySize.toNat ≤ config.maxKeySize.toNat) ∧
        config.Expects t.keySize ∧
        t.indexOffset.toNat + t.entryCount.toNat * (t.keySize.toNat + 12) + 40 ≤
          blobLength.toNat) ∧
    (∀ error, t.validate blobLength config = .error error ↔
      (¬ config.Supports t.keySize ∧
        error = .unsupportedKeySize t.keySize config.maxKeySize) ∨
      (config.Supports t.keySize ∧ ∃ expected, config.expectedKeySize = some expected ∧
        expected ≠ t.keySize ∧ error = .keySizeMismatch expected t.keySize) ∨
      (config.Supports t.keySize ∧ config.Expects t.keySize ∧
        blobLength.toNat < t.leastLength ∧ error = t.misfit blobLength)) ∧
    (t.misfit blobLength).message =
      misfitText t.indexOffset.toNat t.entryCount.toNat (t.keySize.toNat + 12)
        blobLength.toNat ∧
    (t.validate blobLength config = .ok () →
      ∀ low high : UInt64, low ≤ high → high ≤ t.entryCount →
        let span := t.recordsSpan low high
        span.start.toNat = t.indexOffset.toNat + low.toNat * (t.keySize.toNat + 12) ∧
          span.stop.toNat = t.indexOffset.toNat + high.toNat * (t.keySize.toNat + 12) ∧
          t.indexOffset ≤ span.start ∧ span.start ≤ span.stop ∧
          span.stop.toNat + 40 ≤ blobLength.toNat) := by
  refine ⟨?_, fun error => ?_, message_misfit t blobLength,
    fun accepted low high order last => ?_⟩
  · rw [validate_eq_ok_iff, allowedBy_iff, fitsIn_iff, and_assoc]
    rfl
  · rw [validate_eq_error_iff, checkKeySize_eq_error_iff, allowedBy_iff, or_assoc,
      and_assoc]
  · have fits := (validate_eq_ok_iff.mp accepted).2
    have start : (t.recordsSpan low high).start.toNat = t.recordStart low.toNat :=
      fits.toNat_start (UInt64.le_trans order last)
    have stop : (t.recordsSpan low high).stop.toNat = t.recordStart high.toNat :=
      fits.toNat_stop last
    have inside := fits.recordStart_add_size_le (UInt64.le_iff_toNat_le.mp last)
    refine ⟨?_, ?_, ?_, fits.start_le_stop order last, ?_⟩
    · rw [start, recordStart, toNat_recordSize]
    · rw [stop, recordStart, toNat_recordSize]
    · rw [UInt64.le_iff_toNat_le, start]
      exact Nat.le_add_right _ _
    · rw [stop]
      exact inside

example : validate ⟨1, 4, 0x1000000000000000, 0⟩ 40 {} =
    .error (.indexSizeOverflow 0x1000000000000000 16) := by decide

end Trailer

end SortedBlob
