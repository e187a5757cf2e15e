import SortedBlob.Proofs.ChecksumAlgebra
import SortedBlob.Trailer

/-!
Which byte strings are trailers, and what is said of all others. Main statement:
`Trailer.decode_exact`.
-/

namespace SortedBlob

namespace Trailer

variable {t : Trailer} {bytes other : Bytes} {verifyChecksum : Bool}

theorem take_encode (t : Trailer) : t.encode.take coveredSize = t.covered := by
  rw [encode, List.append_assoc]
  exact List.take_left' (length_covered t)

theorem take_magic (t : Trailer) : t.encode.take 8 = magic := by
  simp only [encode, covered, List.append_assoc]
  exact List.take_left' rfl

theorem slice_encode (t : Trailer) :
    Bytes.slice t.encode coveredSize 4 = Bytes.ofUInt32 (Crc32.checksum t.covered) := by
  rw [encode, List.append_assoc]
  exact Bytes.slice_append _ (length_covered t) (Bytes.length_ofUInt32 _)

theorem uint32At_encode (t : Trailer) :
    Bytes.uint32At t.encode coveredSize = Crc32.checksum t.covered := by
  rw [encode, List.append_assoc]
  exact Bytes.uint32At_append _ _ (length_covered t)

/-- Fields that were read are encoded as they stood. -/
theorem covered_ofBytes (long : coveredSize ≤ bytes.length) (found : bytes.take 8 = magic) :
    (ofBytes bytes).covered = bytes.take coveredSize := by
  have size : coveredSize = 32 := rfl
  have start : bytes.take 8 = Bytes.slice bytes 0 8 := rfl
  simp only [covered, ofBytes]
  rw [Bytes.ofUInt32_uint32At (by omega), Bytes.ofUInt32_uint32At (by omega),
    Bytes.ofUInt64_uint64At (by omega), Bytes.ofUInt64_uint64At (by omega), ← found, start,
    Bytes.slice_append_slice, Bytes.slice_append_slice, Bytes.slice_append_slice,
    Bytes.slice_append_slice]
  rfl

/-- The fields lie in the bytes that the checksum covers. -/
theorem ofBytes_take {width : Nat} (h : coveredSize ≤ width) :
    ofBytes (bytes.take width) = ofBytes bytes := by
  have size : coveredSize = 32 := rfl
  simp only [ofBytes]
  rw [Bytes.uint32At_take (by omega), Bytes.uint32At_take (by omega),
    Bytes.uint64At_take (by omega), Bytes.uint64At_take (by omega)]

theorem version_refused_iff {version : UInt32} :
    (version = 0 ∨ currentVersion < version) ↔ version ≠ currentVersion := by
  have current : currentVersion.toNat = 1 := rfl
  rw [UInt32.lt_iff_toNat_lt, ← UInt32.toNat_inj, ne_eq, ← UInt32.toNat_inj,
    UInt32.toNat_zero]
  omega

theorem decode_eq (bytes : Bytes) (verifyChecksum : Bool) :
    decode bytes verifyChecksum =
      if bytes.length ≠ size.toNat then .error (.truncatedTrailer size.toNat bytes.length)
      else if bytes.take 8 ≠ magic then .error (.badMagic (bytes.take 8))
      else if (ofBytes bytes).version ≠ currentVersion then
        .error (.unsupportedVersion (ofBytes bytes).version currentVersion)
      else if verifyChecksum = true ∧
          Bytes.uint32At bytes coveredSize ≠ Crc32.checksum (bytes.take coveredSize) then
        .error (.trailerChecksum (Bytes.uint32At bytes coveredSize)
          (Crc32.checksum (bytes.take coveredSize)))
      else .ok (ofBytes bytes) := by
  simp only [decode, version_refused_iff]

theorem decode_encode_eq (t : Trailer) (verifyChecksum : Bool) :
    decode t.encode verifyChecksum =
      if t.version = currentVersion then .ok t
      else .error (.unsupportedVersion t.version currentVersion) := by
  rw [decode_eq, take_magic, take_encode, uint32At_encode, ofBytes_encode, length_encode]
  by_cases version : t.version = currentVersion
  · simp [version]
  · simp [version]

theorem decode_encode (h : t.version = currentVersion) (verifyChecksum : Bool) :
    decode t.encode verifyChecksum = .ok t := by
  rw [decode_encode_eq, if_pos h]

theorem decode_eq_ok_iff :
    decode bytes verifyChecksum = .ok t ↔
      bytes.length = size.toNat ∧ bytes.take 8 = magic ∧
        (ofBytes bytes).version = currentVersion ∧
        (verifyChecksum = true →
          Bytes.uint32At bytes coveredSize = Crc32.checksum (bytes.take coveredSize)) ∧
        ofBytes bytes = t := by
  rw [decode_eq]
  by_cases length : bytes.length = size.toNat
  · by_cases found : bytes.take 8 = magic
    · by_cases version : (ofBytes bytes).version = currentVersion
      · cases verifyChecksum with
        | false => simp [length, found, version]
        | true =>
            by_cases sound :
                Bytes.uint32At bytes coveredSize = Crc32.checksum (bytes.take coveredSize)
            · simp [length, found, version, sound]
            · simp [length, found, version, sound]
      · simp [length, found, version]
    · simp [length, found]
  · simp [length]

theorem decode_eq_error_iff {error : FormatError} :
    decode bytes verifyChecksum = .error error ↔
      (bytes.length ≠ size.toNat ∧ error = .truncatedTrailer size.toNat bytes.length) ∨
      (bytes.length = size.toNat ∧ bytes.take 8 ≠ magic ∧
        error = .badMagic (bytes.take 8)) ∨
      (bytes.length = size.toNat ∧ bytes.take 8 = magic ∧
        (ofBytes bytes).version ≠ currentVersion ∧
        error = .unsupportedVersion (ofBytes bytes).version currentVersion) ∨
      (bytes.length = size.toNat ∧ bytes.take 8 = magic ∧
        (ofBytes bytes).version = currentVersion ∧ verifyChecksum = true ∧
        Bytes.uint32At bytes coveredSize ≠ Crc32.checksum (bytes.take coveredSize) ∧
        error = .trailerChecksum (Bytes.uint32At bytes coveredSize)
          (Crc32.checksum (bytes.take coveredSize))) := by
  rw [decode_eq]
  by_cases length : bytes.length = size.toNat
  · by_cases found : bytes.take 8 = magic
    · by_cases version : (ofBytes bytes).version = currentVersion
      · cases verifyChecksum with
        | false => simp [length, found, version]
        | true =>
            by_cases sound :
                Bytes.uint32At bytes coveredSize = Crc32.checksum (bytes.take coveredSize)
            · simp [length, found, version, sound]
            · simp [length, found, version, sound, eq_comm]
      · simp [length, found, version, eq_comm]
    · simp [length, found, eq_comm]
  · simp [length, eq_comm]

/-- What is accepted is what encoding makes of the trailer, but for the checksum. -/
theorem take_eq_of_decode (h : decode bytes verifyChecksum = .ok t) :
    bytes.take coveredSize = t.covered := by
  obtain ⟨length, found, _, _, rfl⟩ := decode_eq_ok_iff.mp h
  exact (covered_ofBytes (by rw [length]; decide) found).symm

theorem decode_eq_ok_iff_image :
    decode bytes verifyChecksum = .ok t ↔
      bytes.length = size.toNat ∧ t.version = currentVersion ∧
        bytes.take coveredSize = t.encode.take coveredSize ∧
        (verifyChecksum = true →
          Bytes.slice bytes coveredSize 4 = Bytes.slice t.encode coveredSize 4) := by
  constructor
  · intro h
    have covers := take_eq_of_decode h
    obtain ⟨length, found, version, checked, rfl⟩ := decode_eq_ok_iff.mp h
    refine ⟨length, version, covers.trans (take_encode _).symm, fun verify => ?_⟩
    have long : coveredSize + 4 ≤ bytes.length := by
      rw [length]
      decide
    rw [slice_encode, ← covers, ← checked verify, Bytes.ofUInt32_uint32At long]
  · rintro ⟨length, version, covers, checked⟩
    have fields : ofBytes bytes = t := by
      rw [← ofBytes_take (Nat.le_refl _), covers, ofBytes_take (Nat.le_refl _),
        ofBytes_encode]
    have found : bytes.take 8 = magic := by
      have start := congrArg (List.take 8) covers
      rw [List.take_take, List.take_take] at start
      exact start.trans t.take_magic
    refine decode_eq_ok_iff.mpr
      ⟨length, found, by rw [fields, version], fun verify => ?_, fields⟩
    have stored := congrArg (fun field => UInt32.ofNat (Bytes.toNat field)) (checked verify)
    exact stored.trans (by rw [← Bytes.uint32At, uint32At_encode, covers, take_encode])

/-- The padding is not looked at. -/
theorem decode_congr (length : other.length = bytes.length)
    (same : other.take (coveredSize + 4) = bytes.take (coveredSize + 4)) :
    decode other verifyChecksum = decode bytes verifyChecksum := by
  have size : coveredSize = 32 := rfl
  have prefixes (width : Nat) (h : width ≤ coveredSize + 4) :
      other.take width = bytes.take width := by
    have start := congrArg (List.take width) same
    rwa [List.take_take, List.take_take, Nat.min_eq_left h] at start
  have fields : ofBytes other = ofBytes bytes := by
    rw [← ofBytes_take (Nat.le_refl coveredSize), prefixes _ (by omega),
      ofBytes_take (Nat.le_refl _)]
  have stored : Bytes.uint32At other coveredSize = Bytes.uint32At bytes coveredSize := by
    rw [← Bytes.uint32At_take (Nat.le_refl _), same, Bytes.uint32At_take (Nat.le_refl _)]
  rw [decode_eq, decode_eq, length, fields, stored, prefixes 8 (by omega),
    prefixes coveredSize (by omega)]

/-- A byte string is a trailer if it is what encoding makes of one, as far as it is looked
at. Of all others the first thing that is wrong is told. -/
theorem decode_exact (bytes : Bytes) (verifyChecksum : Bool) :
    (∀ t, decode bytes verifyChecksum = .ok t ↔
      bytes.length = 40 ∧ t.version = 1 ∧ bytes.take 32 = t.encode.take 32 ∧
        (verifyChecksum = true → Bytes.slice bytes 32 4 = Bytes.slice t.encode 32 4)) ∧
    (∀ error, decode bytes verifyChecksum = .error error ↔
      (bytes.length ≠ 40 ∧ error = .truncatedTrailer 40 bytes.length) ∨
      (bytes.length = 40 ∧ bytes.take 8 ≠ magic ∧ error = .badMagic (bytes.take 8)) ∨
      (bytes.length = 40 ∧ bytes.take 8 = magic ∧
        ∃ found : UInt32, found.toNat = Bytes.toNat (Bytes.slice bytes 8 4) ∧ found ≠ 1 ∧
          error = .unsupportedVersion found 1) ∨
      (bytes.length = 40 ∧ bytes.take 8 = magic ∧ Bytes.toNat (Bytes.slice bytes 8 4) = 1 ∧
        verifyChecksum = true ∧
        ∃ stored : UInt32, stored.toNat = Bytes.toNat (Bytes.slice bytes 32 4) ∧
          stored ≠ Crc32.checksum (bytes.take 32) ∧
          error = .trailerChecksum stored (Crc32.checksum (bytes.take 32)))) ∧
    (∀ other : Bytes, other.length = bytes.length → other.take 36 = bytes.take 36 →
      decode other verifyChecksum = decode bytes verifyChecksum) ∧
    (∀ t : Trailer, decode t.encode verifyChecksum =
      if t.version = 1 then .ok t else .error (.unsupportedVersion t.version 1)) := by
  refine ⟨fun t => decode_eq_ok_iff_image, fun error => ?_, fun other => decode_congr,
    fun t => t.decode_encode_eq verifyChecksum⟩
  rw [decode_eq_error_iff]
  refine or_congr Iff.rfl (or_congr Iff.rfl (or_congr ?_ ?_))
  · refine and_congr_right fun length => and_congr_right fun _ => ?_
    have long : 8 + 4 ≤ bytes.length := by
      rw [length]
      decide
    rw [Bytes.exists_uint32_iff long]
    rfl
  · refine and_congr_right fun length => and_congr_right fun _ => and_congr ?_ ?_
    · have long : 8 + 4 ≤ bytes.length := by
        rw [length]
        decide
      rw [← Bytes.toNat_uint32At long, ← UInt32.toNat_inj]
      rfl
    · have long : 32 + 4 ≤ bytes.length := by
        rw [length]
        decide
      rw [Bytes.exists_uint32_iff long]
      rfl

/-! A damaged trailer. -/

theorem state_take_encode (t : Trailer) :
    Crc32.state (t.encode.take (coveredSize + 4)) = Crc32.residue := by
  have fields : (t.covered ++ Bytes.ofUInt32 (Crc32.checksum t.covered)).length =
      coveredSize + 4 := by
    simp
  rw [encode, List.take_left' fields]
  exact Crc32.state_append_checksum t.covered

theorem state_take_of_decode (h : decode bytes true = .ok t) :
    Crc32.state (bytes.take (coveredSize + 4)) = Crc32.residue := by
  obtain ⟨_, _, covers, checked⟩ := decode_eq_ok_iff_image.mp h
  have same : bytes.take (coveredSize + 4) = t.encode.take (coveredSize + 4) := by
    rw [List.take_add, List.take_add, covers]
    exact congrArg _ (checked rfl)
  rw [same, state_take_encode]

/-- A trailer that was damaged in one place, of at most four bytes and with the padding left
aside, is not taken for another one, not even when the checksum itself is hit. -/
theorem decode_of_damage (t : Trailer) {start : Nat} (length : bytes.length = 40)
    (damaged : ∃ position < 36, bytes[position]? ≠ t.encode[position]?)
    (near : ∀ position < 36, bytes[position]? ≠ t.encode[position]? →
      start ≤ position ∧ position < start + 4) :
    ∃ error, decode bytes true = .error error := by
  cases h : decode bytes true with
  | error error => exact ⟨error, rfl⟩
  | ok other =>
      have covers : coveredSize + 4 = 36 := rfl
      have state := (state_take_of_decode h).trans t.state_take_encode.symm
      have sizes : (bytes.take 36).length = (t.encode.take 36).length := by
        rw [List.length_take, List.length_take, length, length_encode]
        rfl
      have same : bytes.take 36 = t.encode.take 36 := by
        refine Crc32.eq_of_state_eq start sizes (fun position differ => ?_) state
        rw [List.getElem?_take, List.getElem?_take] at differ
        split at differ
        · exact near position (by assumption) differ
        · exact absurd rfl differ
      obtain ⟨position, inside, differ⟩ := damaged
      have seen := congrArg (fun field => field[position]?) same
      simp only [List.getElem?_take, if_pos inside] at seen
      exact absurd seen differ

/-- The damage goes from the last byte that the checksum covers into the checksum. -/
theorem decode_of_damage_into_checksum :
    let t := ofCounts 4 1 5
    let bytes := t.encode.take 31 ++ [1, 2] ++ t.encode.drop 33
    bytes.length = 40 ∧ (∃ position < 36, bytes[position]? ≠ t.encode[position]?) ∧
      (∀ position < 36, bytes[position]? ≠ t.encode[position]? →
        31 ≤ position ∧ position < 31 + 4) ∧
      ∃ error, decode bytes true = .error error := by
  intro t bytes
  have length : bytes.length = 40 := by decide +kernel
  have damaged : ∃ position < 36, bytes[position]? ≠ t.encode[position]? := by
    decide +kernel
  have near : ∀ position < 36, bytes[position]? ≠ t.encode[position]? →
      31 ≤ position ∧ position < 31 + 4 := by decide +kernel
  exact ⟨length, damaged, near, decode_of_damage t length damaged near⟩

end Trailer

end SortedBlob
