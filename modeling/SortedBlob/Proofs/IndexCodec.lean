import SortedBlob.Proofs.ByteFields
import SortedBlob.Proofs.IndexLayout

/-!
Lists of records and the regions of bytes they make are in one-to-one correspondence, chunk
by chunk. Main statement: `Index.records_correspond_to_regions`.
-/

namespace SortedBlob

namespace Record

variable {keySize : Nat} {bytes : Bytes}

theorem length_key_ofBytes (h : bytes.length = size keySize) :
    (ofBytes keySize bytes).key.length = keySize := by
  rw [ofBytes, List.length_take, h, size]
  exact Nat.min_eq_left (Nat.le_add_right _ _)

/-- What was read of a chunk is written back as it was. -/
theorem encode_ofBytes (h : bytes.length = size keySize) :
    (ofBytes keySize bytes).encode = bytes := by
  have total : bytes.length = keySize + 8 + 4 := h
  have offset : Bytes.ofUInt64 (Bytes.uint64At bytes keySize) =
      Bytes.slice bytes keySize 8 :=
    Bytes.ofUInt64_uint64At (by omega)
  have length : Bytes.ofUInt32 (Bytes.uint32At bytes (keySize + 8)) =
      Bytes.slice bytes (keySize + 8) 4 := Bytes.ofUInt32_uint32At (by omega)
  have rest : bytes.drop (keySize + (8 + 4)) = [] :=
    List.drop_eq_nil_of_le (by omega)
  calc (ofBytes keySize bytes).encode
      = bytes.take keySize ++
      (Bytes.slice bytes keySize 8 ++ Bytes.slice bytes (keySize + 8) 4) := by
        rw [encode, ofBytes, offset, length, List.append_assoc]
    _ = bytes.take keySize ++
        (Bytes.slice bytes keySize (8 + 4) ++ bytes.drop (keySize + (8 + 4))) := by
        rw [Bytes.slice_append_slice, rest, List.append_nil]
    _ = bytes := Bytes.take_slice_drop bytes keySize (8 + 4)

theorem decode_of_length (h : bytes.length = size keySize) (position : UInt64) :
    decode bytes keySize position = .ok (ofBytes keySize bytes) := if_pos h

theorem decode_of_length_ne (h : bytes.length ≠ size keySize) (position : UInt64) :
    decode bytes keySize position =
      .error (.truncatedRecord position (size keySize) bytes.length) := if_neg h

/-! The span of a value, over the natural numbers. -/

variable {r : Record}

theorem valueSpan?_eq_none_iff :
    r.valueSpan? = none ↔ UInt64.size ≤ r.valueOffset.toNat + r.valueLength.toNat := by
  rw [valueSpan?, Option.map_eq_none_iff, Word.add?_eq_none_iff, UInt32.toNat_toUInt64]

theorem valueSpan?_eq_some_iff {span : Span} :
    r.valueSpan? = some span ↔ span.start = r.valueOffset ∧
      span.stop.toNat = r.valueOffset.toNat + r.valueLength.toNat := by
  simp only [valueSpan?, Option.map_eq_some_iff, Word.add?_eq_some_iff,
    UInt32.toNat_toUInt64]
  constructor
  · rintro ⟨stop, exact, rfl⟩
    exact ⟨rfl, exact⟩
  · rintro ⟨start, exact⟩
    exact ⟨span.stop, exact, by rw [← start]⟩

end Record

namespace Index

variable {keySize : Nat}

theorem decode_encode {records : List Record} (h : ∀ r ∈ records, r.key.length = keySize) :
    decode keySize records.length (encode records) = records := by
  have back := decode_encode_append h []
  rwa [List.append_nil] at back

theorem encode_decode {count : Nat} {bytes : Bytes}
    (h : bytes.length = count * Record.size keySize) :
    encode (decode keySize count bytes) = bytes := by
  induction count generalizing bytes with
  | zero =>
      rw [Nat.zero_mul] at h
      rw [List.eq_nil_of_length_eq_zero h]
      rfl
  | succ count ih =>
      rw [Nat.succ_mul] at h
      have first : (bytes.take (Record.size keySize)).length = Record.size keySize := by
        rw [List.length_take]
        omega
      have rest : (bytes.drop (Record.size keySize)).length =
          count * Record.size keySize := by
        rw [List.length_drop]
        omega
      have later := ih rest
      rw [encode] at later
      rw [decode, encode, List.flatMap_cons, later, Record.encode_ofBytes first,
        List.take_append_drop]

theorem length_chunk {count i : Nat} {bytes : Bytes}
    (h : bytes.length = count * Record.size keySize) (inside : i < count) :
    (Bytes.slice bytes (i * Record.size keySize) (Record.size keySize)).length =
      Record.size keySize := by
  refine Bytes.length_slice_of_le ?_
  rw [h, ← Nat.succ_mul]
  exact Nat.mul_le_mul_right _ inside

/-- Each chunk of a region decodes to the record at its place, whatever
position an error would show. -/
theorem decode_chunk {count i : Nat} {bytes : Bytes}
    (h : bytes.length = count * Record.size keySize) {r : Record}
    (place : (decode keySize count bytes)[i]? = some r) (position : UInt64) :
    Record.decode (Bytes.slice bytes (i * Record.size keySize) (Record.size keySize))
      keySize position = .ok r := by
  rw [getElem?_decode] at place
  split at place
  · rename_i inside
    rw [Record.decode_of_length (length_chunk h inside), Option.some.inj place]
  · cases place

theorem length_key_of_mem_decode {count : Nat} {bytes : Bytes}
    (h : bytes.length = count * Record.size keySize) {r : Record}
    (member : r ∈ decode keySize count bytes) : r.key.length = keySize := by
  obtain ⟨i, place⟩ := List.mem_iff_getElem?.mp member
  rw [getElem?_decode] at place
  split at place
  · rename_i inside
    rw [← Option.some.inj place, Record.length_key_ofBytes (length_chunk h inside)]
  · cases place

/-- Records with keys of one size make a region of as many chunks, each of which is its
record; each region that is a number of chunks long is made by as many records, and by no
others. A chunk of any other length is refused. The span of a value is exact, and there is
none only if its end cannot be told. -/
theorem records_correspond_to_regions (keySize : Nat) :
    (∀ records : List Record, (∀ r ∈ records, r.key.length = keySize) →
      (encode records).length = records.length * (keySize + 12) ∧
        decode keySize records.length (encode records) = records ∧
        ∀ (i : Nat) (r : Record), records[i]? = some r → ∀ position : UInt64,
          Record.decode (Bytes.slice (encode records) (i * (keySize + 12)) (keySize + 12))
            keySize position = .ok r) ∧
    (∀ (count : Nat) (bytes : Bytes), bytes.length = count * (keySize + 12) →
      let records := decode keySize count bytes
      records.length = count ∧ (∀ r ∈ records, r.key.length = keySize) ∧
        encode records = bytes ∧
        ∀ (i : Nat) (r : Record), records[i]? = some r → ∀ position : UInt64,
          Record.decode (Bytes.slice bytes (i * (keySize + 12)) (keySize + 12))
            keySize position = .ok r) ∧
    (∀ (chunk : Bytes) (position : UInt64), chunk.length ≠ keySize + 12 →
      Record.decode chunk keySize position =
        .error (.truncatedRecord position (keySize + 12) chunk.length)) ∧
    ∀ r : Record,
      (r.valueSpan? = none ↔ UInt64.size ≤ r.valueOffset.toNat + r.valueLength.toNat) ∧
        ∀ span : Span, r.valueSpan? = some span ↔ span.start = r.valueOffset ∧
          span.stop.toNat = r.valueOffset.toNat + r.valueLength.toNat := by
  refine ⟨fun records keys => ?_, fun count bytes length => ?_,
    fun chunk position wrong => ?_, fun r => ?_⟩
  · have length := length_encode keys
    have back := decode_encode keys
    refine ⟨length, back, fun i r place => ?_⟩
    rw [← back] at place
    exact decode_chunk length place
  · exact ⟨length_decode count bytes,
      fun r member => length_key_of_mem_decode length member, encode_decode length,
      fun i r place => decode_chunk length place⟩
  · exact Record.decode_of_length_ne wrong position
  · exact ⟨Record.valueSpan?_eq_none_iff, fun span => Record.valueSpan?_eq_some_iff⟩

/-- Two records with keys of two bytes, the value of the second of
which would end too far on. -/
theorem records_correspond_to_regions_of_two :
    let first : Record := ⟨[1, 2], 0, 7⟩
    let second : Record := ⟨[1, 3], 0xFFFFFFFFFFFFFFFF, 1⟩
    let region := encode [first, second]
    (∀ r ∈ [first, second], r.key.length = 2) ∧ [first, second][1]? = some second ∧
      region.length = 2 * (2 + 12) ∧ (region.take 13).length ≠ 2 + 12 ∧
      Record.decode (Bytes.slice region (1 * (2 + 12)) (2 + 12)) 2 9 = .ok second ∧
      encode (decode 2 2 region) = region ∧
      Record.decode (region.take 13) 2 5 = .error (.truncatedRecord 5 14 13) ∧
      second.valueSpan? = none ∧ first.valueSpan? = some ⟨0, 7⟩ := by
  intro first second region
  have keys : ∀ r ∈ [first, second], r.key.length = 2 := by decide
  have place : [first, second][1]? = some second := rfl
  have length : region.length = 2 * (2 + 12) := by decide
  have short : (region.take 13).length ≠ 2 + 12 := by decide
  obtain ⟨toRegions, toRecords, refused, spans⟩ := records_correspond_to_regions 2
  obtain ⟨_, _, chunks⟩ := toRegions [first, second] keys
  obtain ⟨_, _, same, _⟩ := toRecords 2 region length
  exact ⟨keys, place, length, short, chunks 1 second place 9, same, refused _ 5 short,
    (spans second).1.mpr (by decide), ((spans first).2 _).mpr (by decide)⟩

end Index

end SortedBlob
