import SortedBlob.Contents
import SortedBlob.Proofs.TrailerBounds
import SortedBlob.Source

/-!
Where the records of an index lie: what a store of bytes answers for the span of some
records of a trailer that fits is exactly these records of the blob.
-/

namespace SortedBlob

theorem Trailer.size_keySize (t : Trailer) :
    Record.size t.keySize.toNat = t.recordSize.toNat := by
  rw [t.toNat_recordSize]
  rfl

namespace Index

variable {keySize : Nat}

@[simp] theorem length_decode (count : Nat) (bytes : Bytes) :
    (decode keySize count bytes).length = count := by
  induction count generalizing bytes with
  | zero => rfl
  | succ count ih => simp [decode, ih]

theorem decode_add (first second : Nat) (bytes : Bytes) :
    decode keySize (first + second) bytes =
      decode keySize first bytes ++
        decode keySize second (bytes.drop (first * Record.size keySize)) := by
  induction first generalizing bytes with
  | zero => simp [decode]
  | succ first ih =>
      rw [Nat.add_right_comm, decode, decode, ih, List.drop_drop, List.cons_append,
        Nat.succ_mul, Nat.add_comm (Record.size keySize)]

/-- The bytes behind the last record make no difference. -/
theorem decode_take (count : Nat) (bytes : Bytes) :
    decode keySize count (bytes.take (count * Record.size keySize)) =
      decode keySize count bytes := by
  induction count generalizing bytes with
  | zero => rfl
  | succ count ih =>
      have first : Record.size keySize ≤ (count + 1) * Record.size keySize :=
        Nat.le_mul_of_pos_left _ (Nat.succ_pos count)
      have rest : (count + 1) * Record.size keySize - Record.size keySize =
          count * Record.size keySize := by
        rw [Nat.succ_mul, Nat.add_sub_cancel]
      rw [decode, decode, List.take_take, Nat.min_eq_left first, List.drop_take, rest, ih]

theorem decode_slice (first count rest : Nat) (bytes : Bytes) :
    decode keySize count
        (Bytes.slice bytes (first * Record.size keySize) (count * Record.size keySize)) =
      ((decode keySize (first + count + rest) bytes).drop first).take count := by
  rw [Bytes.slice, decode_take, Nat.add_assoc, decode_add first, decode_add count,
    List.drop_left' (length_decode first bytes), List.take_left' (length_decode _ _)]

theorem getElem?_decode (count position : Nat) (bytes : Bytes) :
    (decode keySize count bytes)[position]? =
      if position < count then
        some (Record.ofBytes keySize
          (Bytes.slice bytes (position * Record.size keySize) (Record.size keySize)))
      else none := by
  induction count generalizing position bytes with
  | zero => simp [decode]
  | succ count ih =>
      cases position with
      | zero => simp [decode, Bytes.slice]
      | succ position =>
          rw [decode, List.getElem?_cons_succ, ih, Bytes.slice, Bytes.slice, List.drop_drop,
            Nat.succ_mul, Nat.add_comm (Record.size keySize)]
          simp only [Nat.succ_lt_succ_iff]

theorem decode_succ_drop (count start : Nat) (bytes : Bytes) :
    decode keySize (count + 1) (bytes.drop start) =
      Record.ofBytes keySize (Bytes.slice bytes start (Record.size keySize)) ::
        decode keySize count (bytes.drop (start + Record.size keySize)) := by
  rw [decode, List.drop_drop]
  rfl

theorem decode_encode_append {records : List Record}
    (h : ∀ r ∈ records, r.key.length = keySize) (after : Bytes) :
    decode keySize records.length (encode records ++ after) = records := by
  induction records with
  | nil => rfl
  | cons r rest ih =>
      have hr := h r (List.mem_cons_self ..)
      have hlength : r.encode.length = Record.size keySize := by
        rw [Record.length_encode, hr]
      have hrest := ih fun other member => h other (List.mem_cons_of_mem r member)
      simp only [encode, List.flatMap_cons, List.length_cons, List.append_assoc, decode,
        List.take_left' hlength, List.drop_left' hlength, Record.ofBytes_encode hr]
      exact congrArg (r :: ·) hrest

theorem length_encode {records : List Record} (h : ∀ r ∈ records, r.key.length = keySize) :
    (encode records).length = records.length * Record.size keySize := by
  induction records with
  | nil => simp [encode]
  | cons r rest ih =>
      have hr := h r (List.mem_cons_self ..)
      have hrest := ih fun other member => h other (List.mem_cons_of_mem r member)
      simp only [encode, List.flatMap_cons, List.length_append, Record.length_encode, hr,
        List.length_cons, Nat.succ_mul] at hrest ⊢
      omega

end Index

namespace Store

theorem toNat_length_le (blob : Bytes) : (ofBytes blob).length.toNat ≤ blob.length := by
  simp only [ofBytes, UInt64.toNat_ofNat']
  exact Nat.mod_le _ _

theorem read_ofBytes {blob : Bytes} {span : Span} (horder : span.start ≤ span.stop)
    (hstop : span.stop ≤ (ofBytes blob).length) :
    (ofBytes blob).read span =
      .ok (Bytes.slice blob span.start.toNat span.width.toNat) := by
  have straight : ¬ span.stop < span.start := UInt64.not_lt.mpr horder
  have inside : ¬ UInt64.ofNat blob.length < span.stop := UInt64.not_lt.mpr hstop
  simp only [ofBytes, straight, inside, if_false]

theorem read_last {blob : Bytes} {count : UInt64} (long : count ≤ (ofBytes blob).length) :
    (ofBytes blob).read ⟨(ofBytes blob).length - count, (ofBytes blob).length⟩ =
      .ok (Bytes.slice blob ((ofBytes blob).length.toNat - count.toNat) count.toNat) := by
  have start := UInt64.toNat_sub_of_le _ _ long
  have straight : (ofBytes blob).length - count ≤ (ofBytes blob).length := by
    rw [UInt64.le_iff_toNat_le, start]
    exact Nat.sub_le _ _
  rw [read_ofBytes straight (UInt64.le_refl _), Span.width,
    UInt64.toNat_sub_of_le _ _ straight, start,
    Nat.sub_sub_self (UInt64.le_iff_toNat_le.mp long)]

theorem length_of_read_ofBytes {blob : Bytes} {span : Span} {bytes : Bytes}
    (h : (ofBytes blob).read span = .ok bytes) : bytes.length = span.width.toNat := by
  have whole := toNat_length_le blob
  simp only [ofBytes] at h whole
  split at h
  · cases h
  · rename_i straight
    split at h
    · cases h
    · rename_i inside
      have order := UInt64.not_lt.mp straight
      have stop := UInt64.le_iff_toNat_le.mp (UInt64.not_lt.mp inside)
      have width := UInt64.toNat_sub_of_le _ _ order
      have start := UInt64.le_iff_toNat_le.mp order
      cases h
      rw [Bytes.length_slice, Span.width, width]
      omega

end Store

namespace Trailer

variable {t : Trailer} {blob : Bytes}

@[simp] theorem length_recordsIn (t : Trailer) (blob : Bytes) :
    (t.recordsIn blob).length = t.entryCount.toNat :=
  Index.length_decode _ _

/-- The record at a position of the index, from the bytes that lie there. -/
def recordAt (t : Trailer) (blob : Bytes) (position : Nat) : Record :=
  Record.ofBytes t.keySize.toNat
    (Bytes.slice blob (t.recordStart position) t.recordSize.toNat)

theorem getElem?_recordsIn (t : Trailer) (blob : Bytes) (position : Nat) :
    (t.recordsIn blob)[position]? =
      if position < t.entryCount.toNat then some (t.recordAt blob position) else none := by
  rw [recordsIn, Index.getElem?_decode, Bytes.slice, List.drop_drop, t.size_keySize]
  rfl

theorem FitsIn.read_records (fits : t.FitsIn (Store.ofBytes blob).length)
    {low high : UInt64} (horder : low ≤ high) (hhigh : high ≤ t.entryCount) :
    (Store.ofBytes blob).read (t.recordsSpan low high) =
      .ok (Bytes.slice blob (t.recordStart low.toNat)
        ((high.toNat - low.toNat) * t.recordSize.toNat)) := by
  have hlow := UInt64.le_trans horder hhigh
  have inside := fits.recordStart_add_size_le (UInt64.le_iff_toNat_le.mp hhigh)
  have within : (t.recordsSpan low high).stop ≤ (Store.ofBytes blob).length := by
    rw [UInt64.le_iff_toNat_le, fits.toNat_stop hhigh]
    omega
  rw [Store.read_ofBytes (fits.start_le_stop horder hhigh) within, fits.toNat_start hlow,
    fits.toNat_width horder hhigh]

theorem FitsIn.decode_records (fits : t.FitsIn (Store.ofBytes blob).length)
    {low high : UInt64} (horder : low ≤ high) (hhigh : high ≤ t.entryCount)
    {bytes : Bytes} (h : (Store.ofBytes blob).read (t.recordsSpan low high) = .ok bytes) :
    Index.decode t.keySize.toNat (high.toNat - low.toNat) bytes =
      ((t.recordsIn blob).drop low.toNat).take (high.toNat - low.toNat) := by
  have order := UInt64.le_iff_toNat_le.mp horder
  have last := UInt64.le_iff_toNat_le.mp hhigh
  have total : t.entryCount.toNat = low.toNat + (high.toNat - low.toNat) +
      (t.entryCount.toNat - high.toNat) := by omega
  rw [fits.read_records horder hhigh] at h
  cases h
  rw [recordsIn, total, ← Index.decode_slice, t.size_keySize, Bytes.slice, Bytes.slice,
    List.drop_drop, recordStart]

theorem FitsIn.decode_record (fits : t.FitsIn (Store.ofBytes blob).length)
    {position : UInt64} (h : position < t.entryCount) :
    ∃ bytes r, (Store.ofBytes blob).read (t.recordSpan position) = .ok bytes ∧
      Record.decode bytes t.keySize.toNat position = .ok r ∧
      (t.recordsIn blob)[position.toNat]? = some r := by
  have horder := UInt64.le_of_lt (Word.lt_succ_of_lt h)
  have hhigh := Word.succ_le_of_lt h
  have one : (position + 1).toNat - position.toNat = 1 := by
    rw [Word.toNat_succ_of_lt h, Nat.add_sub_cancel_left]
  obtain ⟨bytes, hread⟩ : ∃ bytes,
      (Store.ofBytes blob).read (t.recordsSpan position (position + 1)) = .ok bytes :=
    ⟨_, fits.read_records horder hhigh⟩
  have hrecords := fits.decode_records horder hhigh hread
  have width := Store.length_of_read_ofBytes hread
  rw [fits.toNat_width horder hhigh, one, Nat.one_mul, ← t.size_keySize] at width
  refine ⟨bytes, Record.ofBytes t.keySize.toNat bytes, hread, ?_, ?_⟩
  · rw [Record.decode, if_pos width]
  · rw [one, Index.decode, Index.decode,
      List.take_of_length_le (Nat.le_of_eq width)] at hrecords
    have first := congrArg List.head? hrecords
    rw [List.head?_take, if_neg Nat.one_ne_zero, List.head?_drop] at first
    exact first.symm

end Trailer

end SortedBlob
