import SortedBlob.Proofs.Guarded
import SortedBlob.Proofs.Reading

/-!
No guard is ever in the way: over a trailer that fits into a blob of some length, whatever
the reads are answered with, the guarded reader does what the plain one does. Main
statements: `Window.guardedSearch_eq` and `Session.guardedAsk_eq`.
-/

namespace SortedBlob

open Guarded

/-! The decoders, which take any bytes. -/

theorem Trailer.guardedRecordSize_eq (t : Trailer) :
    t.guardedRecordSize = .ok t.recordSize := by
  have bound := t.keySize.toNat_lt
  have suffix : recordSuffixSize.toNat = 12 := rfl
  refine sum_eq ?_
  rw [UInt32.toNat_toUInt64, suffix, UInt64.size]
  omega

theorem Trailer.guardedDecode_eq (bytes : Bytes) (verifyChecksum : Bool) :
    guardedDecode bytes verifyChecksum = .ok (decode bytes verifyChecksum) := by
  unfold guardedDecode decode
  split
  · rfl
  · rename_i whole
    have whole : bytes.length = 40 := Decidable.not_not.mp whole
    have found : next 8 bytes = .ok (bytes.take 8, bytes.drop 8) := next_eq (by omega)
    have version : nextUInt32 (bytes.drop 8) =
        .ok ((ofBytes bytes).version, bytes.drop 12) :=
      nextUInt32_drop (by omega)
    have keySize : nextUInt32 (bytes.drop 12) =
        .ok ((ofBytes bytes).keySize, bytes.drop 16) :=
      nextUInt32_drop (by omega)
    have entryCount : nextUInt64 (bytes.drop 16) =
        .ok ((ofBytes bytes).entryCount, bytes.drop 24) := nextUInt64_drop (by omega)
    have indexOffset : nextUInt64 (bytes.drop 24) =
        .ok ((ofBytes bytes).indexOffset, bytes.drop 32) := nextUInt64_drop (by omega)
    have stored : nextUInt32 (bytes.drop 32) =
        .ok (Bytes.uint32At bytes coveredSize, bytes.drop 36) := nextUInt32_drop (by omega)
    have covered : piece bytes 0 coveredSize = .ok (bytes.take coveredSize) :=
      piece_eq (Nat.zero_le _) (by rw [whole]; decide)
    simp only [found, version, keySize, entryCount, indexOffset, stored, covered, bind,
      Except.bind, pure, Except.pure]
    rw [apply_ite Except.ok, apply_ite Except.ok, apply_ite Except.ok]

theorem Record.guardedDecode_eq (bytes : Bytes) (keySize : UInt32) (position : UInt64) :
    guardedDecode bytes keySize position = .ok (decode bytes keySize.toNat position) := by
  have expected : sum keySize.toUInt64 Trailer.recordSuffixSize =
      .ok (keySize.toUInt64 + Trailer.recordSuffixSize) :=
    (Trailer.ofCounts keySize 0 0).guardedRecordSize_eq
  have exact : (keySize.toUInt64 + Trailer.recordSuffixSize).toNat = size keySize.toNat :=
    (Trailer.ofCounts keySize 0 0).size_keySize.symm
  unfold guardedDecode decode
  by_cases whole : bytes.length = size keySize.toNat
  · have long : bytes.length = keySize.toNat + 12 := whole
    have key : piece bytes 0 keySize.toNat = .ok (bytes.take keySize.toNat) :=
      piece_eq (Nat.zero_le _) (by omega)
    have suffix : piece bytes keySize.toNat (size keySize.toNat) =
        .ok (bytes.drop keySize.toNat) := by
      rw [← whole, piece_eq (by omega) (Nat.le_refl _), Bytes.slice,
        List.take_of_length_le (by simp)]
    have valueOffset : nextUInt64 (bytes.drop keySize.toNat) =
        .ok (Bytes.uint64At bytes keySize.toNat, bytes.drop (keySize.toNat + 8)) :=
      nextUInt64_drop (by omega)
    have valueLength : nextUInt32 (bytes.drop (keySize.toNat + 8)) =
        .ok (Bytes.uint32At bytes (keySize.toNat + 8), bytes.drop (keySize.toNat + 12)) :=
      nextUInt32_drop (by omega)
    simp only [expected, exact, whole, key, suffix, valueOffset, valueLength, ofBytes, bind,
      Except.bind, pure, Except.pure, ne_eq, not_true_eq_false, if_false, if_true]
  · simp only [expected, exact, whole, bind, Except.bind, pure, Except.pure, ne_eq,
      not_false_eq_true, if_true, if_false]

namespace Trailer

variable {t : Trailer} {blobLength low high position : UInt64}

theorem guardedValidate_eq (t : Trailer) (blobLength : UInt64) (config : Config) :
    t.guardedValidate blobLength config = .ok (t.validate blobLength config) := by
  rw [guardedValidate, t.guardedRecordSize_eq]
  rfl

theorem guardedLoad_eq (config : Config) : guardedLoad config = (load config).map .ok := by
  refine congrArg Plan.length (funext fun blobLength => ?_)
  beta_reduce
  by_cases short : blobLength < size
  · rw [if_pos short, if_pos short]
    rfl
  · rw [if_neg short, if_neg short, difference_eq (UInt64.not_lt.mp short), Plan.guarded_ok]
    refine congrArg (Plan.read .trailer _) (funext fun bytes => congrArg Plan.done ?_)
    rw [guardedDecode_eq]
    cases decode bytes config.verifyTrailerChecksum with
    | error error => rfl
    | ok t =>
        simp only [guardedValidate_eq, bind, Except.bind]
        cases t.validate blobLength config <;> rfl

/-! The spans of records, whose words validation has bounded. -/

theorem FitsIn.guardedPosition_eq (fits : t.FitsIn blobLength)
    (h : position ≤ t.entryCount) :
    product position t.recordSize = .ok (position * t.recordSize) ∧
      sum t.indexOffset (position * t.recordSize) =
        .ok (t.indexOffset + position * t.recordSize) := by
  have bound := blobLength.toNat_lt_size
  have inside := fits.recordStart_add_size_le (UInt64.le_iff_toNat_le.mp h)
  rw [recordStart] at inside
  have small : position.toNat * t.recordSize.toNat < UInt64.size := by omega
  refine ⟨product_eq small, sum_eq ?_⟩
  rw [Word.toNat_mul_of_lt small]
  omega

theorem FitsIn.guardedRecordsSpan_eq (fits : t.FitsIn blobLength)
    (hlow : low ≤ t.entryCount) (hhigh : high ≤ t.entryCount) :
    t.guardedRecordsSpan low high = .ok (t.recordsSpan low high) := by
  obtain ⟨first, start⟩ := fits.guardedPosition_eq hlow
  obtain ⟨last, stop⟩ := fits.guardedPosition_eq hhigh
  simp only [guardedRecordsSpan, t.guardedRecordSize_eq, first, start, last, stop, bind,
    Except.bind, pure, Except.pure, recordsSpan]

theorem FitsIn.guardedRecordSpan_eq (fits : t.FitsIn blobLength)
    (h : position < t.entryCount) :
    t.guardedRecordSpan position = .ok (t.recordSpan position) := by
  rw [guardedRecordSpan, sum_one_of_lt h]
  exact fits.guardedRecordsSpan_eq (UInt64.le_of_lt h) (Word.succ_le_of_lt h)

theorem FitsIn.guardedRead_eq {α : Type} (fits : t.FitsIn blobLength) (order : low ≤ high)
    (hhigh : high ≤ t.entryCount) (next : Bytes → Plan (Guarded α)) :
    Plan.guardedRead (t.recordsSpan low high) next =
      .read .index (t.recordsSpan low high) next := by
  rw [Plan.guardedRead, difference_eq (fits.start_le_stop order hhigh)]
  rfl

end Trailer

namespace Window

variable {t : Trailer} {blobLength : UInt64} {above : Option Bytes} {bytes key : Bytes}
  {w : Window}

/-- There are fewer records than bytes. -/
theorem succ_taken_lt {taken : UInt64}
    (inside : (taken.toNat + 1) * t.recordSize.toNat ≤ bytes.length)
    (small : bytes.length < UInt64.size) : taken.toNat + 1 < UInt64.size :=
  Nat.lt_of_le_of_lt (Nat.le_mul_of_pos_right _ t.recordSize_pos)
    (Nat.lt_of_le_of_lt inside small)

theorem guardedChunk_eq {taken : UInt64}
    (inside : (taken.toNat + 1) * t.recordSize.toNat ≤ bytes.length)
    (small : bytes.length < UInt64.size) :
    guardedChunk t bytes taken =
      .ok (Bytes.slice bytes (taken.toNat * t.recordSize.toNat) t.recordSize.toNat) := by
  have countSmall := succ_taken_lt inside small
  have count : sum taken 1 = .ok (taken + 1) := sum_eq countSmall
  have next : (taken + 1).toNat = taken.toNat + 1 := Word.toNat_add_of_lt countSmall
  rw [← next] at inside
  have stopSmall := Nat.lt_of_le_of_lt inside small
  have behind : (taken + 1).toNat * t.recordSize.toNat =
      taken.toNat * t.recordSize.toNat + t.recordSize.toNat := by rw [next, Nat.succ_mul]
  have startSmall : taken.toNat * t.recordSize.toNat < UInt64.size := by omega
  simp only [guardedChunk, t.guardedRecordSize_eq, count, product_eq startSmall,
    product_eq stopSmall, bind, Except.bind]
  rw [Word.toNat_mul_of_lt startSmall, Word.toNat_mul_of_lt stopSmall, behind,
    piece_eq (Nat.le_add_right ..) (behind ▸ inside), Nat.add_sub_cancel_left]

/-- The records are decoded one by one, and checked as `firstDisorder?` checks them. -/
theorem guardedRecords_eq {left : Nat} {taken position : UInt64} {previous : Option Bytes}
    (whole : bytes.length = (taken.toNat + left) * t.recordSize.toNat)
    (small : bytes.length < UInt64.size) (last : position.toNat + left < UInt64.size) :
    guardedRecords t above bytes left taken position previous =
      .ok (
        let records :=
          Index.decode t.keySize.toNat left (bytes.drop (taken.toNat * t.recordSize.toNat))
        match firstDisorder? above previous position records with
        | some place => .error (.unsortedIndex place)
        | none => .ok records) := by
  induction left generalizing taken position previous with
  | zero => rfl
  | succ left ih =>
      have whole : bytes.length = (taken.toNat + 1 + left) * t.recordSize.toNat := by
        rw [whole, Nat.add_right_comm, Nat.add_assoc]
      have inside : (taken.toNat + 1) * t.recordSize.toNat ≤ bytes.length := by
        rw [whole]
        exact Nat.mul_le_mul_right _ (Nat.le_add_right ..)
      have countSmall := succ_taken_lt inside small
      have count : sum taken 1 = .ok (taken + 1) := sum_eq countSmall
      have next : (taken + 1).toNat = taken.toNat + 1 := Word.toNat_add_of_lt countSmall
      have one : (1 : UInt64).toNat = 1 := rfl
      have step : sum position 1 = .ok (position + 1) := sum_eq (by omega)
      have place : (position + 1).toNat = position.toNat + 1 :=
        Word.toNat_add_of_lt (by omega)
      have complete : (Bytes.slice bytes (taken.toNat * t.recordSize.toNat)
          t.recordSize.toNat).length = Record.size t.keySize.toNat := by
        rw [Nat.succ_mul] at inside
        rw [t.size_keySize, Bytes.length_slice]
        omega
      rw [Index.decode_succ_drop, t.size_keySize, ← Nat.succ_mul,
        Nat.succ_eq_add_one, ← next]
      simp only [guardedRecords, guardedChunk_eq inside small, Record.guardedDecode_eq,
        Record.decode, if_pos complete, count, step, firstDisorder?, bind,
        Except.bind, pure, Except.pure]
      split
      · rw [ih (by rw [next]; exact whole) (by rw [place]; omega)]
        dsimp only
        generalize firstDisorder? above _ _ _ = disorder
        cases disorder <;> rfl
      · rfl

theorem guardedScan_eq (fits : t.FitsIn blobLength) (nonempty : w.low < w.high)
    (h : w.high ≤ t.entryCount) : w.guardedScan t key bytes = .ok (w.scan t key bytes) := by
  have order := UInt64.le_of_lt nonempty
  have span := fits.guardedRecordsSpan_eq (UInt64.le_trans order h) h
  have expected : difference (t.recordsSpan w.low w.high).stop
    (t.recordsSpan w.low w.high).start =
      .ok (t.recordsSpan w.low w.high).width := difference_eq (fits.start_le_stop order h)
  have count : difference w.high w.low = .ok w.width := difference_eq order
  unfold guardedScan scan
  simp only [span, expected, count, bind, Except.bind, pure, Except.pure]
  split
  · rfl
  · rename_i whole
    have whole : bytes.length = (t.recordsSpan w.low w.high).width.toNat :=
      Decidable.not_not.mp whole
    have small : bytes.length < UInt64.size := whole ▸ UInt64.toNat_lt_size _
    rw [fits.toNat_width order h, ← toNat_width nonempty] at whole
    have last : w.low.toNat + w.width.toNat < UInt64.size := by
      have bound := w.high.toNat_lt_size
      have ordered := UInt64.lt_iff_toNat_lt.mp nonempty
      rw [toNat_width nonempty]
      omega
    have zero : (0 : UInt64).toNat = 0 := rfl
    rw [guardedRecords_eq (by rw [zero, Nat.zero_add]; exact whole) small last, zero,
      Nat.zero_mul, List.drop_zero]
    dsimp only
    generalize Index.decode _ _ bytes = records
    generalize firstDisorder? w.above w.below w.low _ = disorder
    cases disorder with
    | some place => rfl
    | none =>
        dsimp only
        cases Index.place? records key with
        | none => rfl
        | some place => simp [item]

theorem guardedSearch_eq (fits : t.FitsIn blobLength) (scanThreshold : UInt64)
    (h : w.high ≤ t.entryCount) :
    guardedSearch t scanThreshold key w = (search t scanThreshold key w).map .ok := by
  induction w using search.induct scanThreshold with
  | case1 w nonempty small =>
      have order := UInt64.le_of_lt nonempty
      have width : difference w.high w.low = .ok w.width := difference_eq order
      rw [guardedSearch, search, dif_pos nonempty, dif_pos nonempty, if_pos small, width,
        Plan.guarded_ok, if_pos small,
        fits.guardedRecordsSpan_eq (UInt64.le_trans order h) h, Plan.guarded_ok,
        fits.guardedRead_eq order h]
      simp only [guardedScan_eq fits nonempty h]
      rfl
  | case2 w nonempty wide upper lower =>
      have width : difference w.high w.low = .ok w.width :=
        difference_eq (UInt64.le_of_lt nonempty)
      have below := middle_lt nonempty
      have inside := UInt64.lt_of_lt_of_le below h
      rw [guardedSearch, search, dif_pos nonempty, dif_pos nonempty, if_neg wide, width,
        Plan.guarded_ok, if_neg wide]
      -- The search matches on its middle, so that its recursion is seen to end.
      split
      · rename_i fault impossible
        rw [guardedMiddle_eq nonempty] at impossible
        cases impossible
      · rename_i middle hmiddle
        rw [guardedMiddle_eq nonempty] at hmiddle
        obtain rfl := Except.ok.inj hmiddle
        rw [fits.guardedRecordSpan_eq inside, Plan.guarded_ok, Trailer.recordSpan,
          fits.guardedRead_eq (UInt64.le_of_lt (Word.lt_succ_of_lt inside))
            (Word.succ_le_of_lt inside)]
        refine congrArg (Plan.read .index _) (funext fun bytes => ?_)
        rw [Record.guardedDecode_eq]
        beta_reduce
        cases Record.decode bytes t.keySize.toNat w.middle with
        | error error => rfl
        | ok r =>
            dsimp only
            split
            · rfl
            · split
              · rfl
              · split
                · split
                  · rename_i fault impossible
                    rw [sum_one_of_lt below] at impossible
                    cases impossible
                  · rename_i low hlow
                    rw [sum_one_of_lt below] at hlow
                    obtain rfl := Except.ok.inj hlow
                    exact upper r h
                · exact lower r (UInt64.le_of_lt inside)
  | case3 w empty =>
      rw [guardedSearch, search, dif_neg empty, dif_neg empty]
      rfl

end Window

theorem Plan.run_map {α β σ : Type} (source : Source σ) (plan : Plan α) (f : α → β)
    (s : Session) (state : σ) :
    let out := plan.run source s state
    (plan.map f).run source s state = (out.1.map f, out.2) := by
  induction plan generalizing s state with
  | done result => rfl
  | length next ih =>
      simp only [map, length_bind, run]
      rcases source.length (source.ask .length state) with ⟨interruption | n, state'⟩
      · rfl
      · exact ih n _ _
  | read purpose span next ih =>
      simp only [map, read_bind, run]
      split
      · exact ih _ _ _
      · rcases source.read purpose span (source.ask (.read purpose span) state) with
          ⟨interruption | bytes, state'⟩
        · rfl
        · exact ih bytes _ _

namespace Trailer.FitsIn

variable {t : Trailer} {blobLength : UInt64}

theorem guardedFind_eq (fits : t.FitsIn blobLength) (config : Config) (key : Bytes) :
    t.guardedFind config key = (t.find config key).map .ok := by
  unfold guardedFind find
  split
  · rfl
  · rw [Window.guardedSearch_eq fits config.scanThreshold (UInt64.le_refl _)]
    simp only [Plan.map, Plan.bind_assoc, Plan.done_bind, Except.map]

theorem guardedLookup_eq (fits : t.FitsIn blobLength) (config : Config) (key : Bytes) :
    t.guardedLookup config key = (t.lookup config key).map .ok := by
  simp only [guardedLookup, lookup, fits.guardedFind_eq, Plan.map, Plan.bind_assoc,
    Plan.done_bind]
  refine congrArg _ (funext fun found => ?_)
  rcases found with error | _ | r
  · rfl
  · rfl
  · simp only [Plan.bind_assoc, Plan.done_bind]
    refine congrArg _ (funext fun value => ?_)
    cases value <;> rfl

theorem guardedPlan_eq (fits : t.FitsIn blobLength) (query : Query) (config : Config) :
    query.guardedPlan config (.ok t) = (query.plan config (.ok t)).map .ok := by
  cases query with
  | trailer => rfl
  | find key =>
      simp only [Query.guardedPlan, Query.plan, fits.guardedFind_eq, Plan.map,
        Plan.bind_assoc, Plan.done_bind, Except.map]
  | lookup key =>
      simp only [Query.guardedPlan, Query.plan, fits.guardedLookup_eq, Plan.map,
        Plan.bind_assoc, Plan.done_bind, Except.map]

end Trailer.FitsIn

namespace Session

variable {σ : Type} {source : Source σ} {s : Session} {state : σ}

theorem guardedLoadTrailer_eq (source : Source σ) (s : Session) (state : σ) :
    let out := loadTrailer source s state
    guardedLoadTrailer source s state = (out.1.map .ok, out.2) := by
  unfold guardedLoadTrailer loadTrailer
  cases s.trailer with
  | some loaded => rfl
  | none =>
      simp only [Trailer.guardedLoad_eq, Plan.run_map]
      rcases (Trailer.load s.config).run source s state with
        ⟨interruption | loaded, s', state'⟩ <;>
        rfl

theorem guardedAsk_eq (query : Query)
    (fits : ∀ t, (loadTrailer source (s.countStart query) state).1 = .ok (.ok t) →
      ∃ blobLength, t.FitsIn blobLength) :
    let out := s.ask source query state
    s.guardedAsk source query state = (out.1.map .ok, out.2) := by
  unfold guardedAsk ask
  rw [guardedLoadTrailer_eq]
  rcases hload : loadTrailer source (s.countStart query) state with
    ⟨interruption | loaded, s', state'⟩
  · rfl
  · have plans : query.guardedPlan s'.config loaded =
        (query.plan s'.config loaded).map .ok := by
      cases loaded with
      | error error => rfl
      | ok t =>
          obtain ⟨blobLength, fits⟩ := fits t (by rw [hload])
          exact fits.guardedPlan_eq query s'.config
    simp only [Except.map, plans, Plan.run_map]
    rcases (query.plan s'.config loaded).run source s' state' with
      ⟨interruption | verdict, s'', state''⟩ <;> rfl

end Session

end SortedBlob
