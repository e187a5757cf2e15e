import SortedBlob.Proofs.SearchCertificate
import SortedBlob.Query

/-!
What queries ask of a blob and what they come to when it answers. A trailer that fits
permits a few requests only (`Trailer.Permits`), all of which a store of bytes can answer,
so a query over such a store always comes to a verdict.
-/

namespace SortedBlob

namespace Record

theorem locate_eq_ok_iff {r : Record} {t : Trailer} {span : Span} :
    r.locate t = .ok span ↔
      span.start = r.valueOffset ∧
        span.stop.toNat = r.valueOffset.toNat + r.valueLength.toNat ∧
        span.stop ≤ t.indexOffset := by
  unfold locate valueSpan?
  cases hsum : Word.add? r.valueOffset r.valueLength.toUInt64 with
  | none =>
      have overflow := Word.add?_eq_none_iff.mp hsum
      have bound := span.stop.toNat_lt_size
      rw [UInt32.toNat_toUInt64] at overflow
      simp only [Option.map_none, Option.filter_none, reduceCtorEq, false_iff]
      rintro ⟨_, stop, _⟩
      omega
  | some stop =>
      have exact := Word.add?_eq_some_iff.mp hsum
      rw [UInt32.toNat_toUInt64] at exact
      by_cases inside : stop ≤ t.indexOffset
      · simp only [Option.map_some, Option.filter_some, inside, decide_true, if_true,
          Except.ok.injEq]
        constructor
        · rintro rfl
          exact ⟨rfl, exact, inside⟩
        · rintro ⟨hstart, hstop, _⟩
          have same : span.stop = stop := UInt64.toNat_inj.mp (hstop.trans exact.symm)
          rw [← hstart, ← same]
      · simp only [Option.map_some, Option.filter_some, inside, decide_false,
          Bool.false_eq_true, if_false, reduceCtorEq, false_iff]
        rintro ⟨_, hstop, within⟩
        have same : span.stop = stop := UInt64.toNat_inj.mp (hstop.trans exact.symm)
        exact inside (same ▸ within)

theorem locate_eq_error {r : Record} {t : Trailer}
    (h : t.indexOffset.toNat < r.valueOffset.toNat + r.valueLength.toNat) :
    r.locate t = .error (.valueOutOfBounds r.valueOffset r.valueLength t.indexOffset) := by
  have refused : ∀ span, r.locate t ≠ .ok span := by
    intro span hspan
    obtain ⟨_, stop, inside⟩ := locate_eq_ok_iff.mp hspan
    have inside := UInt64.le_iff_toNat_le.mp inside
    omega
  unfold locate at refused ⊢
  split
  · rename_i span hspan
    exact absurd (by rw [hspan]) (refused span)
  · rfl

end Record

namespace Trailer

/-- The requests that are left to a query once its trailer is known. -/
def Permits (t : Trailer) : Request → Prop
  | .length => False
  | .read .trailer _ => False
  | .read .index span =>
      ∃ low high, low < high ∧ high ≤ t.entryCount ∧ span = t.recordsSpan low high
  | .read .value span => span.start < span.stop ∧ span.stop ≤ t.indexOffset

end Trailer

/-- A search reads records within its window only. -/
theorem Window.search_asks_within (t : Trailer) (scanThreshold : UInt64) (key : Bytes)
    (w : Window) :
    (search t scanThreshold key w).Asks fun request =>
      ∃ low high, w.low ≤ low ∧ low < high ∧ high ≤ w.high ∧
        request = .read .index (t.recordsSpan low high) := by
  induction w using search.induct scanThreshold with
  | case1 w nonempty small =>
      rw [search, dif_pos nonempty, if_pos small]
      exact ⟨⟨w.low, w.high, UInt64.le_refl _, nonempty, UInt64.le_refl _, rfl⟩,
        fun _ => trivial⟩
  | case2 w nonempty wide upper lower =>
      have rising := Word.lt_succ_of_lt (middle_lt nonempty)
      have inside := Word.succ_le_of_lt (middle_lt nonempty)
      have above := low_le_middle nonempty
      have kept := UInt64.le_of_lt (middle_lt nonempty)
      rw [search, dif_pos nonempty, if_neg wide]
      refine ⟨⟨w.middle, w.middle + 1, above, rising, inside, rfl⟩, fun bytes => ?_⟩
      beta_reduce
      split
      · trivial
      · split
        · trivial
        · split
          · trivial
          · split
            · refine (upper _).imp fun request => ?_
              rintro ⟨low, high, after, order, before, rfl⟩
              have after := UInt64.le_trans (UInt64.le_of_lt rising) after
              exact ⟨low, high, UInt64.le_trans above after, order, before, rfl⟩
            · refine (lower _).imp fun request => ?_
              rintro ⟨low, high, after, order, before, rfl⟩
              exact ⟨low, high, after, order, UInt64.le_trans before kept, rfl⟩
  | case3 w empty =>
      rw [search, dif_neg empty]
      trivial

theorem Window.search_asks {t : Trailer} (scanThreshold : UInt64) (key : Bytes) {w : Window}
    (h : w.high ≤ t.entryCount) : (search t scanThreshold key w).Asks t.Permits := by
  refine (search_asks_within t scanThreshold key w).imp fun request => ?_
  rintro ⟨low, high, _, order, before, rfl⟩
  exact ⟨low, high, order, UInt64.le_trans before h, rfl⟩

theorem Record.fetch_asks (r : Record) (t : Trailer) : (r.fetch t).Asks t.Permits := by
  unfold fetch
  split
  · trivial
  · rename_i span hspan
    obtain ⟨start, stop, inside⟩ := locate_eq_ok_iff.mp hspan
    split
    · trivial
    · rename_i nonempty
      refine ⟨⟨?_, inside⟩, fun _ => trivial⟩
      have positive : r.valueLength.toNat ≠ 0 := fun zero =>
        nonempty (UInt32.toNat_inj.mp zero)
      rw [UInt64.lt_iff_toNat_lt, start, stop]
      omega

theorem Trailer.find_asks (t : Trailer) (config : Config) (key : Bytes) :
    (t.find config key).Asks t.Permits := by
  unfold find
  split
  · trivial
  · exact (Window.search_asks config.scanThreshold key (UInt64.le_refl _)).map _

theorem Trailer.lookup_asks (t : Trailer) (config : Config) (key : Bytes) :
    (t.lookup config key).Asks t.Permits := by
  apply (t.find_asks config key).bind
  intro found
  cases found with
  | error error => trivial
  | ok r? =>
      cases r? with
      | none => trivial
      | some r => exact (r.fetch_asks t).map _

theorem Query.plan_asks (query : Query) (config : Config) (t : Trailer) :
    (query.plan config (.ok t)).Asks t.Permits := by
  cases query with
  | trailer => trivial
  | find key => exact (t.find_asks config key).map _
  | lookup key => exact (t.lookup_asks config key).map _

/-- Whether a request is one that only a load makes. -/
def Request.isOfLoad : Request → Bool
  | .length => true
  | .read purpose _ => purpose == .trailer

theorem Trailer.load_asks (config : Config) :
    (load config).Asks fun request => request.isOfLoad = true := by
  refine ⟨rfl, fun n => ?_⟩
  beta_reduce
  split
  · trivial
  · exact ⟨rfl, fun _ => trivial⟩

theorem Query.plan_asks_isOfLoad (query : Query) (config : Config)
    (loaded : Except FormatError Trailer) :
    (query.plan config loaded).Asks fun request => request.isOfLoad = false := by
  cases loaded with
  | error error => trivial
  | ok t =>
      apply (query.plan_asks config t).imp
      intro request permitted
      cases request with
      | length => exact permitted.elim
      | read purpose span =>
          cases purpose with
          | trailer => exact permitted.elim
          | index => rfl
          | value => rfl

namespace Trailer

variable {t : Trailer} {blob : Bytes}

theorem FitsIn.read_of_permits (fits : t.FitsIn (Store.ofBytes blob).length)
    {purpose : Purpose} {span : Span} (h : t.Permits (.read purpose span)) :
    ∃ bytes, (Store.ofBytes blob).read span = .ok bytes := by
  cases purpose with
  | trailer => exact h.elim
  | index =>
      obtain ⟨low, high, rising, inside, rfl⟩ := h
      exact ⟨_, fits.read_records (UInt64.le_of_lt rising) inside⟩
  | value =>
      obtain ⟨rising, inside⟩ := h
      have index := fits.recordStart_add_size_le (Nat.zero_le _)
      have inside := UInt64.le_iff_toNat_le.mp inside
      rw [recordStart] at index
      refine ⟨_, Store.read_ofBytes (UInt64.le_of_lt rising) ?_⟩
      rw [UInt64.le_iff_toNat_le]
      omega

theorem FitsIn.read_value (fits : t.FitsIn (Store.ofBytes blob).length) {r : Record}
    (h : r.valueOffset.toNat + r.valueLength.toNat ≤ t.indexOffset.toNat) :
    ∃ span, r.locate t = .ok span ∧
      (Store.ofBytes blob).read span =
        .ok (Bytes.slice blob r.valueOffset.toNat r.valueLength.toNat) := by
  have bound := t.indexOffset.toNat_lt_size
  have index := fits.recordStart_add_size_le (Nat.zero_le _)
  rw [recordStart] at index
  let stop := UInt64.ofNat (r.valueOffset.toNat + r.valueLength.toNat)
  have hstop : stop.toNat = r.valueOffset.toNat + r.valueLength.toNat :=
    UInt64.toNat_ofNat_of_lt' (by omega)
  have straight : r.valueOffset ≤ stop := by
    rw [UInt64.le_iff_toNat_le, hstop]
    exact Nat.le_add_right _ _
  have inside : stop ≤ t.indexOffset := by
    rw [UInt64.le_iff_toNat_le, hstop]
    exact h
  have within : stop ≤ (Store.ofBytes blob).length := by
    rw [UInt64.le_iff_toNat_le]
    omega
  have width : (Span.mk r.valueOffset stop).width.toNat = r.valueLength.toNat := by
    rw [Span.width, UInt64.toNat_sub_of_le _ _ straight, hstop, Nat.add_sub_cancel_left]
  refine ⟨⟨r.valueOffset, stop⟩, Record.locate_eq_ok_iff.mpr ⟨rfl, hstop, inside⟩, ?_⟩
  rw [Store.read_ofBytes straight within, width]

theorem FitsIn.eval_fetch (fits : t.FitsIn (Store.ofBytes blob).length) (r : Record) :
    (r.fetch t).eval (Store.ofBytes blob) = .ok (r.valueIn t blob) := by
  unfold Record.fetch Record.valueIn
  by_cases inside : r.valueOffset.toNat + r.valueLength.toNat ≤ t.indexOffset.toNat
  · obtain ⟨span, hspan, hread⟩ := fits.read_value inside
    have size := Store.length_of_read_ofBytes hread
    obtain ⟨start, stop, before⟩ := Record.locate_eq_ok_iff.mp hspan
    have straight : span.start ≤ span.stop := by
      rw [UInt64.le_iff_toNat_le, start, stop]
      exact Nat.le_add_right _ _
    rw [Span.width, UInt64.toNat_sub_of_le _ _ straight, stop, start,
      Nat.add_sub_cancel_left] at size
    rw [hspan, if_pos inside]
    by_cases empty : r.valueLength = 0
    · have zero : r.valueLength.toNat = 0 := by rw [empty]; rfl
      simp only [empty, if_true, Plan.eval]
      simp [Bytes.slice]
    · simp only [empty, if_false, Plan.eval, hread, size, if_true]
  · rw [Record.locate_eq_error (Nat.lt_of_not_le inside), if_neg inside]
    rfl

theorem find_of_length {config : Config} {key : Bytes} (h : key.length = t.keySize.toNat) :
    t.find config key =
      (Window.search t config.scanThreshold key (Window.whole t.entryCount)).map
        (Except.mapError .format) :=
  if_neg (not_not_intro h)

theorem find_of_length_ne {config : Config} {key : Bytes}
    (h : key.length ≠ t.keySize.toNat) :
    t.find config key = .done (.error (.invalidKey t.keySize key.length)) :=
  if_pos h

/-- Whatever the index holds, a search comes to an answer that the index certifies. -/
theorem FitsIn.exists_eval_find (fits : t.FitsIn (Store.ofBytes blob).length)
    (config : Config) {key : Bytes} (h : key.length = t.keySize.toNat) :
    ∃ outcome, (t.find config key).eval (Store.ofBytes blob) =
      .ok (outcome.mapError .format) ∧
      Certified (t.recordsIn blob) key outcome := by
  have free : between none none key = true := rfl
  obtain ⟨outcome, heval, certified⟩ :=
    Window.search_certified fits config.scanThreshold (Window.splits_whole t blob)
      (by simp) free
  refine ⟨outcome, ?_, certified⟩
  rw [find_of_length h, Plan.eval_map, heval]
  rfl

/-- On a sorted index a search finds what going through all the records finds. -/
theorem FitsIn.eval_find (fits : t.FitsIn (Store.ofBytes blob).length)
    (sorted : StrictlySorted (t.recordsIn blob)) (config : Config) {key : Bytes}
    (h : key.length = t.keySize.toNat) :
    (t.find config key).eval (Store.ofBytes blob) =
      .ok (.ok ((t.recordsIn blob).find? fun r => r.key == key)) := by
  obtain ⟨outcome, heval, certified⟩ := fits.exists_eval_find config h
  rw [heval, certified.eq_find? sorted]
  rfl

theorem FitsIn.eval_lookup (fits : t.FitsIn (Store.ofBytes blob).length)
    (sorted : StrictlySorted (t.recordsIn blob)) (config : Config) {key : Bytes}
    (h : key.length = t.keySize.toNat) :
    (t.lookup config key).eval (Store.ofBytes blob) =
      .ok ((t.valueIn blob key).mapError .format) := by
  rw [lookup, Plan.eval_bind, fits.eval_find sorted config h, valueIn]
  cases (t.recordsIn blob).find? fun r => r.key == key with
  | none => rfl
  | some r =>
      simp only [Except.bind, Plan.eval_map, fits.eval_fetch r, Except.map]
      cases r.valueIn t blob <;> rfl

end Trailer

/-- A plan that keeps to what a trailer permits comes to its end over a store
that the trailer fits in. -/
theorem Trailer.FitsIn.exists_eval {α : Type} {t : Trailer} {blob : Bytes}
    (fits : t.FitsIn (Store.ofBytes blob).length) {plan : Plan α}
    (h : plan.Asks t.Permits) :
    ∃ result, plan.eval (Store.ofBytes blob) = .ok result := by
  refine Plan.Asks.exists_eval (h.imp fun request permitted => ?_)
  rintro purpose span rfl
  exact fits.read_of_permits permitted

theorem Query.exists_eval_plan {t : Trailer} {blob : Bytes}
    (fits : t.FitsIn (Store.ofBytes blob).length) (query : Query) (config : Config) :
    ∃ verdict, (query.plan config (.ok t)).eval (Store.ofBytes blob) = .ok verdict :=
  fits.exists_eval (query.plan_asks config t)

namespace Trailer

theorem accept_eq_ok_iff {bytes : Bytes} {config : Config} {blobLength : UInt64}
    {t : Trailer} :
    (do
        let t ← decode bytes config.verifyTrailerChecksum
        t.validate blobLength config
        return t) = Except.ok t ↔
      decode bytes config.verifyTrailerChecksum = .ok t ∧
      t.validate blobLength config = .ok () := by
  cases hdecode : decode bytes config.verifyTrailerChecksum with
  | error error => simp [bind, Except.bind]
  | ok decoded =>
      cases hvalidate : decoded.validate blobLength config with
      | error error =>
          simp only [bind, Except.bind, hvalidate, reduceCtorEq, Except.ok.injEq, false_iff]
          intro accepted
          obtain ⟨rfl, valid⟩ := accepted
          cases hvalidate.symm.trans valid
      | ok _ =>
          simp only [bind, Except.bind, pure, Except.pure, hvalidate, Except.ok.injEq]
          exact ⟨fun same => ⟨same, same ▸ hvalidate⟩, And.left⟩

theorem fits_of_eval_load {store : Store} {config : Config} {t : Trailer}
    (h : (load config).eval store = .ok (.ok t)) :
    t.AllowedBy config ∧ t.FitsIn store.length := by
  simp only [load, Plan.eval] at h
  split at h
  · simp [Plan.eval] at h
  · cases hread : store.read ⟨store.length - size, store.length⟩ with
    | error error => simp [Plan.eval, hread] at h
    | ok bytes =>
        rw [Plan.eval_read hread, Plan.eval] at h
        exact validate_eq_ok_iff.mp (accept_eq_ok_iff.mp (Except.ok.inj h)).2

theorem exists_eval_load (config : Config) (blob : Bytes) :
    ∃ loaded, (load config).eval (Store.ofBytes blob) = .ok loaded := by
  simp only [load, Plan.eval]
  split
  · exact ⟨_, rfl⟩
  · rename_i long
    have hread := Store.read_last (UInt64.not_lt.mp long)
    exact ⟨_, by rw [Plan.eval_read hread, Plan.eval]⟩

end Trailer

end SortedBlob
