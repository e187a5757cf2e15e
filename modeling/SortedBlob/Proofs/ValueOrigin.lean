import SortedBlob.Proofs.Traces

/-!
Where the answer to a lookup comes from, whatever the source answers: the trace of the
lookup leads to the record of the key, and from there to the value. Main statements:
`Window.search_origin`, `Record.traces_fetch` and `Plan.Traces.readsValueLast`.
-/

namespace SortedBlob

variable {α β : Type} {cache : ReadCache} {own : List Signal}

/-- A read of the index was answered, by the source or from the cache. -/
theorem Plan.exists_of_traces_read_index {span : Span} {next : Bytes → Plan α} {result : α}
    (h : (read .index span next).Traces cache own (done result)) :
    ∃ bytes later, (.read .index span (.ok bytes) ∈ own ∨ cache.get? span = some bytes) ∧
      later ⊆ own ∧ (next bytes).Traces cache later (done result) := by
  cases h with
  | @read _ _ _ bytes later _ h =>
      exact ⟨bytes, later, .inl (by simp), List.subset_append_left .., h⟩
  | hit kept h => exact ⟨_, own, .inr kept, List.Subset.refl _, h⟩

/-- The record at a position, from the bytes of a range of the index
that was read in full. -/
structure Trailer.Holds (t : Trailer) (cache : ReadCache) (own : List Signal)
    (low high : UInt64) (bytes : Bytes) (position : UInt64) (r : Record) : Prop where
  answered : .read .index (t.recordsSpan low high) (.ok bytes) ∈ own ∨
    cache.get? (t.recordsSpan low high) = some bytes
  inside : low ≤ position ∧ position < high ∧ high ≤ t.entryCount
  complete : bytes.length = (high.toNat - low.toNat) * Record.size t.keySize.toNat
  decoded : (Index.decode t.keySize.toNat (high.toNat - low.toNat) bytes)[
    position.toNat - low.toNat]? = some r

theorem Trailer.Holds.mono {t : Trailer} {later : List Signal} {low high position : UInt64}
    {bytes : Bytes} {r : Record} (h : t.Holds cache later low high bytes position r)
    (fewer : later ⊆ own) : t.Holds cache own low high bytes position r :=
  ⟨h.answered.imp_left fun member => fewer member, h.inside, h.complete, h.decoded⟩

theorem Trailer.holds_one {t : Trailer} {position : UInt64} {bytes : Bytes} {r : Record}
    (inside : position < t.entryCount)
    (answered : .read .index (t.recordSpan position) (.ok bytes) ∈ own ∨
      cache.get? (t.recordSpan position) = some bytes)
    (h : Record.decode bytes t.keySize.toNat position = .ok r) :
    t.Holds cache own position (position + 1) bytes position r := by
  have one : (position + 1).toNat - position.toNat = 1 := by
    rw [Word.toNat_succ_of_lt inside, Nat.add_sub_cancel_left]
  unfold Record.decode at h
  split at h
  · rename_i complete
    cases h
    refine ⟨answered, ⟨UInt64.le_refl _, Word.lt_succ_of_lt inside, Word.succ_le_of_lt inside⟩,
      by rw [one, Nat.one_mul, complete], ?_⟩
    rw [one, Nat.sub_self, Index.decode, List.take_of_length_le (Nat.le_of_eq complete)]
    rfl
  · cases h

namespace Window

variable {t : Trailer} {blobLength scanThreshold : UInt64} {key : Bytes} {w : Window}
  {r : Record}

theorem scan_eq_some {bytes : Bytes} (h : w.scan t key bytes = .ok (some r)) :
    bytes.length = (t.recordsSpan w.low w.high).width.toNat ∧
      (Index.decode t.keySize.toNat w.width.toNat bytes).find? (fun r => r.key == key) =
        some r := by
  simp only [scan_eq_answer] at h
  split at h
  · cases h
  · rename_i complete
    exact ⟨not_not.mp complete, (answer_eq_ok_iff.mp h).2⟩

theorem holds_of_scan (fits : t.FitsIn blobLength) (nonempty : w.low < w.high)
    (bounded : w.high ≤ t.entryCount) {bytes : Bytes}
    (answered : .read .index (t.recordsSpan w.low w.high) (.ok bytes) ∈ own ∨
      cache.get? (t.recordsSpan w.low w.high) = some bytes)
    (h : w.scan t key bytes = .ok (some r)) :
    r.key = key ∧ ∃ position, t.Holds cache own w.low w.high bytes position r := by
  obtain ⟨complete, found⟩ := scan_eq_some h
  obtain ⟨index, hindex⟩ := List.mem_iff_getElem?.mp (List.mem_of_find?_eq_some found)
  obtain ⟨inside, _⟩ := List.getElem?_eq_some_iff.mp hindex
  rw [fits.toNat_width (UInt64.le_of_lt nonempty) bounded, ← t.size_keySize] at complete
  rw [toNat_width nonempty] at hindex inside
  rw [Index.length_decode] at inside
  have bound := w.high.toNat_lt_size
  have place : (w.low + UInt64.ofNat index).toNat = w.low.toNat + index :=
    Word.toNat_add_ofNat (by omega)
  have same := List.find?_some found
  refine ⟨beq_iff_eq.mp same, w.low + UInt64.ofNat index, answered, ⟨?_, ?_, bounded⟩,
    complete, ?_⟩
  · rw [UInt64.le_iff_toNat_le, place]
    exact Nat.le_add_right ..
  · rw [UInt64.lt_iff_toNat_lt, place]
    omega
  · rw [place, Nat.add_sub_cancel_left]
    exact hindex

/-- What a search finds has the key, and is what some range of the
index was answered with. -/
theorem search_origin (fits : t.FitsIn blobLength) (bounded : w.high ≤ t.entryCount)
    (h : (search t scanThreshold key w).Traces cache own (.done (.ok (some r)))) :
    r.key = key ∧
      ∃ low high bytes position, t.Holds cache own low high bytes position r := by
  induction w using search.induct scanThreshold generalizing own with
  | case1 w nonempty small =>
      rw [search, dif_pos nonempty, if_pos small] at h
      obtain ⟨bytes, later, answered, _, h⟩ := Plan.exists_of_traces_read_index h
      obtain ⟨_, same⟩ := Plan.traces_done h
      obtain ⟨same, position, holds⟩ :=
        holds_of_scan fits nonempty bounded answered (Plan.done.inj same).symm
      exact ⟨same, w.low, w.high, bytes, position, holds⟩
  | case2 w nonempty wide upper lower =>
      rw [search, dif_pos nonempty, if_neg wide] at h
      obtain ⟨bytes, later, answered, fewer, h⟩ := Plan.exists_of_traces_read_index h
      have further
          (h : r.key = key ∧
            ∃ low high bytes position, t.Holds cache later low high bytes position r) :
          r.key = key ∧
            ∃ low high bytes position, t.Holds cache own low high bytes position r := by
        obtain ⟨same, low, high, bytes, position, holds⟩ := h
        exact ⟨same, low, high, bytes, position, holds.mono fewer⟩
      cases hdecode : Record.decode bytes t.keySize.toNat w.middle with
      | error error =>
          rw [hdecode] at h
          obtain ⟨_, same⟩ := Plan.traces_done h
          cases same
      | ok found =>
          simp only [hdecode] at h
          split at h
          · obtain ⟨_, same⟩ := Plan.traces_done h
            cases same
          · split at h
            · rename_i same
              obtain ⟨_, isResult⟩ := Plan.traces_done h
              cases isResult
              have inside := UInt64.lt_of_lt_of_le (middle_lt nonempty) bounded
              exact ⟨same, _, _, bytes, _, Trailer.holds_one inside answered hdecode⟩
            · split at h
              · exact further (upper _ bounded h)
              · have shorter := UInt64.le_trans (UInt64.le_of_lt (middle_lt nonempty)) bounded
                exact further (lower _ shorter h)
  | case3 w empty =>
      rw [search, dif_neg empty] at h
      obtain ⟨_, same⟩ := Plan.traces_done h
      cases same

end Window

/-- A value that was fetched is as long as its record says and was read as the last thing,
unless there was nothing to read. -/
structure Record.Fetched (r : Record) (t : Trailer) (own : List Signal) (v : Bytes) :
    Prop where
  inside : r.valueOffset.toNat + r.valueLength.toNat ≤ t.indexOffset.toNat
  complete : v.length = r.valueLength.toNat
  empty : r.valueLength = 0 → own = []
  read : r.valueLength ≠ 0 → ∃ span : Span, span.start = r.valueOffset ∧
    span.stop.toNat = r.valueOffset.toNat + r.valueLength.toNat ∧
    own = [.read .value span (.ok v), .asked (.read .value span)]

theorem Record.traces_fetch {r : Record} {t : Trailer} {v : Bytes}
    (h : (r.fetch t).Traces cache own (.done (.ok v))) : r.Fetched t own v := by
  unfold fetch at h
  split at h
  · obtain ⟨_, impossible⟩ := Plan.traces_done h
    cases impossible
  · rename_i span hspan
    obtain ⟨start, stop, before⟩ := locate_eq_ok_iff.mp hspan
    have inside : r.valueOffset.toNat + r.valueLength.toNat ≤ t.indexOffset.toNat := by
      rw [← stop]
      exact UInt64.le_iff_toNat_le.mp before
    split at h
    · rename_i zero
      obtain ⟨none, same⟩ := Plan.traces_done h
      cases same
      exact ⟨inside, by rw [zero]; rfl, fun _ => none, fun positive => absurd zero positive⟩
    · rename_i positive
      cases h with
      | @read _ _ _ bytes _ _ h =>
          obtain ⟨rfl, same⟩ := Plan.traces_done h
          have taken := (Plan.done.inj same).symm
          split at taken
          · rename_i complete
            cases taken
            exact ⟨inside, complete, fun zero => absurd zero positive,
              fun _ => ⟨span, start, stop, rfl⟩⟩
          · cases taken

theorem Trailer.traces_find {t : Trailer} {blobLength : UInt64} {config : Config}
    {key : Bytes} {r : Record} (fits : t.FitsIn blobLength)
    (h : (t.find config key).Traces cache own (.done (.ok (some r)))) :
    r.key = key ∧
      ∃ low high bytes position, t.Holds cache own low high bytes position r := by
  by_cases size : key.length = t.keySize.toNat
  · rw [find_of_length size] at h
    obtain ⟨found, same, h⟩ := Plan.traces_map_done h
    cases found with
    | error error => cases same
    | ok r? =>
        cases same
        exact Window.search_origin fits (UInt64.le_refl _) h
  · rw [find_of_length_ne size] at h
    obtain ⟨_, impossible⟩ := Plan.traces_done h
    cases impossible

/-- The trace of a lookup that comes to a value: first that of a
search, then that of a fetch. -/
theorem Trailer.traces_lookup {t : Trailer} {blobLength : UInt64} {config : Config}
    {key v : Bytes} (fits : t.FitsIn blobLength)
    (h : (t.lookup config key).Traces cache own (.done (.ok (some v)))) :
    ∃ r fetched found, own = fetched ++ found ∧ r.key = key ∧
      (∃ low high bytes position, t.Holds cache found low high bytes position r) ∧
      (t.find config key).Traces cache found (.done (.ok (some r))) ∧
      r.Fetched t fetched v := by
  obtain ⟨outcome, found, fetched, rfl, hfind, hrest⟩ := Plan.traces_bind_done h
  rcases outcome with error | r?
  · obtain ⟨_, impossible⟩ := Plan.traces_done hrest
    cases impossible
  · rcases r? with _ | r
    · obtain ⟨_, impossible⟩ := Plan.traces_done hrest
      cases impossible
    · obtain ⟨taken, same, hfetch⟩ := Plan.traces_map_done hrest
      rcases taken with error | value
      · cases same
      · cases same
        obtain ⟨same, holds⟩ := traces_find fits hfind
        exact ⟨r, fetched, found, rfl, same, holds, hfind, Record.traces_fetch hfetch⟩

/-! A lookup reads at most one value, and nothing after it. -/

def Request.readsValue : Request → Bool
  | .read .value _ => true
  | _ => false

/-- The requests that were sent, the latest first. -/
def requestsOf (own : List Signal) : List Request := own.filterMap Signal.asked?

/-- Only the latest request can be for a value. -/
def ValueLast (own : List Signal) : Prop :=
  ∀ request ∈ (requestsOf own).tail, request.readsValue = false

def WithoutValue (own : List Signal) : Prop :=
  ∀ request ∈ requestsOf own, request.readsValue = false

def Plan.ReadsValueLast : Plan α → Prop
  | done _ => True
  | length next => ∀ n, (next n).ReadsValueLast
  | read purpose _ next =>
      ∀ bytes, (purpose = .value → ∃ result, next bytes = done result) ∧
        (next bytes).ReadsValueLast

theorem WithoutValue.valueLast (h : WithoutValue own) : ValueLast own :=
  fun request member => h request (List.mem_of_mem_tail member)

theorem withoutValue_append {first second : List Signal} (h : WithoutValue first)
    (h' : WithoutValue second) : WithoutValue (first ++ second) := by
  intro request member
  rw [requestsOf, List.filterMap_append] at member
  exact (List.mem_append.mp member).elim (h request) (h' request)

theorem WithoutValue.of_forall {P : Request → Prop}
    (hP : ∀ request, P request → request.readsValue = false)
    (h : ∀ signal ∈ own, P signal.request) : WithoutValue own := by
  intro request member
  obtain ⟨signal, inOwn, asks⟩ := List.mem_filterMap.mp member
  cases signal with
  | asked sent =>
      cases asks
      exact hP _ (h _ inOwn)
  | length reply => cases asks
  | read purpose span reply => cases asks

/-- What came before a value was read does not matter if it was none. -/
theorem ValueLast.append {later earlier : List Signal} (h : ValueLast later)
    (h' : WithoutValue earlier) : ValueLast (later ++ earlier) := by
  intro request member
  rw [requestsOf, List.filterMap_append] at member
  change request ∈ (requestsOf later ++ requestsOf earlier).tail at member
  rw [ValueLast] at h
  cases hlater : requestsOf later with
  | nil =>
      rw [hlater] at member
      exact h' request (List.mem_of_mem_tail member)
  | cons latest rest =>
      rw [hlater] at member h
      exact (List.mem_append.mp member).elim (h request) (h' request)

namespace Plan

theorem Asks.readsValueLast {plan : Plan α}
    (h : plan.Asks fun request => request.readsValue = false) {f : α → Plan β}
    (hf : ∀ result, (f result).ReadsValueLast) :
    (plan.bind f).ReadsValueLast := by
  induction plan with
  | done result => exact hf result
  | length next ih => exact fun n => ih n (h.2 n)
  | read purpose span next ih =>
      refine fun bytes => ⟨?_, ih bytes (h.2 bytes)⟩
      rintro rfl
      cases h.1

theorem ReadsValueLast.map {plan : Plan α} (h : plan.ReadsValueLast) (f : α → β) :
    (plan.map f).ReadsValueLast := by
  induction plan with
  | done result => trivial
  | length next ih => exact fun n => ih n (h n)
  | read purpose span next ih =>
      intro bytes
      obtain ⟨last, later⟩ := h bytes
      refine ⟨fun value => ?_, ih bytes later⟩
      obtain ⟨result, same⟩ := last value
      exact ⟨f result, congrArg (Plan.bind · fun result => done (f result)) same⟩

theorem withoutValue_length (reply : Reply UInt64) :
    WithoutValue [.length reply, .asked .length] := by
  simp [WithoutValue, requestsOf, Signal.asked?, Request.readsValue]

theorem withoutValue_read {purpose : Purpose} (h : purpose ≠ .value) (span : Span)
    (reply : Reply Bytes) :
    WithoutValue [.read purpose span reply, .asked (.read purpose span)] := by
  cases purpose with
  | value => exact absurd rfl h
  | _ => simp [WithoutValue, requestsOf, Signal.asked?, Request.readsValue]

/-- Once a plan that reads its value last has read one, it is over. -/
theorem Traces.valueLast {plan rest : Plan α} (h : plan.Traces cache own rest)
    (last : plan.ReadsValueLast) :
    rest.ReadsValueLast ∧
      (WithoutValue own ∨ ValueLast own ∧ ∃ result, rest = done result) := by
  induction h with
  | refl plan => exact ⟨last, .inl nofun⟩
  | @length _ n _ _ _ ih =>
      obtain ⟨rest, reads⟩ := ih (last n)
      have first := withoutValue_length (.ok n)
      exact ⟨rest, reads.imp (withoutValue_append · first) (And.imp_left (·.append first))⟩
  | @read purpose span _ bytes later _ h ih =>
      obtain ⟨isLast, further⟩ := last bytes
      obtain ⟨rest, reads⟩ := ih further
      refine ⟨rest, ?_⟩
      by_cases value : purpose = .value
      · obtain ⟨result, same⟩ := isLast value
        rw [same] at h
        obtain ⟨rfl, isOver⟩ := traces_done h
        exact .inr ⟨nofun, result, isOver⟩
      · have first := withoutValue_read value span (.ok bytes)
        exact reads.imp (withoutValue_append · first) (And.imp_left (·.append first))
  | @hit _ _ bytes _ _ kept _ ih => exact ih (last bytes).2

end Plan

theorem Pending.plan_ne_done (sent : Pending α) (result : α) :
    sent.plan ≠ .done result := by
  cases sent <;> exact nofun

theorem Course.Traces.valueLast {plan : Plan α} {course : Course α}
    (h : course.Traces cache plan own) (last : plan.ReadsValueLast) : ValueLast own := by
  have unread {sent : Pending α} {earlier : List Signal}
      (traces : plan.Traces cache earlier sent.plan) : WithoutValue earlier := by
    refine (traces.valueLast last).2.resolve_right ?_
    rintro ⟨_, result, isOver⟩
    exact sent.plan_ne_done result isOver
  rcases course with rest | sent | interruption | result
  · exact (Plan.Traces.valueLast h last).2.elim WithoutValue.valueLast And.left
  · obtain ⟨earlier, rfl, traces⟩ := h
    exact fun request member => unread traces request member
  · obtain ⟨sent, reply, earlier, isReply, rfl, traces⟩ := h
    intro request member
    rw [requestsOf, List.filterMap_cons_none isReply] at member
    exact unread traces request member
  · exact (Plan.Traces.valueLast h last).2.elim WithoutValue.valueLast And.left

theorem Trailer.find_readsNoValue (t : Trailer) (config : Config) (key : Bytes) :
    (t.find config key).Asks fun request => request.readsValue = false := by
  unfold find
  split
  · trivial
  · refine (Window.search_asks_within t config.scanThreshold key _ |>.imp ?_).map _
    rintro request ⟨low, high, _, _, _, rfl⟩
    rfl

theorem Record.fetch_readsValueLast (r : Record) (t : Trailer) :
    (r.fetch t).ReadsValueLast := by
  unfold fetch
  split
  · trivial
  · split
    · trivial
    · exact fun bytes => ⟨fun _ => ⟨_, rfl⟩, trivial⟩

theorem Query.plan_readsValueLast (query : Query) (config : Config)
    (loaded : Except FormatError Trailer) : (query.plan config loaded).ReadsValueLast := by
  cases loaded with
  | error error => trivial
  | ok t =>
      cases query with
      | trailer => trivial
      | find key => exact (t.find_readsNoValue config key).readsValueLast fun _ => trivial
      | lookup key =>
          refine Plan.ReadsValueLast.map ?_ _
          refine (t.find_readsNoValue config key).readsValueLast fun found => ?_
          rcases found with error | r?
          · trivial
          · rcases r? with _ | r
            · trivial
            · exact (r.fetch_readsValueLast t).map _

theorem Request.readsValue_of_isOfLoad (request : Request) (h : request.isOfLoad = true) :
    request.readsValue = false := by
  cases request with
  | length => rfl
  | read purpose span =>
      cases purpose with
      | value => cases h
      | _ => rfl

theorem Trailer.load_readsValueLast (config : Config) : (load config).ReadsValueLast := by
  rw [← Plan.bind_done (load config)]
  exact ((load_asks config).imp Request.readsValue_of_isOfLoad).readsValueLast
    fun _ => trivial

end SortedBlob
