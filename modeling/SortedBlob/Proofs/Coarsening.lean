import SortedBlob.Proofs.SharedCache
import SortedBlob.Proofs.Thresholds

/-!
How two searches by different thresholds go through an index. The windows that the larger
one scans at once are blocks of what the smaller one visits, and of two caches that are
first come, first served, the one filled by blocks holds the block of whatever the other one
holds. Main statements: `Coarsens.misses_le` and `Query.find_coarsens`.
-/

namespace SortedBlob

variable {α : Type}

namespace ReadCache

variable {capacity : Nat} {held : List Span} {span : Span}

/-- What is held once a range was visited. -/
def keep (capacity : Nat) (held : List Span) (span : Span) : List Span :=
  if span ∈ held ∨ capacity ≤ held.length then held else span :: held

/-- How many ranges are not held when they are visited. -/
def misses (capacity : Nat) : List Span → List Span → Nat
  | _, [] => 0
  | held, span :: rest =>
      (if span ∈ held then 0 else 1) + misses capacity (keep capacity held span) rest

theorem keep_of_mem (h : span ∈ held) : keep capacity held span = held :=
  if_pos (.inl h)

theorem mem_keep (capacity : Nat) (held : List Span) (span : Span) :
    span ∈ keep capacity held span ∨ capacity ≤ (keep capacity held span).length := by
  unfold keep
  split
  · assumption
  · exact .inl (List.mem_cons_self ..)

theorem misses_append (capacity : Nat) (held first second : List Span) :
    misses capacity held (first ++ second) =
      misses capacity held first + misses capacity (first.foldl (keep capacity) held)
        second := by
  induction first generalizing held with
  | nil => exact (Nat.zero_add _).symm
  | cons span rest ih =>
      simp only [List.cons_append, misses, List.foldl_cons, ih, Nat.add_assoc]

theorem keys_offer_eq_keep (cache : ReadCache) {bytes : Bytes}
    (complete : bytes.length = span.width.toNat) :
    (cache.offer span bytes).keys = keep cache.capacity cache.keys span := by
  rw [keep, length_keys]
  rcases cache.keys_offer complete with ⟨taken, new, room⟩ | ⟨same, refused⟩
  · rw [taken, if_neg (not_or.mpr ⟨new, Nat.not_le_of_lt room⟩)]
  · rw [same, if_pos refused]

end ReadCache

open ReadCache

/-- The coarser one of two caches holds the block of whatever the finer one
holds, in no more ranges. -/
structure Covers (block : Span → Span) (fine coarse : List Span) : Prop where
  length_le : coarse.length ≤ fine.length
  mem {span : Span} : span ∈ fine → block span ∈ coarse

/-- The second sequence of visits is the blocks of the first, those next to
each other visited once. -/
inductive Coarsens (block : Span → Span) : List Span → List Span → Prop
  | nil : Coarsens block [] []
  | cons {span : Span} {inner rest rest' : List Span}
      (same : ∀ other ∈ inner, block other = block span)
      (later : Coarsens block rest rest') :
      Coarsens block (span :: (inner ++ rest)) (block span :: rest')

section

variable {block : Span → Span} {fine coarse visits visits' : List Span}

theorem Covers.keep (h : Covers block fine coarse) (capacity : Nat) (span : Span) :
    Covers block (keep capacity fine span) (keep capacity coarse (block span)) := by
  have length_le := h.length_le
  unfold ReadCache.keep
  split
  · rename_i refused
    split
    · exact h
    · rename_i taken
      obtain ⟨new, room⟩ := not_or.mp taken
      refine ⟨?_, fun member => List.mem_cons_of_mem _ (h.mem member)⟩
      rcases refused with known | full
      · exact absurd (h.mem known) new
      · rw [List.length_cons]
        omega
  · rename_i taken
    obtain ⟨_, room⟩ := not_or.mp taken
    split
    · rename_i refused
      refine ⟨Nat.le_succ_of_le length_le, fun member => ?_⟩
      rcases List.mem_cons.mp member with rfl | old
      · exact refused.resolve_right (by omega)
      · exact h.mem old
    · refine ⟨Nat.succ_le_succ length_le, fun member => ?_⟩
      rcases List.mem_cons.mp member with rfl | old
      · exact List.mem_cons_self ..
      · exact List.mem_cons_of_mem _ (h.mem old)

/-- More visits to a block make no difference to the coarser cache. -/
theorem Covers.inner (h : Covers block fine coarse) {capacity : Nat} {span : Span}
    (known : block span ∈ coarse ∨ capacity ≤ coarse.length) {inner : List Span}
    (same : ∀ other ∈ inner, block other = block span) :
    Covers block (inner.foldl (ReadCache.keep capacity) fine) coarse := by
  induction inner generalizing fine with
  | nil => exact h
  | cons other rest ih =>
      obtain ⟨first, others⟩ := List.forall_mem_cons.mp same
      refine ih ?_ others
      have length_le := h.length_le
      unfold ReadCache.keep
      split
      · exact h
      · rename_i taken
        obtain ⟨_, room⟩ := not_or.mp taken
        refine ⟨Nat.le_succ_of_le length_le, fun member => ?_⟩
        rcases List.mem_cons.mp member with rfl | old
        · rw [first]
          exact known.resolve_right (by omega)
        · exact h.mem old

/-- Visits by blocks miss no more often, and leave a cache that still covers the other. -/
theorem Coarsens.misses_le (h : Coarsens block visits visits')
    (covers : Covers block fine coarse) (capacity : Nat) :
    misses capacity coarse visits' ≤ misses capacity fine visits ∧
      Covers block (visits.foldl (keep capacity) fine)
        (visits'.foldl (keep capacity) coarse) := by
  induction h generalizing fine coarse with
  | nil => exact ⟨Nat.le_refl _, covers⟩
  | @cons span inner rest rest' same later ih =>
      have first := covers.keep capacity span
      obtain ⟨fewer, after⟩ := ih (first.inner (mem_keep capacity coarse (block span)) same)
      rw [List.foldl_cons, List.foldl_cons, List.foldl_append]
      refine ⟨?_, after⟩
      have hit : (if block span ∈ coarse then 0 else 1) ≤ if span ∈ fine then 0 else 1 := by
        split
        · exact Nat.zero_le _
        · rename_i missed
          rw [if_neg fun known => missed (covers.mem known)]
      rw [misses, misses, misses_append]
      omega

/-- A visit that is its own block. -/
theorem Coarsens.shared {span : Span} (own : block span = span)
    (later : Coarsens block visits visits') :
    Coarsens block (span :: visits) (span :: visits') := by
  have alone : ∀ other ∈ ([] : List Span), block other = block span := nofun
  have first := Coarsens.cons alone later
  rwa [own] at first

/-- Visits to one block only. -/
theorem Coarsens.single {span first : Span} {inner : List Span}
    (same : ∀ other ∈ first :: inner, block other = span) :
    Coarsens block (first :: inner) [span] := by
  obtain ⟨rfl, others⟩ := List.forall_mem_cons.mp same
  have visits := Coarsens.cons others Coarsens.nil
  rwa [List.append_nil] at visits

theorem Coarsens.append {first first' second second' : List Span}
    (h : Coarsens block first first') (h' : Coarsens block second second') :
    Coarsens block (first ++ second) (first' ++ second') := by
  induction h with
  | nil => exact h'
  | cons same later ih =>
      rw [List.cons_append, List.append_assoc]
      exact .cons same ih

theorem Coarsens.flatMap {sequence sequence' : α → List Span}
    (h : ∀ a, Coarsens block (sequence a) (sequence' a)) (args : List α) :
    Coarsens block (args.flatMap sequence) (args.flatMap sequence') := by
  induction args with
  | nil => exact .nil
  | cons first rest ih => exact (h first).append ih

end

/-! The blocks of an index are the windows at which halving stops, for a threshold. -/

namespace Window

/-- The range that a search reads on its way to a position: the block that the position lies
in, or the one record in the middle of a window that is too wide. -/
def block (t : Trailer) (scanThreshold position low high : UInt64) : Span :=
  let w : Window := ⟨low, high, none, none⟩
  if _h : low < high then
    if 1 < scanThreshold ∧ w.width ≤ scanThreshold then t.recordsSpan low high
    else if w.middle < position then block t scanThreshold position (w.middle + 1) high
    else if position < w.middle then block t scanThreshold position low w.middle
    else t.recordSpan w.middle
  else t.recordsSpan low high
termination_by high.toNat - low.toNat
decreasing_by
  · exact upperHalf_narrower (w := ⟨low, high, none, none⟩) ‹_› []
  · exact lowerHalf_narrower (w := ⟨low, high, none, none⟩) ‹_› []

variable {w : Window} {t : Trailer} {scanThreshold position : UInt64}

theorem block_of_small (nonempty : w.low < w.high)
    (small : 1 < scanThreshold ∧ w.width ≤ scanThreshold) :
    block t scanThreshold position w.low w.high = t.recordsSpan w.low w.high := by
  rw [block]
  exact (dif_pos nonempty).trans (if_pos small)

section

variable (nonempty : w.low < w.high)
  (wide : ¬ (1 < scanThreshold ∧ w.width ≤ scanThreshold))

include nonempty wide

theorem block_of_wide :
    block t scanThreshold position w.low w.high =
      if w.middle < position then block t scanThreshold position (w.middle + 1) w.high
      else if position < w.middle then block t scanThreshold position w.low w.middle
      else t.recordSpan w.middle := by
  rw [block]
  exact (dif_pos nonempty).trans (if_neg wide)

theorem block_middle :
    block t scanThreshold w.middle w.low w.high = t.recordSpan w.middle := by
  rw [block_of_wide nonempty wide, if_neg (UInt64.lt_irrefl _), if_neg (UInt64.lt_irrefl _)]

theorem block_upperHalf (key : Bytes) (above : (w.upperHalf key).low ≤ position) :
    block t scanThreshold position w.low w.high =
      block t scanThreshold position (w.upperHalf key).low (w.upperHalf key).high := by
  have later := UInt64.lt_of_lt_of_le (Word.lt_succ_of_lt (middle_lt nonempty)) above
  rw [block_of_wide nonempty wide, if_pos later]
  rfl

theorem block_lowerHalf (key : Bytes) (below : position < (w.lowerHalf key).high) :
    block t scanThreshold position w.low w.high =
      block t scanThreshold position (w.lowerHalf key).low (w.lowerHalf key).high := by
  have earlier : position < w.middle := below
  rw [block_of_wide nonempty wide, if_neg (UInt64.lt_asymm earlier), if_pos earlier]
  rfl

end

end Window

/-- The ranges of the index that a plan visits over a store. -/
def Plan.visits (store : Store) (plan : Plan α) : List Span :=
  (plan.requests store).filterMap Request.indexSpan?

namespace Plan

variable {store : Store}

theorem visits_read {span : Span} {bytes : Bytes} (h : store.read span = .ok bytes)
    (purpose : Purpose) (next : Bytes → Plan α) :
    (read purpose span next).visits store =
      (Request.read purpose span).indexSpan?.toList ++ (next bytes).visits store := by
  rw [visits, requests_read h]
  cases purpose <;> rfl

theorem visits_read_index {span : Span} {bytes : Bytes} (h : store.read span = .ok bytes)
    (next : Bytes → Plan α) :
    (read .index span next).visits store = span :: (next bytes).visits store :=
  visits_read h .index next

theorem visits_of_load {plan : Plan α}
    (h : plan.Asks fun request => request.isOfLoad = true) (store : Store) :
    plan.visits store = [] :=
  List.filterMap_eq_nil_iff.mpr fun request member =>
    Request.indexSpan?_eq_none (h.requests store request member)

theorem requests_map {β : Type} (store : Store) (plan : Plan α) (f : α → β) :
    (plan.map f).requests store = plan.requests store := by
  induction plan with
  | done result => rfl
  | length next ih => exact congrArg _ (ih store.length)
  | read purpose span next ih =>
      cases hread : store.read span with
      | error error => simp only [map, read_bind, requests, hread]
      | ok bytes =>
          have later := ih bytes
          rw [map] at later ⊢
          rw [read_bind, requests_read hread, requests_read hread, later]

theorem visits_map {β : Type} (store : Store) (plan : Plan α) (f : α → β) :
    (plan.map f).visits store = plan.visits store :=
  congrArg _ (requests_map store plan f)

end Plan

namespace Window

variable {w : Window} {t : Trailer} {pre win post : List Record} {blob key : Bytes}
  {fine coarse : UInt64}

theorem exists_of_mem_visits {store : Store} {span : Span}
    (h : span ∈ (search t fine key w).visits store) :
    ∃ low high, w.low ≤ low ∧ low < high ∧ high ≤ w.high ∧
      span = t.recordsSpan low high := by
  obtain ⟨request, member, same⟩ := List.mem_filterMap.mp h
  obtain ⟨low, high, after, order, before, rfl⟩ :=
    (search_asks_within t fine key w).requests store request member
  cases same
  exact ⟨low, high, after, order, before, rfl⟩

theorem exists_visits (t : Trailer) (scanThreshold : UInt64) (key : Bytes)
    (nonempty : w.low < w.high) (store : Store) :
    ∃ first inner, (search t scanThreshold key w).visits store = first :: inner := by
  rw [search, dif_pos nonempty]
  split <;> simp [Plan.visits, Plan.requests, Request.indexSpan?]

/-- What two searches visit is the same down to a window that one of them scans. -/
theorem search_coarsens (fits : t.FitsIn (Store.ofBytes blob).length) (h : fine ≤ coarse)
    {blockOf : Span → Span} (split : w.Splits pre win post)
    (whole : t.recordsIn blob = pre ++ win ++ post)
    (agree : ∀ low high, w.low ≤ low → low < high → high ≤ w.high →
      blockOf (t.recordsSpan low high) = block t coarse low w.low w.high) :
    Coarsens blockOf ((search t fine key w).visits (Store.ofBytes blob))
      ((search t coarse key w).visits (Store.ofBytes blob)) := by
  induction w using search.induct coarse generalizing pre win post with
  | case1 w nonempty small =>
      have same : ∀ span ∈ (search t fine key w).visits (Store.ofBytes blob),
          blockOf span = t.recordsSpan w.low w.high := by
        intro span member
        obtain ⟨low, high, after, order, before, rfl⟩ := exists_of_mem_visits member
        rw [agree low high after order before, block_of_small nonempty small]
      obtain ⟨bytes, hread, _⟩ := split.exists_window fits whole nonempty
      obtain ⟨first, inner, visits⟩ :=
        exists_visits t fine key nonempty (Store.ofBytes blob)
      rw [visits] at same ⊢
      rw [search, dif_pos nonempty, if_pos small, Plan.visits_read_index hread]
      exact .single same
  | case2 w nonempty wide upper lower =>
      obtain ⟨bytes, left, r, right, hread, hdecode, rfl, place⟩ :=
        split.exists_middle fits whole nonempty
      have inside := middle_lt nonempty
      have above := low_le_middle nonempty
      have rising := Word.lt_succ_of_lt inside
      have first : blockOf (t.recordSpan w.middle) = t.recordSpan w.middle := by
        rw [Trailer.recordSpan, agree w.middle (w.middle + 1) above rising
          (Word.succ_le_of_lt inside), block_middle nonempty wide, Trailer.recordSpan]
      rw [search, search, dif_pos nonempty, dif_pos nonempty, if_neg wide,
        if_neg (wide_of_coarser h wide), Plan.visits_read_index hread,
        Plan.visits_read_index hread]
      apply Coarsens.shared first
      simp only [hdecode]
      split
      · exact .nil
      · split
        · exact .nil
        · split
          · refine upper r (split.upperHalf place) (by simp [whole])
              fun low high after order before => ?_
            have later :=
              UInt64.le_trans (UInt64.le_trans above (UInt64.le_of_lt rising)) after
            rw [agree low high later order before,
              block_upperHalf nonempty wide r.key after]
          · refine lower r (split.lowerHalf place) (by simp [whole])
              fun low high after order before => ?_
            have earlier := UInt64.le_trans before (UInt64.le_of_lt inside)
            rw [agree low high after order earlier,
              block_lowerHalf nonempty wide r.key (UInt64.lt_of_lt_of_le order before)]
  | case3 w empty =>
      rw [search, search, dif_neg empty, dif_neg empty]
      exact .nil

end Window

section

variable {t : Trailer} {blob : Bytes} {config : Config} {fine coarse : UInt64}

/-- The block in which the first record of a range lies. -/
def Trailer.blockOf (t : Trailer) (scanThreshold : UInt64) (span : Span) : Span :=
  let position := (span.start.toNat - t.indexOffset.toNat) / t.recordSize.toNat
  Window.block t scanThreshold (UInt64.ofNat position) 0 t.entryCount

theorem Trailer.FitsIn.blockOf_recordsSpan {blobLength low : UInt64}
    (fits : t.FitsIn blobLength) (inside : low ≤ t.entryCount)
    (scanThreshold high : UInt64) :
    t.blockOf scanThreshold (t.recordsSpan low high) =
      Window.block t scanThreshold low 0 t.entryCount := by
  rw [blockOf, fits.toNat_start inside, recordStart, Nat.add_sub_cancel_left,
    Nat.mul_div_cancel _ t.recordSize_pos, UInt64.ofNat_toNat]

theorem Trailer.FitsIn.find_coarsens (fits : t.FitsIn (Store.ofBytes blob).length)
    (h : fine ≤ coarse) (config : Config) (key : Bytes) :
    Coarsens (t.blockOf coarse)
      ((t.find (config.scanning fine) key).visits (Store.ofBytes blob))
      ((t.find (config.scanning coarse) key).visits (Store.ofBytes blob)) := by
  by_cases size : key.length = t.keySize.toNat
  · rw [find_of_length size, find_of_length size, Plan.visits_map, Plan.visits_map]
    refine Window.search_coarsens fits h (Window.splits_whole t blob) (by simp) ?_
    intro low high _ order before
    exact fits.blockOf_recordsSpan
      (UInt64.le_of_lt (UInt64.lt_of_lt_of_le order before)) _ high
  · rw [find_of_length_ne size, find_of_length_ne size]
    exact .nil

theorem Query.visits_eq {store : Store} {loaded : Except FormatError Trailer}
    (h : (Trailer.load config).eval store = .ok loaded) (query : Query) :
    query.visits store config = (query.plan config loaded).visits store :=
  (query.ahead_plan h).symm

theorem Query.find_coarsens (blob : Bytes) (config : Config) (h : fine ≤ coarse) :
    ∃ block, ∀ key, Coarsens block
      ((Query.find key).visits (Store.ofBytes blob) (config.scanning fine))
      ((Query.find key).visits (Store.ofBytes blob) (config.scanning coarse)) := by
  obtain ⟨loaded, hload⟩ := Trailer.exists_eval_load config blob
  have loads (scanThreshold : UInt64) :
      (Trailer.load (config.scanning scanThreshold)).eval (Store.ofBytes blob) =
        .ok loaded := hload
  cases loaded with
  | error error =>
      refine ⟨id, fun key => ?_⟩
      rw [visits_eq (loads fine), visits_eq (loads coarse)]
      exact .nil
  | ok t =>
      obtain ⟨_, fits⟩ := Trailer.fits_of_eval_load hload
      refine ⟨t.blockOf coarse, fun key => ?_⟩
      rw [visits_eq (loads fine), visits_eq (loads coarse), plan, plan, Plan.visits_map,
        Plan.visits_map]
      exact fits.find_coarsens h config key

end

end SortedBlob
