import Mathlib.Data.List.Dedup
import Mathlib.Data.List.Perm.Subperm
import SortedBlob.Proofs.Accounts

/-!
The cache that calls share over a store that answers everything. Which ranges find room in
it depends on how the calls interleave; how many do not (`Moment.CacheFilled.size_eq`).
-/

namespace SortedBlob

variable {α : Type}

namespace ReadCache

def keys (cache : ReadCache) : List Span := cache.entries.map Prod.fst

structure WellFormed (cache : ReadCache) : Prop where
  nodup : cache.keys.Nodup
  size_le : cache.size ≤ cache.capacity

theorem wellFormed_empty (capacity : Nat) : (empty capacity).WellFormed :=
  ⟨List.nodup_nil, Nat.zero_le capacity⟩

variable {cache : ReadCache}

theorem get?_isSome_iff {span : Span} : (cache.get? span).isSome ↔ span ∈ cache.keys := by
  simp only [get?, List.lookup_isSome_iff, beq_iff_eq, keys, List.mem_map]
  constructor
  · rintro ⟨entry, member, rfl⟩
    exact ⟨entry, member, rfl⟩
  · rintro ⟨entry, member, rfl⟩
    exact ⟨entry, member, rfl⟩

theorem length_keys (cache : ReadCache) : cache.keys.length = cache.size := by
  simp [keys, size]

/-- What is offered is taken, unless it is known or there is no room. -/
theorem keys_offer (cache : ReadCache) {span : Span} {bytes : Bytes}
    (complete : bytes.length = span.width.toNat) :
    (cache.offer span bytes).keys = span :: cache.keys ∧ span ∉ cache.keys ∧
        cache.size < cache.capacity ∨
      cache.offer span bytes = cache ∧
        (span ∈ cache.keys ∨ cache.capacity ≤ cache.size) := by
  by_cases accepted : cache.accepts span bytes = true
  · left
    have parts := accepted
    simp only [accepts, Bool.and_eq_true, decide_eq_true_eq,
      Option.isNone_iff_eq_none] at parts
    refine ⟨?_, ?_, parts.1.2⟩
    · rw [offer, if_pos accepted]
      rfl
    · rw [← get?_isSome_iff, parts.2]
      exact Bool.false_ne_true
  · right
    refine ⟨by rw [offer, if_neg accepted], ?_⟩
    by_cases known : span ∈ cache.keys
    · exact .inl known
    · refine .inr (Nat.le_of_not_lt fun room => accepted ?_)
      have missing : (cache.get? span).isNone = true := by
        simpa using mt get?_isSome_iff.mp known
      simp [accepts, complete, room, missing]

/-- What is not as long as it should be is not taken. -/
theorem offer_of_ne {span : Span} {bytes : Bytes} (h : bytes.length ≠ span.width.toNat) :
    cache.offer span bytes = cache := by
  rw [offer, accepts, beq_eq_false_iff_ne.mpr h]
  rfl

theorem WellFormed.offer (h : cache.WellFormed) (span : Span) (bytes : Bytes) :
    (cache.offer span bytes).WellFormed := by
  refine ⟨?_, ?_⟩
  · by_cases complete : bytes.length = span.width.toNat
    · rcases cache.keys_offer complete with ⟨taken, new, _⟩ | ⟨same, _⟩
      · rw [taken]
        exact List.nodup_cons.mpr ⟨new, h.nodup⟩
      · rw [same]
        exact h.nodup
    · rw [offer_of_ne complete]
      exact h.nodup
  · rw [capacity_offer]
    exact size_offer_le h.size_le span bytes

end ReadCache

def Request.indexSpan? : Request → Option Span
  | .read .index span => some span
  | _ => none

theorem Request.indexSpan?_eq_none {request : Request} (h : request.isOfLoad = true) :
    request.indexSpan? = none := by
  cases request with
  | length => rfl
  | read purpose span =>
      cases purpose with
      | trailer => rfl
      | index => cases h
      | value => rfl

/-- The ranges of the index that a query visits, whether they are kept or not. -/
def Query.visits (store : Store) (config : Config) (query : Query) : List Span :=
  ((query.whole config).requests store).filterMap Request.indexSpan?

/-- The ranges of the index that are still ahead of a course. -/
def Course.ahead (store : Store) (course : Course α) : List Span :=
  (course.toHear store).filterMap Request.indexSpan?

def Activity.ahead (store : Store) (config : Config) (query : Query) : Activity → List Span
  | waiting => query.visits store config
  | loading _ => query.visits store config
  | working course => course.ahead store
  | finished _ => []

/-- How a step changes the cache, by what it takes off the ranges ahead. -/
inductive CacheStep (ahead ahead' : List Span) (cache : ReadCache) : ReadCache → Prop
  | still (same : ahead' = ahead) : CacheStep ahead ahead' cache cache
  | known {span : Span} (took : ahead = span :: ahead') (cached : span ∈ cache.keys) :
      CacheStep ahead ahead' cache cache
  | offered {span : Span} {bytes : Bytes} (took : ahead = span :: ahead')
      (complete : bytes.length = span.width.toNat) :
      CacheStep ahead ahead' cache (cache.offer span bytes)

section

variable {blob : Bytes} {config : Config} {s s' : Session}

theorem Course.Account.cacheStep {course course' : Course α}
    (h : Account (Store.ofBytes blob) course course' s s') :
    CacheStep (course.ahead (Store.ofBytes blob))
      (course'.ahead (Store.ofBytes blob)) s.cache s'.cache := by
  unfold ahead
  cases h with
  | still isOver ask hear => exact .still (by rw [hear])
  | @asked request ask hear =>
      rw [Session.cache_count]
      exact .still (by rw [hear])
  | hit ask hear cached =>
      refine .known (by rw [hear]; rfl) (ReadCache.get?_isSome_iff.mp ?_)
      rw [cached]
      rfl
  | length ask hear => exact .still (by rw [hear]; rfl)
  | @read purpose span bytes ask hear answered =>
      rw [Session.cache_receive]
      cases purpose with
      | index => exact .offered (by rw [hear]; rfl) (Store.length_of_read_ofBytes answered)
      | trailer => exact .still (by rw [hear]; rfl)
      | value => exact .still (by rw [hear]; rfl)

theorem Course.ahead_of_load {course : Course (Except FormatError Trailer)}
    (origin : course.From (Trailer.load config)) (store : Store) :
    course.ahead store = [] :=
  List.filterMap_eq_nil_iff.mpr fun request member =>
    Request.indexSpan?_eq_none
      (origin.toHear (Trailer.load_asks config) store request member)

theorem Query.ahead_plan {store : Store} {loaded : Except FormatError Trailer}
    (h : (Trailer.load config).eval store = .ok loaded) (query : Query) :
    (Course.running (query.plan config loaded)).ahead store =
      query.visits store config := by
  have requests := Plan.requests_bind h (query.plan config)
  have none : (((Trailer.load config).requests store).filterMap Request.indexSpan?) = [] :=
    List.filterMap_eq_nil_iff.mpr fun request member =>
      Request.indexSpan?_eq_none ((Trailer.load_asks config).requests store request member)
  rw [visits, whole, requests, List.filterMap_append, none]
  rfl

theorem Activity.Step.cacheStep {query : Query} {activity activity' : Activity}
    (h : Step (Store.ofBytes blob).source query (activity, s, ()) (activity', s', ()))
    (session : s.Sound (Store.ofBytes blob) config)
    (sound : activity.Sound (Store.ofBytes blob) config query fun _ => False)
    (uses : activity.Uses config query s.trailer) :
    CacheStep (activity.ahead (Store.ofBytes blob) config query)
      (activity'.ahead (Store.ofBytes blob) config query) s.cache s'.cache := by
  cases h with
  | enter known =>
      apply CacheStep.still
      rw [session.sameConfig]
      exact query.ahead_plan (session.trailer known)
  | load h =>
      obtain ⟨_, _, towards⟩ := sound
      have step := (h.account session towards).cacheStep
      rw [Course.ahead_of_load uses.2, Course.ahead_of_load (h.from uses.2)] at step
      generalize s'.cache = cache' at step ⊢
      cases step with
      | still same => exact .still rfl
      | known took cached => cases took
      | offered took complete => cases took
  | settle =>
      obtain ⟨_, hload, rfl⟩ := sound
      apply CacheStep.still
      rw [session.sameConfig]
      exact query.ahead_plan hload
  | giveUp =>
      obtain ⟨_, _, impossible⟩ := sound
      exact impossible.elim
  | work h =>
      obtain ⟨_, _, towards⟩ := sound
      exact (h.account session towards).cacheStep
  | answer =>
      rw [Session.cache_countEnd]
      exact .still rfl
  | fail => exact .still rfl

end

section

variable {ahead ahead' : List Span} {cache cache' : ReadCache}

theorem CacheStep.capacity_eq (h : CacheStep ahead ahead' cache cache') :
    cache'.capacity = cache.capacity := by
  cases h with
  | offered took complete => exact ReadCache.capacity_offer ..
  | _ => rfl

theorem CacheStep.wellFormed (h : CacheStep ahead ahead' cache cache')
    (wellFormed : cache.WellFormed) : cache'.WellFormed := by
  cases h with
  | offered took complete => exact wellFormed.offer ..
  | _ => exact wellFormed

theorem CacheStep.mem_keys (h : CacheStep ahead ahead' cache cache') {span : Span}
    (known : span ∈ cache.keys) : span ∈ cache'.keys := by
  cases h with
  | offered took complete =>
      rcases cache.keys_offer complete with ⟨taken, _, _⟩ | ⟨same, _⟩
      · rw [taken]
        exact List.mem_cons_of_mem _ known
      · rw [same]
        exact known
  | _ => exact known

theorem CacheStep.full (h : CacheStep ahead ahead' cache cache')
    (full : cache.capacity ≤ cache.size) : cache'.capacity ≤ cache'.size := by
  cases h with
  | offered took complete =>
      rcases cache.keys_offer complete with ⟨_, _, room⟩ | ⟨same, _⟩
      · exact absurd full (Nat.not_le_of_lt room)
      · rw [same]
        exact full
  | _ => exact full

/-- A range that was ahead still is, or it is kept, or there is no room. -/
theorem CacheStep.covered (h : CacheStep ahead ahead' cache cache') {span : Span}
    (member : span ∈ ahead) :
    span ∈ ahead' ∨ span ∈ cache'.keys ∨ cache'.capacity ≤ cache'.size := by
  cases h with
  | still same => exact .inl (same ▸ member)
  | known took cached =>
      rcases List.mem_cons.mp (took ▸ member) with rfl | later
      · exact .inr (.inl cached)
      · exact .inl later
  | offered took complete =>
      rcases List.mem_cons.mp (took ▸ member) with rfl | later
      · rcases cache.keys_offer complete with ⟨taken, _, _⟩ | ⟨same, known⟩
        · rw [taken]
          exact .inr (.inl (List.mem_cons_self ..))
        · rw [same]
          exact .inr known
      · exact .inl later

theorem CacheStep.ahead_subset (h : CacheStep ahead ahead' cache cache') :
    ahead' ⊆ ahead := by
  cases h with
  | still same => exact same ▸ List.Subset.refl _
  | known took cached => exact took ▸ List.subset_cons_self ..
  | offered took complete => exact took ▸ List.subset_cons_self ..

theorem CacheStep.mem_or_mem (h : CacheStep ahead ahead' cache cache') {span : Span}
    (kept : span ∈ cache'.keys) : span ∈ cache.keys ∨ span ∈ ahead := by
  cases h with
  | offered took complete =>
      rcases cache.keys_offer complete with ⟨taken, _, _⟩ | ⟨same, _⟩
      · rw [taken] at kept
        rcases List.mem_cons.mp kept with rfl | old
        · exact .inr (took ▸ List.mem_cons_self ..)
        · exact .inl old
      · exact .inl (same ▸ kept)
  | _ => exact .inl kept

end

namespace Moment

structure CacheFilled (store : Store) (config : Config) (m : Moment Unit) : Prop where
  capacity : m.session.cache.capacity = config.readCacheCapacity
  wellFormed : m.session.cache.WellFormed
  /-- Only what some call visits is kept. -/
  visited {span : Span} : span ∈ m.session.cache.keys →
    ∃ query ∈ m.parties.map Party.query, span ∈ query.visits store config
  within {caller : Nat} {party : Party} : m.parties[caller]? = some party →
    party.activity.ahead store config party.query ⊆ party.query.visits store config
  /-- What a call visits is ahead of it, or it is kept, or there is no room. -/
  covered {caller : Nat} {party : Party} {span : Span} : m.parties[caller]? = some party →
    span ∈ party.query.visits store config →
      span ∈ party.activity.ahead store config party.query ∨ span ∈ m.session.cache.keys ∨
        m.session.cache.capacity ≤ m.session.cache.size

variable {store : Store} {blob : Bytes} {config : Config} {m m' : Moment Unit}
  {caller : Nat} {query : Query} {activity : Activity} {place : Activity × Session × Unit}

theorem cacheFilled_new (store : Store) (config : Config) :
    CacheFilled store config ⟨Session.new config, [], ()⟩ :=
  ⟨rfl, ReadCache.wellFormed_empty _, nofun, nofun, nofun⟩

theorem CacheFilled.start (h : m.CacheFilled store config) (query : Query) :
    (m.start query).CacheFilled store config := by
  have cache := m.session.cache_countStart query
  refine ⟨?_, ?_, ?_, ?_, ?_⟩
  · exact (congrArg _ cache).trans h.capacity
  · exact cache.symm ▸ h.wellFormed
  · intro span kept
    obtain ⟨visitor, member, visits⟩ := h.visited (cache ▸ kept)
    refine ⟨visitor, ?_, visits⟩
    rw [Moment.start, List.map_append]
    exact List.mem_append_left _ member
  · intro caller party member
    rcases party_start member with old | ⟨_, rfl⟩
    · exact h.within old
    · exact List.Subset.refl _
  · intro caller party span member visits
    rcases party_start member with old | ⟨_, rfl⟩
    · rw [Moment.start, cache]
      exact h.covered old visits
    · exact .inl visits

theorem CacheFilled.put (h : m.CacheFilled store config)
    (party : m.parties[caller]? = some ⟨query, activity⟩)
    (step : CacheStep (activity.ahead store config query) (place.1.ahead store config query)
      m.session.cache place.2.1.cache) : (m.put caller query place).CacheFilled store
        config := by
  refine ⟨?_, step.wellFormed h.wellFormed, ?_, ?_, ?_⟩
  · exact step.capacity_eq.trans h.capacity
  · intro span kept
    rw [queries_put party place]
    rcases step.mem_or_mem kept with old | new
    · exact h.visited old
    · exact ⟨query, List.mem_map.mpr ⟨_, List.mem_of_getElem? party, rfl⟩,
        h.within party new⟩
  · intro other second member
    rcases party_put member with ⟨_, rfl⟩ | ⟨_, old⟩
    · exact List.Subset.trans step.ahead_subset (h.within party)
    · exact h.within old
  · intro other second span member visits
    rcases party_put member with ⟨_, rfl⟩ | ⟨_, old⟩
    · rcases h.covered party visits with ahead | kept | full
      · exact step.covered ahead
      · exact .inr (.inl (step.mem_keys kept))
      · exact .inr (.inr (step.full full))
    · rcases h.covered old visits with ahead | kept | full
      · exact .inl ahead
      · exact .inr (.inl (step.mem_keys kept))
      · exact .inr (.inr (step.full full))

theorem Step.cacheFilled (sound : m.Sound blob config fun _ _ => False)
    (disciplined : m.Disciplined config)
    (filled : m.CacheFilled (Store.ofBytes blob) config)
    (h : Step (Store.ofBytes blob).source m m') :
    m'.CacheFilled (Store.ofBytes blob) config := by
  cases h with
  | begin party empty free => exact filled.put party (.still rfl)
  | call party h =>
      have alone := sound.parties (List.mem_of_getElem? party)
      exact filled.put party (h.cacheStep sound.session alone (disciplined.uses party))

/-- Once all calls are over, as many ranges are kept as there is room
for, of those they visit. -/
theorem CacheFilled.size_eq (h : m.CacheFilled store config)
    (isOver : ∀ party ∈ m.parties, ∃ reply, party.activity = .finished reply) :
    m.session.cache.size = min config.readCacheCapacity
      ((m.parties.map Party.query).flatMap (Query.visits store config)).dedup.length := by
  have within : m.session.cache.keys ⊆
      ((m.parties.map Party.query).flatMap (Query.visits store config)).dedup := by
    intro span kept
    obtain ⟨query, member, visits⟩ := h.visited kept
    exact List.mem_dedup.mpr (List.mem_flatMap.mpr ⟨query, member, visits⟩)
  have atMost := (List.subperm_of_subset h.wellFormed.nodup within).length_le
  have room := h.wellFormed.size_le
  rw [ReadCache.length_keys] at atMost
  rw [h.capacity] at room
  -- While there is room nothing is refused, so what a call that is
  -- over has visited is kept.
  by_cases full : config.readCacheCapacity ≤ m.session.cache.size
  · omega
  · have all : ((m.parties.map Party.query).flatMap (Query.visits store config)).dedup ⊆
        m.session.cache.keys := by
      intro span member
      obtain ⟨query, asked, visits⟩ := List.mem_flatMap.mp (List.mem_dedup.mp member)
      obtain ⟨party, inside, rfl⟩ := List.mem_map.mp asked
      obtain ⟨caller, hparty⟩ := List.getElem?_of_mem inside
      obtain ⟨reply, finished⟩ := isOver party inside
      rcases h.covered hparty visits with ahead | kept | noRoom
      · rw [finished] at ahead
        cases ahead
      · exact kept
      · rw [h.capacity] at noRoom
        exact absurd noRoom full
    have atLeast := (List.subperm_of_subset (List.nodup_dedup _) all).length_le
    rw [ReadCache.length_keys] at atLeast
    omega

end Moment

end SortedBlob
