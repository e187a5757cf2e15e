import SortedBlob.Proofs.Counters
import SortedBlob.Proofs.IndexReads

/-!
What queries one after the other read of the index while there is room in the cache: each
range once, and nothing for a query that was asked before. Main statement:
`Session.fetched_once`.
-/

namespace SortedBlob

variable {σ : Type}

namespace ReadCache

variable {capacity : Nat} {held spans : List Span} {span : Span}

theorem subset_keep (capacity : Nat) (held : List Span) (span : Span) :
    held ⊆ keep capacity held span := by
  unfold keep
  split
  · exact List.Subset.refl _
  · exact List.subset_cons_self ..

theorem length_le_keep (capacity : Nat) (held : List Span) (span : Span) :
    held.length ≤ (keep capacity held span).length := by
  unfold keep
  split
  · exact Nat.le_refl _
  · exact Nat.le_succ _

theorem length_le_foldl_keep (capacity : Nat) (held spans : List Span) :
    held.length ≤ (spans.foldl (keep capacity) held).length := by
  induction spans generalizing held with
  | nil => exact Nat.le_refl _
  | cons span rest ih => exact Nat.le_trans (length_le_keep capacity held span) (ih _)

/-- While there is room, all that was visited is kept. -/
theorem mem_foldl_keep (room : (spans.foldl (keep capacity) held).length < capacity)
    (h : span ∈ held ∨ span ∈ spans) : span ∈ spans.foldl (keep capacity) held := by
  induction spans generalizing held with
  | nil => exact h.resolve_right List.not_mem_nil
  | cons first rest ih =>
      refine ih room ?_
      rcases h with old | new
      · exact .inl (subset_keep capacity held first old)
      · rcases List.mem_cons.mp new with rfl | later
        · refine .inl ((mem_keep capacity held span).resolve_right fun full => ?_)
          have grown := length_le_foldl_keep capacity (keep capacity held span) rest
          exact Nat.lt_irrefl _ (Nat.lt_of_lt_of_le room (Nat.le_trans full grown))
        · exact .inr later

theorem nodup_foldl_keep (distinct : held.Nodup) :
    (spans.foldl (keep capacity) held).Nodup := by
  induction spans generalizing held with
  | nil => exact distinct
  | cons first rest ih =>
      refine ih ?_
      unfold keep
      split
      · exact distinct
      · rename_i taken
        exact List.nodup_cons.mpr ⟨fun old => taken (.inl old), distinct⟩

theorem misses_eq_zero (known : ∀ span ∈ spans, span ∈ held) :
    misses capacity held spans = 0 := by
  induction spans with
  | nil => rfl
  | cons first rest ih =>
      obtain ⟨here, later⟩ := List.forall_mem_cons.mp known
      rw [misses, if_pos here, keep_of_mem here, ih later]

end ReadCache

open ReadCache

theorem Signal.isSome_indexAsked? (signal : Signal) :
    signal.indexAsked?.isSome = signal.asksIndex := by
  rcases signal with (_ | ⟨_ | _ | _, _⟩) | _ | _ <;> rfl

namespace Session

variable {s s' : Session} {log log' : List Signal} {spans : List Span}

/-- The ranges of the index that a source was asked for, the latest first. -/
def fetched (log : List Signal) : List Span := log.filterMap Signal.indexAsked?

theorem length_fetched (log : List Signal) :
    (fetched log).length = log.countP Signal.asksIndex := by
  rw [fetched, List.length_filterMap_eq_countP]
  exact congrArg (log.countP ·) (funext Signal.isSome_indexAsked?)

theorem fetched_append_of_others {heard : List Signal}
    (others : ∀ signal ∈ heard, signal.asksIndex = false) (log : List Signal) :
    fetched (heard ++ log) = fetched log := by
  have none : heard.filterMap Signal.indexAsked? = [] := by
    refine List.filterMap_eq_nil_iff.mpr fun signal member =>
      Option.not_isSome_iff_eq_none.mp ?_
    rw [signal.isSome_indexAsked?, others signal member]
    exact Bool.false_ne_true
  rw [fetched, List.filterMap_append, none, List.nil_append, fetched]

theorem Tours.size_le (h : s.Tours log spans s' log') : s.cache.size ≤ s'.cache.size := by
  rw [← length_keys, ← length_keys, h.visits.keys]
  exact length_le_foldl_keep ..

/-- While there is room, what was read is what is kept, in the same order. -/
theorem Tours.fetched_eq (h : s.Tours log spans s' log')
    (room : s'.cache.size < s.cache.capacity) (same : fetched log = s.cache.keys) :
    fetched log' = s'.cache.keys := by
  induction h with
  | aside _ sameCache _ others => rw [fetched_append_of_others others, same, sameCache]
  | hit cached => exact same
  | @miss s log span bytes missed complete =>
      have unknown : span ∉ s.cache.keys := by
        rw [← get?_isSome_iff, missed]
        exact Bool.false_ne_true
      rcases s.cache.keys_offer complete with ⟨taken, _, _⟩ | ⟨refused, known | full⟩
      · exact (congrArg (span :: ·) same).trans taken.symm
      · exact absurd known unknown
      · refine absurd full (Nat.not_le_of_lt ?_)
        have cache : ((s.count (.read .index span)).receive .index span bytes).cache =
          s.cache := refused
        rwa [cache] at room
  | trans first second ih ih' =>
      have capacity := first.visits.capacity
      refine ih' (capacity ▸ room) (ih ?_ same)
      exact Nat.lt_of_le_of_lt second.size_le room

/-- Each range that is visited is a hit or a read. -/
theorem Tours.requests (h : s.Tours log spans s' log') :
    s'.stats.cacheHits + (fetched log').length =
      s.stats.cacheHits + (fetched log).length + spans.length := by
  induction h with
  | aside _ _ sameHits others =>
    rw [fetched_append_of_others others, sameHits, List.length_nil, Nat.add_zero]
  | hit cached => exact Nat.add_right_comm _ 1 _
  | miss missed complete => exact (Nat.add_assoc ..).symm
  | trans _ _ first second =>
      rw [second, first, List.length_append, Nat.add_assoc]

/-- A query whose ranges are kept reads none of them. -/
theorem Tours.fetched_of_known (h : s.Tours [] spans s' log')
    (known : ∀ span ∈ spans, span ∈ s.cache.keys) :
    fetched log' = [] := by
  refine List.eq_nil_of_length_eq_zero ?_
  rw [length_fetched, h.visits.reads, misses_eq_zero known]
  rfl

/-- How many ranges of the index a query asks for, of those that are kept and
those that it has to read. -/
def indexRequests (source : Source σ) (s : Session) (query : Query) (state : σ) : Nat :=
  let out := s.ask source.recorded query (state, [])
  out.2.1.stats.cacheHits + (fetched out.2.2.2).length - s.stats.cacheHits

variable {source : Source σ} {blob : Bytes} {config : Config}

theorem Sound.indexRequests_eq (faithful : source.Faithful (Store.ofBytes blob))
    (sound : s.Sound (Store.ofBytes blob) config) (query : Query) (state : σ) :
    s.indexRequests source query state =
      (query.visits (Store.ofBytes blob) config).length := by
  obtain ⟨verdict, heval⟩ := query.exists_eval_whole config blob
  obtain ⟨_, _, tour⟩ := sound.ask_tours faithful heval state []
  rw [indexRequests, tour.requests]
  exact Nat.add_sub_cancel_left ..

/-- One query after the other comes to what it comes to by itself. -/
theorem Sound.askAll_tours (faithful : source.Faithful (Store.ofBytes blob))
    (sound : s.Sound (Store.ofBytes blob) config) {verdict : Query → Verdict}
    (h : ∀ query : Query,
      (query.whole config).eval (Store.ofBytes blob) = .ok (verdict query))
    (queries : List Query) (state : σ) (log : List Signal) :
    let out := Session.askAll source.recorded queries s (state, log)
    out.1 = queries.map (fun query => .ok (verdict query)) ∧
      out.2.1.Sound (Store.ofBytes blob) config ∧
      s.Tours log (queries.flatMap fun query => query.visits (Store.ofBytes blob) config)
        out.2.1 out.2.2.2 := by
  induction queries generalizing s state log with
  | nil => exact ⟨rfl, sound, tours_silent log rfl rfl⟩
  | cons query rest ih =>
      obtain ⟨reply, sound', first⟩ := sound.ask_tours faithful (h query) state log
      obtain ⟨replies, sound'', later⟩ :=
        ih sound' (s.ask source.recorded query (state, log)).2.2.1
        (s.ask source.recorded query (state, log)).2.2.2
      refine ⟨?_, sound'', ?_⟩
      · exact List.cons_eq_cons.mpr ⟨reply, replies⟩
      · rw [List.flatMap_cons]
        exact first.trans later

/-- After whatever queries that leave room in the cache: the ranges of the index that
were read are all different, and as many as are kept. Each of the queries, when it is
asked again, reads none, comes to what it came to before, and makes as many hits as
it asked for ranges then. -/
theorem fetched_once (faithful : source.Faithful (Store.ofBytes blob)) (config : Config)
    (queries : List Query) (state : σ) :
    let out := askAll source.recorded queries (new config) (state, [])
    let s := out.2.1
    s.cache.size < config.readCacheCapacity →
      (fetched out.2.2.2).Nodup ∧ (fetched out.2.2.2).length = s.cache.size ∧
        ∀ before query after, queries = before ++ query :: after →
          let earlier := askAll source.recorded before (new config) (state, [])
          let again := s.ask source.recorded query (out.2.2.1, [])
          fetched again.2.2.2 = [] ∧ out.1[before.length]? = some again.1 ∧
            again.2.1.stats.cacheHits =
              s.stats.cacheHits + earlier.2.1.indexRequests source query earlier.2.2.1 := by
  intro out s room
  choose verdict whole using fun query => Query.exists_eval_whole query config blob
  have fresh : (new config).Sound (Store.ofBytes blob) config := sound_new
  obtain ⟨replies, sound, tour⟩ := fresh.askAll_tours faithful whole queries state []
  have kept : fetched out.2.2.2 = s.cache.keys := tour.fetched_eq room rfl
  have keys : s.cache.keys = _ := tour.visits.keys
  refine ⟨?_, ?_, fun before query after split => ?_⟩
  · rw [kept, keys]
    exact nodup_foldl_keep List.nodup_nil
  · rw [kept, length_keys]
  · intro earlier again
    obtain ⟨_, soundBefore, _⟩ := fresh.askAll_tours faithful whole before state []
    obtain ⟨reply, _, repeated⟩ := sound.ask_tours faithful (whole query) out.2.2.1 []
    have known : ∀ span ∈ query.visits (Store.ofBytes blob) config,
        span ∈ s.cache.keys := by
      intro span member
      have visited : span ∈ queries.flatMap fun query => query.visits (Store.ofBytes blob)
          config :=
        List.mem_flatMap.mpr ⟨query, by simp [split], member⟩
      rw [keys]
      refine mem_foldl_keep ?_ (.inr visited)
      rwa [← keys, length_keys]
    have nothing : fetched again.2.2.2 = [] := repeated.fetched_of_known known
    have requests := repeated.requests
    rw [nothing] at requests
    refine ⟨nothing, ?_, ?_⟩
    · have place : out.1[before.length]? = some (.ok (verdict query)) :=
        (congrArg (·[before.length]?) replies).trans (by simp [split])
      exact place.trans (congrArg some reply.symm)
    · rw [soundBefore.indexRequests_eq faithful]
      exact requests

/-- There is room for one more range than the two queries visit. Of the two ranges that the
second one asked for, it read one, and finds both when it asks again. -/
theorem fetched_once_of_three :
    let blob := Index.encode [⟨[4], 0, 0⟩, ⟨[5], 0, 0⟩, ⟨[6], 0, 0⟩] ++
      (Trailer.ofCounts 1 3 0).encode
    let source := (Store.ofBytes blob).source
    let config : Config := { readCacheCapacity := 4, scanThreshold := 0 }
    let out := askAll source.recorded [.find [4], .lookup [6]] (new config) ((), [])
    let again := out.2.1.ask source.recorded (.lookup [6]) ((), [])
    source.Faithful (Store.ofBytes blob) ∧ out.2.1.cache.size < config.readCacheCapacity ∧
      (fetched out.2.2.2).length = 3 ∧ (fetched out.2.2.2).Nodup ∧
      fetched again.2.2.2 = [] ∧
      again.2.1.stats.cacheHits = out.2.1.stats.cacheHits + 2 ∧
      again.1 = .ok (.ok (.value (some []))) := by
  intro blob source config out again
  have faithful := (Store.ofBytes blob).faithful_source
  have room : out.2.1.cache.size < config.readCacheCapacity := by decide +kernel
  obtain ⟨distinct, count, repeated⟩ :=
    fetched_once faithful config [.find [4], .lookup [6]] () room
  obtain ⟨nothing, same, hits⟩ := repeated [.find [4]] (.lookup [6]) [] rfl
  have three : out.2.1.cache.size = 3 := by decide +kernel
  have two :
    ((askAll source.recorded [.find [4]] (new config) ((), [])).2.1.indexRequests source
      (.lookup [6]) ()) = 2 := by decide +kernel
  have first : out.1[[Query.find [4]].length]? = some (.ok (.ok (.value (some [])))) := by
    decide +kernel
  rw [two] at hits
  exact ⟨faithful, room, count.trans three, distinct, nothing, hits,
    Option.some.inj (same.symm.trans first)⟩

end Session

end SortedBlob
