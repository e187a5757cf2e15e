import SortedBlob.Proofs.Coarsening

/-!
How many reads of the index reach a source that answers everything as the store does. What a
plan visits tells what it leaves in the cache and how often it misses it (`Session.Visits`),
whatever else happens on its way (`Session.Tours`). Main statement:
`Session.index_reads_of_coarser`.
-/

namespace SortedBlob

open ReadCache

variable {α σ : Type}

/-- Every reply is the one of the store. -/
structure Source.Faithful (source : Source σ) (store : Store) : Prop where
  length (state : σ) : (source.length state).1 = .ok store.length
  read (purpose : Purpose) (span : Span) (state : σ) :
    (source.read purpose span state).1 = (store.read span).mapError .failed

theorem Store.faithful_source (store : Store) : store.source.Faithful store :=
  ⟨fun _ => rfl, fun _ _ _ => rfl⟩

namespace Source.Faithful

variable {source : Source σ} {store : Store}

theorem recorded (faithful : source.Faithful store) : source.recorded.Faithful store :=
  ⟨fun state => faithful.length state.1, fun purpose span state =>
    faithful.read purpose span state.1⟩

theorem serves (faithful : source.Faithful store) :
    source.Serves store fun _ _ => False where
  length {reply state state'} h := by
    have told := faithful.length state
    rw [h] at told
    exact .inl told
  read {purpose span reply state state'} h := by
    have told := faithful.read purpose span state
    rw [h] at told
    exact .inl told
  excuse_ask h := h
  excuse_length _ h := h
  excuse_read _ h := h

end Source.Faithful

def Signal.asksIndex : Signal → Bool
  | .asked (.read .index _) => true
  | _ => false

namespace Session

/-- What visits to ranges of the index do to a session and to the record of its source. -/
structure Visits (s : Session) (log : List Signal) (spans : List Span) (s' : Session)
    (log' : List Signal) : Prop where
  capacity : s'.cache.capacity = s.cache.capacity
  keys : s'.cache.keys = spans.foldl (keep s.cache.capacity) s.cache.keys
  reads : log'.countP Signal.asksIndex =
    misses s.cache.capacity s.cache.keys spans + log.countP Signal.asksIndex

variable {s s' s'' : Session} {log log' log'' : List Signal} {span : Span} {bytes : Bytes}

theorem visits_nil (sameCache : s'.cache = s.cache)
    (sameReads : log'.countP Signal.asksIndex = log.countP Signal.asksIndex) :
    s.Visits log [] s' log' :=
  ⟨congrArg _ sameCache, congrArg _ sameCache, by rw [sameReads, misses, Nat.zero_add]⟩

theorem Visits.trans {first second : List Span} (h : s.Visits log first s' log')
    (h' : s'.Visits log' second s'' log'') : s.Visits log (first ++ second) s'' log'' := by
  obtain ⟨capacity, keys, reads⟩ := h
  obtain ⟨capacity', keys', reads'⟩ := h'
  rw [capacity, keys] at keys' reads'
  refine ⟨capacity'.trans capacity, ?_, ?_⟩
  · rw [keys', List.foldl_append]
  · rw [reads', reads, misses_append]
    omega

theorem visits_hit (cached : s.cache.get? span = some bytes) :
    s.Visits log [span] s.countHit log := by
  have known : span ∈ s.cache.keys := get?_isSome_iff.mp (by rw [cached]; rfl)
  refine ⟨rfl, (keep_of_mem known).symm, ?_⟩
  rw [misses, misses, if_pos known, Nat.zero_add]

theorem visits_miss (missed : s.cache.get? span = none)
    (complete : bytes.length = span.width.toNat) :
    s.Visits log [span] ((s.count (.read .index span)).receive .index span bytes)
      (.read .index span (.ok bytes) :: .asked (.read .index span) :: log) := by
  have unknown : span ∉ s.cache.keys := by
    rw [← get?_isSome_iff, missed]
    exact Bool.false_ne_true
  refine ⟨capacity_offer .., keys_offer_eq_keep _ complete, ?_⟩
  rw [misses, misses, if_neg unknown]
  simp only [List.countP_cons, Signal.asksIndex, Bool.false_eq_true, if_false, if_true]
  omega

/-- How a session and the record of its source go on while ranges of the index are visited
in their order. Each of them is kept already or is read; whatever else happens leaves the
cache and its hits alone. -/
inductive Tours : Session → List Signal → List Span → Session → List Signal → Prop
  | aside {s s' : Session} {log : List Signal} (heard : List Signal)
      (sameCache : s'.cache = s.cache) (sameHits : s'.stats.cacheHits = s.stats.cacheHits)
      (others : ∀ signal ∈ heard, signal.asksIndex = false) :
      Tours s log [] s' (heard ++ log)
  | hit {s : Session} {log : List Signal} {span : Span} {bytes : Bytes}
      (cached : s.cache.get? span = some bytes) : Tours s log [span] s.countHit log
  | miss {s : Session} {log : List Signal} {span : Span} {bytes : Bytes}
      (missed : s.cache.get? span = none) (complete : bytes.length = span.width.toNat) :
      Tours s log [span] ((s.count (.read .index span)).receive .index span bytes)
        (.read .index span (.ok bytes) :: .asked (.read .index span) :: log)
  | trans {s s' s'' : Session} {log log' log'' : List Signal} {first second : List Span}
      (h : Tours s log first s' log') (h' : Tours s' log' second s'' log'') :
      Tours s log (first ++ second) s'' log''

theorem tours_silent (log : List Signal) (sameCache : s'.cache = s.cache)
    (sameHits : s'.stats.cacheHits = s.stats.cacheHits) : s.Tours log [] s' log :=
  .aside [] sameCache sameHits (List.forall_mem_nil _)

theorem Tours.visits {spans : List Span} (h : s.Tours log spans s' log') :
    s.Visits log spans s' log' := by
  induction h with
  | aside heard sameCache _ others =>
      have silent : heard.countP Signal.asksIndex = 0 :=
        List.countP_eq_zero.mpr fun signal member => by simp [others signal member]
      exact visits_nil sameCache (by rw [List.countP_append, silent, Nat.zero_add])
  | hit cached => exact visits_hit cached
  | miss missed complete => exact visits_miss missed complete
  | trans _ _ first second => exact first.trans second

theorem tours_read {purpose : Purpose} (missed : s.cached? purpose span = none)
    (complete : bytes.length = span.width.toNat) :
    s.Tours log (Request.read purpose span).indexSpan?.toList
      ((s.count (.read purpose span)).receive purpose span bytes)
      (.read purpose span (.ok bytes) :: .asked (.read purpose span) :: log) := by
  cases purpose with
  | index => exact .miss missed complete
  | trailer => exact .aside [_, _] rfl rfl (by simp [Signal.asksIndex])
  | value => exact .aside [_, _] rfl rfl (by simp [Signal.asksIndex])

theorem cacheHits_countStart (s : Session) (query : Query) :
    (s.countStart query).stats.cacheHits = s.stats.cacheHits := by
  unfold countStart
  split <;> rfl

theorem cacheHits_countEnd (s : Session) (verdict : Verdict) :
    (s.countEnd verdict).stats.cacheHits = s.stats.cacheHits := by
  unfold countEnd
  split <;> rfl

end Session

theorem Plan.run_tours {source : Source σ} {blob : Bytes} {config : Config}
    (faithful : source.Faithful (Store.ofBytes blob)) {plan : Plan α} {result : α}
    (h : plan.eval (Store.ofBytes blob) = .ok result) {s : Session}
    (sound : s.Sound (Store.ofBytes blob) config) (state : σ) (log : List Signal) :
    let out := plan.run source.recorded s (state, log)
    out.1 = .ok result ∧ out.2.1.Sound (Store.ofBytes blob) config ∧
      s.Tours log (plan.visits (Store.ofBytes blob)) out.2.1 out.2.2.2 := by
  induction plan generalizing s state log with
  | done found =>
      cases h
      exact ⟨rfl, sound, Session.tours_silent log rfl rfl⟩
  | length next ih =>
      have told := faithful.length (source.ask .length state)
      have first : s.Tours log [] (s.count .length)
          (.length (.ok (Store.ofBytes blob).length) :: .asked .length :: log) :=
        .aside [_, _] (Session.cache_count ..) rfl (by simp [Signal.asksIndex])
      obtain ⟨ended, sound', later⟩ :=
        ih (Store.ofBytes blob).length h (sound.count .length)
        (source.length (source.ask .length state)).2
        (.length (.ok (Store.ofBytes blob).length) :: .asked .length :: log)
      simp only [run, Source.recorded_ask, Source.recorded_length, told]
      exact ⟨ended, sound', first.trans later⟩
  | read purpose span next ih =>
      obtain ⟨bytes, hread, heval⟩ := Plan.read_of_eval h
      have told := faithful.read purpose span (source.ask (.read purpose span) state)
      rw [hread] at told
      rw [visits_read hread]
      cases cached : s.cached? purpose span with
      | some kept =>
          obtain ⟨rfl, known⟩ := Session.cached?_eq_some cached
          have same := (sound.cache known).symm.trans hread
          cases same
          have counted : s.countHit.Sound (Store.ofBytes blob) config :=
            sound.of_eq rfl rfl rfl
          obtain ⟨ended, sound', later⟩ := ih bytes heval counted state log
          simp only [run, cached]
          exact ⟨ended, sound', (Session.Tours.hit known).trans later⟩
      | none =>
          obtain ⟨ended, sound', later⟩ := ih bytes heval
            ((sound.count (.read purpose span)).receive purpose hread)
            (source.read purpose span (source.ask (.read purpose span) state)).2
            (.read purpose span (.ok bytes) :: .asked (.read purpose span) :: log)
          simp only [run, cached, Source.recorded_ask, Source.recorded_read, told,
            Except.mapError]
          have complete := Store.length_of_read_ofBytes hread
          exact ⟨ended, sound', (Session.tours_read cached complete).trans later⟩

namespace Session

variable {source : Source σ} {blob : Bytes} {config : Config} {s : Session}

theorem Sound.load_tours (faithful : source.Faithful (Store.ofBytes blob))
    (sound : s.Sound (Store.ofBytes blob) config) (state : σ) (log : List Signal) :
    let out := loadTrailer source.recorded s (state, log)
    ∃ loaded, (Trailer.load config).eval (Store.ofBytes blob) = .ok loaded ∧
      out.1 = .ok loaded ∧ out.2.1.Sound (Store.ofBytes blob) config ∧
      s.Tours log [] out.2.1 out.2.2.2 := by
  obtain ⟨loaded, hload⟩ := Trailer.exists_eval_load config blob
  refine ⟨loaded, hload, ?_⟩
  unfold loadTrailer
  cases known : s.trailer with
  | some found =>
      have same := (sound.trailer known).symm.trans hload
      cases same
      exact ⟨rfl, sound, tours_silent log rfl rfl⟩
  | none =>
      obtain ⟨ended, sound', tour⟩ := Plan.run_tours faithful hload sound state log
      rw [Plan.visits_of_load (Trailer.load_asks config)] at tour
      rw [sound.sameConfig]
      rcases hrun : (Trailer.load config).run source.recorded s (state, log) with
        ⟨reply, s', place⟩
      rw [hrun] at ended sound' tour
      cases ended
      exact ⟨rfl, sound'.settle hload, tour.trans (tours_silent _ rfl rfl)⟩

theorem Sound.ask_tours (faithful : source.Faithful (Store.ofBytes blob))
    (sound : s.Sound (Store.ofBytes blob) config) {query : Query} {verdict : Verdict}
    (h : (query.whole config).eval (Store.ofBytes blob) = .ok verdict) (state : σ)
    (log : List Signal) :
    let out := s.ask source.recorded query (state, log)
    out.1 = .ok verdict ∧ out.2.1.Sound (Store.ofBytes blob) config ∧
      s.Tours log (query.visits (Store.ofBytes blob) config) out.2.1 out.2.2.2 := by
  have started : (s.countStart query).Sound (Store.ofBytes blob) config :=
    sound.of_eq (config_countStart ..) (trailer_countStart ..) (cache_countStart ..)
  obtain ⟨loaded, hload, ended, sound', tour⟩ := started.load_tours faithful state log
  have first :=
    (tours_silent log (cache_countStart s query) (cacheHits_countStart s query)).trans tour
  rw [Query.eval_whole hload] at h
  rw [Query.visits_eq hload]
  unfold Session.ask
  rcases hrun : loadTrailer source.recorded (s.countStart query) (state, log) with
    ⟨reply, s', state', log'⟩
  rw [hrun] at ended sound' first
  cases ended
  obtain ⟨ended, sound'', later⟩ := Plan.run_tours faithful h sound' state' log'
  dsimp only
  rw [sound'.sameConfig]
  rcases hrun : (query.plan config loaded).run source.recorded s' (state', log') with
    ⟨reply, s'', place⟩
  rw [hrun] at ended sound'' later
  cases ended
  have last : s''.Tours place.2 [] (s''.countEnd verdict) place.2 :=
    tours_silent _ (cache_countEnd ..) (cacheHits_countEnd ..)
  exact ⟨rfl, sound''.of_eq (config_countEnd ..) (trailer_countEnd ..) (cache_countEnd ..),
    by simpa using (first.trans later).trans last⟩

theorem Sound.ask_visits (faithful : source.Faithful (Store.ofBytes blob))
    (sound : s.Sound (Store.ofBytes blob) config) (query : Query) (state : σ)
    (log : List Signal) :
    let out := s.ask source.recorded query (state, log)
    out.2.1.Sound (Store.ofBytes blob) config ∧
      s.Visits log (query.visits (Store.ofBytes blob) config) out.2.1 out.2.2.2 := by
  obtain ⟨verdict, heval⟩ := query.exists_eval_whole config blob
  obtain ⟨_, sound', tour⟩ := sound.ask_tours faithful heval state log
  exact ⟨sound', tour.visits⟩

/-- What queries leave in the cache, one after the other. -/
theorem Sound.keys_askAll (faithful : source.Faithful (Store.ofBytes blob))
    (sound : s.Sound (Store.ofBytes blob) config) (queries : List Query) (state : σ) :
    let out := Session.askAll source queries s state
    out.2.1.cache.capacity = s.cache.capacity ∧
      out.2.1.cache.keys =
        (queries.flatMap fun query => query.visits (Store.ofBytes blob) config).foldl
          (keep s.cache.capacity) s.cache.keys := by
  induction queries generalizing s state with
  | nil => exact ⟨rfl, rfl⟩
  | cons query rest ih =>
      obtain ⟨_, same⟩ := ask_recorded source query s state []
      obtain ⟨sound', visits⟩ := sound.ask_visits faithful query state []
      rw [same] at sound' visits
      obtain ⟨capacity, keys⟩ := ih sound' (s.ask source query state).2.2
      rw [visits.capacity, visits.keys] at keys
      refine ⟨capacity.trans visits.capacity, ?_⟩
      rw [List.flatMap_cons, List.foldl_append]
      exact keys

/-- A larger threshold never costs more reads of the index, whatever the index holds and
however many ranges the cache has room for: not for any one of the keys that are looked for
one after the other. -/
theorem index_reads_of_coarser (faithful : source.Faithful (Store.ofBytes blob))
    {fine coarse : UInt64} (h : fine ≤ coarse) (config : Config) (before : List Bytes)
    (key : Bytes) (state : σ) :
    let reads scanThreshold :=
      let earlier := askAll source (before.map .find)
        (new (config.scanning scanThreshold)) state
      let heard := (earlier.2.1.ask source.recorded (.find key) (earlier.2.2, [])).2.2.2
      heard.countP Signal.asksIndex
    reads coarse ≤ reads fine := by
  intro reads
  let visits scanThreshold key :=
    (Query.find key).visits (Store.ofBytes blob) (config.scanning scanThreshold)
  let held scanThreshold :=
    (before.flatMap (visits scanThreshold)).foldl (keep config.readCacheCapacity) []
  have counted (scanThreshold : UInt64) : reads scanThreshold =
      misses config.readCacheCapacity (held scanThreshold) (visits scanThreshold key) := by
    have fresh : (new (config.scanning scanThreshold)).Sound (Store.ofBytes blob)
        (config.scanning scanThreshold) := sound_new
    have sound := fresh.askAll faithful.serves (before.map .find) state
    obtain ⟨capacity, keys⟩ := fresh.keys_askAll faithful (before.map .find) state
    obtain ⟨_, asked⟩ := sound.ask_visits faithful (.find key)
      (askAll source (before.map .find) (new (config.scanning scanThreshold)) state).2.2 []
    have number := asked.reads
    rw [capacity, keys, List.flatMap_map] at number
    exact number
  obtain ⟨block, coarsens⟩ := Query.find_coarsens blob config h
  have all := Coarsens.flatMap coarsens before
  have empty : Covers block [] [] := ⟨Nat.le_refl _, nofun⟩
  rw [counted, counted]
  obtain ⟨_, covers⟩ := all.misses_le empty config.readCacheCapacity
  exact ((coarsens key).misses_le covers config.readCacheCapacity).1

/-- There is room for one range. By halving, that is the record in the middle, and the last
record has to be read; by scans it is the whole index, and nothing has to be read. -/
theorem index_reads_of_coarser_of_three :
    let blob := Index.encode [⟨[4], 0, 0⟩, ⟨[5], 0, 0⟩, ⟨[6], 0, 0⟩] ++
      (Trailer.ofCounts 1 3 0).encode
    let source := (Store.ofBytes blob).source
    let config : Config := { readCacheCapacity := 1 }
    let reads scanThreshold :=
      let earlier := askAll source ([[4]].map .find)
        (new (config.scanning scanThreshold)) ()
      let heard := (earlier.2.1.ask source.recorded (.find [6]) (earlier.2.2, [])).2.2.2
      heard.countP Signal.asksIndex
    source.Faithful (Store.ofBytes blob) ∧ (0 : UInt64) ≤ 3 ∧ reads 3 ≤ reads 0 ∧
      reads 3 = 0 ∧ reads 0 = 1 := by
  intro blob source config reads
  have faithful := (Store.ofBytes blob).faithful_source
  have finer : (0 : UInt64) ≤ 3 := by decide
  exact ⟨faithful, finer, index_reads_of_coarser faithful finer config [[4]] [6] (),
    by decide +kernel, by decide +kernel⟩

end Session

end SortedBlob
