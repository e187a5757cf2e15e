import SortedBlob.Proofs.SharedCache
import SortedBlob.Proofs.Traces

/-!
The cache against the record of the source. Whatever the source answers and however the
calls interleave, the cache is what the recorded replies make of it, in the order in which
they came (`Session.Ledger`). Main statement: `Crew.cache_of_play`.
-/

namespace SortedBlob

variable {α σ : Type}

/-- As many bytes as were asked for. -/
def Span.FilledBy (span : Span) (bytes : Bytes) : Prop :=
  span.start.toNat + bytes.length = span.stop.toNat

theorem Span.filledBy_iff {span : Span} (rising : span.start < span.stop) {bytes : Bytes} :
    span.FilledBy bytes ↔ bytes.length = span.width.toNat := by
  have order := UInt64.lt_iff_toNat_lt.mp rising
  rw [FilledBy, width, UInt64.toNat_sub_of_le _ _ (UInt64.le_of_lt rising)]
  omega

namespace ReadCache

theorem mem_entries_of_get? {cache : ReadCache} {span : Span} {bytes : Bytes}
    (h : cache.get? span = some bytes) : (span, bytes) ∈ cache.entries := by
  obtain ⟨before, after, entries, _⟩ := List.lookup_eq_some_iff.mp h
  rw [entries]
  exact List.mem_append_right _ (List.mem_cons_self ..)

/-- What a signal makes of a cache: it is offered the ranges of the index that were read. -/
def hear (cache : ReadCache) : Signal → ReadCache
  | .read .index span (.ok bytes) => cache.offer span bytes
  | _ => cache

/-- What a record makes of an empty cache. -/
def replay (capacity : Nat) (log : List Signal) : ReadCache :=
  log.foldr (fun signal cache => cache.hear signal) (empty capacity)

variable {cache : ReadCache} {capacity : Nat} {log : List Signal} {signal : Signal}
  {span : Span} {bytes : Bytes}

theorem hear_eq_self (h : ∀ span bytes, signal ≠ .read .index span (.ok bytes)) :
    cache.hear signal = cache := by
  unfold hear
  split
  · exact absurd rfl (h _ _)
  · rfl

theorem hear_of_asked (h : signal.asked?.isSome = true) : cache.hear signal = cache := by
  apply hear_eq_self
  rintro span bytes rfl
  cases h

theorem replay_append_asked {asks : List Signal}
    (h : ∀ signal ∈ asks, signal.asked?.isSome = true) :
    replay capacity (asks ++ log) = replay capacity log := by
  induction asks with
  | nil => rfl
  | cons signal rest ih =>
      obtain ⟨first, others⟩ := List.forall_mem_cons.mp h
      rw [List.cons_append, replay, List.foldr_cons, hear_of_asked first]
      exact ih others

section

variable {replies : List Signal} (atMostOne : replies.length ≤ 1)

include atMostOne

theorem replay_append_read (h : .read .index span (.ok bytes) ∈ replies) :
    replay capacity (replies ++ log) = (replay capacity log).offer span bytes := by
  obtain ⟨reply, rfl⟩ :=
    List.length_eq_one_iff.mp (Nat.le_antisymm atMostOne (List.length_pos_of_mem h))
  obtain rfl := List.mem_singleton.mp h
  rfl

theorem replay_append_silent (h : ∀ span bytes, .read .index span (.ok bytes) ∉ replies) :
    replay capacity (replies ++ log) = replay capacity log := by
  match replies, atMostOne with
  | [], _ => rfl
  | [reply], _ =>
      refine hear_eq_self fun span bytes same => h span bytes ?_
      rw [same]
      exact List.mem_singleton_self _

end

theorem WellFormed.hear (h : cache.WellFormed) (signal : Signal) :
    (cache.hear signal).WellFormed := by
  unfold ReadCache.hear
  split
  · exact h.offer ..
  · exact h

theorem wellFormed_replay (capacity : Nat) (log : List Signal) :
    (replay capacity log).WellFormed := by
  induction log with
  | nil => exact wellFormed_empty capacity
  | cons signal rest ih => exact ih.hear signal

theorem capacity_hear (cache : ReadCache) (signal : Signal) :
    (cache.hear signal).capacity = cache.capacity := by
  unfold hear
  split
  · exact capacity_offer ..
  · rfl

theorem capacity_replay (capacity : Nat) (log : List Signal) :
    (replay capacity log).capacity = capacity := by
  induction log with
  | nil => rfl
  | cons signal rest ih => exact (capacity_hear ..).trans ih

theorem mem_entries_offer {entry : Span × Bytes}
    (h : entry ∈ (cache.offer span bytes).entries) :
    entry = (span, bytes) ∧ bytes.length = span.width.toNat ∨ entry ∈ cache.entries := by
  unfold offer at h
  split at h
  · rename_i taken
    simp only [accepts, Bool.and_eq_true, beq_iff_eq] at taken
    exact (List.mem_cons.mp h).imp (fun same => ⟨same, taken.1.1⟩) id
  · exact .inr h

theorem mem_entries_hear (h : (span, bytes) ∈ (cache.hear signal).entries) :
    signal = .read .index span (.ok bytes) ∧ bytes.length = span.width.toNat ∨
      (span, bytes) ∈ cache.entries := by
  unfold hear at h
  split at h
  · rcases mem_entries_offer h with ⟨same, complete⟩ | old
    · cases same
      exact .inl ⟨rfl, complete⟩
    · exact .inr old
  · exact .inr h

/-- Whatever is kept was read, in full. -/
theorem mem_entries_replay (h : (span, bytes) ∈ (replay capacity log).entries) :
    .read .index span (.ok bytes) ∈ log ∧ bytes.length = span.width.toNat := by
  induction log with
  | nil => cases h
  | cons signal rest ih =>
      rcases mem_entries_hear h with ⟨rfl, complete⟩ | old
      · exact ⟨List.mem_cons_self .., complete⟩
      · obtain ⟨member, complete⟩ := ih old
        exact ⟨List.mem_cons_of_mem _ member, complete⟩

/-- A range that was read in full is missing only where there was no room for it. -/
theorem size_eq_of_missing (h : cache.WellFormed)
    (complete : bytes.length = span.width.toNat)
    (missing : (cache.offer span bytes).get? span = none) :
    cache.size = cache.capacity := by
  have unknown : span ∉ (cache.offer span bytes).keys := by
    rw [← get?_isSome_iff, missing]
    exact Bool.false_ne_true
  rcases cache.keys_offer complete with ⟨taken, _, _⟩ | ⟨same, refused⟩
  · rw [taken] at unknown
    exact absurd (List.mem_cons_self ..) unknown
  · rw [same] at unknown
    exact Nat.le_antisymm h.size_le (refused.resolve_left unknown)

end ReadCache

/-! What the record of the source tells of a session. -/

namespace Session

structure Ledger (config : Config) (log : List Signal) (s : Session) : Prop where
  cache : s.cache = ReadCache.replay config.readCacheCapacity log
  accepted {t : Trailer} :
    s.trailer = some (.ok t) → ∃ blobLength, t.AcceptedBy config blobLength log
  permitted {signal : Signal} : signal ∈ log → signal.request.isOfLoad = false →
    ∃ t, s.trailer = some (.ok t) ∧ t.Permits signal.request

variable {config : Config} {s s' : Session} {log heard : List Signal}

theorem ledger_new (config : Config) : (new config).Ledger config [] :=
  ⟨rfl, nofun, nofun⟩

theorem Ledger.of_eq (h : s.Ledger config log) (sameTrailer : s'.trailer = s.trailer)
    (sameCache : s'.cache = s.cache) : s'.Ledger config log := by
  obtain ⟨cache, accepted, permitted⟩ := h
  rw [← sameTrailer] at accepted permitted
  exact ⟨sameCache.trans cache, accepted, permitted⟩

theorem Ledger.later (h : s.Ledger config log) (sameTrailer : s'.trailer = s.trailer)
    (cache : s'.cache = ReadCache.replay config.readCacheCapacity (heard ++ log))
    (allowed : ∀ signal ∈ heard, signal.request.isOfLoad = false →
      ∃ t, s.trailer = some (.ok t) ∧ t.Permits signal.request) :
    s'.Ledger config (heard ++ log) := by
  refine ⟨cache, fun {t} known => ?_, fun {signal} member notOfLoad => ?_⟩
  · obtain ⟨blobLength, accepted⟩ := h.accepted (sameTrailer.symm.trans known)
    exact ⟨blobLength, accepted.later heard⟩
  · rw [sameTrailer]
    rcases List.mem_append.mp member with new | old
    · exact allowed signal new notOfLoad
    · exact h.permitted old notOfLoad

theorem Ledger.inRegion (h : s.Ledger config log) {span : Span} {reply : Reply Bytes}
    (member : .read .index span reply ∈ log) :
    span.start < span.stop ∧ span.InRegion config s.trailer log .index := by
  obtain ⟨t, known, permitted⟩ := h.permitted member rfl
  obtain ⟨blobLength, accepted⟩ := h.accepted known
  rw [known]
  exact permitted.inRegion accepted

/-- What is kept is a range of the index, as it was read. -/
theorem Ledger.mem_entries (h : s.Ledger config log) {span : Span} {bytes : Bytes}
    (member : (span, bytes) ∈ s.cache.entries) :
    span.FilledBy bytes ∧ .read .index span (.ok bytes) ∈ log ∧
      span.InRegion config s.trailer log .index := by
  rw [h.cache] at member
  obtain ⟨heard, complete⟩ := ReadCache.mem_entries_replay member
  obtain ⟨rising, region⟩ := h.inRegion heard
  exact ⟨(Span.filledBy_iff rising).mpr complete, heard, region⟩

end Session

theorem Course.Step.replays {source : Source σ} {capacity : Nat} {course course' : Course α}
    {s s' : Session} {state state' : σ × List Signal}
    (h : Step source.recorded (course, s, state) (course', s', state'))
    (ledger : s.cache = ReadCache.replay capacity state.2) :
    s'.cache = ReadCache.replay capacity state'.2 := by
  cases h with
  | done => exact ledger
  | askLength => exact (Session.cache_count ..).trans ledger
  | hit cached => exact ledger
  | askRead missed => exact (Session.cache_count ..).trans ledger
  | length reply =>
      rw [Source.log_of_recorded_length reply]
      exact ledger
  | @read purpose span _ bytes _ _ _ reply =>
      rw [Source.log_of_recorded_read reply, Session.cache_receive, ledger]
      cases purpose <;> rfl
  | lengthFailed reply =>
      rw [Source.log_of_recorded_length reply]
      exact ledger
  | @readFailed purpose _ _ _ _ _ _ reply =>
      rw [Source.log_of_recorded_read reply]
      cases purpose <;> exact ledger

/-- The record begins with what a load has heard so far. -/
def Activity.LoadTraced (config : Config) (cache : ReadCache) (log : List Signal) :
    Activity → Prop
  | loading course => ∃ own, own <+: log ∧ course.Traces cache (Trailer.load config) own
  | _ => True

namespace Activity

variable {source : Source σ} {config : Config} {query : Query}
  {activity activity' : Activity} {s s' : Session} {state state' : σ × List Signal}

theorem loadTraced_of_idle {cache : ReadCache} {log : List Signal}
    (idle : activity.isLoading = false) : activity.LoadTraced config cache log := by
  cases activity with
  | loading course => cases idle
  | _ => trivial

theorem Step.ledger
    (h : Step source.recorded query (activity, s, state) (activity', s', state'))
    (uses : activity.Uses config query s.trailer)
    (traced : activity.LoadTraced config s.cache state.2)
    (ledger : s.Ledger config state.2) :
    s'.Ledger config state'.2 ∧ activity'.LoadTraced config s'.cache state'.2 := by
  cases h with
  | enter known => exact ⟨ledger, trivial⟩
  | load h =>
      obtain ⟨own, begun, traces⟩ := traced
      obtain ⟨heard, later, traces'⟩ := h.traces traces
      obtain ⟨_, later', allowed⟩ := h.heard (Trailer.load_asks config) uses.2
      obtain rfl := List.append_cancel_right (later.symm.trans later')
      have cache := h.replays ledger.cache
      rw [later] at cache ⊢
      refine ⟨ledger.later h.trailer_eq cache fun signal member notOfLoad => ?_,
        heard ++ own, List.prefix_append_right_inj heard |>.mpr begun, traces'⟩
      rw [allowed signal member] at notOfLoad
      cases notOfLoad
  | @settle loaded s _ =>
      obtain ⟨own, begun, traces⟩ := traced
      refine ⟨⟨ledger.cache, ?_, ?_⟩, trivial⟩
      · rintro t ⟨rfl⟩
        obtain ⟨blobLength, bytes, rfl, accepted⟩ := Trailer.traces_load traces
        exact ⟨blobLength, bytes, begun.isInfix, accepted⟩
      · intro signal member notOfLoad
        obtain ⟨t, known, _⟩ := ledger.permitted member notOfLoad
        rw [uses.1] at known
        cases known
  | giveUp => exact ⟨ledger, trivial⟩
  | work h =>
      obtain ⟨loaded, known, origin⟩ := uses
      have cache := h.replays ledger.cache
      cases loaded with
      | error error =>
          obtain rfl := h.state_eq origin
          exact ⟨ledger.of_eq h.trailer_eq (cache.trans ledger.cache.symm), trivial⟩
      | ok t =>
          obtain ⟨heard, later, allowed⟩ := h.heard (query.plan_asks config t) origin
          rw [later] at cache ⊢
          exact ⟨ledger.later h.trailer_eq cache fun signal member _ =>
            ⟨t, known, allowed signal member⟩, trivial⟩
  | answer =>
    exact ⟨ledger.of_eq (Session.trailer_countEnd ..) (Session.cache_countEnd ..), trivial⟩
  | fail => exact ⟨ledger, trivial⟩

end Activity

namespace Moment

structure Ledger (config : Config) (m : Moment (σ × List Signal)) : Prop where
  disciplined : m.Disciplined config
  session : m.session.Ledger config m.state.2
  traced {caller : Nat} {party : Party} : m.parties[caller]? = some party →
    party.activity.LoadTraced config m.session.cache m.state.2

variable {source : Source σ} {config : Config} {m m' : Moment (σ × List Signal)}
  {caller : Nat} {query : Query}

theorem ledger_new (config : Config) (state : σ) :
    Ledger config ⟨Session.new config, [], (state, [])⟩ :=
  ⟨disciplined_new config _, Session.ledger_new config, nofun⟩

theorem Ledger.start (h : m.Ledger config) (query : Query) :
    (m.start query).Ledger config := by
  have cache := m.session.cache_countStart query
  refine ⟨h.disciplined.start query,
    h.session.of_eq (Session.trailer_countStart ..) cache, fun {caller party} member => ?_⟩
  rcases party_start member with old | ⟨_, rfl⟩
  · rw [Moment.start, cache]
    exact h.traced old
  · trivial

/-- While the others do not load, there is one load to follow at most. -/
theorem ledger_put {place : Activity × Session × σ × List Signal}
    (idle : m.OthersIdle caller)
    (disciplined : (m.put caller query place).Disciplined config)
    (session : place.2.1.Ledger config place.2.2.2)
    (traced : place.1.LoadTraced config place.2.1.cache place.2.2.2) :
    (m.put caller query place).Ledger config := by
  refine ⟨disciplined, session, fun {other party} member => ?_⟩
  rcases party_put member with ⟨_, rfl⟩ | ⟨distinct, old⟩
  · exact traced
  · exact Activity.loadTraced_of_idle (idle old distinct)

theorem Step.ledger (ledger : m.Ledger config) (h : Step source.recorded m m') :
    m'.Ledger config := by
  have disciplined := h.disciplined ledger.disciplined
  cases h with
  | begin party empty free =>
      refine ledger_put (othersIdle_of_isLoading free _) disciplined ledger.session
        ⟨[], List.nil_prefix, ?_⟩
      rw [ledger.disciplined.sameConfig]
      exact .refl _
  | @call caller query activity place party h =>
      obtain ⟨activity', s', state'⟩ := place
      have uses := ledger.disciplined.uses party
      obtain ⟨session, traced⟩ := h.ledger uses (ledger.traced party) ledger.session
      exact ledger_put (ledger.disciplined.othersIdle party (h.loading_or_settled uses))
        disciplined session traced

theorem Ledger.drop (h : m.Ledger config) {stage : Stage}
    (party : m.parties[caller]? = some ⟨query, stage.activity⟩) :
    (m.put caller query (stage.dropped.activity, m.session, m.state)).Ledger config := by
  refine ⟨h.disciplined.drop party, h.session, fun {other second} member => ?_⟩
  rcases party_put member with ⟨_, rfl⟩ | ⟨_, old⟩
  · cases stage <;> trivial
  · exact h.traced old

end Moment

/-! What one turn hears: at most one reply, and then requests only. -/

/-- The record went on with at most one reply, and after that with requests only. -/
def HearsOne (log log' : List Signal) : Prop :=
  ∃ asks replies, log' = asks ++ (replies ++ log) ∧
    (∀ signal ∈ asks, signal.asked?.isSome = true) ∧ replies.length ≤ 1

theorem HearsOne.ask {log log' asks : List Signal} (h : HearsOne log log')
    (asked : ∀ signal ∈ asks, signal.asked?.isSome = true) :
    HearsOne log (asks ++ log') := by
  obtain ⟨earlier, replies, rfl, earlierAsked, atMostOne⟩ := h
  exact ⟨asks ++ earlier, replies, (List.append_assoc ..).symm,
    List.forall_mem_append.mpr ⟨asked, earlierAsked⟩, atMostOne⟩

theorem hearsOne_refl (log : List Signal) : HearsOne log log :=
  ⟨[], [], rfl, nofun, Nat.zero_le 1⟩

theorem hearsOne_reply (reply : Signal) (log : List Signal) : HearsOne log (reply :: log) :=
  ⟨[], [reply], rfl, nofun, Nat.le_refl 1⟩

theorem Plan.proceed_asks (source : Source σ) (plan : Plan α) (s : Session)
    (state : σ × List Signal) :
    ∃ asks, (plan.proceed source.recorded s state).2.2.2 = asks ++ state.2 ∧
      ∀ signal ∈ asks, signal.asked?.isSome = true := by
  fun_induction plan.proceed source.recorded s state with
  | case1 result s state => exact ⟨[], rfl, List.forall_mem_nil _⟩
  | case2 next s state => exact ⟨[.asked .length], rfl, List.forall_mem_singleton.mpr rfl⟩
  | case3 purpose span next s state bytes cached ih => exact ih
  | case4 purpose span next s state missed =>
      exact ⟨[.asked (.read purpose span)], rfl, List.forall_mem_singleton.mpr rfl⟩

section

variable {source : Source σ} {log : List Signal}

theorem Plan.hearsOne_proceed {plan : Plan α} {s : Session} {state : σ × List Signal}
    (h : HearsOne log state.2) :
    HearsOne log (plan.proceed source.recorded s state).2.2.2 := by
  obtain ⟨asks, same, asked⟩ := plan.proceed_asks source s state
  rw [same]
  exact h.ask asked

theorem Pending.hearsOne_resume (sent : Pending α) (s : Session) (state : σ × List Signal) :
    HearsOne state.2 (sent.resume source.recorded s state).2.2.2 := by
  cases sent with
  | length next =>
      rcases hreply : source.recorded.length state with ⟨interruption | n, state'⟩
      · simp only [resume, hreply, Source.log_of_recorded_length hreply]
        exact hearsOne_reply _ _
      · simp only [resume, hreply]
        apply Plan.hearsOne_proceed
        rw [Source.log_of_recorded_length hreply]
        exact hearsOne_reply _ _
  | read purpose span next =>
      rcases hreply : source.recorded.read purpose span state with
        ⟨interruption | bytes, state'⟩
      · simp only [resume, hreply, Source.log_of_recorded_read hreply]
        exact hearsOne_reply _ _
      · simp only [resume, hreply]
        apply Plan.hearsOne_proceed
        rw [Source.log_of_recorded_read hreply]
        exact hearsOne_reply _ _

theorem Stage.hearsOne_ofWork {place : Progress Verdict × Session × σ × List Signal}
    (h : HearsOne log place.2.2.2) : HearsOne log (ofWork place).2.2.2 := by
  rcases place with ⟨(interruption | verdict) | pending, s, state⟩ <;> exact h

theorem Stage.hearsOne_ofLoad {query : Query}
    {place : Progress (Except FormatError Trailer) × Session × σ × List Signal}
    (h : HearsOne log place.2.2.2) :
    HearsOne log (ofLoad source.recorded query place).2.2.2 := by
  rcases place with ⟨(interruption | loaded) | pending, s, state⟩
  · exact h
  · exact hearsOne_ofWork (Plan.hearsOne_proceed h)
  · exact h

theorem Stage.hearsOne_turn (query : Query) (othersLoad : Bool) (s : Session)
    (state : σ × List Signal) (stage : Stage) :
    HearsOne state.2 (turn source.recorded query othersLoad s state stage).2.2.2 := by
  have start := hearsOne_refl state.2
  cases stage with
  | waiting =>
      cases known : s.trailer with
      | some loaded =>
          simp only [turn, known]
          exact hearsOne_ofWork (Plan.hearsOne_proceed start)
      | none =>
          cases othersLoad with
          | true =>
              simp only [turn, known]
              exact start
          | false =>
              simp only [turn, known, Bool.false_eq_true, if_false]
              exact hearsOne_ofLoad (Plan.hearsOne_proceed start)
  | loading sent => exact hearsOne_ofLoad (sent.hearsOne_resume s state)
  | working sent => exact hearsOne_ofWork (sent.hearsOne_resume s state)
  | finished result => exact start

theorem Crew.hearsOne_act (source : Source σ) (crew : Crew × σ × List Signal)
    (event : Event) :
    HearsOne crew.2.2 (act source.recorded crew event).2.2 := by
  cases event with
  | start query => exact hearsOne_refl _
  | drop caller => exact hearsOne_refl _
  | turn caller =>
      rw [act, turn]
      cases crew.1.calls[caller]? with
      | none => exact hearsOne_refl _
      | some call => exact Stage.hearsOne_turn call.query _ _ _ call.stage

theorem Moment.Step.keeps_cached {source : Source σ} {m m' : Moment σ}
    (h : Step source m m') {span : Span} {bytes : Bytes}
    (kept : m.session.cache.get? span = some bytes) :
    m'.session.cache.get? span = some bytes := by
  cases h with
  | begin party empty free => exact kept
  | call party h => exact h.keeps_cached kept

end

namespace Crew

variable {source : Source σ}

theorem play_keeps_cached {crew : Crew × σ} {span : Span} {bytes : Bytes}
    (kept : crew.1.session.cache.get? span = some bytes) (later : List Event) :
    (play source later crew).1.session.cache.get? span = some bytes := by
  refine play_keeps (fun m => m.session.cache.get? span = some bytes) ?_
    (fun kept step => step.keeps_cached kept) ?_ kept
  · intro m query h
    rwa [Moment.start, Session.cache_countStart]
  · intro lost _ m caller query stage h party
    exact h

theorem ledger_play (source : Source σ) (config : Config) (events : List Event)
    (state : σ) :
    (moment (play source.recorded events (new (Session.new config), state, []))).Ledger
      config := by
  refine play_keeps (Moment.Ledger config) ?_ Moment.Step.ledger ?_
    (Moment.ledger_new config state)
  · intro m query h
    exact h.start query
  · intro lost _ m caller query stage h party
    exact h.drop party

/-- In every state that calls can reach over any source: the cache holds no more ranges than
it has room for, each of them once, each a range of the index of the trailer that was
loaded, with as many bytes as it is long, which the source answered a read of it with. What
is kept stays as it is. An event changes the cache only by a reply to a read of the index;
one of the wrong length changes nothing, and one of the right length leaves its range
missing only if there was no room when it came. -/
theorem cache_of_play (source : Source σ) (config : Config) (events : List Event)
    (state : σ) :
    let crew := play source.recorded events (new (Session.new config), state, [])
    let cache := crew.1.session.cache
    cache.size ≤ config.readCacheCapacity ∧ cache.keys.Nodup ∧
      (∀ span bytes, (span, bytes) ∈ cache.entries →
        span.FilledBy bytes ∧ .read .index span (.ok bytes) ∈ crew.2.2 ∧
          span.InRegion config crew.1.session.trailer crew.2.2 .index) ∧
      (∀ later span bytes, cache.get? span = some bytes →
        (play source.recorded later crew).1.session.cache.get? span = some bytes) ∧
      ∀ event,
        let next := act source.recorded crew event
        ∃ heard, next.2.2 = heard ++ crew.2.2 ∧
          (∀ span bytes, .read .index span (.ok bytes) ∈ heard →
            (¬ span.FilledBy bytes → next.1.session.cache = cache) ∧
              (span.FilledBy bytes → next.1.session.cache.get? span = none →
                cache.size = config.readCacheCapacity)) ∧
          ((∀ span bytes, .read .index span (.ok bytes) ∉ heard) →
            next.1.session.cache = cache) := by
  intro crew cache
  have ledger := (ledger_play source config events state).session
  have replayed : cache = ReadCache.replay config.readCacheCapacity crew.2.2 := ledger.cache
  have wellFormed : cache.WellFormed := replayed ▸ ReadCache.wellFormed_replay ..
  have capacity : cache.capacity = config.readCacheCapacity :=
    replayed ▸ ReadCache.capacity_replay ..
  refine ⟨capacity ▸ wellFormed.size_le, wellFormed.nodup, fun span bytes =>
    ledger.mem_entries, fun later span bytes kept => play_keeps_cached kept later, ?_⟩
  intro event next
  have ledger' : next.1.session.Ledger config next.2.2 := by
    have played := (ledger_play source config (events ++ [event]) state).session
    rw [play, List.foldl_append] at played
    exact played
  obtain ⟨asks, replies, heard, asked, atMostOne⟩ := hearsOne_act source crew event
  have later : next.2.2 = (asks ++ replies) ++ crew.2.2 := by
    rw [List.append_assoc]; exact heard
  have cache' : next.1.session.cache =
      ReadCache.replay config.readCacheCapacity (replies ++ crew.2.2) := by
    rw [ledger'.cache, later, List.append_assoc, ReadCache.replay_append_asked asked]
  refine ⟨asks ++ replies, later, fun span bytes member => ?_, fun silent => ?_⟩
  · have rising : span.start < span.stop :=
      (ledger'.inRegion (by rw [later]; exact List.mem_append_left _ member)).1
    have isReply : Signal.read .index span (.ok bytes) ∈ replies := by
      refine (List.mem_append.mp member).resolve_left fun inAsks => ?_
      cases asked _ inAsks
    rw [cache', ReadCache.replay_append_read atMostOne isReply, ← replayed,
      Span.filledBy_iff rising]
    exact ⟨ReadCache.offer_of_ne, fun complete missing =>
      (ReadCache.size_eq_of_missing wellFormed complete missing).trans capacity⟩
  · rw [cache', replayed]
    exact ReadCache.replay_append_silent atMostOne fun span bytes member =>
      silent span bytes (List.mem_append_right asks member)

end Crew

end SortedBlob
