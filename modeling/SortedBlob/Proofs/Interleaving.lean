import SortedBlob.Builder
import SortedBlob.Proofs.Rounds
import SortedBlob.Proofs.SharedCache

/-!
Queries over a store that answers everything come to the same whether they interleave or are
asked one after the other, in whatever order. Main statement: `Crew.interleaved_lookups`.
-/

namespace SortedBlob

def Query.finds (store : Store) (config : Config) (query : Query) : Bool :=
  match (query.whole config).eval store with
  | .ok verdict => verdict.isFound
  | .error _ => false

namespace Moment

structure Balanced (blob : Bytes) (config : Config) (m : Moment Unit) : Prop where
  orderly : m.Orderly blob config
  counted : m.Counted (Store.ofBytes blob) config
  tallied : m.Tallied
  filled : m.CacheFilled (Store.ofBytes blob) config
  fresh : m.parties = [] → m.session = Session.new config

variable {blob : Bytes} {config : Config} {m m' : Moment Unit}

theorem balanced_new (blob : Bytes) (config : Config) :
    Balanced blob config ⟨Session.new config, [], ()⟩ :=
  ⟨⟨⟨Session.sound_new, nofun⟩, disciplined_new config ()⟩, counted_new _ config,
    ⟨rfl, rfl⟩, cacheFilled_new _ config, fun _ => rfl⟩

theorem Balanced.start (h : m.Balanced blob config) (query : Query) :
    (m.start query).Balanced blob config :=
  ⟨⟨h.orderly.1.start query, h.orderly.2.start query⟩, h.counted.start query,
    h.tallied.start query, h.filled.start query,
    fun empty => by simp [Moment.start] at empty⟩

theorem Step.balanced (h : m.Balanced blob config)
    (step : Step (Store.ofBytes blob).source m m') : m'.Balanced blob config := by
  obtain ⟨sound, disciplined⟩ := h.orderly
  refine ⟨step.orderly h.orderly, step.counted sound disciplined h.counted,
    step.tallied h.tallied, step.cacheFilled sound disciplined h.filled, fun empty => ?_⟩
  have queries := step.queries_eq
  rw [empty] at queries
  have nobody : m.parties = [] := List.map_eq_nil_iff.mp queries.symm
  cases step with
  | begin party empty free =>
      rw [nobody] at party
      cases party
  | call party h =>
      rw [nobody] at party
      cases party

/-- What a session has come to, in terms of the queries alone. -/
structure Concluded (blob : Bytes) (config : Config) (queries : List Query) (s : Session) :
    Prop where
  size : s.cache.size = min config.readCacheCapacity
    (queries.flatMap (Query.visits (Store.ofBytes blob) config)).dedup.length
  lengthCalls : s.stats.lengthCalls =
    if queries = [] then 0 else (Store.ofBytes blob).loadLengths config
  trailerLoads : s.stats.trailerLoads =
    if queries = [] then 0 else (Store.ofBytes blob).loadReads config
  lookups : s.stats.lookups = queries.countP Query.isLookup
  found : s.stats.found = queries.countP (Query.finds (Store.ofBytes blob) config)

theorem Balanced.concluded (h : m.Balanced blob config)
    (isOver : ∀ party ∈ m.parties, ∃ reply, party.activity = .finished reply) :
    Concluded blob config (m.parties.map Party.query) m.session := by
  obtain ⟨sound, disciplined⟩ := h.orderly
  have finds : ∀ party ∈ m.parties,
      party.activity.isFound = party.query.finds (Store.ofBytes blob) config := by
    intro party member
    obtain ⟨verdict, finished, heval⟩ := sound.exists_verdict member (isOver party member)
    simp only [Query.finds, heval, finished, Activity.isFound]
  have counts : (m.session.stats.lengthCalls = if m.parties.map Party.query = [] then 0
        else (Store.ofBytes blob).loadLengths config) ∧
      m.session.stats.trailerLoads = if m.parties.map Party.query = [] then 0
        else (Store.ofBytes blob).loadReads config := by
    cases hparties : m.parties with
    | nil =>
        rw [h.fresh hparties]
        exact ⟨rfl, rfl⟩
    | cons party rest =>
        have first : m.parties[0]? = some party := by rw [hparties]; rfl
        have member := List.mem_of_getElem? first
        obtain ⟨verdict, finished, _⟩ := sound.exists_verdict member (isOver party member)
        have uses := disciplined.uses first
        rw [finished] at uses
        obtain ⟨loaded, known, _⟩ := uses
        exact h.counted.settled known
  refine ⟨h.filled.size_eq isOver, counts.1, counts.2, h.tallied.lookups, ?_⟩
  rw [h.tallied.found, List.countP_map]
  exact List.countP_congr fun party member => by rw [Function.comp, finds party member]

theorem Concluded.perm {queries order : List Query} {s : Session}
    (h : Concluded blob config order s) (perm : order.Perm queries) :
    Concluded blob config queries s := by
  have empty : order = [] ↔ queries = [] := by
    constructor
    · rintro rfl
      exact perm.nil_eq.symm
    · rintro rfl
      exact perm.eq_nil
  have visits :=
    ((perm.flatMap_right (Query.visits (Store.ofBytes blob) config)).dedup).length_eq
  exact ⟨visits ▸ h.size, by simp only [h.lengthCalls, empty],
    by simp only [h.trailerLoads, empty], h.lookups.trans (perm.countP_eq _),
    h.found.trans (perm.countP_eq _)⟩

end Moment

def Event.query? : Event → Option Query
  | .start query => some query
  | _ => none

namespace Crew

variable {σ : Type} {blob : Bytes} {config : Config}

/-- The calls are those that were started, in this order. -/
theorem queries_play (source : Source σ) (events : List Event) (crew : Crew × σ) :
    (moment (play source events crew)).parties.map Party.query =
      (moment crew).parties.map Party.query ++ events.filterMap Event.query? := by
  induction events generalizing crew with
  | nil => simp [play]
  | cons event rest ih =>
      have later := ih (act source crew event)
      rw [play, List.foldl_cons]
      apply later.trans
      cases event with
      | start query => simp [act, moment_start, Moment.start, Event.query?]
      | turn caller =>
          have same : (moment (crew.1.turn source crew.2 caller)).parties.map Party.query =
              (moment crew).parties.map Party.query :=
            turn_keeps (fun m => m.parties.map Party.query =
              (moment crew).parties.map Party.query)
              (fun kept step => step.queries_eq.trans kept) caller rfl
          rw [act, same]
          rfl
      | drop caller =>
          have same : (moment (crew.1.drop caller, crew.2)).parties.map Party.query =
              (moment crew).parties.map Party.query :=
            drop_keeps (fun m => m.parties.map Party.query =
              (moment crew).parties.map Party.query)
              (fun kept party => (Moment.queries_put party _).trans kept) caller rfl
          rw [act, same]
          rfl

theorem queries_moment (crew : Crew × σ) :
    (moment crew).parties.map Party.query = crew.1.calls.map Call.query := by
  simp [moment, parties]

theorem balanced_play {events : List Event} (kept : ∀ caller, .drop caller ∉ events) :
    (moment (play (Store.ofBytes blob).source events (new (Session.new config), ()))).Balanced
      blob config :=
  play_keeps (Moment.Balanced blob config) (fun query h => h.start query)
    Moment.Step.balanced
    (fun lost dropped => absurd dropped (kept lost)) (Moment.balanced_new blob config)

/-- A call that is over came to what its query comes to alone. -/
theorem reply_eq_alone {crew : Crew} (balanced : (moment (crew, ())).Balanced blob config)
    {call : Call} (member : call ∈ crew.calls) {reply : Reply Verdict}
    (isOver : call.stage = .finished reply) :
    reply = ((Session.new config).ask (Store.ofBytes blob).source call.query ()).1 := by
  obtain ⟨caller, hcall⟩ := List.getElem?_of_mem member
  have party : (moment (crew, ())).parties[caller]? =
      some ⟨call.query, call.stage.activity⟩ :=
    getElem?_moment hcall
  rw [isOver] at party
  obtain ⟨verdict, same, heval⟩ :=
    balanced.orderly.1.exists_verdict (List.mem_of_getElem? party) ⟨reply, rfl⟩
  cases same
  exact (Session.sound_new.ask_eval heval).symm

theorem Finished.parties {crew : Crew × σ} (h : crew.1.Finished) :
    ∀ party ∈ (moment crew).parties, ∃ reply, party.activity = .finished reply := by
  intro party member
  obtain ⟨call, inside, rfl⟩ := List.mem_map.mp member
  obtain ⟨reply, isOver⟩ := h.exists_reply inside
  exact ⟨reply, by rw [isOver]; rfl⟩

end Crew

namespace Session

variable {σ : Type} {blob : Bytes} {config : Config}

theorem length_askAll (source : Source σ) (queries : List Query) (s : Session) (state : σ) :
    (askAll source queries s state).1.length = queries.length := by
  induction queries generalizing s state with
  | nil => rfl
  | cons query rest ih => simp only [askAll, List.length_cons, ih]

theorem queries_answered {queries : List Query} {replies : List (Reply Verdict)}
    (h : replies.length = queries.length) :
    (answered queries replies).map Party.query = queries := by
  induction queries generalizing replies with
  | nil => rfl
  | cons query rest ih =>
      cases replies with
      | nil => cases h
      | cons reply replies => exact congrArg _ (ih (Nat.succ.inj h))

theorem finished_answered {queries : List Query} {replies : List (Reply Verdict)}
    {party : Party} (h : party ∈ answered queries replies) :
    ∃ reply, party.activity = .finished reply := by
  induction queries generalizing replies with
  | nil => cases h
  | cons query rest ih =>
      cases replies with
      | nil => cases h
      | cons reply replies =>
          rcases List.mem_cons.mp h with rfl | later
          · exact ⟨reply, rfl⟩
          · exact ih later

theorem concluded_askAll (blob : Bytes) (config : Config) (queries : List Query) :
    Moment.Concluded blob config queries
      (askAll (Store.ofBytes blob).source queries (new config) ()).2.1 := by
  have last := askAll_keeps (Moment.Balanced blob config) (fun query h => h.start query)
    Moment.Step.balanced queries rfl (Moment.balanced_new blob config)
  have queriesKept := queries_answered
    (length_askAll (Store.ofBytes blob).source queries (new config) ())
  have isOver := last.concluded fun party member => finished_answered member
  simpa only [List.nil_append, queriesKept] using isOver

end Session

namespace Crew

/-- Lookups that interleave in any way, while the store answers them all and none is
dropped: each comes to what it comes to alone in a new session; they all come to their end
if each gets its turns; and then as many ranges are kept, and as much is counted, as when
they are asked one after the other in any order. -/
theorem interleaved_lookups {blob : Bytes} {config : Config} {keys : List Bytes}
    {events : List Event} (started : events.filterMap Event.query? = keys.map .lookup)
    (kept : ∀ caller, .drop caller ∉ events) :
    let source := (Store.ofBytes blob).source
    let crew := (play source events (new (Session.new config), ())).1
    (∀ (caller : Nat) (key : Bytes) (reply : Reply Verdict), keys[caller]? = some key →
        crew.results[caller]? = some (some reply) →
          reply = ((Session.new config).ask source (.lookup key) ()).1) ∧
      (∃ enough, ∀ rounds : List (List Event), enough ≤ rounds.length →
        (∀ round ∈ rounds, IsRound keys.length round) →
          (play source rounds.flatten (crew, ())).1.Finished) ∧
      (crew.Finished →
        crew.session.cache.size = min config.readCacheCapacity
            (keys.flatMap fun key =>
              (Query.lookup key).visits (Store.ofBytes blob) config).dedup.length ∧
          ∀ order : List Bytes, order.Perm keys →
            let one :=
              (Session.askAll source (order.map .lookup) (Session.new config) ()).2.1
            crew.session.cache.size = one.cache.size ∧
              crew.session.stats.lengthCalls = one.stats.lengthCalls ∧
              crew.session.stats.trailerLoads = one.stats.trailerLoads ∧
              crew.session.stats.lookups = one.stats.lookups ∧
              crew.session.stats.found = one.stats.found) := by
  intro source crew
  have balanced : (moment (crew, ())).Balanced blob config := balanced_play kept
  have queries : crew.calls.map Call.query = keys.map .lookup := by
    have played := queries_play source events (new (Session.new config), ())
    rw [started, queries_moment, queries_moment] at played
    exact played
  refine ⟨?_, ?_, ?_⟩
  · intro caller key reply hkey hreply
    simp only [results, List.getElem?_map, Option.map_eq_some_iff] at hreply
    obtain ⟨call, hcall, isOver⟩ := hreply
    have asked : call.query = .lookup key := by
      have here := congrArg (·[caller]?) queries
      simpa [hcall, hkey] using here
    rw [← asked]
    exact reply_eq_alone balanced (List.mem_of_getElem? hcall)
      (Stage.result?_eq_some_iff.mp isOver)
  · refine ⟨(moment (crew, ())).potential (Store.ofBytes blob) config, ?_⟩
    intro rounds enough fair
    have length : crew.calls.length = keys.length := by
      simpa using congrArg List.length queries
    rw [← length] at fair
    exact (approaches_finished blob config).play_rounds fair balanced.orderly enough
  · intro finished
    have concluded := balanced.concluded finished.parties
    rw [queries_moment, queries] at concluded
    refine ⟨?_, ?_⟩
    · have size := concluded.size
      rw [List.flatMap_map] at size
      exact size
    · intro order perm one
      have ordered := (Session.concluded_askAll blob config (order.map .lookup)).perm
        (perm.map Query.lookup)
      exact ⟨concluded.size.trans ordered.size.symm,
        concluded.lengthCalls.trans ordered.lengthCalls.symm,
        concluded.trailerLoads.trans ordered.trailerLoads.symm,
        concluded.lookups.trans ordered.lookups.symm,
        concluded.found.trans ordered.found.symm⟩

/-- Two callers, the second of which waits for the trailer that the first loads. -/
theorem interleaved_lookups_of_two :
    let source := (Store.ofBytes (Builder.mk 1 [([5], [9, 9])]).blob).source
    let events : List Event :=
      [.start (.lookup [5]), .start (.lookup [6]), .turn 0, .turn 1, .turn 0, .turn 0,
        .turn 1, .turn 0, .turn 1, .turn 0]
    let crew := (play source events (new (Session.new {}), ())).1
    let order : List Bytes := [[6], [5]]
    let one := (Session.askAll source (order.map .lookup) (Session.new {}) ()).2.1
    events.filterMap Event.query? = [.lookup [5], .lookup [6]] ∧
      (∀ caller, .drop caller ∉ events) ∧ crew.Finished ∧
      crew.session.cache.size = one.cache.size := by
  have kept : ∀ caller,
      Event.drop caller ∉ [.start (.lookup [5]), .start (.lookup [6]), .turn 0, .turn 1,
        .turn 0, .turn 0, .turn 1, .turn 0, .turn 1, .turn 0] := by simp
  obtain ⟨_, _, outcome⟩ :=
    @interleaved_lookups (Builder.mk 1 [([5], [9, 9])]).blob {} [[5], [6]] _ rfl kept
  have finished := outcome (by decide +kernel)
  exact ⟨rfl, kept, by decide +kernel, (finished.2 [[6], [5]] (List.Perm.swap ..)).1⟩

end Crew

end SortedBlob
