import SortedBlob.Proofs.CacheLedger
import SortedBlob.Proofs.ValueOrigin

/-!
What passes between one of many calls and the source (`Crew.traffic`), whatever the source
answers and however the calls interleave. It is the trace of the call, so it tells where the
answer of the call comes from. Main statement: `Crew.value_of_lookup`.
-/

namespace SortedBlob

open Relation

variable {σ : Type}

/-- What was heard of a load, if the call made one, and then the trace of its course. -/
def Course.Works (config : Config) (query : Query) (s : Session) (own : List Signal)
    (course : Course Verdict) : Prop :=
  ∃ loaded load work, own = work ++ load ∧ s.trailer = some loaded ∧
    (∀ signal ∈ load, signal.request.isOfLoad = true) ∧
    course.Traces s.cache (query.plan config loaded) work

/-- What passed between a call and the source is its trace. -/
def Activity.Traced (config : Config) (query : Query) (s : Session) (own : List Signal) :
    Activity → Prop
  | waiting => own = []
  | loading course => course.Traces s.cache (Trailer.load config) own
  | working course => course.Works config query s own
  | finished (.ok verdict) => (Course.ended (.ok verdict)).Works config query s own
  | finished (.error _) => ValueLast own

/-- Whatever the first session knew, the second one knows. -/
structure Session.KeptBy (s s' : Session) : Prop where
  trailer (loaded : Except FormatError Trailer) :
    s.trailer = some loaded → s'.trailer = some loaded
  cache (span : Span) (bytes : Bytes) :
    s.cache.get? span = some bytes → s'.cache.get? span = some bytes

namespace Session

variable {s s' : Session}

theorem keptBy_of_eq (trailer : s'.trailer = s.trailer) (cache : s'.cache = s.cache) :
    s.KeptBy s' :=
  ⟨fun _ known => trailer.trans known, fun _ _ kept => cache ▸ kept⟩

theorem keptBy_refl (s : Session) : s.KeptBy s := keptBy_of_eq rfl rfl

theorem keptBy_countStart (s : Session) (query : Query) : s.KeptBy (s.countStart query) :=
  keptBy_of_eq (trailer_countStart ..) (cache_countStart ..)

theorem keptBy_countEnd (s : Session) (verdict : Verdict) : s.KeptBy (s.countEnd verdict) :=
  keptBy_of_eq (trailer_countEnd ..) (cache_countEnd ..)

end Session

section

variable {config : Config} {query : Query} {s s' : Session} {own : List Signal}

theorem Course.Works.keep {course : Course Verdict} (h : course.Works config query s own)
    (kept : s.KeptBy s') : course.Works config query s' own := by
  obtain ⟨loaded, load, work, same, known, ofLoad, traces⟩ := h
  exact ⟨loaded, load, work, same, kept.trailer loaded known, ofLoad,
    traces.keep kept.cache⟩

theorem Course.Works.valueLast {course : Course Verdict}
    (h : course.Works config query s own) :
    ValueLast own := by
  obtain ⟨loaded, load, work, rfl, _, ofLoad, traces⟩ := h
  exact (traces.valueLast (query.plan_readsValueLast config loaded)).append
    (.of_forall Request.readsValue_of_isOfLoad ofLoad)

namespace Activity

theorem Traced.keep {activity : Activity} (h : activity.Traced config query s own)
    (kept : s.KeptBy s') : activity.Traced config query s' own := by
  rcases activity with _ | course | course | interruption | verdict
  · exact h
  · exact Course.Traces.keep h kept.cache
  · exact Course.Works.keep h kept
  · exact h
  · exact Course.Works.keep h kept

theorem Traced.valueLast {activity : Activity} (h : activity.Traced config query s own) :
    ValueLast own := by
  rcases activity with _ | course | course | interruption | verdict
  · subst h
    exact nofun
  · exact Course.Traces.valueLast h (Trailer.load_readsValueLast config)
  · exact Course.Works.valueLast h
  · exact h
  · exact Course.Works.valueLast h

variable {source : Source σ} {state state' : σ × List Signal}
  {activity activity' : Activity}

theorem Step.traced
    (h : Step source.recorded query (activity, s, state) (activity', s', state'))
    (sameConfig : s.config = config) (traced : activity.Traced config query s own) :
    ∃ heard, state'.2 = heard ++ state.2 ∧
      activity'.Traced config query s' (heard ++ own) := by
  subst sameConfig
  cases h with
  | enter known =>
      subst traced
      exact ⟨[], rfl, _, [], [], rfl, known, nofun, .refl _⟩
  | load h => exact h.traces traced
  | @settle loaded s _ =>
      have ofLoad := (Plan.Traces.asks traced (Trailer.load_asks s.config)).2
      exact ⟨[], rfl, loaded, own, [], rfl, rfl, ofLoad, .refl _⟩
  | giveUp => exact ⟨[], rfl, traced.valueLast⟩
  | work h =>
      obtain ⟨loaded, load, work, rfl, known, ofLoad, traces⟩ := traced
      obtain ⟨heard, later, traces'⟩ := h.traces traces
      exact ⟨heard, later, loaded, load, heard ++ work, (List.append_assoc ..).symm,
        h.trailer_eq.trans known, ofLoad, traces'⟩
  | answer => exact ⟨[], rfl, Course.Works.keep traced (Session.keptBy_countEnd ..)⟩
  | fail => exact ⟨[], rfl, traced.valueLast⟩

theorem traced_of_steps {place : Activity × Session × σ × List Signal}
    (h : TransGen (Step source.recorded query) (activity, s, state) place)
    (sameConfig : s.config = config) (traced : activity.Traced config query s own) :
    place.2.1.config = config ∧ ∃ heard, place.2.2.2 = heard ++ state.2 ∧
      place.1.Traced config query place.2.1 (heard ++ own) := by
  induction h with
  | single step => exact ⟨step.config_eq.trans sameConfig, step.traced sameConfig traced⟩
  | tail _ step ih =>
      obtain ⟨sameConfig, earlier, same, traced⟩ := ih
      obtain ⟨heard, later, traced'⟩ := step.traced sameConfig traced
      refine ⟨step.config_eq.trans sameConfig, heard ++ earlier, ?_, ?_⟩
      · rw [later, same, List.append_assoc]
      · rw [List.append_assoc]
        exact traced'

end Activity

namespace Stage

theorem traced_dropped {stage : Stage} (h : stage.activity.Traced config query s own) :
    stage.dropped.activity.Traced config query s own := by
  cases stage with
  | finished result => exact h
  | _ => exact Activity.Traced.valueLast h

/-- A turn goes on with the trace of its call. -/
theorem traced_turn (source : Source σ) {stage : Stage} (othersLoad : Bool)
    (state : σ × List Signal) (sameConfig : s.config = config)
    (traced : stage.activity.Traced config query s own) :
    let out := stage.turn source.recorded query othersLoad s state
    ∃ heard, out.2.2.2 = heard ++ state.2 ∧
      out.1.activity.Traced config query out.2.1 (heard ++ own) := by
  by_cases unfinished : ∃ result, stage = finished result
  · obtain ⟨result, rfl⟩ := unfinished
    exact ⟨[], rfl, traced⟩
  · by_cases ready : stage = waiting → s.trailer.isSome
    · have steps := stage.turn_steps source.recorded query state othersLoad ready
        fun result isOver => unfinished ⟨result, isOver⟩
      exact (Activity.traced_of_steps steps sameConfig traced).2
    · obtain ⟨rfl, unknown⟩ := Classical.not_imp.mp ready
      have empty : s.trailer = none := by simpa using unknown
      cases othersLoad with
      | true =>
          simp only [turn, empty, if_true]
          exact ⟨[], rfl, traced⟩
      | false =>
          simp only [turn, empty, Bool.false_eq_true, if_false]
          have begun : (Activity.loading (.running (Trailer.load s.config))).Traced config
              query s own := by
            obtain rfl : own = [] := traced
            rw [sameConfig]
            exact .refl _
          have steps := load_steps source.recorded query s state
          exact (Activity.traced_of_steps steps sameConfig begun).2

end Stage

end

theorem Moment.Step.keptBy {source : Source σ} {config : Config} {s : Session}
    {m m' : Moment σ} (disciplined : m.Disciplined config) (kept : s.KeptBy m.session)
    (h : Step source m m') :
    s.KeptBy m'.session := by
  refine ⟨?_, fun span bytes known => h.keeps_cached (kept.cache span bytes known)⟩
  obtain ⟨_, _, _, _, _, _, rfl, _, _, later⟩ := h.cases_of_disciplined disciplined
  exact fun loaded known => later loaded (kept.trailer loaded known)

namespace Crew

/-- What passes between a caller and the source while these events happen, the latest first:
what its own turns add to the record. -/
def traffic (source : Source σ) (caller : Nat) :
    List Event → Crew × σ × List Signal → List Signal
  | [], _ => []
  | event :: rest, crew =>
      let next := act source.recorded crew event
      let heard := next.2.2.take (next.2.2.length - crew.2.2.length)
      traffic source caller rest next ++ if event = .turn caller then heard else []

theorem disciplined_act (source : Source σ) {config : Config} {crew : Crew × σ}
    (h : (moment crew).Disciplined config) (event : Event) :
    (moment (act source crew event)).Disciplined config := by
  cases event with
  | start query =>
      rw [act, moment_start]
      exact h.start query
  | turn caller =>
      exact turn_keeps (Moment.Disciplined config) (fun h step => step.disciplined h)
        caller h
  | drop caller =>
    exact drop_keeps (Moment.Disciplined config) (fun h party => h.drop party) caller h

theorem play_disciplined (source : Source σ) {config : Config} {crew : Crew × σ}
    (h : (moment crew).Disciplined config) (events : List Event) :
    (moment (play source events crew)).Disciplined config :=
  play_keeps (Moment.Disciplined config) (fun query h => h.start query)
    (fun h step => step.disciplined h) (fun _ _ _ _ _ _ h party => h.drop party) h

theorem turn_keptBy (source : Source σ) {config : Config} {crew : Crew × σ}
    (h : (moment crew).Disciplined config) (caller : Nat) :
    crew.1.session.KeptBy (crew.1.turn source crew.2 caller).1.session := by
  let Keeps (m : Moment σ) := m.Disciplined config ∧ crew.1.session.KeptBy m.session
  have step {m m' : Moment σ} (h : Keeps m) (step : Moment.Step source m m') : Keeps m' :=
    ⟨step.disciplined h.1, step.keptBy h.1 h.2⟩
  exact (turn_keeps Keeps step caller ⟨h, Session.keptBy_refl _⟩).2

theorem turn_of_some (source : Source σ) {crew : Crew × σ} {caller : Nat} {call : Call}
    (hcall : crew.1.calls[caller]? = some call) :
    let out := call.stage.turn source call.query crew.1.isLoading crew.1.session crew.2
    crew.1.turn source crew.2 caller =
      (⟨out.2.1, crew.1.calls.set caller ⟨call.query, out.1⟩⟩, out.2.2) := by
  simp only [turn, hcall]

theorem getElem?_turn_of_ne (source : Source σ) (crew : Crew × σ) {caller other : Nat}
    (distinct : other ≠ caller) :
    (crew.1.turn source crew.2 other).1.calls[caller]? = crew.1.calls[caller]? := by
  rw [turn]
  split
  · rfl
  · exact List.getElem?_set_ne distinct

/-- What is so of the call that a caller made, or else of the caller who made none. -/
structure AtCall (Called : Session → Call → Prop) (Absent : Prop) (caller : Nat)
    (crew : Crew × σ) : Prop where
  absent : crew.1.calls[caller]? = none → Absent
  called {call : Call} : crew.1.calls[caller]? = some call → Called crew.1.session call

section

variable {source : Source σ} {config : Config} {Called : Session → Call → Prop}
  {Absent : Prop} {caller : Nat} {crew : Crew × σ}

theorem AtCall.start (h : AtCall Called Absent caller crew)
    (keep : ∀ {s s' : Session} {call : Call}, Called s call → s.KeptBy s' → Called s' call)
    (begin : Absent → ∀ (s : Session) (query : Query), Called s ⟨query, .waiting⟩)
    (query : Query) :
    AtCall Called Absent caller (crew.1.start query, crew.2) := by
  refine ⟨?_, ?_⟩
  · intro none
    apply h.absent
    rw [List.getElem?_eq_none_iff] at none ⊢
    simp only [Crew.start, List.length_append, List.length_singleton] at none
    omega
  · intro call hcall
    by_cases old : caller < crew.1.calls.length
    · rw [Crew.start, List.getElem?_append_left old] at hcall
      exact keep (h.called hcall) (Session.keptBy_countStart ..)
    · have none := h.absent (List.getElem?_eq_none_iff.mpr (Nat.le_of_not_lt old))
      rw [Crew.start, List.getElem?_append_right (Nat.le_of_not_lt old),
        List.getElem?_singleton] at hcall
      split at hcall
      · cases hcall
        exact begin none _ query
      · cases hcall

theorem AtCall.drop (h : AtCall Called Absent caller crew)
    (drop : ∀ {s : Session} {call : Call}, Called s call →
      Called s { call with stage := call.stage.dropped }) (lost : Nat) :
    AtCall Called Absent caller (crew.1.drop lost, crew.2) := by
  refine ⟨?_, ?_⟩
  · intro none
    apply h.absent
    rw [Crew.drop, List.getElem?_modify] at none
    exact Option.map_eq_none_iff.mp none
  · intro call hcall
    rw [Crew.drop, List.getElem?_modify] at hcall
    obtain ⟨before, hbefore, rfl⟩ := Option.map_eq_some_iff.mp hcall
    have called := h.called hbefore
    split
    · exact drop called
    · exact called

/-- The turn of another call goes by what the session knew. -/
theorem AtCall.turn_other (disciplined : (moment crew).Disciplined config)
    (h : AtCall Called Absent caller crew)
    (keep : ∀ {s s' : Session} {call : Call}, Called s call → s.KeptBy s' → Called s' call)
    {other : Nat} (distinct : other ≠ caller) :
    AtCall Called Absent caller (crew.1.turn source crew.2 other) := by
  have kept := turn_keptBy source disciplined other
  have calls := getElem?_turn_of_ne source crew distinct
  exact ⟨fun none => h.absent (calls.symm.trans none),
    fun hcall => keep (h.called (calls.symm.trans hcall)) kept⟩

theorem atCall_turn {call : Call} (hcall : crew.1.calls[caller]? = some call)
    (turned :
      let out := call.stage.turn source call.query crew.1.isLoading crew.1.session crew.2
      Called out.2.1 ⟨call.query, out.1⟩) :
    AtCall Called Absent caller (crew.1.turn source crew.2 caller) := by
  have inside := (List.getElem?_eq_some_iff.mp hcall).1
  rw [turn_of_some source hcall]
  refine ⟨fun none => ?_, fun other => ?_⟩
  · rw [List.getElem?_set_self inside] at none
    cases none
  · rw [List.getElem?_set_self inside] at other
    cases other
    exact turned

end

/-- What passed between a caller and the source is the trace of its call. -/
structure Followed (config : Config) (caller : Nat) (crew : Crew × σ × List Signal)
    (own : List Signal) : Prop where
  absent : crew.1.calls[caller]? = none → own = []
  traced {call : Call} : crew.1.calls[caller]? = some call →
    call.stage.activity.Traced config call.query crew.1.session own
  recorded : own ⊆ crew.2.2

theorem take_heard {α : Type} {log log' heard : List α} (h : log' = heard ++ log) :
    log'.take (log'.length - log.length) = heard := by
  rw [h, List.length_append, Nat.add_sub_cancel, List.take_left]

section

variable {source : Source σ} {config : Config} {caller : Nat}
  {crew : Crew × σ × List Signal} {own : List Signal}

theorem Followed.call (h : Followed config caller crew own) :
    AtCall (fun s call => call.stage.activity.Traced config call.query s own) (own = [])
      caller crew :=
  ⟨h.absent, h.traced⟩

theorem AtCall.followed
    (h : AtCall (fun s call => call.stage.activity.Traced config call.query s own) (own = [])
      caller crew)
    (recorded : own ⊆ crew.2.2) : Followed config caller crew own :=
  ⟨h.absent, h.called, recorded⟩

theorem Followed.start (h : Followed config caller crew own) (query : Query) :
    Followed config caller (crew.1.start query, crew.2) own :=
  (h.call.start Activity.Traced.keep (fun none _ _ => none) query).followed h.recorded

theorem Followed.drop (h : Followed config caller crew own) (lost : Nat) :
    Followed config caller (crew.1.drop lost, crew.2) own :=
  (h.call.drop Stage.traced_dropped lost).followed h.recorded

/-- The turn of another call adds nothing to what is of this one. -/
theorem Followed.turn_other (disciplined : (moment crew).Disciplined config)
    (h : Followed config caller crew own) {other : Nat} (distinct : other ≠ caller) :
    Followed config caller (crew.1.turn source.recorded crew.2 other) own := by
  apply (h.call.turn_other disciplined Activity.Traced.keep distinct).followed
  obtain ⟨asks, replies, heard, _⟩ := hearsOne_act source crew (.turn other)
  rw [act] at heard
  rw [heard, ← List.append_assoc]
  exact List.subset_append_of_subset_right _ h.recorded

theorem Followed.turn_own (disciplined : (moment crew).Disciplined config)
    (h : Followed config caller crew own) :
    let next := crew.1.turn source.recorded crew.2 caller
    Followed config caller next
        (next.2.2.take (next.2.2.length - crew.2.2.length) ++ own) := by
  intro next
  cases hcall : crew.1.calls[caller]? with
  | none =>
      have same : next = crew := by simp only [next, turn, hcall]
      rw [same, Nat.sub_self]
      exact h
  | some call =>
      have same := turn_of_some source.recorded hcall
      obtain ⟨heard, later, traced⟩ := Stage.traced_turn source crew.1.isLoading crew.2
        disciplined.sameConfig (h.traced hcall)
      have log : next.2.2 = heard ++ crew.2.2 := (congrArg (·.2.2) same).trans later
      rw [take_heard log]
      apply (atCall_turn hcall traced).followed
      rw [log]
      exact List.append_subset.mpr ⟨List.subset_append_left ..,
        List.subset_append_of_subset_right _ h.recorded⟩

theorem Followed.play (disciplined : (moment crew).Disciplined config)
    (h : Followed config caller crew own) (events : List Event) :
    Followed config caller (play source.recorded events crew)
      (traffic source caller events crew ++ own) := by
  induction events generalizing crew own with
  | nil => exact h
  | cons event rest ih =>
      have later := disciplined_act source.recorded disciplined event
      rw [traffic, List.append_assoc]
      refine ih later ?_
      cases event with
      | start query =>
          rw [if_neg nofun]
          exact h.start query
      | drop lost =>
          rw [if_neg nofun]
          exact h.drop lost
      | turn other =>
          by_cases same : other = caller
          · subst same
            rw [if_pos rfl]
            exact h.turn_own disciplined
          · rw [if_neg fun equal => same (Event.turn.inj equal)]
            exact h.turn_other disciplined same

end

end Crew

/-- The record at a position of the index, decoded from bytes that fill a range
of the index around it. -/
def Trailer.RecordFrom (t : Trailer) (span : Span) (bytes : Bytes) (position : Nat)
    (r : Record) : Prop :=
  ∃ low high, low ≤ position ∧ position < high ∧ high ≤ t.entryCount.toNat ∧
    span.start.toNat = t.indexOffset.toNat + low * Record.size t.keySize.toNat ∧
    span.stop.toNat = t.indexOffset.toNat + high * Record.size t.keySize.toNat ∧
    span.FilledBy bytes ∧
    (Index.decode t.keySize.toNat (high - low) bytes)[position - low]? = some r

theorem Trailer.Holds.recordFrom {t : Trailer} {blobLength : UInt64}
    (fits : t.FitsIn blobLength) {cache : ReadCache} {own : List Signal}
    {low high position : UInt64} {bytes : Bytes} {r : Record}
    (h : t.Holds cache own low high bytes position r) :
    t.RecordFrom (t.recordsSpan low high) bytes position.toNat r := by
  obtain ⟨_, ⟨after, before, bounded⟩, complete, decoded⟩ := h
  have order := UInt64.le_of_lt (UInt64.lt_of_le_of_lt after before)
  have start : (t.recordsSpan low high).start.toNat =
      t.indexOffset.toNat + low.toNat * Record.size t.keySize.toNat := by
    rw [fits.toNat_start (UInt64.le_trans order bounded), recordStart, t.size_keySize]
  have stop : (t.recordsSpan low high).stop.toNat =
      t.indexOffset.toNat + high.toNat * Record.size t.keySize.toNat := by
    rw [fits.toNat_stop bounded, recordStart, t.size_keySize]
  refine ⟨low.toNat, high.toNat, UInt64.le_iff_toNat_le.mp after,
    UInt64.lt_iff_toNat_lt.mp before, UInt64.le_iff_toNat_le.mp bounded, start, stop, ?_,
    decoded⟩
  have wide := Nat.mul_le_mul_right (Record.size t.keySize.toNat)
    (UInt64.le_iff_toNat_le.mp order)
  rw [Span.FilledBy, start, stop, complete, Nat.sub_mul]
  omega

namespace Crew

theorem followed_play (source : Source σ) (config : Config) (caller : Nat)
    (events : List Event) (state : σ) :
    let start := (new (Session.new config), state, [])
    Followed config caller (play source.recorded events start)
      (traffic source caller events start) := by
  have fresh : Followed config caller (new (Session.new config), state, []) [] :=
    ⟨fun _ => rfl, nofun, List.Subset.refl _⟩
  intro start
  rw [← List.append_nil (traffic source caller events start)]
  exact fresh.play (Moment.disciplined_new config _) events

/-- Whatever the source answers, in every state that calls can reach: a lookup asks for one
value at most, as the last thing it does. If it comes to a value, that is the value of a
record that has its key and was decoded from a range of the index, all of which the source
had answered, in this call or before it was kept. The value lies before the index and is as
long as the record says. An empty one was not asked for; any other is what the source
answered to the last read of this call. -/
theorem value_of_lookup (source : Source σ) (config : Config) (events : List Event)
    (state : σ) (caller : Nat) (key : Bytes) (stage : Stage) :
    let start := (new (Session.new config), state, [])
    let crew := play source.recorded events start
    let own := traffic source caller events start
    crew.1.calls[caller]? = some ⟨.lookup key, stage⟩ →
      ValueLast own ∧
        ∀ v, stage = .finished (.ok (.ok (.value (some v)))) →
          ∃ t r position span bytes,
            crew.1.session.trailer = some (.ok t) ∧ r.key = key ∧
              t.RecordFrom span bytes position r ∧
              .read .index span (.ok bytes) ∈ crew.2.2 ∧
              (.read .index span (.ok bytes) ∈ own ∨
                crew.1.session.cache.get? span = some bytes) ∧
              r.valueOffset.toNat + r.valueLength.toNat ≤ t.indexOffset.toNat ∧
              v.length = r.valueLength.toNat ∧
              (r.valueLength = 0 → WithoutValue own) ∧
              (r.valueLength ≠ 0 → ∃ place earlier,
                own = .read .value place (.ok v) :: .asked (.read .value place) :: earlier ∧
                  place.start = r.valueOffset ∧
                  place.stop.toNat = r.valueOffset.toNat + r.valueLength.toNat) := by
  intro start crew own hcall
  have followed := followed_play source config caller events state
  have ledger := (ledger_play source config events state).session
  have traced := followed.traced hcall
  refine ⟨traced.valueLast, ?_⟩
  rintro v rfl
  obtain ⟨loaded, load, work, parts, known, ofLoad, traces⟩ := traced
  cases loaded with
  | error error =>
      obtain ⟨_, impossible⟩ := Plan.traces_done traces
      cases impossible
  | ok t =>
      obtain ⟨blobLength, accepted⟩ := ledger.accepted known
      obtain ⟨answer, same, traces⟩ := Plan.traces_map_done traces
      rcases answer with error | value
      · cases same
      · cases same
        obtain ⟨r, fetched, found, rfl, same, ⟨low, high, bytes, position, holds⟩, hfind,
            fetch⟩ :=
          Trailer.traces_lookup accepted.fits traces
        have parts : own = fetched ++ (found ++ load) := parts.trans (List.append_assoc ..)
        have silent : WithoutValue (found ++ load) :=
          withoutValue_append
            (.of_forall (fun _ => id) (hfind.asks (t.find_readsNoValue config key)).2)
            (.of_forall Request.readsValue_of_isOfLoad ofLoad)
        have answered : .read .index (t.recordsSpan low high) (.ok bytes) ∈ own ∨
            crew.1.session.cache.get? (t.recordsSpan low high) = some bytes := by
          refine holds.answered.imp_left fun member => ?_
          rw [parts]
          exact List.mem_append_right _ (List.mem_append_left _ member)
        refine ⟨t, r, position.toNat, t.recordsSpan low high, bytes, known, same,
          holds.recordFrom accepted.fits, ?_, answered, fetch.inside,
          fetch.complete, ?_, ?_⟩
        · rcases answered with heard | kept
          · exact followed.recorded heard
          · exact (ledger.mem_entries (ReadCache.mem_entries_of_get? kept)).2.1
        · intro zero
          rw [parts, fetch.empty zero]
          exact silent
        · intro positive
          obtain ⟨place, start, stop, last⟩ := fetch.read positive
          exact ⟨place, found ++ load, by rw [parts, last]; rfl, start, stop⟩

/-- A source without a blob, which gives one answer after the other. -/
theorem value_of_lookup_of_replies :
    let source : Source (List Bytes) :=
      { ask := fun _ replies => replies
        length := fun replies => (.ok 55, replies)
        read := fun _ _ replies => (.ok (replies.headD []), replies.tail) }
    let replies := [(Trailer.ofCounts 1 1 2).encode, Record.encode ⟨[5], 0, 2⟩, [9, 9]]
    let events := Event.start (.lookup [5]) :: List.replicate 5 (.turn 0)
    (play source.recorded events (new (Session.new {}), replies, [])).1.calls[0]? =
        some ⟨.lookup [5], .finished (.ok (.ok (.value (some [9, 9]))))⟩ ∧
      ∃ (r : Record) (place : Span) (earlier : List Signal),
        r.key = [5] ∧ r.valueLength.toNat = 2 ∧
          traffic source 0 events (new (Session.new {}), replies, []) =
            .read .value place (.ok [9, 9]) :: .asked (.read .value place) :: earlier := by
  intro source replies events
  have queries : (play source.recorded events
      (new (Session.new {}), replies, [])).1.calls.map Call.query = [.lookup [5]] := by
    decide +kernel
  have results : (play source.recorded events
      (new (Session.new {}), replies, [])).1.results =
      [some (.ok (.ok (.value (some [9, 9]))))] := by
    decide +kernel
  obtain ⟨⟨query, stage⟩, calls, rfl⟩ := List.map_eq_singleton_iff.mp queries
  rw [Crew.results, calls] at results
  obtain rfl := Stage.result?_eq_some_iff.mp (List.singleton_injective results)
  have finished := congrArg (·[0]?) calls
  obtain ⟨_, origin⟩ := value_of_lookup source {} events replies 0 [5] _ finished
  obtain ⟨_, r, _, _, _, _, key, _, _, _, _, length, _, read⟩ := origin [9, 9] rfl
  obtain ⟨place, earlier, parts, _⟩ := read fun zero => by
    rw [zero] at length
    cases length
  exact ⟨finished, r, place, earlier, key, length.symm, parts⟩

end Crew

end SortedBlob
