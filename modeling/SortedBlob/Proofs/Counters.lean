import SortedBlob.Proofs.IndexRequests
import SortedBlob.Proofs.Interleaving
import SortedBlob.Proofs.Traffic

/-!
The counters of a session against the record of its source and against the requests for
ranges of the index that its calls make (`Crew.indexRequests`), whatever the source answers
and however the calls interleave. Main statement: `Crew.counters_of_play`.
-/

namespace SortedBlob

variable {α β σ : Type}

/-! What was counted and what the source was asked and answered. -/

namespace Signal

def asksRead : Signal → Bool
  | .asked (.read _ _) => true
  | _ => false

/-- How many bytes came. -/
def received : Signal → Nat
  | .read _ _ (.ok bytes) => bytes.length
  | _ => 0

def bringsTrailer : Signal → Bool
  | .read .trailer _ (.ok _) => true
  | _ => false

/-- The range of the index that the source is asked for. -/
def indexAsked? : Signal → Option Span
  | .asked (.read .index span) => some span
  | _ => none

end Signal

/-- The counters that only depend on what passed between a session and its source. -/
structure Session.Counts (s : Session) (log : List Signal) : Prop where
  lengthCalls : s.stats.lengthCalls = log.countP Signal.asksLength
  rangeReads : s.stats.rangeReads = log.countP Signal.asksRead
  bytesRead : s.stats.bytesRead = UInt64.ofNat (log.map Signal.received).sum
  trailerLoads : s.stats.trailerLoads = log.countP Signal.bringsTrailer

namespace Session

variable {s : Session} {log : List Signal}

theorem Counts.start (h : s.Counts log) (query : Query) :
    (s.countStart query).Counts log := by
  obtain ⟨lengthCalls, rangeReads, bytesRead, trailerLoads⟩ := h
  unfold countStart
  split <;> exact ⟨lengthCalls, rangeReads, bytesRead, trailerLoads⟩

theorem Counts.finish (h : s.Counts log) (verdict : Verdict) :
    (s.countEnd verdict).Counts log := by
  obtain ⟨lengthCalls, rangeReads, bytesRead, trailerLoads⟩ := h
  unfold countEnd
  split <;> exact ⟨lengthCalls, rangeReads, bytesRead, trailerLoads⟩

theorem Counts.ask (h : s.Counts log) (request : Request) :
    (s.count request).Counts (.asked request :: log) := by
  obtain ⟨lengthCalls, rangeReads, bytesRead, trailerLoads⟩ := h
  cases request with
  | length =>
      exact ⟨(congrArg (· + 1) lengthCalls).trans (List.countP_cons_of_pos rfl).symm,
        rangeReads, bytesRead.trans (by simp [Signal.received]), trailerLoads⟩
  | read purpose span =>
      exact ⟨lengthCalls,
        (congrArg (· + 1) rangeReads).trans (List.countP_cons_of_pos rfl).symm,
        bytesRead.trans (by simp [Signal.received]), trailerLoads⟩

/-- A reply without bytes is not counted. -/
theorem Counts.hear (h : s.Counts log) {signal : Signal} (notAsked : signal.asked? = none)
    (empty : signal.received = 0) (notTrailer : signal.bringsTrailer = false) :
    s.Counts (signal :: log) := by
  obtain ⟨lengthCalls, rangeReads, bytesRead, trailerLoads⟩ := h
  have silent : signal.asksLength = false ∧ signal.asksRead = false := by
    cases signal with
    | asked request => cases notAsked
    | _ => exact ⟨rfl, rfl⟩
  refine ⟨?_, ?_, ?_, ?_⟩
  · rw [lengthCalls, List.countP_cons_of_neg (by simp [silent.1])]
  · rw [rangeReads, List.countP_cons_of_neg (by simp [silent.2])]
  · rw [bytesRead, List.map_cons, List.sum_cons, empty, Nat.zero_add]
  · rw [trailerLoads, List.countP_cons_of_neg (by simp [notTrailer])]

theorem Counts.receive (h : s.Counts log) (purpose : Purpose) (span : Span)
    (bytes : Bytes) :
    (s.receive purpose span bytes).Counts (.read purpose span (.ok bytes) :: log) := by
  obtain ⟨lengthCalls, rangeReads, bytesRead, trailerLoads⟩ := h
  have more : s.stats.bytesRead + UInt64.ofNat bytes.length =
      UInt64.ofNat (bytes.length + (log.map Signal.received).sum) := by
    rw [bytesRead, UInt64.ofNat_add, UInt64.add_comm]
  cases purpose with
  | trailer =>
      exact ⟨lengthCalls, rangeReads, more,
        (congrArg (· + 1) trailerLoads).trans (List.countP_cons_of_pos rfl).symm⟩
  | index => exact ⟨lengthCalls, rangeReads, more, trailerLoads⟩
  | value => exact ⟨lengthCalls, rangeReads, more, trailerLoads⟩

end Session

section

variable {source : Source σ} {s s' : Session} {state state' : σ × List Signal}

theorem Course.Step.counts {course course' : Course α}
    (h : Step source.recorded (course, s, state) (course', s', state'))
    (counts : s.Counts state.2) : s'.Counts state'.2 := by
  cases h with
  | done => exact counts
  | askLength => exact counts.ask .length
  | hit cached => exact ⟨counts.1, counts.2, counts.3, counts.4⟩
  | askRead missed => exact counts.ask (.read _ _)
  | length reply =>
      rw [Source.log_of_recorded_length reply]
      exact counts.hear rfl rfl rfl
  | read reply =>
      rw [Source.log_of_recorded_read reply]
      exact counts.receive ..
  | lengthFailed reply =>
      rw [Source.log_of_recorded_length reply]
      exact counts.hear rfl rfl rfl
  | @readFailed purpose _ _ _ _ _ _ reply =>
      rw [Source.log_of_recorded_read reply]
      refine counts.hear rfl rfl ?_
      cases purpose <;> rfl

theorem Activity.Step.counts {query : Query} {activity activity' : Activity}
    (h : Step source.recorded query (activity, s, state) (activity', s', state'))
    (counts : s.Counts state.2) : s'.Counts state'.2 := by
  cases h with
  | load h => exact h.counts counts
  | settle => exact ⟨counts.1, counts.2, counts.3, counts.4⟩
  | work h => exact h.counts counts
  | answer => exact counts.finish _
  | _ => exact counts

theorem Moment.Step.counts {m m' : Moment (σ × List Signal)} (h : Step source.recorded m m')
    (counts : m.session.Counts m.state.2) : m'.session.Counts m'.state.2 := by
  cases h with
  | begin party empty free => exact counts
  | call party h => exact h.counts counts

end

/-! How the requests for ranges of the index show: in the hits that are
counted, and in the record. -/

structure Session.Handles (s : Session) (log : List Signal) (requests : List IndexRequest)
    (s' : Session) (log' : List Signal) : Prop where
  hits : s'.stats.cacheHits = s.stats.cacheHits + requests.countP fun request =>
    !request.sent
  asked : log'.reverse.filterMap Signal.indexAsked? =
    log.reverse.filterMap Signal.indexAsked? ++
      (requests.filter IndexRequest.sent).map IndexRequest.span

namespace Session

variable {s s' s'' : Session} {log log' log'' : List Signal}
  {requests later : List IndexRequest}

theorem handles_nil (hits : s'.stats.cacheHits = s.stats.cacheHits)
    (asked : log'.filterMap Signal.indexAsked? = log.filterMap Signal.indexAsked?) :
    s.Handles log [] s' log' :=
  ⟨hits, by simp [List.filterMap_reverse, asked]⟩

theorem handles_refl (s : Session) (log : List Signal) : s.Handles log [] s log :=
  handles_nil rfl rfl

theorem Handles.trans (first : s.Handles log requests s' log')
    (second : s'.Handles log' later s'' log'') :
    s.Handles log (requests ++ later) s'' log'' := by
  refine ⟨?_, ?_⟩
  · rw [second.hits, first.hits, List.countP_append, Nat.add_assoc]
  · rw [second.asked, first.asked, List.filter_append, List.map_append, List.append_assoc]

theorem handles_finish (s : Session) (log : List Signal) (verdict : Verdict) :
    s.Handles log [] (s.countEnd verdict) log := by
  refine handles_nil ?_ rfl
  unfold countEnd
  split <;> rfl

end Session

section

variable {source : Source σ} {query : Query} {s s' : Session}
  {state state' : σ × List Signal}

theorem Plan.proceed_handles (source : Source σ) (plan : Plan α) (s : Session)
    (state : σ × List Signal) (caller : Nat) :
    let out := plan.proceed source.recorded s state
    s.Handles state.2 (plan.indexRequests s.cache caller) out.2.1 out.2.2.2 := by
  fun_induction plan.proceed source.recorded s state with
  | case1 result s state => exact s.handles_refl _
  | case2 next s state => exact Session.handles_nil rfl rfl
  | case3 purpose span next s state bytes cached ih =>
      obtain ⟨rfl, known⟩ := Session.cached?_eq_some cached
      have hit : s.Handles state.2 [⟨caller, span, false⟩] s.countHit state.2 :=
        ⟨rfl, by simp⟩
      rw [indexRequests, known]
      exact hit.trans ih
  | case4 purpose span next s state missed =>
      cases purpose with
      | index =>
          rw [indexRequests, show s.cache.get? span = none from missed]
          exact ⟨rfl, by simp [Source.recorded, Signal.indexAsked?]⟩
      | trailer => exact Session.handles_nil rfl rfl
      | value => exact Session.handles_nil rfl rfl

theorem Pending.reply_handles {sent : Pending α} {result : Reply (Plan α)}
    (h : sent.reply source.recorded s state = (result, s', state')) :
    s.Handles state.2 [] s' state'.2 := by
  cases sent with
  | length next =>
      rcases hreply : source.recorded.length state with ⟨interruption | n, later⟩ <;>
        simp only [reply, hreply, Prod.mk.injEq] at h <;> obtain ⟨_, rfl, rfl⟩ := h <;>
        rw [Source.log_of_recorded_length hreply] <;> exact Session.handles_nil rfl rfl
  | read purpose span next =>
      rcases hreply : source.recorded.read purpose span state with
        ⟨interruption | bytes, later⟩ <;>
        simp only [reply, hreply, Prod.mk.injEq] at h <;> obtain ⟨_, rfl, rfl⟩ := h <;>
        rw [Source.log_of_recorded_read hreply]
      · exact Session.handles_nil rfl rfl
      · refine Session.handles_nil ?_ rfl
        cases purpose <;> rfl

theorem Stage.ofWork_handles {place : Progress Verdict × Session × σ × List Signal}
    {requests : List IndexRequest}
    (h : s.Handles state.2 requests place.2.1 place.2.2.2) :
    s.Handles state.2 requests (ofWork place).2.1 (ofWork place).2.2.2 := by
  rcases place with ⟨(interruption | verdict) | sent, s', state'⟩
  · exact h
  · have finished := h.trans (s'.handles_finish state'.2 verdict)
    rwa [List.append_nil] at finished
  · exact h

theorem Stage.Resumes.handles {stage : Stage}
    {place : Plan Verdict × Session × σ × List Signal}
    (h : stage.Resumes source.recorded query s state place) :
    s.Handles state.2 [] place.2.1 place.2.2.2 := by
  cases h with
  | enter known => exact s.handles_refl _
  | settle replied =>
      have handles := Pending.reply_handles replied
      exact ⟨handles.hits, handles.asked⟩
  | work replied => exact Pending.reply_handles replied

theorem Stage.ofLoad_handles {rest : Plan (Except FormatError Trailer)}
    (onward : rest.LoadsOn) (s : Session) (state : σ × List Signal) :
    let out := ofLoad source.recorded query (rest.proceed source.recorded s state)
    s.Handles state.2 [] out.2.1 out.2.2.2 := by
  cases onward <;> exact Session.handles_nil rfl rfl

theorem Stage.Idles.handles {stage : Stage} {out : Stage × Session × σ × List Signal}
    (h : stage.Idles source.recorded query s state out) :
    s.Handles state.2 [] out.2.1 out.2.2.2 := by
  cases h with
  | stay => exact s.handles_refl _
  | begin onward => exact ofLoad_handles onward s state
  | load replied onward =>
    exact (Pending.reply_handles replied).trans (ofLoad_handles onward _ _)
  | lose replied => exact Pending.reply_handles replied

theorem Stage.turn_handles {config : Config} {stage : Stage}
    (sameConfig : s.config = config) (uses : stage.activity.Uses config query s.trailer)
    (othersLoad : Bool) (state : σ × List Signal) (caller : Nat) :
    let out := stage.turn source.recorded query othersLoad s state
    s.Handles state.2 (stage.indexRequests source.recorded query s state caller)
      out.2.1 out.2.2.2 := by
  subst sameConfig
  intro out
  cases hresumed : stage.resumed source.recorded query s state with
  | some place =>
      obtain ⟨rest, s', state'⟩ := place
      have resumes := resumes_of_resumed hresumed
      have handles := resumes.handles.trans (rest.proceed_handles source s' state' caller)
      simp only [out, turn_of_resumes resumes, indexRequests, hresumed]
      exact ofWork_handles handles
  | none =>
      rw [indexRequests, hresumed]
      exact (idles_of_resumed uses hresumed othersLoad).handles

end

namespace Crew

variable {source : Source σ} {config : Config} {crew : Crew × σ × List Signal}

theorem handles_act (disciplined : (moment crew).Disciplined config) (event : Event) :
    let next := act source.recorded crew event
    crew.1.session.Handles crew.2.2 (requestsOf source.recorded crew event) next.1.session
      next.2.2 := by
  cases event with
  | start query =>
      refine Session.handles_nil ?_ rfl
      simp only [act, start, Session.countStart]
      split <;> rfl
  | drop caller => exact crew.1.session.handles_refl _
  | turn caller =>
      simp only [act, requestsOf]
      cases hcall : crew.1.calls[caller]? with
      | none =>
          simp only [turn, hcall]
          exact crew.1.session.handles_refl _
      | some call =>
          rw [turn_of_some source.recorded hcall]
          exact Stage.turn_handles disciplined.sameConfig
            (disciplined.uses (getElem?_moment hcall))
            crew.1.isLoading crew.2 caller

theorem handles_play (disciplined : (moment crew).Disciplined config)
    (events : List Event) :
    let last := play source.recorded events crew
    crew.1.session.Handles crew.2.2 (indexRequests source.recorded events crew)
      last.1.session last.2.2 := by
  induction events generalizing crew with
  | nil => exact crew.1.session.handles_refl _
  | cons event rest ih =>
      exact (handles_act disciplined event).trans
        (ih (disciplined_act source.recorded disciplined event))

end Crew

/-! Only a lookup can find a value. -/

theorem Plan.leads_map {f : α → β} {plan : Plan α} {rest : Plan β}
    (h : (plan.map f).Leads rest) :
    ∃ before, plan.Leads before ∧ rest = before.map f := by
  induction h with
  | refl => exact ⟨plan, .refl, rfl⟩
  | length n _ ih =>
      obtain ⟨before, origin, same⟩ := ih
      cases before with
      | length next =>
          cases same
          exact ⟨next n, origin.length n, rfl⟩
      | _ => cases same
  | read bytes _ ih =>
      obtain ⟨before, origin, same⟩ := ih
      cases before with
      | read purpose span next =>
          cases same
          exact ⟨next bytes, origin.read bytes, rfl⟩
      | _ => cases same

theorem Query.isLookup_of_isFound {query : Query} {config : Config}
    {loaded : Except FormatError Trailer} {verdict : Verdict}
    (origin : (query.plan config loaded).Leads (.done verdict))
    (found : verdict.isFound = true) :
    query.isLookup = true := by
  cases loaded with
  | error error =>
      cases Plan.leads_done origin
      cases found
  | ok t =>
      cases query with
      | lookup key => rfl
      | trailer =>
          cases Plan.leads_done origin
          cases found
      | find key =>
          obtain ⟨before, _, same⟩ := Plan.leads_map origin
          cases before with
          | done answer =>
              cases same
              rcases answer with error | record <;> cases found
          | _ => cases same

/-- A lookup that came to a value. -/
def Call.found (call : Call) : Bool :=
  match call.stage with
  | .finished (.ok (.ok (.value (some _)))) => call.query.isLookup
  | _ => false

theorem Call.found_eq {config : Config} {trailer : Option (Except FormatError Trailer)}
    {call : Call} (uses : call.stage.activity.Uses config call.query trailer) :
    call.found = call.stage.activity.isFound := by
  obtain ⟨query, stage⟩ := call
  rcases stage with _ | sent | sent | interruption | error | answer
  case finished.ok.ok =>
    obtain ⟨loaded, _, origin⟩ := uses
    rcases answer with t | record | _ | value
    case value.some => exact Query.isLookup_of_isFound origin rfl
    all_goals rfl
  all_goals rfl

namespace Crew

/-- Whatever the source answers, in every state that calls can reach: the session has
counted the requests for the length and for ranges of bytes that the source received, the
bytes that came back (as a word), the trailers among them, the requests for ranges of the
index that were not sent to the source, the lookups that were started and those that came to
a value. The requests for ranges of the index that were sent are, in this order, those that
the source received. -/
theorem counters_of_play (source : Source σ) (config : Config) (events : List Event)
    (state : σ) :
    let start := (new (Session.new config), state, [])
    let crew := play source.recorded events start
    let stats := crew.1.session.stats
    let log := crew.2.2
    let requests := indexRequests source.recorded events start
    stats.lengthCalls = log.countP Signal.asksLength ∧
      stats.rangeReads = log.countP Signal.asksRead ∧
      stats.bytesRead.toNat = (log.map Signal.received).sum % 2 ^ 64 ∧
      stats.trailerLoads = log.countP Signal.bringsTrailer ∧
      stats.cacheHits = (requests.countP fun request => !request.sent) ∧
      (requests.filter IndexRequest.sent).map IndexRequest.span =
        log.reverse.filterMap Signal.indexAsked? ∧
      stats.lookups = (events.filterMap Event.query?).countP Query.isLookup ∧
      stats.found = crew.1.calls.countP Call.found ∧
      stats.found ≤ stats.lookups := by
  intro start crew stats log requests
  have fresh := Moment.disciplined_new config (state, ([] : List Signal))
  have disciplined : (moment crew).Disciplined config :=
    play_disciplined source.recorded fresh events
  have counts : crew.1.session.Counts log :=
    play_keeps (fun m : Moment (σ × List Signal) => m.session.Counts m.state.2)
      (fun query h => h.start query) (fun h step => step.counts h)
      (fun _ _ _ _ _ _ h _ => h) ⟨rfl, rfl, rfl, rfl⟩
  have tallied : (moment crew).Tallied :=
    play_keeps Moment.Tallied (fun query h => h.start query) (fun h step => step.tallied h)
      (fun _ _ _ _ _ _ h party => h.drop party) ⟨rfl, rfl⟩
  have handles : start.1.session.Handles [] requests crew.1.session log :=
    handles_play fresh events
  have lookups : stats.lookups = (events.filterMap Event.query?).countP Query.isLookup :=
    tallied.lookups.trans
      (congrArg (List.countP Query.isLookup) (queries_play source.recorded events start))
  have found : stats.found = crew.1.calls.countP Call.found := by
    refine tallied.found.trans ((List.countP_map ..).trans (List.countP_congr ?_))
    intro call member
    obtain ⟨caller, hcall⟩ := List.getElem?_of_mem member
    rw [Call.found_eq (disciplined.uses (getElem?_moment hcall))]
    rfl
  have below : crew.1.calls.countP Call.found ≤ crew.1.calls.countP fun call =>
      call.query.isLookup := by
    refine List.countP_mono_left fun call _ found => ?_
    unfold Call.found at found
    split at found
    · exact found
    · cases found
  refine ⟨counts.lengthCalls, counts.rangeReads, ?_, counts.trailerLoads, ?_, ?_, lookups,
    found, ?_⟩
  · exact (congrArg UInt64.toNat counts.bytesRead).trans (UInt64.toNat_ofNat' ..)
  · exact handles.hits.trans (Nat.zero_add _)
  · exact handles.asked.symm
  · rw [found]
    have started := tallied.lookups
    rw [queries_moment, List.countP_map] at started
    exact below.trans started.ge

end Crew

end SortedBlob
