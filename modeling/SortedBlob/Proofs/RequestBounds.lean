import SortedBlob.Builder
import SortedBlob.Proofs.IndexRequests
import SortedBlob.Proofs.SearchCost
import SortedBlob.Proofs.Traffic

/-!
How many requests for ranges of the index a call makes, and after how many of its turns it
ends, whatever the source answers and however the calls interleave. Main statement:
`Crew.requests_of_query`.
-/

namespace SortedBlob

variable {α σ : Type}

/-! A call makes the requests that its plan costs. -/

def Pending.LeavesAtMost (cost : Request → Nat) : Pending α → Nat → Prop
  | .length next, left => ∀ n, (next n).CostsAtMost cost left
  | .read _ _ next, left => ∀ bytes, (next bytes).CostsAtMost cost left

def Progress.LeavesAtMost (cost : Request → Nat) : Progress α → Nat → Prop
  | .pending sent, left => sent.LeavesAtMost cost left
  | .ended _, _ => True

section

variable {source : Source σ} {cost : Request → Nat} {bound : Nat}

theorem Plan.CostsAtMost.proceed {plan : Plan α}
    (h : plan.CostsAtMost Request.indexCost bound) (s : Session) (state : σ)
    (caller : Nat) :
    ∃ left, (plan.indexRequests s.cache caller).length + left ≤ bound ∧
      (plan.proceed source s state).1.LeavesAtMost Request.indexCost left := by
  fun_induction plan.proceed source s state generalizing bound with
  | case1 result s state => exact ⟨0, Nat.zero_le _, trivial⟩
  | case2 next s state => exact ⟨bound, (Nat.zero_add _).le, h.2⟩
  | case3 purpose span next s state bytes cached ih =>
      obtain ⟨rfl, known⟩ := Session.cached?_eq_some cached
      obtain ⟨left, made, leaves⟩ := ih (h.2 bytes)
      refine ⟨left, ?_, leaves⟩
      have first : 1 ≤ bound := h.1
      simp only [indexRequests, known, List.length_cons]
      simp only [Session.countHit, Request.indexCost] at made
      omega
  | case4 purpose span next s state missed =>
      refine ⟨bound - Request.indexCost (.read purpose span), ?_, h.2⟩
      have first := h.1
      cases purpose with
      | index =>
          have missed : s.cache.get? span = none := missed
          simp only [indexRequests, missed, List.length_singleton]
          simp only [Request.indexCost] at first ⊢
          omega
      | trailer => simp [indexRequests]
      | value => simp [indexRequests]

theorem Pending.LeavesAtMost.reply {sent : Pending α} (h : sent.LeavesAtMost cost bound)
    {rest : Plan α} {s s' : Session} {state state' : σ}
    (replied : sent.reply source s state = (.ok rest, s', state')) :
    rest.CostsAtMost cost bound := by
  cases sent with
  | length next =>
      simp only [Pending.reply] at replied
      split at replied <;> cases replied
      exact h _
  | read purpose span next =>
      simp only [Pending.reply] at replied
      split at replied <;> cases replied
      exact h _

end

/-- What a call has left of the requests that its plan may cost. -/
def Stage.Metered (config : Config) (query : Query)
    (trailer : Option (Except FormatError Trailer)) (made : Nat) : Stage → Prop
  | waiting => made = 0
  | loading _ => made = 0
  | working sent => ∃ loaded, trailer = some loaded ∧
      ∀ bound, (query.plan config loaded).CostsAtMost Request.indexCost bound →
        ∃ left, made + left ≤ bound ∧ sent.LeavesAtMost Request.indexCost left
  | finished _ => made = 0 ∨ ∃ loaded, trailer = some loaded ∧
      ∀ bound, (query.plan config loaded).CostsAtMost Request.indexCost bound → made ≤ bound

section

variable {source : Source σ} {config : Config} {query : Query} {s s' : Session}
  {state state' : σ} {made : Nat}

theorem Pending.reply_keeps {sent : Pending α} {result : Reply (Plan α)}
    (h : sent.reply source s state = (result, s', state')) :
    s'.config = s.config ∧ s'.trailer = s.trailer := by
  cases sent with
  | length next =>
      simp only [reply] at h
      split at h <;> cases h <;> exact ⟨rfl, rfl⟩
  | read purpose span next =>
      simp only [reply] at h
      split at h <;> cases h
      · exact ⟨rfl, rfl⟩
      · exact ⟨s.config_receive .., s.trailer_receive ..⟩

theorem Plan.trailer_proceed (source : Source σ) (plan : Plan α) (s : Session) (state : σ) :
    (plan.proceed source s state).2.1.trailer = s.trailer := by
  fun_induction plan.proceed source s state with
  | case1 result s state => rfl
  | case2 next s state => exact s.trailer_count ..
  | case3 purpose span next s state bytes cached ih => exact ih
  | case4 purpose span next s state missed => exact s.trailer_count ..

namespace Stage

theorem Metered.keep {stage : Stage} (h : stage.Metered config query s.trailer made)
    (kept : s.KeptBy s') : stage.Metered config query s'.trailer made := by
  cases stage with
  | waiting => exact h
  | loading sent => exact h
  | working sent =>
      obtain ⟨loaded, known, meters⟩ := h
      exact ⟨loaded, kept.trailer loaded known, meters⟩
  | finished result =>
      refine h.imp_right ?_
      rintro ⟨loaded, known, meters⟩
      exact ⟨loaded, kept.trailer loaded known, meters⟩

/-- However a call ends, it has made no more than its plan may cost. -/
theorem Metered.over {stage : Stage} {trailer : Option (Except FormatError Trailer)}
    (h : stage.Metered config query trailer made) (result : Reply Verdict) :
    (finished result).Metered config query trailer made := by
  cases stage with
  | waiting => exact .inl h
  | loading sent => exact .inl h
  | working sent =>
      obtain ⟨loaded, known, meters⟩ := h
      refine .inr ⟨loaded, known, fun bound costs => ?_⟩
      obtain ⟨left, within, _⟩ := meters bound costs
      omega
  | finished result => exact h

theorem Metered.dropped {stage : Stage} {trailer : Option (Except FormatError Trailer)}
    (h : stage.Metered config query trailer made) :
    stage.dropped.Metered config query trailer made := by
  cases stage <;> exact h.over _

theorem Metered.made_le {stage : Stage} {loaded : Except FormatError Trailer} {bound : Nat}
    (h : stage.Metered config query (some loaded) made)
    (costs : (query.plan config loaded).CostsAtMost Request.indexCost bound) :
    made ≤ bound := by
  cases stage with
  | waiting => exact (Nat.le_zero.mpr h).trans (Nat.zero_le _)
  | loading sent => exact (Nat.le_zero.mpr h).trans (Nat.zero_le _)
  | working sent =>
      obtain ⟨_, same, meters⟩ := h
      cases same
      obtain ⟨left, within, _⟩ := meters bound costs
      omega
  | finished result =>
      rcases h with none | ⟨_, same, enough⟩
      · omega
      · cases same
        exact enough bound costs

theorem Metered.resumes {stage : Stage} {rest : Plan Verdict}
    (h : stage.Metered s.config query s.trailer made)
    (resumes : stage.Resumes source query s state (rest, s', state')) :
    ∃ loaded, s'.trailer = some loaded ∧
      ∀ bound, (query.plan s.config loaded).CostsAtMost Request.indexCost bound →
        ∃ left, made + left ≤ bound ∧ rest.CostsAtMost Request.indexCost left := by
  cases resumes with
  | @enter loaded known =>
      obtain rfl : made = 0 := h
      exact ⟨loaded, known, fun bound costs => ⟨bound, by omega, costs⟩⟩
  | @settle _ loaded _ _ replied =>
      obtain rfl : made = 0 := h
      rw [(Pending.reply_keeps replied).1]
      exact ⟨loaded, rfl, fun bound costs => ⟨bound, by omega, costs⟩⟩
  | work replied =>
      obtain ⟨loaded, known, meters⟩ := h
      refine ⟨loaded, (Pending.reply_keeps replied).2.trans known, fun bound costs => ?_⟩
      obtain ⟨left, within, leaves⟩ := meters bound costs
      exact ⟨left, within, leaves.reply replied⟩

theorem metered_ofWork {place : Progress Verdict × Session × σ}
    {loaded : Except FormatError Trailer} (known : place.2.1.trailer = some loaded)
    (meters : ∀ bound, (query.plan config loaded).CostsAtMost Request.indexCost bound →
      ∃ left, made + left ≤ bound ∧ place.1.LeavesAtMost Request.indexCost left) :
    (ofWork place).1.Metered config query (ofWork place).2.1.trailer made := by
  have enough (bound : Nat)
      (costs : (query.plan config loaded).CostsAtMost Request.indexCost bound) :
      made ≤ bound := by
    obtain ⟨left, within, _⟩ := meters bound costs
    omega
  rcases place with ⟨(interruption | verdict) | sent, s, state⟩
  · exact .inr ⟨loaded, known, enough⟩
  · exact .inr ⟨loaded, (s.trailer_countEnd verdict).trans known, enough⟩
  · exact ⟨loaded, known, meters⟩

theorem metered_ofLoad {rest : Plan (Except FormatError Trailer)} (onward : rest.LoadsOn)
    (s : Session) (state : σ) (trailer : Option (Except FormatError Trailer)) :
    (ofLoad source query (rest.proceed source s state)).1.Metered config query
      trailer 0 := by
  cases onward <;> exact rfl

theorem Metered.idle {stage : Stage} {out : Stage × Session × σ}
    (h : stage.Metered config query s.trailer made)
    (idles : stage.Idles source query s state out) :
    out.1.Metered config query out.2.1.trailer made := by
  cases idles with
  | stay => exact h
  | begin onward =>
      obtain rfl : made = 0 := h
      exact metered_ofLoad onward s state _
  | load replied onward =>
      obtain rfl : made = 0 := h
      exact metered_ofLoad onward _ _ _
  | lose replied =>
      rw [(Pending.reply_keeps replied).2]
      exact h.over _

theorem Metered.turn {stage : Stage} (h : stage.Metered config query s.trailer made)
    (sameConfig : s.config = config) (uses : stage.activity.Uses config query s.trailer)
    (othersLoad : Bool) (state : σ) (caller : Nat) :
    let out := stage.turn source query othersLoad s state
    out.1.Metered config query out.2.1.trailer
      (made + (stage.indexRequests source query s state caller).length) := by
  subst sameConfig
  intro out
  cases hresumed : stage.resumed source query s state with
  | some place =>
      obtain ⟨rest, s', state'⟩ := place
      have resumes := resumes_of_resumed hresumed
      obtain ⟨loaded, known, meters⟩ := h.resumes resumes
      simp only [out, turn_of_resumes resumes, indexRequests, hresumed]
      refine metered_ofWork ((rest.trailer_proceed source s' state').trans known) ?_
      intro bound costs
      obtain ⟨left, within, costs⟩ := meters bound costs
      obtain ⟨later, requested, leaves⟩ := costs.proceed s' state' caller
      exact ⟨later, by omega, leaves⟩
  | none =>
      rw [indexRequests, hresumed]
      exact h.idle (idles_of_resumed uses hresumed othersLoad)

end Stage

end

namespace Crew

variable {source : Source σ} {config : Config} {caller : Nat} {crew : Crew × σ} {made : Nat}

/-- The requests of one caller for ranges of the index, those included
that the cache answers. -/
def requestsBy (source : Source σ) (caller : Nat) (events : List Event) (crew : Crew × σ) :
    Nat :=
  (indexRequests source events crew).countP fun request => request.caller == caller

abbrev Metered (config : Config) (caller : Nat) (crew : Crew × σ) (made : Nat) : Prop :=
  AtCall (fun s call => call.stage.Metered config call.query s.trailer made) (made = 0)
    caller crew

theorem Metered.act (disciplined : (moment crew).Disciplined config)
    (h : Metered config caller crew made) (event : Event) :
    Metered config caller (act source crew event)
      (made + (requestsOf source crew event).countP fun request =>
        request.caller == caller) := by
  cases event with
  | start query => exact AtCall.start h Stage.Metered.keep (fun none _ _ => none) query
  | drop lost => exact AtCall.drop h Stage.Metered.dropped lost
  | turn other =>
      rw [requestsOf]
      cases hcall : crew.1.calls[other]? with
      | none =>
          simp only [Crew.act, turn, hcall]
          exact h
      | some call =>
          have callers := call.stage.caller_of_indexRequests source call.query
            crew.1.session crew.2 other
          by_cases same : other = caller
          · subst same
            rw [List.countP_eq_length.mpr fun request member =>
              beq_iff_eq.mpr (callers request member)]
            exact atCall_turn hcall ((h.called hcall).turn disciplined.sameConfig
              (disciplined.uses (getElem?_moment hcall)) crew.1.isLoading crew.2 other)
          · rw [List.countP_eq_zero.mpr fun request member => by
              simpa [callers request member] using same]
            exact AtCall.turn_other disciplined h Stage.Metered.keep same

theorem Metered.play (disciplined : (moment crew).Disciplined config)
    (h : Metered config caller crew made) (events : List Event) :
    Metered config caller (play source events crew)
      (made + requestsBy source caller events crew) := by
  induction events generalizing crew made with
  | nil => exact h
  | cons event rest ih =>
      rw [requestsBy, indexRequests, List.countP_append, ← Nat.add_assoc]
      exact ih (disciplined_act source disciplined event) (h.act disciplined event)

end Crew

/-! A call whose trailer is known ends after as many of its turns as its plan can
make requests, and one. -/

/-- The call is over once it got so many turns. -/
def Stage.EndsWithin (plan : Plan Verdict) : Stage → Nat → Prop
  | waiting, turns => ∃ left, turns = left + 1 ∧ plan.CostsAtMost (fun _ => 1) left
  | loading _, _ => False
  | working sent, turns => ∃ left, turns = left + 1 ∧ sent.LeavesAtMost (fun _ => 1) left
  | finished _, _ => True

section

variable {source : Source σ} {config : Config} {query : Query} {s : Session} {state : σ}

theorem Plan.CostsAtMost.endsWithin {plan rest : Plan Verdict} {turns : Nat}
    (h : rest.CostsAtMost (fun _ => 1) turns) (s : Session) (state : σ) :
    (Stage.ofWork (rest.proceed source s state)).1.EndsWithin plan turns := by
  fun_induction rest.proceed source s state generalizing turns with
  | case1 result s state => trivial
  | case2 next s state => exact ⟨turns - 1, (Nat.sub_add_cancel h.1).symm, h.2⟩
  | case3 purpose span next s state bytes cached ih =>
    exact ih ((h.2 bytes).mono (Nat.sub_le _ _))
  | case4 purpose span next s state missed =>
    exact ⟨turns - 1, (Nat.sub_add_cancel h.1).symm, h.2⟩

namespace Stage

variable {plan : Plan Verdict} {stage : Stage} {turns : Nat}

theorem EndsWithin.dropped (plan : Plan Verdict) (stage : Stage) (turns : Nat) :
    stage.dropped.EndsWithin plan turns := by
  cases stage <;> trivial

theorem EndsWithin.turn {loaded : Except FormatError Trailer}
    (known : s.trailer = some loaded)
    (h : stage.EndsWithin (query.plan s.config loaded) turns) (othersLoad : Bool)
    (state : σ) :
    (stage.turn source query othersLoad s state).1.EndsWithin (query.plan s.config loaded)
      (turns - 1) := by
  cases stage with
  | waiting =>
      obtain ⟨left, rfl, costs⟩ := h
      simp only [Stage.turn, known]
      exact costs.endsWithin s state
  | loading sent => exact h.elim
  | working sent =>
      obtain ⟨left, rfl, leaves⟩ := h
      rcases hreply : sent.reply source s state with ⟨interruption | rest, s', state'⟩
      · simp only [Stage.turn, sent.resume_eq, hreply]
        trivial
      · simp only [Stage.turn, sent.resume_eq, hreply]
        exact (leaves.reply hreply).endsWithin s' state'
  | finished result => trivial

end Stage

end

namespace Crew

variable {source : Source σ} {config : Config} {caller : Nat} {crew : Crew × σ}
  {turns : Nat} {loaded : Except FormatError Trailer}

/-- The trailer is known, and the call of this caller is over once it got so many turns. -/
def EndsWithin (config : Config) (loaded : Except FormatError Trailer) (caller : Nat)
    (crew : Crew × σ) (turns : Nat) : Prop :=
  AtCall (fun s call => s.trailer = some loaded ∧
    call.stage.EndsWithin (call.query.plan config loaded) turns) False caller crew

theorem EndsWithin.act (source : Source σ) (disciplined : (moment crew).Disciplined config)
    (h : EndsWithin config loaded caller crew turns) (event : Event) :
    EndsWithin config loaded caller (act source crew event)
      (turns - [event].count (.turn caller)) := by
  have keep {s s' : Session} {call : Call}
      (h : s.trailer = some loaded ∧
        call.stage.EndsWithin (call.query.plan config loaded) turns)
      (kept : s.KeptBy s') :
      s'.trailer = some loaded ∧
      call.stage.EndsWithin (call.query.plan config loaded) turns :=
    ⟨kept.trailer loaded h.1, h.2⟩
  cases event with
  | start query => exact AtCall.start h keep (fun impossible _ _ => impossible.elim) query
  | drop lost => exact AtCall.drop h (fun h => ⟨h.1, .dropped ..⟩) lost
  | turn other =>
      by_cases same : other = caller
      · subst same
        rw [List.count_singleton_self]
        cases hcall : crew.1.calls[other]? with
        | none => exact (h.absent hcall).elim
        | some call =>
            obtain ⟨known, ends⟩ := h.called hcall
            have kept := turn_keptBy source disciplined other
            rw [turn_of_some source hcall] at kept
            refine atCall_turn hcall ⟨kept.trailer loaded known, ?_⟩
            have sameConfig : crew.1.session.config = config := disciplined.sameConfig
            subst sameConfig
            exact ends.turn known crew.1.isLoading crew.2
      · rw [List.count_eq_zero_of_not_mem (by simpa using Ne.symm same)]
        exact AtCall.turn_other disciplined h keep same

theorem EndsWithin.play (source : Source σ) (disciplined : (moment crew).Disciplined config)
    (h : EndsWithin config loaded caller crew turns) (events : List Event) :
    EndsWithin config loaded caller (play source events crew)
      (turns - events.count (.turn caller)) := by
  induction events generalizing crew turns with
  | nil => exact h
  | cons event rest ih =>
      have later := ih (disciplined_act source disciplined event)
        (h.act source disciplined event)
      rwa [Nat.sub_sub, ← List.count_append, List.singleton_append] at later

/-- What a call has come to, it can have come to by its plan. -/
theorem endsWithin_of_costs (disciplined : (moment crew).Disciplined config) {call : Call}
    (hcall : crew.1.calls[caller]? = some call)
    (known : crew.1.session.trailer = some loaded)
    (costs : (call.query.plan config loaded).CostsAtMost (fun _ => 1) turns) :
    EndsWithin config loaded caller crew (turns + 1) := by
  refine ⟨fun none => ?_, fun other => ?_⟩
  · rw [hcall] at none
    cases none
  · rw [hcall] at other
    cases other
    refine ⟨known, ?_⟩
    have uses := disciplined.uses (getElem?_moment hcall)
    obtain ⟨query, stage⟩ := call
    cases stage with
    | waiting => exact ⟨turns, rfl, costs⟩
    | loading sent =>
        have unknown : crew.1.session.trailer = none := uses.1
        rw [known] at unknown
        cases unknown
    | working sent =>
        obtain ⟨settled, same, origin⟩ := uses
        cases known.symm.trans same
        refine ⟨turns, rfl, ?_⟩
        have rest := costs.leads origin
        cases sent with
        | length next => exact fun n => (rest.2 n).mono (Nat.sub_le _ _)
        | read purpose span next => exact fun bytes => (rest.2 bytes).mono (Nat.sub_le _ _)
    | finished result => trivial

theorem EndsWithin.isOver (h : EndsWithin config loaded caller crew 0) :
    ∃ reply, crew.1.results[caller]? = some (some reply) := by
  cases hcall : crew.1.calls[caller]? with
  | none => exact (h.absent hcall).elim
  | some call =>
      obtain ⟨_, ends⟩ := h.called hcall
      obtain ⟨query, stage⟩ := call
      cases stage with
      | finished reply => exact ⟨reply, by simp [results, hcall, Stage.result?]⟩
      | loading sent => exact ends.elim
      | waiting =>
          obtain ⟨left, impossible, _⟩ := ends
          cases impossible
      | working sent =>
          obtain ⟨left, impossible, _⟩ := ends
          cases impossible

/-- Whatever the source answers, whatever the cache holds and however the calls interleave,
a call that goes by a trailer makes no request for a range of the index if there are no
entries, and at most one for each halving that leaves some, and one. Each request counts,
whether the cache or the source answers it. If the threshold lets several records be read at
once, the halvings that narrow the index down to it and one more request suffice. The call
ends after as many turns. -/
theorem requests_of_query (source : Source σ) (s : Session) (events : List Event)
    (state : σ) (caller : Nat) (call : Call) (t : Trailer) :
    let start := (new s, state)
    let crew := play source events start
    let made := requestsBy source caller events start
    let n := t.entryCount.toNat
    crew.1.calls[caller]? = some call → crew.1.session.trailer = some (.ok t) →
      (n = 0 → made = 0) ∧ (1 ≤ n → made ≤ Nat.log2 n + 1) ∧
        (2 ≤ s.config.scanThreshold →
          ∀ k, n / 2 ^ k ≤ s.config.scanThreshold.toNat → made ≤ 1 + k) ∧
        ∀ later, Nat.log2 n + 3 ≤ later.count (.turn caller) →
          ∃ reply, (play source later crew).1.results[caller]? = some (some reply) := by
  intro start crew made n hcall known
  have fresh : (moment start).Disciplined s.config := ⟨rfl, nofun, nofun⟩
  have disciplined : (moment crew).Disciplined s.config :=
    play_disciplined source fresh events
  have metered : Metered s.config caller crew (0 + made) :=
    Metered.play fresh ⟨fun _ => rfl, nofun⟩ events
  rw [Nat.zero_add] at metered
  have within {Suffices : Nat → Nat → Prop}
      (halves : HalvesTo s.config.scanThreshold Suffices) {bound : Nat}
      (enough : Suffices n bound) : made ≤ bound := by
    have costs : (call.query.plan s.config (.ok t)).CostsAtMost Request.indexCost
        (bound + 0) :=
      call.query.plan_costsAtMost s.config (fun _ => Nat.le_refl 1)
        (fun _ => Nat.le_refl 0) halves enough
    have meters := metered.called hcall
    rw [known] at meters
    exact meters.made_le costs
  refine ⟨fun empty => ?_, fun _ => ?_, fun several k small => ?_, fun later enough => ?_⟩
  · exact Nat.le_zero.mp (within (halvesTo_powers _) (by simp [empty]))
  · exact within (halvesTo_powers _) Nat.lt_log2_self
  · exact within (halvesTo_threshold (UInt64.le_iff_toNat_le.mp several))
      (.inr ⟨k, rfl, small⟩)
  · have costs : (call.query.plan s.config (.ok t)).CostsAtMost (fun _ => 1)
        (Nat.log2 n + 1 + 1) :=
      call.query.plan_costsAtMost s.config (fun _ => Nat.le_refl 1) (fun _ => Nat.le_refl 1)
        (halvesTo_powers _) Nat.lt_log2_self
    have ends := (endsWithin_of_costs disciplined hcall known costs).play source
      disciplined later
    rw [Nat.sub_eq_zero_of_le enough] at ends
    exact ends.isOver

/-- A call in the middle of an index of three, which at most two records are left of. -/
theorem requests_of_query_of_three :
    let source :=
  (Store.ofBytes (Builder.mk 1 [([5], [9, 9]), ([7], [8]), ([9], [])]).blob).source
    let start := (new (Session.new { scanThreshold := 2 }), ())
    let events := Event.start (.find [5]) :: List.replicate 4 (.turn 0)
    let crew := play source events start
    (∃ call, crew.1.calls[0]? = some call) ∧
      crew.1.session.trailer = some (.ok (Trailer.ofCounts 1 3 3)) ∧
      requestsBy source 0 events start ≤ 2 ∧
      ∃ reply, (play source (List.replicate 4 (.turn 0)) crew).1.results[0]? =
        some (some reply) := by
  intro source start events crew
  have known : crew.1.session.trailer = some (.ok (Trailer.ofCounts 1 3 3)) := by
    decide +kernel
  obtain ⟨call, hcall⟩ : ∃ call, crew.1.calls[0]? = some call :=
    Option.isSome_iff_exists.mp (by decide +kernel)
  have turns : Nat.log2 (Trailer.ofCounts 1 3 3).entryCount.toNat + 3 ≤
      (List.replicate 4 (Event.turn 0)).count (.turn 0) := by
    decide +kernel
  -- From here on the run is not to be computed.
  clear_value source events
  obtain ⟨_, _, few, ends⟩ :=
    requests_of_query source (Session.new { scanThreshold := 2 }) events ()
    0 call (Trailer.ofCounts 1 3 3) hcall known
  exact ⟨⟨call, hcall⟩, known, few (by decide) 1 (by decide), ends _ turns⟩

end Crew

end SortedBlob
