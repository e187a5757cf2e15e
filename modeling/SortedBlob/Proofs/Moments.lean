import Mathlib.Logic.Relation
import SortedBlob.Crew

/-!
The elementary steps that calls are made of. A turn of a call and a query that is
asked on its own are sequences of such steps, so whatever each of them keeps is kept
by every run: `Crew.play_keeps` for calls that interleave and `Session.askAll_keeps`
for queries one after the other.
-/

namespace SortedBlob

open Relation

variable {α σ : Type}

/-! How far a plan was followed. -/

inductive Course (α : Type) where
  | running (rest : Plan α)
  | pending (sent : Pending α)
  | ended (result : Reply α)

/-- The plan whose first request was sent. -/
def Pending.plan : Pending α → Plan α
  | .length next => .length next
  | .read purpose span next => .read purpose span next

def Progress.course : Progress α → Course α
  | .ended result => .ended result
  | .pending sent => .pending sent

inductive Course.Step (source : Source σ) :
    Course α × Session × σ → Course α × Session × σ → Prop
  | done {result : α} {s : Session} {state : σ} :
      Step source (.running (.done result), s, state) (.ended (.ok result), s, state)
  | askLength {next : UInt64 → Plan α} {s : Session} {state : σ} :
      Step source (.running (.length next), s, state)
        (.pending (.length next), s.count .length, source.ask .length state)
  | hit {purpose : Purpose} {span : Span} {next : Bytes → Plan α} {bytes : Bytes}
      {s : Session} {state : σ} (cached : s.cached? purpose span = some bytes) :
      Step source (.running (.read purpose span next), s, state)
        (.running (next bytes), s.countHit, state)
  | askRead {purpose : Purpose} {span : Span} {next : Bytes → Plan α} {s : Session}
      {state : σ} (missed : s.cached? purpose span = none) :
      Step source (.running (.read purpose span next), s, state)
        (.pending (.read purpose span next), s.count (.read purpose span),
          source.ask (.read purpose span) state)
  | length {next : UInt64 → Plan α} {n : UInt64} {s : Session} {state state' : σ}
      (reply : source.length state = (.ok n, state')) :
      Step source (.pending (.length next), s, state) (.running (next n), s, state')
  | read {purpose : Purpose} {span : Span} {next : Bytes → Plan α} {bytes : Bytes}
      {s : Session} {state state' : σ}
      (reply : source.read purpose span state = (.ok bytes, state')) :
      Step source (.pending (.read purpose span next), s, state)
        (.running (next bytes), s.receive purpose span bytes, state')
  | lengthFailed {next : UInt64 → Plan α} {interruption : Interruption} {s : Session}
      {state state' : σ} (reply : source.length state = (.error interruption, state')) :
      Step source (.pending (.length next), s, state) (.ended (.error interruption),
        s, state')
  | readFailed {purpose : Purpose} {span : Span} {next : Bytes → Plan α}
      {interruption : Interruption} {s : Session} {state state' : σ}
      (reply : source.read purpose span state = (.error interruption, state')) :
      Step source (.pending (.read purpose span next), s, state)
        (.ended (.error interruption), s, state')

theorem Plan.proceed_steps (source : Source σ) (plan : Plan α) (s : Session) (state : σ) :
    let out := plan.proceed source s state
    TransGen (Course.Step source) (.running plan, s, state) (out.1.course, out.2) := by
  fun_induction plan.proceed source s state with
  | case1 result s state => exact .single .done
  | case2 next s state => exact .single .askLength
  | case3 purpose span next s state bytes cached ih => exact .head (.hit cached) ih
  | case4 purpose span next s state missed => exact .single (.askRead missed)

theorem Pending.resume_steps (source : Source σ) (pending : Pending α) (s : Session)
    (state : σ) :
    let out := pending.resume source s state
    TransGen (Course.Step source) (.pending pending, s, state) (out.1.course, out.2) := by
  cases pending with
  | length next =>
      rcases hreply : source.length state with ⟨interruption | n, state'⟩
      · simp only [resume, hreply]
        exact .single (.lengthFailed hreply)
      · simp only [resume, hreply]
        exact .head (.length hreply) ((next n).proceed_steps source s state')
  | read purpose span next =>
      rcases hreply : source.read purpose span state with ⟨interruption | bytes, state'⟩
      · simp only [resume, hreply]
        exact .single (.readFailed hreply)
      · simp only [resume, hreply]
        exact .head (.read hreply) ((next bytes).proceed_steps source _ state')

theorem Plan.run_steps (source : Source σ) (plan : Plan α) (s : Session) (state : σ) :
    let out := plan.run source s state
    TransGen (Course.Step source) (.running plan, s, state) (.ended out.1, out.2) := by
  fun_induction plan.run source s state with
  | case1 result s state => exact .single .done
  | case2 next s state interruption state' reply =>
      exact .head .askLength (.single (.lengthFailed reply))
  | case3 next s state n state' reply ih =>
    exact .head .askLength (.head (.length reply) ih)
  | case4 purpose span next s state bytes cached ih => exact .head (.hit cached) ih
  | case5 purpose span next s state missed interruption state' reply =>
      exact .head (.askRead missed) (.single (.readFailed reply))
  | case6 purpose span next s state missed bytes state' reply ih =>
      exact .head (.askRead missed) (.head (.read reply) ih)

/-! What a call does: it is a stage in which a plan may also be between two requests. -/

inductive Activity where
  | waiting
  | loading (course : Course (Except FormatError Trailer))
  | working (course : Course Verdict)
  | finished (result : Reply Verdict)

namespace Activity

def isLoading : Activity → Bool
  | loading _ => true
  | _ => false

/-- The steps of a call by itself; to begin a load it has to know what the others do. -/
inductive Step (source : Source σ) (query : Query) :
    Activity × Session × σ → Activity × Session × σ → Prop
  | enter {loaded : Except FormatError Trailer} {s : Session} {state : σ}
      (known : s.trailer = some loaded) :
      Step source query (.waiting, s, state)
        (.working (.running (query.plan s.config loaded)), s, state)
  | load {course course' : Course (Except FormatError Trailer)} {s s' : Session}
      {state state' : σ} (h : Course.Step source (course, s, state) (course', s', state')) :
      Step source query (.loading course, s, state) (.loading course', s', state')
  | settle {loaded : Except FormatError Trailer} {s : Session} {state : σ} :
      Step source query (.loading (.ended (.ok loaded)), s, state)
        (.working (.running (query.plan s.config loaded)), s.settle loaded, state)
  | giveUp {interruption : Interruption} {s : Session} {state : σ} :
      Step source query (.loading (.ended (.error interruption)), s, state)
        (.finished (.error interruption), s, state)
  | work {course course' : Course Verdict} {s s' : Session} {state state' : σ}
      (h : Course.Step source (course, s, state) (course', s', state')) :
      Step source query (.working course, s, state) (.working course', s', state')
  | answer {verdict : Verdict} {s : Session} {state : σ} :
      Step source query (.working (.ended (.ok verdict)), s, state)
        (.finished (.ok verdict), s.countEnd verdict, state)
  | fail {interruption : Interruption} {s : Session} {state : σ} :
      Step source query (.working (.ended (.error interruption)), s, state)
        (.finished (.error interruption), s, state)

/-! The steps of a course are steps of the call that follows it. -/

theorem loading_steps {source : Source σ} (query : Query)
    {place place' : Course (Except FormatError Trailer) × Session × σ}
    (h : TransGen (Course.Step source) place place') :
    TransGen (Step source query) (.loading place.1, place.2) (.loading place'.1,
      place'.2) := by
  induction h with
  | single step => exact .single (.load step)
  | tail _ step ih => exact ih.tail (.load step)

theorem working_steps {source : Source σ} (query : Query)
    {place place' : Course Verdict × Session × σ}
    (h : TransGen (Course.Step source) place place') :
    TransGen (Step source query) (.working place.1, place.2) (.working place'.1,
      place'.2) := by
  induction h with
  | single step => exact .single (.work step)
  | tail _ step ih => exact ih.tail (.work step)

end Activity

namespace Stage

def activity : Stage → Activity
  | waiting => .waiting
  | loading pending => .loading (.pending pending)
  | working pending => .working (.pending pending)
  | finished result => .finished result

@[simp] theorem isLoading_activity (stage : Stage) :
    stage.activity.isLoading = stage.isLoading := by
  cases stage <;> rfl

theorem result?_eq_some_iff {stage : Stage} {reply : Reply Verdict} :
    stage.result? = some reply ↔ stage = .finished reply := by
  cases stage <;> simp [result?]

variable (source : Source σ) (query : Query)

theorem ofWork_steps (place : Progress Verdict × Session × σ) :
    let out := ofWork place
    ReflTransGen (Activity.Step source query) (.working place.1.course, place.2)
      (out.1.activity, out.2) := by
  rcases place with ⟨(interruption | verdict) | pending, s, state⟩
  · exact .single .fail
  · exact .single .answer
  · exact .refl

theorem work_steps (loaded : Except FormatError Trailer) (s : Session) (state : σ) :
    let out := work source query loaded s state
    TransGen (Activity.Step source query)
      (.working (.running (query.plan s.config loaded)), s, state)
      (out.1.activity, out.2) := by
  have proceeded := (query.plan s.config loaded).proceed_steps source s state
  exact (Activity.working_steps query proceeded).trans_left (ofWork_steps source query _)

theorem ofLoad_steps (place : Progress (Except FormatError Trailer) × Session × σ) :
    let out := ofLoad source query place
    ReflTransGen (Activity.Step source query) (.loading place.1.course, place.2)
      (out.1.activity, out.2) := by
  rcases place with ⟨(interruption | loaded) | pending, s, state⟩
  · exact .single .giveUp
  · exact .head .settle
      (work_steps source query loaded (s.settle loaded) state).to_reflTransGen
  · exact .refl

theorem load_steps (s : Session) (state : σ) :
    let out := ofLoad source query ((Trailer.load s.config).proceed source s state)
    TransGen (Activity.Step source query)
      (.loading (.running (Trailer.load s.config)), s, state) (out.1.activity, out.2) := by
  have proceeded := (Trailer.load s.config).proceed_steps source s state
  exact (Activity.loading_steps query proceeded).trans_left
    (ofLoad_steps source query ((Trailer.load s.config).proceed source s state))

/-- A turn of a call that was under way, or that finds the trailer
known, takes it further. -/
theorem turn_steps {stage : Stage} {s : Session} (state : σ) (othersLoad : Bool)
    (ready : stage = waiting → s.trailer.isSome)
    (unfinished : ∀ result, stage ≠ finished result) :
    let out := turn source query othersLoad s state stage
    TransGen (Activity.Step source query) (stage.activity, s, state)
        (out.1.activity, out.2) := by
  cases stage with
  | waiting =>
      obtain ⟨loaded, known⟩ := Option.isSome_iff_exists.mp (ready rfl)
      simp only [turn, known]
      exact .head (.enter known) (work_steps source query loaded s state)
  | loading pending =>
      have resumed := Activity.loading_steps query (pending.resume_steps source s state)
      exact resumed.trans_left (ofLoad_steps source query _)
  | working pending =>
      have resumed := Activity.working_steps query (pending.resume_steps source s state)
      exact resumed.trans_left (ofWork_steps source query _)
  | finished result => exact absurd rfl (unfinished result)

end Stage

/-! What calls that share a session do at a moment. -/

structure Party where
  query : Query
  activity : Activity

structure Moment (σ : Type) where
  session : Session
  parties : List Party
  state : σ

namespace Moment

def isLoading (m : Moment σ) : Bool := m.parties.any (·.activity.isLoading)

def put (m : Moment σ) (caller : Nat) (query : Query) (place : Activity × Session × σ) :
    Moment σ :=
  ⟨place.2.1, m.parties.set caller ⟨query, place.1⟩, place.2.2⟩

def start (m : Moment σ) (query : Query) : Moment σ :=
  ⟨m.session.countStart query, m.parties ++ [⟨query, .waiting⟩], m.state⟩

inductive Step (source : Source σ) (m : Moment σ) : Moment σ → Prop
  | begin {caller : Nat} {query : Query}
      (party : m.parties[caller]? = some ⟨query, .waiting⟩)
      (empty : m.session.trailer = none) (free : m.isLoading = false) :
      Step source m
        (m.put caller query
          (.loading (.running (Trailer.load m.session.config)), m.session, m.state))
  | call {caller : Nat} {query : Query} {activity : Activity}
      {place : Activity × Session × σ}
      (party : m.parties[caller]? = some ⟨query, activity⟩)
      (h : Activity.Step source query (activity, m.session, m.state) place) :
      Step source m (m.put caller query place)

theorem put_put (m : Moment σ) (caller : Nat) (query : Query)
    (first second : Activity × Session × σ) :
    (m.put caller query first).put caller query second = m.put caller query second := by
  simp [put, List.set_set]

theorem getElem?_put {m : Moment σ} {caller : Nat} {party : Party}
    (h : m.parties[caller]? = some party) (query : Query) (place : Activity × Session × σ) :
    (m.put caller query place).parties[caller]? = some ⟨query, place.1⟩ := by
  obtain ⟨inside, _⟩ := List.getElem?_eq_some_iff.mp h
  simp [put, inside]

theorem getElem?_put_of_ne (m : Moment σ) {caller other : Nat} (h : other ≠ caller)
    (query : Query) (place : Activity × Session × σ) :
    (m.put caller query place).parties[other]? = m.parties[other]? := by
  simp [put, List.getElem?_set_ne h.symm]

theorem party_put {m : Moment σ} {caller other : Nat} {query : Query}
    {place : Activity × Session × σ} {party : Party}
    (h : (m.put caller query place).parties[other]? = some party) :
    other = caller ∧ party = ⟨query, place.1⟩ ∨
      other ≠ caller ∧ m.parties[other]? = some party := by
  by_cases same : other = caller
  · subst same
    obtain ⟨inside, rfl⟩ := List.getElem?_eq_some_iff.mp h
    exact .inl ⟨rfl, by simp [put]⟩
  · rw [getElem?_put_of_ne m same] at h
    exact .inr ⟨same, h⟩

theorem queries_put {m : Moment σ} {caller : Nat} {query : Query} {activity : Activity}
    (party : m.parties[caller]? = some ⟨query, activity⟩) (place : Activity × Session × σ) :
    (m.put caller query place).parties.map Party.query = m.parties.map Party.query := by
  apply List.ext_getElem?
  intro other
  rw [List.getElem?_map, List.getElem?_map]
  by_cases same : other = caller
  · subst same
    rw [getElem?_put party, party]
    rfl
  · rw [getElem?_put_of_ne m same]

theorem Step.queries_eq {source : Source σ} {m m' : Moment σ} (h : Step source m m') :
    m'.parties.map Party.query = m.parties.map Party.query := by
  cases h with
  | begin party empty free => exact queries_put party _
  | call party h => exact queries_put party _

theorem party_start {m : Moment σ} {query : Query} {caller : Nat} {party : Party}
    (h : (m.start query).parties[caller]? = some party) :
    m.parties[caller]? = some party ∨ caller = m.parties.length ∧
    party = ⟨query, .waiting⟩ := by
  obtain ⟨inside, rfl⟩ := List.getElem?_eq_some_iff.mp h
  simp only [start, List.length_append, List.length_singleton] at inside ⊢
  by_cases old : caller < m.parties.length
  · exact .inl (by rw [List.getElem_append_left old]; exact List.getElem?_eq_getElem old)
  · have last : caller = m.parties.length := by omega
    exact .inr ⟨last, by simp [last]⟩

theorem steps_of_activity {source : Source σ} {m : Moment σ} {caller : Nat} {query : Query}
    {activity : Activity} {place : Activity × Session × σ}
    (party : m.parties[caller]? = some ⟨query, activity⟩)
    (h : TransGen (Activity.Step source query) (activity, m.session, m.state) place) :
    TransGen (Step source) m (m.put caller query place) := by
  induction h with
  | single last => exact .single (.call party last)
  | @tail middle last _ step ih =>
      have next := Step.call (m := m.put caller query middle)
        (getElem?_put party query middle) step
      rw [put_put] at next
      exact ih.tail next

end Moment

namespace Crew

def parties (calls : List Call) : List Party :=
  calls.map fun call => ⟨call.query, call.stage.activity⟩

def moment (crew : Crew × σ) : Moment σ := ⟨crew.1.session, parties crew.1.calls, crew.2⟩

theorem isLoading_moment (crew : Crew × σ) :
    (moment crew).isLoading = crew.1.isLoading := by
  simp [moment, parties, Moment.isLoading, isLoading, List.any_map, Function.comp_def]

theorem getElem?_moment {crew : Crew × σ} {caller : Nat} {call : Call}
    (h : crew.1.calls[caller]? = some call) :
    (moment crew).parties[caller]? = some ⟨call.query, call.stage.activity⟩ := by
  simp [moment, parties, h]

theorem moment_start (crew : Crew × σ) (query : Query) :
    moment (crew.1.start query, crew.2) = (moment crew).start query := by
  simp [moment, parties, Moment.start, start, Stage.activity]

theorem moment_drop {crew : Crew × σ} {caller : Nat} {call : Call}
    (h : crew.1.calls[caller]? = some call) :
    moment (crew.1.drop caller, crew.2) =
      (moment crew).put caller call.query
        (call.stage.dropped.activity, crew.1.session, crew.2) := by
  obtain ⟨inside, rfl⟩ := List.getElem?_eq_some_iff.mp h
  have calls : (crew.1.drop caller).calls =
      crew.1.calls.set caller
        { crew.1.calls[caller] with stage := crew.1.calls[caller].stage.dropped } := by
    apply List.ext_getElem?
    intro other
    rw [drop, List.getElem?_modify, List.getElem?_set]
    by_cases same : caller = other
    · subst same
      simp [inside]
    · simp [same]
  simp only [moment, calls, parties, Moment.put, List.map_set]
  rfl

/-- Whether a turn of a call can take it further. -/
def CanTurn (crew : Crew) (call : Call) : Prop :=
  match call.stage with
  | .waiting => crew.session.trailer = none → crew.isLoading = false
  | .loading _ => True
  | .working _ => True
  | .finished _ => False

theorem turn_steps (source : Source σ) {crew : Crew × σ} {caller : Nat} {call : Call}
    (hcall : crew.1.calls[caller]? = some call) (can : crew.1.CanTurn call) :
    TransGen (Moment.Step source) (moment crew)
      (moment (crew.1.turn source crew.2 caller)) := by
  have party := getElem?_moment hcall
  have target : moment (crew.1.turn source crew.2 caller) =
      (moment crew).put caller call.query
        (let out := call.stage.turn source call.query crew.1.isLoading crew.1.session crew.2
         (out.1.activity, out.2)) := by
    simp only [turn, hcall, moment, parties, Moment.put, List.map_set]
  have unfinished : ∀ result, call.stage ≠ .finished result := by
    intro result isOver
    simp [CanTurn, isOver] at can
  rw [target]
  by_cases ready : call.stage = .waiting → crew.1.session.trailer.isSome
  · exact Moment.steps_of_activity party
      (call.stage.turn_steps source call.query crew.2 crew.1.isLoading ready unfinished)
  · -- To begin a load is the one step that is not a step of the call by itself.
    obtain ⟨waits, unknown⟩ := Classical.not_imp.mp ready
    have empty : crew.1.session.trailer = none := by simpa using unknown
    have idle : crew.1.isLoading = false := by
      rw [CanTurn, waits] at can
      exact can empty
    rw [waits] at party ⊢
    have first : Moment.Step source (moment crew) _ :=
      .begin party empty ((isLoading_moment crew).trans idle)
    apply TransGen.head first
    have rest := Moment.steps_of_activity
      (m := (moment crew).put caller call.query
        (.loading (.running (Trailer.load crew.1.session.config)), crew.1.session, crew.2))
      (Moment.getElem?_put party call.query _)
      (Stage.load_steps source call.query crew.1.session crew.2)
    rw [Moment.put_put] at rest
    simp only [Stage.turn, empty, idle]
    exact rest

theorem turn_eq_self (source : Source σ) {crew : Crew × σ} {caller : Nat}
    (h : ∀ call, crew.1.calls[caller]? = some call → ¬ crew.1.CanTurn call) :
    crew.1.turn source crew.2 caller = crew := by
  cases hcall : crew.1.calls[caller]? with
  | none => simp only [turn, hcall]
  | some call =>
      have stuck := h call hcall
      have same : call.stage.turn source call.query crew.1.isLoading crew.1.session crew.2 =
          (call.stage, crew.1.session, crew.2) := by
        cases hstage : call.stage with
        | finished result => rfl
        | waiting =>
            obtain ⟨empty, busy⟩ : crew.1.session.trailer = none ∧
                crew.1.isLoading = true := by
              simpa [CanTurn, hstage] using stuck
            simp [Stage.turn, empty, busy]
        | loading pending => simp [CanTurn, hstage] at stuck
        | working pending => simp [CanTurn, hstage] at stuck
      obtain ⟨inside, rfl⟩ := List.getElem?_eq_some_iff.mp hcall
      simp only [turn, hcall, same]
      rw [show crew.1.calls.set caller _ = crew.1.calls from List.set_getElem_self inside]

end Crew

section

variable {source : Source σ} (Keeps : Moment σ → Prop)

theorem Moment.keeps_of_steps
    (step : ∀ {m m' : Moment σ}, Keeps m → Moment.Step source m m' → Keeps m')
    {m m' : Moment σ} (steps : ReflTransGen (Moment.Step source) m m') (h : Keeps m) :
    Keeps m' := by
  induction steps with
  | refl => exact h
  | tail _ last ih => exact step ih last

namespace Crew

theorem turn_keeps
    (step : ∀ {m m' : Moment σ}, Keeps m → Moment.Step source m m' → Keeps m')
    {crew : Crew × σ} (caller : Nat) (h : Keeps (moment crew)) :
    Keeps (moment (crew.1.turn source crew.2 caller)) := by
  by_cases can : ∃ call, crew.1.calls[caller]? = some call ∧ crew.1.CanTurn call
  · obtain ⟨call, hcall, can⟩ := can
    exact Moment.keeps_of_steps Keeps step (turn_steps source hcall can).to_reflTransGen h
  · rw [turn_eq_self source fun call hcall can' => can ⟨call, hcall, can'⟩]
    exact h

theorem drop_keeps
    (drop : ∀ {m : Moment σ} {caller : Nat} {query : Query} {stage : Stage}, Keeps m →
      m.parties[caller]? = some ⟨query, stage.activity⟩ →
      Keeps (m.put caller query (stage.dropped.activity, m.session, m.state)))
    {crew : Crew × σ} (caller : Nat) (h : Keeps (moment crew)) :
    Keeps (moment (crew.1.drop caller, crew.2)) := by
  cases hcall : crew.1.calls[caller]? with
  | none =>
      have same : crew.1.drop caller = crew.1 := by
        rw [Crew.drop, List.modify_eq_self (List.getElem?_eq_none_iff.mp hcall)]
      rw [same]
      exact h
  | some call =>
      rw [moment_drop hcall]
      exact drop h (getElem?_moment hcall)

/-- What starting a call, a step of a call and the loss of a call keep, every run keeps. -/
theorem play_keeps {events : List Event}
    (start : ∀ {m : Moment σ} (query : Query), Keeps m → Keeps (m.start query))
    (step : ∀ {m m' : Moment σ}, Keeps m → Moment.Step source m m' → Keeps m')
    (drop : ∀ lost, .drop lost ∈ events →
      ∀ {m : Moment σ} {caller : Nat} {query : Query} {stage : Stage}, Keeps m →
      m.parties[caller]? = some ⟨query, stage.activity⟩ →
      Keeps (m.put caller query (stage.dropped.activity, m.session, m.state)))
    {crew : Crew × σ} (h : Keeps (moment crew)) :
    Keeps (moment (play source events crew)) := by
  induction events generalizing crew with
  | nil => exact h
  | cons event rest ih =>
      apply ih fun lost later => drop lost (List.mem_cons_of_mem event later)
      cases event with
      | start query =>
          rw [act, moment_start]
          exact start query h
      | turn caller => exact turn_keeps Keeps step caller h
      | drop caller => exact drop_keeps Keeps (drop caller (List.mem_cons_self ..)) caller h

end Crew

namespace Moment

theorem steps_of_last (others : List Party) {query : Query} {activity : Activity}
    {s : Session} {state : σ} {place : Activity × Session × σ}
    (h : TransGen (Activity.Step source query) (activity, s, state) place) :
    TransGen (Step source) ⟨s, others ++ [⟨query, activity⟩], state⟩
      ⟨place.2.1, others ++ [⟨query, place.1⟩], place.2.2⟩ := by
  have last : (others ++ [⟨query, activity⟩] : List Party)[others.length]? =
      some ⟨query, activity⟩ := by
    simp
  have steps := steps_of_activity (m := ⟨s, _, state⟩) last h
  simpa [put] using steps

end Moment

namespace Session

theorem answer_steps (source : Source σ) (query : Query) (plan : Plan Verdict) (s : Session)
    (state : σ) :
    let out : Reply Verdict × Session × σ := match plan.run source s state with
      | (.error interruption, s, state) => (.error interruption, s, state)
      | (.ok verdict, s, state) => (.ok verdict, s.countEnd verdict, state)
    TransGen (Activity.Step source query) (.working (.running plan), s, state)
      (.finished out.1, out.2) := by
  have ran := Activity.working_steps query (plan.run_steps source s state)
  rcases hrun : plan.run source s state with ⟨interruption | verdict, s', state'⟩
  · rw [hrun] at ran
    exact ran.tail .fail
  · rw [hrun] at ran
    exact ran.tail .answer

/-- A query that is asked on its own makes the steps of a call that nobody interrupts. -/
theorem ask_steps (source : Source σ) (query : Query) (s : Session) (state : σ)
    {others : List Party} (idle : others.any (·.activity.isLoading) = false) :
    let out := s.ask source query state
    TransGen (Moment.Step source) (Moment.start ⟨s, others, state⟩ query)
      ⟨out.2.1, others ++ [⟨query, .finished out.1⟩], out.2.2⟩ := by
  have answered (loaded : Except FormatError Trailer) (s : Session) (state : σ) :=
    answer_steps source query (query.plan s.config loaded) s state
  unfold ask loadTrailer Moment.start
  cases known : (s.countStart query).trailer with
  | some loaded =>
      exact Moment.steps_of_last others (.head (.enter known) (answered loaded _ state))
  | none =>
      have last : (others ++ [⟨query, .waiting⟩] : List Party)[others.length]? =
          some ⟨query, .waiting⟩ := by
        simp
      have first : Moment.Step source ⟨s.countStart query, _, state⟩ _ :=
        .begin last known (by simpa [Moment.isLoading] using ⟨by simpa using idle, rfl⟩)
      simp only [Moment.put, List.set_append_right, Nat.le_refl, Nat.sub_self,
        List.set_cons_zero] at first
      have ran := Activity.loading_steps query
        ((Trailer.load (s.countStart query).config).run_steps source (s.countStart query)
          state)
      rcases hrun : (Trailer.load (s.countStart query).config).run source
        (s.countStart query) state with ⟨interruption | loaded, s', state'⟩
      · rw [hrun] at ran
        exact .head first (Moment.steps_of_last others (ran.tail .giveUp))
      · rw [hrun] at ran
        have rest := (ran.tail .settle).trans (answered loaded (s'.settle loaded) state')
        exact .head first (Moment.steps_of_last others rest)

/-- The calls that queries were, asked one after the other. -/
def answered (queries : List Query) (replies : List (Reply Verdict)) : List Party :=
  List.zipWith (fun query reply => ⟨query, .finished reply⟩) queries replies

/-- What starting a call and a step of a call keep, queries that are asked
one after the other keep. -/
theorem askAll_keeps
    (start : ∀ {m : Moment σ} (query : Query), Keeps m → Keeps (m.start query))
    (step : ∀ {m m' : Moment σ}, Keeps m → Moment.Step source m m' → Keeps m')
    (queries : List Query) {s : Session} {others : List Party} {state : σ}
    (idle : others.any (·.activity.isLoading) = false) (h : Keeps ⟨s, others, state⟩) :
    let out := askAll source queries s state
    Keeps ⟨out.2.1, others ++ answered queries out.1, out.2.2⟩ := by
  induction queries generalizing s others state with
  | nil => simpa [askAll, answered] using h
  | cons query rest ih =>
      have asked := Moment.keeps_of_steps Keeps step
        (ask_steps source query s state idle).to_reflTransGen (start query h)
      have later := ih (by simpa using ⟨by simpa using idle, rfl⟩) asked
      simpa [askAll, answered] using later

end Session

end

end SortedBlob
