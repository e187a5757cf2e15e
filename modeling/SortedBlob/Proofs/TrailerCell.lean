import SortedBlob.Proofs.Discipline
import SortedBlob.Proofs.Reading

/-!
The trailer that calls share is settled at most once, whatever the source answers, however
the calls interleave and whichever of them are dropped. Main statement:
`Crew.trailer_settled_once`.
-/

namespace SortedBlob

variable {α σ : Type}

/-! What is asked of a source, and by whom. -/

def Signal.request : Signal → Request
  | .asked request => request
  | .length _ => .length
  | .read purpose span _ => .read purpose span

/-- A load asks for the length, then at most once for the trailer. -/
theorem Trailer.leads_load {config : Config} {rest : Plan (Except FormatError Trailer)}
    (h : (load config).Leads rest) :
    rest = load config ∨ (∃ result, rest = .done result) ∨
      ∃ (span : Span) (next : Bytes → Except FormatError Trailer),
        rest = .read .trailer span fun bytes => .done (next bytes) := by
  induction h with
  | refl => exact .inl rfl
  | length n _ ih =>
      rcases ih with first | ⟨_, isOver⟩ | ⟨_, _, last⟩
      · cases first
        dsimp only
        split
        · exact .inr (.inl ⟨_, rfl⟩)
        · exact .inr (.inr ⟨_, _, rfl⟩)
      · cases isOver
      · cases last
  | read bytes _ ih =>
      rcases ih with first | ⟨_, isOver⟩ | ⟨_, _, last⟩
      · cases first
      · cases isOver
      · cases last
        exact .inr (.inl ⟨_, rfl⟩)

section

variable {source : Source σ} {s s' : Session}

theorem Course.Step.trailerLoads_eq {plan : Plan α}
    (asks : plan.Asks fun request => request.isOfLoad = false) {course course' : Course α}
    {state state' : σ} (h : Step source (course, s, state) (course', s', state'))
    (origin : course.From plan) : s'.stats.trailerLoads = s.stats.trailerLoads := by
  cases h with
  | askLength => exact Session.trailerLoads_count ..
  | askRead missed => exact Session.trailerLoads_count ..
  | @read purpose span next bytes _ _ _ reply =>
      rw [Session.trailerLoads_receive, if_neg]
      rintro rfl
      cases (asks.leads origin).1
  | _ => rfl

theorem Course.Step.heard {P : Request → Prop} {plan : Plan α} (asks : plan.Asks P)
    {course course' : Course α} {state state' : σ × List Signal}
    (h : Step source.recorded (course, s, state) (course', s', state'))
    (origin : course.From plan) :
    ∃ heard, state'.2 = heard ++ state.2 ∧ ∀ signal ∈ heard, P signal.request := by
  cases h with
  | done => exact ⟨[], rfl, nofun⟩
  | askLength =>
    exact ⟨[.asked .length], rfl, List.forall_mem_singleton.mpr (asks.leads origin).1⟩
  | hit cached => exact ⟨[], rfl, nofun⟩
  | @askRead purpose span _ _ _ missed =>
      exact ⟨[.asked (.read purpose span)], rfl,
        List.forall_mem_singleton.mpr (asks.leads origin).1⟩
  | length reply =>
      obtain ⟨_, rfl⟩ := Prod.ext_iff.mp reply
      exact ⟨[.length _], rfl, List.forall_mem_singleton.mpr (asks.leads origin).1⟩
  | @read purpose span _ _ _ _ _ reply =>
      obtain ⟨_, rfl⟩ := Prod.ext_iff.mp reply
      exact ⟨[.read purpose span _], rfl,
        List.forall_mem_singleton.mpr (asks.leads origin).1⟩
  | lengthFailed reply =>
      obtain ⟨_, rfl⟩ := Prod.ext_iff.mp reply
      exact ⟨[.length _], rfl, List.forall_mem_singleton.mpr (asks.leads origin).1⟩
  | @readFailed purpose span _ _ _ _ _ reply =>
      obtain ⟨_, rfl⟩ := Prod.ext_iff.mp reply
      exact ⟨[.read purpose span _], rfl,
        List.forall_mem_singleton.mpr (asks.leads origin).1⟩

end

/-! At most one trailer is ever read to its end. -/

/-- Whether a call has all that it loads, and has not settled it yet. -/
def Activity.HasLoaded : Activity → Prop
  | loading (.running (.done _)) => True
  | loading (.ended (.ok _)) => True
  | _ => False

/-- How often the trailer was read, as far as one call can tell. -/
structure Session.LoadedOnce (activity : Activity) (s : Session) : Prop where
  atMostOnce : s.stats.trailerLoads ≤ 1
  unread : s.trailer = none → ¬ activity.HasLoaded → s.stats.trailerLoads = 0

theorem Course.Step.loadedOnce {source : Source σ} {config : Config}
    {course course' : Course (Except FormatError Trailer)} {s s' : Session}
    {state state' : σ} (h : Step source (course, s, state) (course', s', state'))
    (origin : course.From (Trailer.load config)) (empty : s.trailer = none)
    (loads : s.LoadedOnce (.loading course)) : s'.LoadedOnce (.loading course') := by
  cases h with
  | done => exact ⟨loads.atMostOnce, fun _ unloaded => absurd trivial unloaded⟩
  | read reply =>
      have zero := loads.unread empty id
      rcases Trailer.leads_load origin with first | ⟨_, isOver⟩ | ⟨_, _, last⟩
      · cases first
      · cases isOver
      · cases last
        refine ⟨?_, fun _ unloaded => absurd trivial unloaded⟩
        rw [Session.trailerLoads_receive, if_pos rfl, zero]
  | _ =>
      have zero := loads.unread empty id
      exact ⟨loads.atMostOnce, fun _ _ => zero⟩

theorem Activity.Step.loadedOnce {source : Source σ} {config : Config} {query : Query}
    {activity activity' : Activity} {s s' : Session} {state state' : σ}
    (h : Step source query (activity, s, state) (activity', s', state'))
    (uses : activity.Uses config query s.trailer) (loads : s.LoadedOnce activity) :
    s'.LoadedOnce activity' := by
  have settled {s' : Session} {activity' : Activity} {loaded : Except FormatError Trailer}
      (same : s'.stats.trailerLoads = s.stats.trailerLoads)
      (known : s'.trailer = some loaded) : s'.LoadedOnce activity' :=
    ⟨same ▸ loads.atMostOnce, fun empty => by rw [known] at empty; cases empty⟩
  cases h with
  | enter known => exact settled rfl known
  | load h => exact h.loadedOnce uses.2 uses.1 loads
  | settle => exact settled rfl rfl
  | giveUp => exact ⟨loads.atMostOnce, fun empty _ => loads.unread empty id⟩
  | work h =>
      obtain ⟨loaded, known, origin⟩ := uses
      exact settled (h.trailerLoads_eq (query.plan_asks_isOfLoad config loaded) origin)
        (h.trailer_eq.trans known)
  | answer =>
      obtain ⟨loaded, known, _⟩ := uses
      exact settled (Session.trailerLoads_countEnd ..)
        ((Session.trailer_countEnd ..).trans known)
  | fail =>
      obtain ⟨loaded, known, _⟩ := uses
      exact settled rfl known

namespace Moment

variable {source : Source σ} {config : Config} {m m' : Moment σ} {caller : Nat}
  {query : Query} {activity : Activity} {place : Activity × Session × σ}

structure LoadedOnce (m : Moment σ) : Prop where
  atMostOnce : m.session.stats.trailerLoads ≤ 1
  unread : m.session.trailer = none →
    (∀ {caller : Nat} {party : Party}, m.parties[caller]? = some party →
      ¬ party.activity.HasLoaded) → m.session.stats.trailerLoads = 0

theorem not_hasLoaded (idle : activity.isLoading = false) : ¬ activity.HasLoaded := by
  cases activity with
  | loading course => cases idle
  | _ => exact id

/-- While the others do not load, what one call can tell is all there is to tell. -/
theorem LoadedOnce.alone (h : m.LoadedOnce) (idle : m.OthersIdle caller)
    (party : m.parties[caller]? = some ⟨query, activity⟩) :
    m.session.LoadedOnce activity := by
  refine ⟨h.atMostOnce, fun empty unloaded => h.unread empty
    fun {other second} member => ?_⟩
  by_cases same : other = caller
  · subst same
    rw [party] at member
    cases member
    exact unloaded
  · exact not_hasLoaded (idle member same)

theorem LoadedOnce.put (h : place.2.1.LoadedOnce place.1)
    (party : m.parties[caller]? = some ⟨query, activity⟩) :
    (m.put caller query place).LoadedOnce :=
  ⟨h.atMostOnce, fun empty unloaded =>
    h.unread empty (unloaded (getElem?_put party query place))⟩

theorem Step.loadedOnce (disciplined : m.Disciplined config) (loads : m.LoadedOnce)
    (h : Step source m m') : m'.LoadedOnce := by
  cases h with
  | @begin caller query party empty free =>
      have alone := loads.alone (othersIdle_of_isLoading free caller) party
      exact LoadedOnce.put ⟨alone.atMostOnce, fun empty _ => alone.unread empty id⟩ party
  | call party h =>
      have uses := disciplined.uses party
      have idle := disciplined.othersIdle party (h.loading_or_settled uses)
      exact LoadedOnce.put (h.loadedOnce uses (loads.alone idle party)) party

theorem LoadedOnce.start (h : m.LoadedOnce) (query : Query) :
    (m.start query).LoadedOnce := by
  simp only [Moment.start]
  refine ⟨?_, fun empty unloaded => ?_⟩
  · rw [Session.trailerLoads_countStart]
    exact h.atMostOnce
  · rw [Session.trailerLoads_countStart]
    rw [Session.trailer_countStart] at empty
    apply h.unread empty
    intro caller party member
    obtain ⟨inside, _⟩ := List.getElem?_eq_some_iff.mp member
    exact unloaded ((List.getElem?_append_left inside).trans member)

theorem LoadedOnce.drop (h : m.LoadedOnce) {stage : Stage}
    (party : m.parties[caller]? = some ⟨query, stage.activity⟩) :
    (m.put caller query (stage.dropped.activity, m.session, m.state)).LoadedOnce := by
  refine ⟨h.atMostOnce, fun empty unloaded => h.unread empty
    fun {other second} member => ?_⟩
  by_cases same : other = caller
  · subst same
    rw [party] at member
    cases member
    cases stage <;> exact id
  · exact unloaded ((getElem?_put_of_ne m same query _).trans member)

end Moment

/-! Once the trailer is settled, nobody asks for it; and nobody asks for anything once it is
settled that there is none. -/

theorem Course.Step.state_eq {source : Source σ} {result : α} {course course' : Course α}
    {s s' : Session} {state state' : σ}
    (h : Step source (course, s, state) (course', s', state'))
    (origin : course.From (.done result)) : state' = state := by
  cases h with
  | done => rfl
  | hit cached => rfl
  | _ => cases Plan.leads_done origin

/-- What a call can be at that found the trailer settled to be bad. -/
def Activity.Refuses (error : FormatError) : Activity → Prop
  | waiting => True
  | loading _ => False
  | working (.running rest) => rest = .done (.error (.format error))
  | working (.pending _) => False
  | working (.ended reply) => reply = .ok (.error (.format error))
  | finished reply => reply = .ok (.error (.format error)) ∨ reply = .error .dropped

namespace Activity

variable {config : Config} {query : Query} {activity activity' : Activity} {s s' : Session}

theorem Step.heard {source : Source σ} {state state' : σ × List Signal}
    {loaded : Except FormatError Trailer}
    (h : Step source.recorded query (activity, s, state) (activity', s', state'))
    (uses : activity.Uses config query s.trailer) (known : s.trailer = some loaded) :
    ∃ heard, state'.2 = heard ++ state.2 ∧
      ∀ signal ∈ heard, signal.request.isOfLoad = false := by
  cases h with
  | load h =>
      rw [uses.1] at known
      cases known
  | work h =>
      obtain ⟨loaded, _, origin⟩ := uses
      exact h.heard (query.plan_asks_isOfLoad config loaded) origin
  | _ => exact ⟨[], rfl, nofun⟩

variable {source : Source σ} {state state' : σ} {error : FormatError}

theorem Step.state_eq (h : Step source query (activity, s, state) (activity', s', state'))
    (uses : activity.Uses config query s.trailer)
    (known : s.trailer = some (.error error)) :
    state' = state := by
  cases h with
  | load h =>
      rw [uses.1] at known
      cases known
  | work h =>
      obtain ⟨loaded, same, origin⟩ := uses
      cases same.symm.trans known
      exact h.state_eq origin
  | _ => rfl

theorem Step.refuses (h : Step source query (activity, s, state) (activity', s', state'))
    (known : s.trailer = some (.error error)) (refuses : activity.Refuses error) :
    activity'.Refuses error := by
  cases h with
  | enter same =>
      cases same.symm.trans known
      rfl
  | load h => exact refuses.elim
  | settle => exact refuses.elim
  | giveUp => exact refuses.elim
  | work h =>
      cases h with
      | done =>
          cases refuses
          rfl
      | hit cached => cases refuses
      | askLength => cases refuses
      | askRead missed => cases refuses
      | _ => exact refuses.elim
  | answer => exact .inl refuses
  | fail => cases refuses

end Activity

namespace Moment

structure Settled (config : Config) (loaded : Except FormatError Trailer)
    (log : List Signal) (m : Moment (σ × List Signal)) : Prop where
  disciplined : m.Disciplined config
  known : m.session.trailer = some loaded
  heard : ∃ heard, m.state.2 = heard ++ log ∧
    ∀ signal ∈ heard, signal.request.isOfLoad = false

theorem Step.settled {source : Source σ} {config : Config}
    {loaded : Except FormatError Trailer} {log : List Signal}
    {m m' : Moment (σ × List Signal)} (settled : m.Settled config loaded log)
    (h : Step source.recorded m m') : m'.Settled config loaded log := by
  refine ⟨h.disciplined settled.disciplined, ?_, ?_⟩
  · obtain ⟨_, _, _, _, _, _, rfl, _, _, kept⟩ := h.cases_of_disciplined settled.disciplined
    exact kept loaded settled.known
  · cases h with
    | begin party empty free =>
        rw [settled.known] at empty
        cases empty
    | call party h =>
        obtain ⟨earlier, same, clean⟩ := settled.heard
        obtain ⟨heard, later, cleanLater⟩ :=
          h.heard (settled.disciplined.uses party) settled.known
        refine ⟨heard ++ earlier, ?_, ?_⟩
        · simp only [put, later, same, List.append_assoc]
        · intro signal member
          exact (List.mem_append.mp member).elim (cleanLater signal) (clean signal)

/-- Nothing has been asked since `origin`, and the calls of `late` come to the error. -/
structure Refusing (config : Config) (error : FormatError) (late : Nat → Prop) (origin : σ)
    (m : Moment σ) : Prop where
  disciplined : m.Disciplined config
  known : m.session.trailer = some (.error error)
  unasked : m.state = origin
  refuses {caller : Nat} {party : Party} : late caller → m.parties[caller]? = some party →
    party.activity.Refuses error

variable {config : Config} {error : FormatError} {late : Nat → Prop} {origin : σ}
  {m m' : Moment σ}

theorem Refusing.start (h : m.Refusing config error late origin) (query : Query) :
    (m.start query).Refusing config error late origin := by
  refine ⟨h.disciplined.start query, ?_, h.unasked, ?_⟩
  · exact (Session.trailer_countStart ..).trans h.known
  · intro caller party isLate member
    rcases party_start member with old | ⟨_, rfl⟩
    · exact h.refuses isLate old
    · trivial

theorem Step.refusing {source : Source σ} (refusing : m.Refusing config error late origin)
    (h : Step source m m') : m'.Refusing config error late origin := by
  have disciplined := h.disciplined refusing.disciplined
  cases h with
  | begin party empty free =>
      rw [refusing.known] at empty
      cases empty
  | @call caller query activity place party h =>
      have uses := refusing.disciplined.uses party
      refine ⟨disciplined, h.trailer_kept uses _ refusing.known,
        (h.state_eq uses refusing.known).trans refusing.unasked, ?_⟩
      intro other second isLate member
      rcases party_put member with ⟨rfl, rfl⟩ | ⟨_, old⟩
      · exact h.refuses refusing.known (refusing.refuses isLate party)
      · exact refusing.refuses isLate old

theorem Refusing.drop (h : m.Refusing config error late origin) {caller : Nat}
    {query : Query} {stage : Stage}
    (party : m.parties[caller]? = some ⟨query, stage.activity⟩) :
    (m.put caller query (stage.dropped.activity, m.session, m.state)).Refusing config
      error late origin := by
  refine ⟨h.disciplined.drop party, h.known, h.unasked, ?_⟩
  intro other second isLate member
  rcases party_put member with ⟨rfl, rfl⟩ | ⟨_, old⟩
  · have refuses := h.refuses isLate party
    cases stage with
    | finished reply => exact refuses
    | _ => exact .inr rfl
  · exact h.refuses isLate old

end Moment

namespace Crew

theorem disciplined_play (source : Source σ) (config : Config) (events : List Event)
    (state : σ) :
    let crew := play source events (new (Session.new config), state)
    (moment crew).Disciplined config ∧ (moment crew).LoadedOnce := by
  refine play_keeps (fun m => m.Disciplined config ∧ m.LoadedOnce) ?_ ?_ ?_ ?_
  · intro m query h
    exact ⟨h.1.start query, h.2.start query⟩
  · intro m m' h step
    exact ⟨step.disciplined h.1, step.loadedOnce h.1 h.2⟩
  · intro lost _ m caller query stage h party
    exact ⟨h.1.drop party, h.2.drop party⟩
  · exact ⟨Moment.disciplined_new config state, ⟨Nat.zero_le 1, fun _ _ => rfl⟩⟩

theorem settled_play (source : Source σ) {config : Config} {crew : Crew × σ × List Signal}
    {loaded : Except FormatError Trailer} (disciplined : (moment crew).Disciplined config)
    (known : crew.1.session.trailer = some loaded) (events : List Event) :
    (moment (play source.recorded events crew)).Settled config loaded crew.2.2 := by
  refine play_keeps (Moment.Settled config loaded crew.2.2) ?_ Moment.Step.settled ?_ ?_
  · intro m query h
    exact ⟨h.disciplined.start query, (Session.trailer_countStart ..).trans h.known,
      h.heard⟩
  · intro lost _ m caller query stage h party
    exact ⟨h.disciplined.drop party, h.known, h.heard⟩
  · exact ⟨disciplined, known, [], rfl, nofun⟩

/-- The calls that wait for the trailer, and those still to come. -/
def Late (crew : Crew) (caller : Nat) : Prop :=
  ∀ call, crew.calls[caller]? = some call → call.stage = .waiting

theorem refusing_play (source : Source σ) {config : Config} {crew : Crew × σ}
    {error : FormatError} (disciplined : (moment crew).Disciplined config)
    (known : crew.1.session.trailer = some (.error error)) (events : List Event) :
    (moment (play source events crew)).Refusing config error crew.1.Late crew.2 := by
  refine play_keeps (Moment.Refusing config error crew.1.Late crew.2) ?_
    Moment.Step.refusing ?_ ?_
  · intro m query h
    exact h.start query
  · intro lost _ m caller query stage h party
    exact h.drop party
  · refine ⟨disciplined, known, rfl, ?_⟩
    intro caller party isLate member
    simp only [moment, parties, List.getElem?_map, Option.map_eq_some_iff] at member
    obtain ⟨call, hcall, rfl⟩ := member
    rw [isLate call hcall]
    trivial

/-- A turn of a call that refuses ends it with the error, if nobody has dropped it. -/
theorem turn_of_refuses {source : Source σ} {crew : Crew × σ} {error : FormatError}
    {caller : Nat} {call : Call} (hcall : crew.1.calls[caller]? = some call)
    (known : crew.1.session.trailer = some (.error error))
    (refuses : call.stage.activity.Refuses error)
    (kept : call.stage ≠ .finished (.error .dropped)) :
    (crew.1.turn source crew.2 caller).1.calls[caller]? =
      some ⟨call.query, .finished (.ok (.error (.format error)))⟩ := by
  obtain ⟨query, stage⟩ := call
  have ended : (stage.turn source query crew.1.isLoading crew.1.session crew.2).1 =
      .finished (.ok (.error (.format error))) := by
    cases stage with
    | waiting =>
        simp only [Stage.turn, known]
        rfl
    | loading sent => exact refuses.elim
    | working sent => exact refuses.elim
    | finished reply =>
        obtain rfl | rfl := refuses
        · rfl
        · exact absurd rfl kept
  obtain ⟨inside, _⟩ := List.getElem?_eq_some_iff.mp hcall
  simp only [turn, hcall, ended]
  exact List.getElem?_set_self inside

/-- In every state that calls can reach over any source: at most one of them loads the
trailer, which was read at most once, and those past it go by the one that is settled. Once
it is settled it stays, and nobody asks for the length or the trailer again. If it is
settled to be bad, nothing at all is asked any more, and a call that waited or is yet to
come ends with that error in one turn, unless it is dropped. -/
theorem trailer_settled_once (source : Source σ) (config : Config)
    (before after : List Event) (state : σ) :
    let crew := play source.recorded before (new (Session.new config), state, [])
    let later := play source.recorded after crew
    (∀ (first second : Nat) (a b : Call),
        crew.1.calls[first]? = some a → crew.1.calls[second]? = some b →
        a.stage.isLoading = true → b.stage.isLoading = true → first = second) ∧
      crew.1.session.stats.trailerLoads ≤ 1 ∧
      (∀ call ∈ crew.1.calls,
        call.stage.activity.Uses config call.query crew.1.session.trailer) ∧
      (∀ loaded, crew.1.session.trailer = some loaded →
        later.1.session.trailer = some loaded ∧
          ∃ heard, later.2.2 = heard ++ crew.2.2 ∧
            ∀ signal ∈ heard, signal.request.isOfLoad = false) ∧
      ∀ error, crew.1.session.trailer = some (.error error) →
        later.2 = crew.2 ∧
          ∀ (caller : Nat) (call : Call), crew.1.Late caller →
            later.1.calls[caller]? = some call →
            call.stage ≠ .finished (.error .dropped) →
              (later.1.turn source.recorded later.2 caller).1.calls[caller]? =
                some ⟨call.query, .finished (.ok (.error (.format error)))⟩ := by
  intro crew later
  obtain ⟨disciplined, loads⟩ := disciplined_play source.recorded config before (state, [])
  refine ⟨?_, loads.atMostOnce, ?_, ?_, ?_⟩
  · intro first second a b ha hb loadsA loadsB
    exact disciplined.single (getElem?_moment ha) (getElem?_moment hb)
      ((Stage.isLoading_activity _).trans loadsA)
      ((Stage.isLoading_activity _).trans loadsB)
  · intro call member
    obtain ⟨caller, hcall⟩ := List.getElem?_of_mem member
    exact disciplined.uses (getElem?_moment hcall)
  · intro loaded known
    have settled := settled_play source disciplined known after
    exact ⟨settled.known, settled.heard⟩
  · intro error known
    have refusing := refusing_play source.recorded disciplined known after
    refine ⟨refusing.unasked, ?_⟩
    intro caller call isLate hcall kept
    exact turn_of_refuses hcall refusing.known
      (refusing.refuses isLate (getElem?_moment hcall)) kept

end Crew

end SortedBlob
