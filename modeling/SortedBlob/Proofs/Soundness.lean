import SortedBlob.Proofs.Moments
import SortedBlob.Proofs.Reading

/-!
What calls come to when no reply belies the store, whatever they share. Such a reply is the
store's own or an interruption, for which there has to be an excuse. Main statements:
`Moment.Step.sound` and, for queries one after the other, `Session.Sound.askAll_eval`.
-/

namespace SortedBlob

variable {α σ : Type}

/-- Everything that a query asks of a blob, its trailer first. -/
def Query.whole (query : Query) (config : Config) : Plan Verdict :=
  (Trailer.load config).bind (query.plan config)

theorem Query.eval_whole {store : Store} {config : Config}
    {loaded : Except FormatError Trailer}
    (h : (Trailer.load config).eval store = .ok loaded) (query : Query) :
    (query.whole config).eval store = (query.plan config loaded).eval store := by
  rw [whole, Plan.eval_bind, h]
  rfl

theorem Query.exists_eval_whole (query : Query) (config : Config) (blob : Bytes) :
    ∃ verdict, (query.whole config).eval (Store.ofBytes blob) = .ok verdict := by
  obtain ⟨loaded, hload⟩ := Trailer.exists_eval_load config blob
  rw [eval_whole hload]
  cases loaded with
  | error error => exact ⟨_, rfl⟩
  | ok t => exact exists_eval_plan (Trailer.fits_of_eval_load hload).2 query config

theorem Query.whole_withoutReadCache (query : Query) (config : Config) :
    query.whole config.withoutReadCache = query.whole config := rfl

/-- Every reply is the store's or an interruption with an excuse, and no
excuse is ever withdrawn. -/
structure Source.Serves (source : Source σ) (store : Store)
    (Excuse : Interruption → σ → Prop) : Prop where
  length {reply : Reply UInt64} {state state' : σ} :
    source.length state = (reply, state') →
      reply = .ok store.length ∨ ∃ interruption, reply = .error interruption ∧
        Excuse interruption state'
  read {purpose : Purpose} {span : Span} {reply : Reply Bytes} {state state' : σ} :
    source.read purpose span state = (reply, state') →
      reply = (store.read span).mapError .failed ∨
        ∃ interruption, reply = .error interruption ∧
        Excuse interruption state'
  excuse_ask {interruption : Interruption} {request : Request} {state : σ} :
    Excuse interruption state → Excuse interruption (source.ask request state)
  excuse_length {interruption : Interruption} {reply : Reply UInt64} {state state' : σ} :
    source.length state = (reply, state') → Excuse interruption state →
      Excuse interruption state'
  excuse_read {interruption : Interruption} {purpose : Purpose} {span : Span}
    {reply : Reply Bytes} {state state' : σ} :
    source.read purpose span state = (reply, state') → Excuse interruption state →
      Excuse interruption state'

theorem Store.serves_source (store : Store) :
    store.source.Serves store fun _ _ => False where
  length h := by
    cases h
    exact .inl rfl
  read h := by
    cases h
    exact .inl rfl
  excuse_ask h := h
  excuse_length _ h := h
  excuse_read _ h := h

/-- What a session remembers is so. -/
structure Session.Sound (store : Store) (config : Config) (s : Session) : Prop where
  sameConfig : s.config = config
  trailer {loaded : Except FormatError Trailer} :
    s.trailer = some loaded → (Trailer.load config).eval store = .ok loaded
  cache {span : Span} {bytes : Bytes} :
    s.cache.get? span = some bytes → store.read span = .ok bytes

namespace Session

variable {store : Store} {config : Config}

theorem sound_new : (new config).Sound store config := ⟨rfl, nofun, nofun⟩

theorem Sound.of_eq {s s' : Session} (sound : s.Sound store config)
    (hconfig : s'.config = s.config) (htrailer : s'.trailer = s.trailer)
    (hcache : s'.cache = s.cache) : s'.Sound store config :=
  ⟨hconfig.trans sound.sameConfig, fun known => sound.trailer (htrailer ▸ known),
    fun cached => sound.cache (hcache ▸ cached)⟩

theorem Sound.count {s : Session} (sound : s.Sound store config) (request : Request) :
    (s.count request).Sound store config :=
  sound.of_eq (config_count ..) (trailer_count ..) (cache_count ..)

theorem Sound.receive {s : Session} (sound : s.Sound store config) (purpose : Purpose)
    {span : Span} {bytes : Bytes} (h : store.read span = .ok bytes) :
    (s.receive purpose span bytes).Sound store config := by
  refine ⟨(config_receive ..).trans sound.sameConfig, ?_, ?_⟩
  · intro loaded known
    rw [trailer_receive] at known
    exact sound.trailer known
  · intro other found cached
    rw [cache_receive] at cached
    split at cached
    · rw [ReadCache.get?_offer] at cached
      split at cached
      · rename_i taken
        cases cached
        rw [taken.2]
        exact h
      · exact sound.cache cached
    · exact sound.cache cached

theorem Sound.settle {s : Session} (sound : s.Sound store config)
    {loaded : Except FormatError Trailer}
    (h : (Trailer.load config).eval store = .ok loaded) :
    (s.settle loaded).Sound store config := by
  refine ⟨sound.sameConfig, ?_, sound.cache⟩
  rintro _ ⟨rfl⟩
  exact h

end Session

/-- On its way to what the plan comes to over the store. -/
def Course.Towards (store : Store) (excuse : Interruption → Prop) (target : α) :
    Course α → Prop
  | running rest => rest.eval store = .ok target
  | pending sent => sent.plan.eval store = .ok target
  | ended (.ok result) => result = target
  | ended (.error interruption) => excuse interruption

theorem Course.Towards.imp {store : Store} {excuse excuse' : Interruption → Prop}
    {target : α} {course : Course α}
    (himp : ∀ interruption, excuse interruption → excuse' interruption)
    (h : course.Towards store excuse target) : course.Towards store excuse' target := by
  rcases course with rest | sent | interruption | result
  · exact h
  · exact h
  · exact himp interruption h
  · exact h

section

variable {source : Source σ} {store : Store} {Excuse : Interruption → σ → Prop}
  {config : Config} {s s' : Session} {state state' : σ}

theorem Course.Step.excuse (serves : source.Serves store Excuse) {course course' : Course α}
    (h : Step source (course, s, state) (course', s', state')) {interruption : Interruption}
    (excused : Excuse interruption state) : Excuse interruption state' := by
  cases h with
  | done => exact excused
  | askLength => exact serves.excuse_ask excused
  | hit cached => exact excused
  | askRead missed => exact serves.excuse_ask excused
  | length reply => exact serves.excuse_length reply excused
  | read reply => exact serves.excuse_read reply excused
  | lengthFailed reply => exact serves.excuse_length reply excused
  | readFailed reply => exact serves.excuse_read reply excused

theorem Course.Step.sound (serves : source.Serves store Excuse)
    {course course' : Course α} (h : Step source (course, s, state) (course', s', state'))
    (sound : s.Sound store config) {target : α}
    (towards : course.Towards store (Excuse · state) target) :
    s'.Sound store config ∧ course'.Towards store (Excuse · state') target := by
  cases h with
  | done => exact ⟨sound, Except.ok.inj towards⟩
  | askLength => exact ⟨sound.count _, towards⟩
  | hit cached =>
      obtain ⟨bytes, hread, heval⟩ := Plan.read_of_eval towards
      have same := (sound.cache (Session.cached?_eq_some cached).2).symm.trans hread
      cases same
      exact ⟨sound.of_eq rfl rfl rfl, heval⟩
  | askRead missed => exact ⟨sound.count _, towards⟩
  | length reply =>
      obtain same | ⟨_, impossible, _⟩ := serves.length reply
      · cases same
        exact ⟨sound, towards⟩
      · cases impossible
  | read reply =>
      obtain ⟨bytes, hread, heval⟩ := Plan.read_of_eval towards
      obtain same | ⟨_, impossible, _⟩ := serves.read reply
      · rw [hread] at same
        cases same
        exact ⟨sound.receive _ hread, heval⟩
      · cases impossible
  | lengthFailed reply =>
      obtain impossible | ⟨_, same, excused⟩ := serves.length reply
      · cases impossible
      · cases same
        exact ⟨sound, excused⟩
  | readFailed reply =>
      obtain ⟨bytes, hread, _⟩ := Plan.read_of_eval towards
      obtain impossible | ⟨_, same, excused⟩ := serves.read reply
      · rw [hread] at impossible
        cases impossible
      · cases same
        exact ⟨sound, excused⟩

end

/-- A call that is over has come to what its query comes to by itself, or has an excuse. -/
def Activity.Sound (store : Store) (config : Config) (query : Query)
    (excuse : Interruption → Prop) : Activity → Prop
  | waiting => True
  | loading course =>
      ∃ loaded, (Trailer.load config).eval store = .ok loaded ∧
        course.Towards store excuse loaded
  | working course =>
      ∃ verdict, (query.whole config).eval store = .ok verdict ∧
        course.Towards store excuse verdict
  | finished (.ok verdict) => (query.whole config).eval store = .ok verdict
  | finished (.error interruption) => excuse interruption

theorem Activity.Sound.imp {store : Store} {config : Config} {query : Query}
    {excuse excuse' : Interruption → Prop} {activity : Activity}
    (himp : ∀ interruption, excuse interruption → excuse' interruption)
    (h : activity.Sound store config query excuse) :
    activity.Sound store config query excuse' := by
  rcases activity with _ | course | course | interruption | verdict
  · trivial
  · obtain ⟨loaded, hload, towards⟩ := h
    exact ⟨loaded, hload, towards.imp himp⟩
  · obtain ⟨verdict, heval, towards⟩ := h
    exact ⟨verdict, heval, towards.imp himp⟩
  · exact himp interruption h
  · exact h

structure Moment.Sound (blob : Bytes) (config : Config) (Excuse : Interruption → σ → Prop)
    (m : Moment σ) : Prop where
  session : m.session.Sound (Store.ofBytes blob) config
  parties {party : Party} : party ∈ m.parties →
    party.activity.Sound (Store.ofBytes blob) config party.query (Excuse · m.state)

section

variable {source : Source σ} {blob : Bytes} {Excuse : Interruption → σ → Prop}
  {config : Config}

theorem Activity.Step.excuse (serves : source.Serves (Store.ofBytes blob) Excuse)
    {query : Query} {activity activity' : Activity} {s s' : Session} {state state' : σ}
    (h : Step source query (activity, s, state) (activity', s', state'))
    {interruption : Interruption} (excused : Excuse interruption state) :
    Excuse interruption state' := by
  cases h with
  | enter known => exact excused
  | load h => exact h.excuse serves excused
  | settle => exact excused
  | giveUp => exact excused
  | work h => exact h.excuse serves excused
  | answer => exact excused
  | fail => exact excused

theorem Activity.Step.sound (serves : source.Serves (Store.ofBytes blob) Excuse)
    {query : Query} {activity activity' : Activity} {s s' : Session} {state state' : σ}
    (h : Step source query (activity, s, state) (activity', s', state'))
    (session : s.Sound (Store.ofBytes blob) config)
    (sound : activity.Sound (Store.ofBytes blob) config query (Excuse · state)) :
    s'.Sound (Store.ofBytes blob) config ∧
      activity'.Sound (Store.ofBytes blob) config query (Excuse · state') := by
  have entered {loaded : Except FormatError Trailer}
      (hload : (Trailer.load config).eval (Store.ofBytes blob) = .ok loaded) :
      (Activity.working (.running (query.plan s.config loaded))).Sound
        (Store.ofBytes blob) config query (Excuse · state) := by
    obtain ⟨verdict, heval⟩ := query.exists_eval_whole config blob
    refine ⟨verdict, heval, ?_⟩
    rw [session.sameConfig]
    exact (Query.eval_whole hload query).symm.trans heval
  cases h with
  | enter known => exact ⟨session, entered (session.trailer known)⟩
  | load h =>
      obtain ⟨loaded, hload, towards⟩ := sound
      obtain ⟨session', towards'⟩ := h.sound serves session towards
      exact ⟨session', loaded, hload, towards'⟩
  | settle =>
      obtain ⟨loaded, hload, rfl⟩ := sound
      exact ⟨session.settle hload, entered hload⟩
  | giveUp =>
      obtain ⟨_, _, excused⟩ := sound
      exact ⟨session, excused⟩
  | work h =>
      obtain ⟨verdict, heval, towards⟩ := sound
      obtain ⟨session', towards'⟩ := h.sound serves session towards
      exact ⟨session', verdict, heval, towards'⟩
  | answer =>
      obtain ⟨verdict, heval, rfl⟩ := sound
      exact ⟨session.of_eq (by simp) (by simp) (by simp), heval⟩
  | fail =>
      obtain ⟨_, _, excused⟩ := sound
      exact ⟨session, excused⟩

namespace Moment

theorem Sound.start {m : Moment σ} (h : m.Sound blob config Excuse) (query : Query) :
    (m.start query).Sound blob config Excuse := by
  refine ⟨h.session.of_eq (by simp [Moment.start]) (by simp [Moment.start])
    (by simp [Moment.start]), ?_⟩
  intro party member
  rcases List.mem_append.mp member with old | new
  · exact h.parties old
  · rw [List.mem_singleton.mp new]
    trivial

theorem Sound.put {m : Moment σ} (h : m.Sound blob config Excuse) {caller : Nat}
    {query : Query} {place : Activity × Session × σ}
    (session : place.2.1.Sound (Store.ofBytes blob) config)
    (sound : place.1.Sound (Store.ofBytes blob) config query (Excuse · place.2.2))
    (himp : ∀ interruption, Excuse interruption m.state → Excuse interruption place.2.2) :
    (m.put caller query place).Sound blob config Excuse := by
  refine ⟨session, ?_⟩
  intro party member
  rcases List.mem_or_eq_of_mem_set member with old | rfl
  · exact (h.parties old).imp himp
  · exact sound

theorem Step.sound (serves : source.Serves (Store.ofBytes blob) Excuse) {m m' : Moment σ}
    (sound : m.Sound blob config Excuse) (h : Step source m m') :
    m'.Sound blob config Excuse := by
  cases h with
  | begin party empty free =>
      obtain ⟨loaded, hload⟩ := Trailer.exists_eval_load config blob
      refine sound.put sound.session ⟨loaded, hload, ?_⟩ fun _ excused => excused
      rw [sound.session.sameConfig]
      exact hload
  | @call caller query activity place party h =>
      obtain ⟨activity', s', state'⟩ := place
      have alone := sound.parties (List.mem_of_getElem? party)
      obtain ⟨session, alone'⟩ := h.sound serves sound.session alone
      exact sound.put session alone' fun _ excused => h.excuse serves excused

end Moment

namespace Session

/-- A query leaves a sound session sound, and its reply is what the query
comes to, or has an excuse. -/
theorem Sound.ask (serves : source.Serves (Store.ofBytes blob) Excuse) {s : Session}
    (sound : s.Sound (Store.ofBytes blob) config) (query : Query) (state : σ) :
    let out := s.ask source query state
    out.2.1.Sound (Store.ofBytes blob) config ∧
      (Activity.finished out.1).Sound (Store.ofBytes blob) config query
      (Excuse · out.2.2) := by
  have first : Moment.Sound blob config Excuse ⟨s, [], state⟩ := ⟨sound, nofun⟩
  have last := Moment.keeps_of_steps (Moment.Sound blob config Excuse)
    (Moment.Step.sound serves)
    (ask_steps source query s state rfl).to_reflTransGen (first.start query)
  exact ⟨last.session, last.parties (List.mem_singleton_self _)⟩

theorem Sound.askAll (serves : source.Serves (Store.ofBytes blob) Excuse) {s : Session}
    (sound : s.Sound (Store.ofBytes blob) config) (queries : List Query) (state : σ) :
    (askAll source queries s state).2.1.Sound (Store.ofBytes blob) config := by
  induction queries generalizing s state with
  | nil => exact sound
  | cons query rest ih => exact ih (sound.ask serves query state).1 _

theorem Sound.ask_eval {s : Session} (sound : s.Sound (Store.ofBytes blob) config)
    {query : Query} {verdict : Verdict}
    (h : (query.whole config).eval (Store.ofBytes blob) = .ok verdict) :
    (s.ask (Store.ofBytes blob).source query ()).1 = .ok verdict := by
  have reply := (sound.ask (Store.ofBytes blob).serves_source query ()).2
  rcases hreply : (s.ask (Store.ofBytes blob).source query ()).1 with interruption | found
  · rw [hreply] at reply
    exact reply.elim
  · rw [hreply] at reply
    have same : Except.ok verdict = Except.ok found := h.symm.trans reply
    rw [Except.ok.inj same]

theorem Sound.askAll_eval {s : Session} (sound : s.Sound (Store.ofBytes blob) config)
    {query : α → Query} {verdict : α → Verdict}
    (h : ∀ a, ((query a).whole config).eval (Store.ofBytes blob) = .ok (verdict a))
    (args : List α) :
    (Session.askAll (Store.ofBytes blob).source (args.map query) s ()).1 =
      args.map fun a => .ok (verdict a) := by
  induction args generalizing s with
  | nil => rfl
  | cons first rest ih =>
      have later := ih (sound.ask (Store.ofBytes blob).serves_source (query first) ()).1
      simp only [List.map_cons, Session.askAll, sound.ask_eval (h first), later]

end Session

/-- Where the store itself answers, a call that is over has come to the
verdict of its query. -/
theorem Moment.Sound.exists_verdict {m : Moment Unit}
    (sound : m.Sound blob config fun _ _ => False) {party : Party}
    (member : party ∈ m.parties) (isOver : ∃ reply, party.activity = .finished reply) :
    ∃ verdict, party.activity = .finished (.ok verdict) ∧
      (party.query.whole config).eval (Store.ofBytes blob) = .ok verdict := by
  have alone := sound.parties member
  obtain ⟨interruption | verdict, finished⟩ := isOver
  · rw [finished] at alone
    exact alone.elim
  · rw [finished] at alone
    exact ⟨verdict, finished, alone⟩

end

end SortedBlob
