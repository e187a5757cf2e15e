import SortedBlob.Proofs.Discipline
import SortedBlob.Proofs.Soundness

/-!
Calls over a store that answers everything: what each has still to ask and to hear, what a
step takes off that (`Course.Step.account`), and what the counters of a session say at every
moment (`Moment.Counted`).
-/

namespace SortedBlob

variable {α : Type}

namespace Course

/-- The requests that are still to be answered. -/
def toHear (store : Store) : Course α → List Request
  | running rest => rest.requests store
  | pending sent => sent.plan.requests store
  | ended _ => []

/-- The requests that are still to be sent. -/
def toAsk (store : Store) : Course α → List Request
  | running rest => rest.requests store
  | pending sent => (sent.plan.requests store).tail
  | ended _ => []

def isOpen : Course α → Bool
  | ended _ => false
  | _ => true

/-- How a step changes the session, by what it takes off what there is
to ask and to hear. -/
inductive Account (store : Store) (course course' : Course α) (s : Session) : Session → Prop
  | still (isOver : course'.isOpen = false) (ask : course'.toAsk store = course.toAsk store)
      (hear : course'.toHear store = course.toHear store) : Account store course course' s s
  | asked {request : Request} (ask : course.toAsk store = request :: course'.toAsk store)
      (hear : course'.toHear store = course.toHear store) :
      Account store course course' s (s.count request)
  | hit {span : Span} {bytes : Bytes}
      (ask : course.toAsk store = .read .index span :: course'.toAsk store)
      (hear : course.toHear store = .read .index span :: course'.toHear store)
      (cached : s.cache.get? span = some bytes) : Account store course course' s s.countHit
  | length (ask : course'.toAsk store = course.toAsk store)
      (hear : course.toHear store = .length :: course'.toHear store) :
      Account store course course' s s
  | read {purpose : Purpose} {span : Span} {bytes : Bytes}
      (ask : course'.toAsk store = course.toAsk store)
      (hear : course.toHear store = .read purpose span :: course'.toHear store)
      (answered : store.read span = .ok bytes) :
      Account store course course' s (s.receive purpose span bytes)

theorem Step.account {store : Store} {config : Config} {course course' : Course α}
    {target : α} {s s' : Session}
    (h : Step store.source (course, s, ()) (course', s', ()))
    (sound : s.Sound store config)
    (towards : course.Towards store (fun _ => False) target) :
    Account store course course' s s' := by
  cases h with
  | done => exact .still rfl rfl rfl
  | askLength => exact .asked rfl rfl
  | @hit purpose span next bytes _ _ cached =>
      obtain ⟨rfl, known⟩ := Session.cached?_eq_some cached
      have requests := Plan.requests_read (sound.cache known) .index next
      exact .hit requests requests known
  | @askRead purpose span next _ _ missed =>
      obtain ⟨bytes, answered, _⟩ := Plan.read_of_eval towards
      have requests := Plan.requests_read answered purpose next
      refine .asked ?_ rfl
      simp only [toAsk, Pending.plan, requests, List.tail_cons]
  | length reply =>
      cases reply
      exact .length rfl rfl
  | @read purpose span next bytes _ _ _ reply =>
      obtain ⟨found, answered, _⟩ := Plan.read_of_eval towards
      have same : bytes = found := by
        have reply := (Prod.ext_iff.mp reply).1
        simp only [Store.source, answered] at reply
        exact (Except.ok.inj reply).symm
      subst same
      have requests := Plan.requests_read answered purpose next
      exact .read (by simp only [toAsk, Pending.plan, requests, List.tail_cons]) requests
        answered
  | lengthFailed reply => cases reply
  | readFailed reply =>
      obtain ⟨found, answered, _⟩ := Plan.read_of_eval towards
      have reply := (Prod.ext_iff.mp reply).1
      simp only [Store.source, answered] at reply
      cases reply

theorem From.toHear {P : Request → Prop} {plan : Plan α} (asks : plan.Asks P)
    {course : Course α} (origin : course.From plan) (store : Store) :
    ∀ request ∈ course.toHear store, P request := by
  cases course with
  | running rest => exact (asks.leads origin).requests store
  | pending sent => exact (asks.leads origin).requests store
  | ended reply => exact nofun

theorem mem_toHear_of_mem_toAsk {store : Store} {course : Course α} {request : Request}
    (h : request ∈ course.toAsk store) : request ∈ course.toHear store := by
  cases course with
  | running rest => exact h
  | pending sent => exact List.mem_of_mem_tail h
  | ended reply => exact h

end Course

/-! The counters of a load. -/

namespace Request

def isLength : Request → Bool
  | .length => true
  | .read _ _ => false

def readsTrailer : Request → Bool
  | .read .trailer _ => true
  | _ => false

theorem not_isLength {request : Request} (h : request.isOfLoad = false) :
    ¬ request.isLength = true := by
  cases request with
  | length => cases h
  | read purpose span => exact nofun

theorem not_readsTrailer {request : Request} (h : request.isOfLoad = false) :
    ¬ request.readsTrailer = true := by
  cases request with
  | length => exact nofun
  | read purpose span =>
      cases purpose with
      | trailer => cases h
      | index => simp [readsTrailer]
      | value => simp [readsTrailer]

end Request

section

variable {store : Store} {course course' : Course α} {s s' : Session}

theorem Course.Account.lengthCalls (h : Account store course course' s s') :
    s'.stats.lengthCalls + (course'.toAsk store).countP Request.isLength =
      s.stats.lengthCalls + (course.toAsk store).countP Request.isLength := by
  cases h with
  | still isOver ask hear => rw [ask]
  | @asked request ask hear =>
      rw [ask, List.countP_cons]
      cases request with
      | length =>
          simp only [Session.count, Request.isLength, if_true]
          omega
      | read purpose span => simp [Session.count, Request.isLength]
  | hit ask hear cached => simp [ask, Session.countHit, Request.isLength]
  | length ask hear => rw [ask]
  | @read purpose span bytes ask hear answered =>
      rw [ask]
      cases purpose <;> rfl

theorem Course.Account.trailerLoads (h : Account store course course' s s') :
    s'.stats.trailerLoads + (course'.toHear store).countP Request.readsTrailer =
      s.stats.trailerLoads + (course.toHear store).countP Request.readsTrailer := by
  cases h with
  | still isOver ask hear => rw [hear]
  | @asked request ask hear =>
      rw [hear]
      cases request <;> rfl
  | hit ask hear cached => simp [hear, Session.countHit, Request.readsTrailer]
  | length ask hear => simp [hear, Request.readsTrailer]
  | @read purpose span bytes ask hear answered =>
      rw [hear, List.countP_cons]
      cases purpose with
      | trailer =>
          simp only [Session.receive, Request.readsTrailer, if_true]
          omega
      | index => simp [Session.receive, Request.readsTrailer]
      | value => simp [Session.receive, Request.readsTrailer]

end

def Activity.loadToAsk (store : Store) (config : Config) : Activity → List Request
  | loading course => course.toAsk store
  | _ => (Trailer.load config).requests store

def Activity.loadToHear (store : Store) (config : Config) : Activity → List Request
  | loading course => course.toHear store
  | _ => (Trailer.load config).requests store

def Store.loadLengths (store : Store) (config : Config) : Nat :=
  ((Trailer.load config).requests store).countP Request.isLength

def Store.loadReads (store : Store) (config : Config) : Nat :=
  ((Trailer.load config).requests store).countP Request.readsTrailer

/-- What was counted of the one load, as far as one call can tell. -/
structure Session.Counted (store : Store) (config : Config) (activity : Activity)
    (s : Session) :
    Prop where
  settled {loaded : Except FormatError Trailer} : s.trailer = some loaded →
    s.stats.lengthCalls = store.loadLengths config ∧
      s.stats.trailerLoads = store.loadReads config
  unsettled : s.trailer = none →
    s.stats.lengthCalls + (activity.loadToAsk store config).countP Request.isLength =
        store.loadLengths config ∧
      s.stats.trailerLoads +
          (activity.loadToHear store config).countP Request.readsTrailer =
        store.loadReads config

section

variable {blob : Bytes} {config : Config} {query : Query} {activity activity' : Activity}
  {s s' : Session}

theorem Course.Account.counted {store : Store} {course course' : Course Verdict}
    {loaded : Except FormatError Trailer} (h : Account store course course' s s')
    (origin : course.From (query.plan config loaded))
    (origin' : course'.From (query.plan config loaded)) :
    s'.stats.lengthCalls = s.stats.lengthCalls ∧
      s'.stats.trailerLoads = s.stats.trailerLoads := by
  have asks := query.plan_asks_isOfLoad config loaded
  have lengths {course : Course Verdict} (origin : course.From (query.plan config loaded)) :
      (course.toAsk store).countP Request.isLength = 0 :=
    List.countP_eq_zero.mpr fun request member =>
      Request.not_isLength
        (origin.toHear asks store request (mem_toHear_of_mem_toAsk member))
  have reads {course : Course Verdict} (origin : course.From (query.plan config loaded)) :
      (course.toHear store).countP Request.readsTrailer = 0 :=
    List.countP_eq_zero.mpr fun request member =>
      Request.not_readsTrailer (origin.toHear asks store request member)
  have lengthCalls := h.lengthCalls
  have trailerLoads := h.trailerLoads
  rw [lengths origin, lengths origin'] at lengthCalls
  rw [reads origin, reads origin'] at trailerLoads
  exact ⟨lengthCalls, trailerLoads⟩

theorem Activity.Step.counted
    (h : Step (Store.ofBytes blob).source query (activity, s, ()) (activity', s', ()))
    (session : s.Sound (Store.ofBytes blob) config)
    (sound : activity.Sound (Store.ofBytes blob) config query fun _ => False)
    (uses : activity.Uses config query s.trailer)
    (counted : s.Counted (Store.ofBytes blob) config activity) :
    s'.Counted (Store.ofBytes blob) config activity' := by
  have settled {s' : Session} {activity' : Activity} {loaded : Except FormatError Trailer}
      (known : s'.trailer = some loaded)
      (counts : s'.stats.lengthCalls = (Store.ofBytes blob).loadLengths config ∧
        s'.stats.trailerLoads = (Store.ofBytes blob).loadReads config) :
      s'.Counted (Store.ofBytes blob) config activity' :=
    ⟨fun _ => counts, fun empty => by rw [known] at empty; cases empty⟩
  cases h with
  | enter known => exact settled known (counted.settled known)
  | @load course course' _ _ _ _ h =>
      obtain ⟨loaded, _, towards⟩ := sound
      have account := h.account session towards
      have empty : s'.trailer = none := h.trailer_eq.trans uses.1
      refine ⟨fun known => ?_, fun _ => ?_⟩
      · rw [empty] at known
        cases known
      · obtain ⟨lengths, reads⟩ := counted.unsettled uses.1
        exact ⟨account.lengthCalls.trans lengths, account.trailerLoads.trans reads⟩
  | settle => exact settled rfl (counted.unsettled uses.1)
  | giveUp =>
      obtain ⟨_, _, impossible⟩ := sound
      exact impossible.elim
  | work h =>
      obtain ⟨_, _, towards⟩ := sound
      obtain ⟨loaded, known, origin⟩ := uses
      obtain ⟨lengths, reads⟩ := (h.account session towards).counted origin (h.from origin)
      obtain ⟨counts, counts'⟩ := counted.settled known
      exact settled (h.trailer_eq.trans known) ⟨lengths.trans counts, reads.trans counts'⟩
  | answer =>
      obtain ⟨loaded, known, _⟩ := uses
      apply settled ((Session.trailer_countEnd ..).trans known)
      rw [Session.lengthCalls_countEnd, Session.trailerLoads_countEnd]
      exact counted.settled known
  | fail =>
      obtain ⟨_, _, impossible⟩ := sound
      exact impossible.elim

end

namespace Moment

variable {store : Store} {blob : Bytes} {config : Config} {m m' : Moment Unit}

/-- What was counted of the one load at a moment: it is over, one call is at
it, or it has not begun. -/
structure Counted (store : Store) (config : Config) (m : Moment Unit) : Prop where
  settled {loaded : Except FormatError Trailer} : m.session.trailer = some loaded →
    m.session.stats.lengthCalls = store.loadLengths config ∧
      m.session.stats.trailerLoads = store.loadReads config
  busy {caller : Nat} {party : Party} : m.parties[caller]? = some party →
    party.activity.isLoading = true → m.session.Counted store config party.activity
  idle : m.session.trailer = none → m.isLoading = false →
    m.session.stats.lengthCalls = 0 ∧ m.session.stats.trailerLoads = 0

variable {caller : Nat} {query : Query} {activity : Activity}
  {place : Activity × Session × Unit}

theorem Counted.alone (h : m.Counted store config) (others : m.OthersIdle caller)
    (party : m.parties[caller]? = some ⟨query, activity⟩) :
    m.session.Counted store config activity := by
  cases loads : activity.isLoading with
  | true => exact h.busy party loads
  | false =>
      refine ⟨h.settled, fun empty => ?_⟩
      have free : m.isLoading = false := by
        apply List.any_eq_false.mpr
        intro second member
        obtain ⟨other, hother⟩ := List.getElem?_of_mem member
        by_cases same : other = caller
        · subst same
          rw [party] at hother
          cases hother
          simp [loads]
        · simp [others hother same]
      obtain ⟨lengths, reads⟩ := h.idle empty free
      rw [lengths, reads, Nat.zero_add, Nat.zero_add]
      cases activity with
      | loading course => cases loads
      | _ => exact ⟨rfl, rfl⟩

theorem Counted.put (h : place.2.1.Counted store config place.1)
    (others : m.OthersIdle caller) (party : m.parties[caller]? = some ⟨query, activity⟩) :
    (m.put caller query place).Counted store config := by
  refine ⟨h.settled, ?_, ?_⟩
  · intro other second member loads
    rcases party_put member with ⟨_, rfl⟩ | ⟨distinct, old⟩
    · exact h
    · rw [others old distinct] at loads
      cases loads
  · intro empty free
    have silent := List.any_eq_false.mp free _
      (List.mem_of_getElem? (getElem?_put party query place))
    obtain ⟨lengths, reads⟩ := h.unsettled empty
    cases hactivity : place.1 with
    | loading course => simp [hactivity, Activity.isLoading] at silent
    | _ =>
        rw [hactivity] at lengths reads
        exact ⟨Nat.add_eq_right.mp lengths, Nat.add_eq_right.mp reads⟩

theorem counted_new (store : Store) (config : Config) :
    Counted store config ⟨Session.new config, [], ()⟩ :=
  ⟨nofun, nofun, fun _ _ => ⟨rfl, rfl⟩⟩

theorem Counted.start (h : m.Counted store config) (query : Query) :
    (m.start query).Counted store config := by
  have lengths := m.session.lengthCalls_countStart query
  have reads := m.session.trailerLoads_countStart query
  have trailer := m.session.trailer_countStart query
  refine ⟨fun known => ?_, ?_, fun empty free => ?_⟩
  · rw [Moment.start, lengths, reads]
    exact h.settled (trailer.symm.trans known)
  · intro caller party member loads
    rcases party_start member with old | ⟨_, rfl⟩
    · obtain ⟨settled, unsettled⟩ := h.busy old loads
      simp only [← lengths, ← reads, ← trailer] at settled unsettled
      exact ⟨settled, unsettled⟩
    · cases loads
  · rw [Moment.start, lengths, reads]
    apply h.idle (trailer.symm.trans empty)
    simpa [Moment.start, isLoading, Activity.isLoading] using free

theorem Step.counted (sound : m.Sound blob config fun _ _ => False)
    (disciplined : m.Disciplined config) (counted : m.Counted (Store.ofBytes blob) config)
    (h : Step (Store.ofBytes blob).source m m') :
    m'.Counted (Store.ofBytes blob) config := by
  cases h with
  | @begin caller query party empty free =>
      have others := othersIdle_of_isLoading free caller
      have alone := counted.alone others party
      refine Counted.put ⟨alone.settled, fun empty => ?_⟩ others party
      rw [disciplined.sameConfig]
      exact alone.unsettled empty
  | call party h =>
      have uses := disciplined.uses party
      have others := disciplined.othersIdle party (h.loading_or_settled uses)
      have alone := sound.parties (List.mem_of_getElem? party)
      exact Counted.put (h.counted sound.session alone uses (counted.alone others party))
        others party

end Moment

/-! The counters of queries, whatever the source answers. -/

def Activity.isFound : Activity → Bool
  | finished (.ok verdict) => verdict.isFound
  | _ => false

section

variable {σ : Type} {source : Source σ}

theorem Course.Step.tally {course course' : Course α} {s s' : Session} {state state' : σ}
    (h : Step source (course, s, state) (course', s', state')) :
    s'.stats.lookups = s.stats.lookups ∧ s'.stats.found = s.stats.found := by
  cases h with
  | @read purpose _ _ _ _ _ _ reply => cases purpose <;> exact ⟨rfl, rfl⟩
  | _ => exact ⟨rfl, rfl⟩

theorem Activity.Step.tally {query : Query} {activity activity' : Activity}
    {s s' : Session} {state state' : σ}
    (h : Step source query (activity, s, state) (activity', s', state')) :
    s'.stats.lookups = s.stats.lookups ∧
      s'.stats.found = s.stats.found + (if activity'.isFound then 1 else 0) ∧
      activity.isFound = false := by
  cases h with
  | load h => exact ⟨h.tally.1, h.tally.2, rfl⟩
  | work h => exact ⟨h.tally.1, h.tally.2, rfl⟩
  | @answer verdict s _ =>
      refine ⟨?_, ?_, rfl⟩
      · unfold Session.countEnd
        split <;> rfl
      · unfold Session.countEnd isFound
        split <;> rfl
  | _ => exact ⟨rfl, rfl, rfl⟩

namespace Moment

structure Tallied (m : Moment σ) : Prop where
  lookups : m.session.stats.lookups = (m.parties.map Party.query).countP Query.isLookup
  found : m.session.stats.found = m.parties.countP fun party => party.activity.isFound

variable {m m' : Moment σ} {caller : Nat} {query : Query} {activity : Activity}

theorem Tallied.put {place : Activity × Session × σ} (h : m.Tallied)
    (party : m.parties[caller]? = some ⟨query, activity⟩)
    (lookups : place.2.1.stats.lookups = m.session.stats.lookups)
    (found : place.2.1.stats.found =
      m.session.stats.found + if place.1.isFound then 1 else 0)
    (before : activity.isFound = false) : (m.put caller query place).Tallied := by
  obtain ⟨inside, same⟩ := List.getElem?_eq_some_iff.mp party
  refine ⟨?_, ?_⟩
  · rw [queries_put party place]
    exact lookups.trans h.lookups
  · simp only [Moment.put, found, h.found, List.countP_set inside, same, before]
    simp

theorem Tallied.start (h : m.Tallied) (query : Query) : (m.start query).Tallied := by
  refine ⟨?_, ?_⟩
  · simp only [Moment.start, List.map_append, List.countP_append, ← h.lookups]
    unfold Session.countStart
    split <;> rename_i asked <;> simp [asked]
  · simp only [Moment.start, List.countP_append, ← h.found]
    unfold Session.countStart
    split <;> rfl

theorem Tallied.drop (h : m.Tallied) {stage : Stage}
    (party : m.parties[caller]? = some ⟨query, stage.activity⟩) :
    (m.put caller query (stage.dropped.activity, m.session, m.state)).Tallied := by
  cases stage with
  | finished result =>
      obtain ⟨inside, same⟩ := List.getElem?_eq_some_iff.mp party
      have kept : m.put caller query (.finished result, m.session, m.state) = m := by
        rw [Moment.put, ← show m.parties[caller] = ⟨query, .finished result⟩ from same,
          List.set_getElem_self]
      rw [show (Stage.finished result).dropped.activity = .finished result from rfl, kept]
      exact h
  | _ => exact h.put party rfl rfl rfl

theorem Step.tallied (tallied : m.Tallied) (h : Step source m m') : m'.Tallied := by
  cases h with
  | begin party empty free => exact tallied.put party rfl rfl rfl
  | call party h =>
      obtain ⟨lookups, found, before⟩ := h.tally
      exact tallied.put party lookups found before

end Moment

end

end SortedBlob
