import Mathlib.Algebra.GroupWithZero.Nat
import SortedBlob.Proofs.Accounts

/-!
Calls over a store that answers everything come to their end when each gets its turns. What
is left to do is a number (`Moment.potential`) that every step lowers, and among calls that
are not over there is always one that can take a step.
-/

namespace SortedBlob

open Relation

variable {α : Type}

def Course.weight (store : Store) (course : Course α) : Nat :=
  (course.toHear store).length + (course.toAsk store).length +
    if course.isOpen then 1 else 0

theorem Course.Step.isOpen {store : Store} {course : Course α} {s : Session}
    {place : Course α × Session × Unit} (h : Step store.source (course, s, ()) place) :
    course.isOpen = true := by
  cases h <;> rfl

theorem Course.weight_le (store : Store) (course : Course α) :
    course.weight store ≤
      (course.toHear store).length + (course.toAsk store).length + 1 := by
  unfold weight
  split <;> omega

theorem Course.Step.weight_lt {store : Store} {config : Config}
    {course course' : Course α} {target : α} {s s' : Session}
    (h : Step store.source (course, s, ()) (course', s', ()))
    (sound : s.Sound store config)
    (towards : course.Towards store (fun _ => False) target) :
    course'.weight store < course.weight store := by
  have before : course.weight store =
      (course.toHear store).length + (course.toAsk store).length + 1 := by
    rw [weight, h.isOpen]
    rfl
  have after := course'.weight_le store
  have account := h.account sound towards
  rw [before]
  cases account with
  | still isOver ask hear =>
      rw [weight, isOver, ask, hear]
      exact Nat.lt_succ_self _
  | asked ask hear =>
      rw [ask, ← hear, List.length_cons]
      omega
  | hit ask hear cached =>
      rw [ask, hear, List.length_cons, List.length_cons]
      omega
  | length ask hear =>
      rw [← ask, hear, List.length_cons]
      omega
  | read ask hear answered =>
      rw [← ask, hear, List.length_cons]
      omega

/-- What is left to do for a call. A load is followed by the work,
which is why it weighs more. -/
def Activity.weight (store : Store) (config : Config) (query : Query) : Activity → Nat
  | waiting => 4 * ((query.whole config).requests store).length + 5
  | loading course =>
    course.weight store + 2 * ((query.whole config).requests store).length + 3
  | working course => course.weight store + 1
  | finished _ => 0

theorem Query.length_requests_whole {store : Store} {config : Config}
    {loaded : Except FormatError Trailer}
    (h : (Trailer.load config).eval store = .ok loaded) (query : Query) :
    ((query.whole config).requests store).length =
      ((Trailer.load config).requests store).length +
        ((query.plan config loaded).requests store).length := by
  rw [whole, Plan.requests_bind h, List.length_append]

section

variable {blob : Bytes} {config : Config} {query : Query} {activity activity' : Activity}
  {s s' : Session}

/-- The work that follows a load weighs no more than was set aside for it. -/
theorem Activity.weight_working_le {store : Store} {loaded : Except FormatError Trailer}
    (h : (Trailer.load config).eval store = .ok loaded) (query : Query) :
    (working (.running (query.plan config loaded))).weight store config query ≤
      2 * ((query.whole config).requests store).length + 2 := by
  rw [query.length_requests_whole h]
  simp only [weight, Course.weight, Course.toHear, Course.toAsk, Course.isOpen, if_true]
  omega

theorem Activity.Step.weight_lt
    (h : Step (Store.ofBytes blob).source query (activity, s, ()) (activity', s', ()))
    (session : s.Sound (Store.ofBytes blob) config)
    (sound : activity.Sound (Store.ofBytes blob) config query fun _ => False) :
    activity'.weight (Store.ofBytes blob) config query <
      activity.weight (Store.ofBytes blob) config query := by
  cases h with
  | enter known =>
      have work := weight_working_le (session.trailer known) query
      rw [session.sameConfig]
      simp only [weight] at work ⊢
      omega
  | load h =>
      obtain ⟨_, _, towards⟩ := sound
      have lighter := h.weight_lt session towards
      simp only [weight]
      omega
  | settle =>
      obtain ⟨_, hload, rfl⟩ := sound
      have work := weight_working_le hload query
      rw [session.sameConfig]
      simp only [weight] at work ⊢
      omega
  | giveUp =>
      obtain ⟨_, _, impossible⟩ := sound
      exact impossible.elim
  | work h =>
      obtain ⟨_, _, towards⟩ := sound
      have lighter := h.weight_lt session towards
      simp only [weight]
      omega
  | answer => exact Nat.succ_pos _
  | fail => exact Nat.succ_pos _

end

theorem sum_map_set {α : Type} {f : α → Nat} {xs : List α} {position : Nat} {old : α}
    (h : xs[position]? = some old) (new : α) :
    ((xs.set position new).map f).sum + f old = (xs.map f).sum + f new := by
  induction xs generalizing position with
  | nil => cases h
  | cons first rest ih =>
      cases position with
      | zero =>
          cases h
          simp only [List.set_cons_zero, List.map_cons, List.sum_cons]
          omega
      | succ position =>
          have later := ih h
          simp only [List.set_cons_succ, List.map_cons, List.sum_cons]
          omega

namespace Moment

def potential (store : Store) (config : Config) (m : Moment Unit) : Nat :=
  (m.parties.map fun party => party.activity.weight store config party.query).sum

variable {blob : Bytes} {config : Config} {m m' : Moment Unit}

theorem potential_put_lt {store : Store} {caller : Nat} {query : Query}
    {activity : Activity} {place : Activity × Session × Unit}
    (party : m.parties[caller]? = some ⟨query, activity⟩)
    (lighter : place.1.weight store config query < activity.weight store config query) :
    (m.put caller query place).potential store config < m.potential store config := by
  have exchanged := sum_map_set
    (f := fun party => party.activity.weight store config party.query) party
    ⟨query, place.1⟩
  simp only [potential, Moment.put]
  simp only at exchanged
  omega

theorem Step.potential_lt (sound : m.Sound blob config fun _ _ => False)
    (disciplined : m.Disciplined config) (h : Step (Store.ofBytes blob).source m m') :
    m'.potential (Store.ofBytes blob) config < m.potential (Store.ofBytes blob) config := by
  cases h with
  | @begin caller query party empty free =>
      apply potential_put_lt party
      obtain ⟨loaded, hload⟩ := Trailer.exists_eval_load config blob
      rw [disciplined.sameConfig]
      simp only [Activity.weight, Course.weight, Course.toHear, Course.toAsk, Course.isOpen,
        if_true, query.length_requests_whole hload]
      omega
  | call party h =>
      exact potential_put_lt party
        (h.weight_lt sound.session (sound.parties (List.mem_of_getElem? party)))

def Orderly (blob : Bytes) (config : Config) (m : Moment Unit) : Prop :=
  m.Sound blob config (fun _ _ => False) ∧ m.Disciplined config

theorem Step.orderly (orderly : m.Orderly blob config)
    (h : Step (Store.ofBytes blob).source m m') : m'.Orderly blob config :=
  ⟨h.sound (Store.ofBytes blob).serves_source orderly.1, h.disciplined orderly.2⟩

theorem potential_lt_of_steps (orderly : m.Orderly blob config)
    (h : TransGen (Step (Store.ofBytes blob).source) m m') :
    m'.potential (Store.ofBytes blob) config < m.potential (Store.ofBytes blob) config := by
  induction h with
  | single step => exact step.potential_lt orderly.1 orderly.2
  | tail steps step ih =>
      have between := keeps_of_steps (Orderly blob config) Step.orderly
        steps.to_reflTransGen orderly
      exact (step.potential_lt between.1 between.2).trans ih

end Moment

/-- A round gives every caller at least one turn, in any order, and
nothing else happens in it. -/
structure IsRound (callers : Nat) (round : List Event) : Prop where
  turns {event : Event} : event ∈ round → ∃ caller, event = .turn caller
  fair {caller : Nat} : caller < callers → .turn caller ∈ round

namespace Crew

def Finished (crew : Crew) : Prop := ∀ call ∈ crew.calls, call.stage.result?.isSome = true

instance (crew : Crew) : Decidable crew.Finished :=
  inferInstanceAs (Decidable (∀ call ∈ crew.calls, call.stage.result?.isSome = true))

theorem Finished.exists_reply {crew : Crew} (h : crew.Finished) {call : Call}
    (member : call ∈ crew.calls) : ∃ reply, call.stage = .finished reply := by
  obtain ⟨reply, isOver⟩ := Option.isSome_iff_exists.mp (h call member)
  exact ⟨reply, Stage.result?_eq_some_iff.mp isOver⟩

variable {σ : Type} {source : Source σ} {crew : Crew × σ}

/-- While some call is not over, some call can take a step: if they all wait, one of them
may load, and if the trailer is being loaded, the one that loads it can go on. -/
theorem exists_canTurn (h : ¬ crew.1.Finished) :
    ∃ (caller : Nat) (call : Call),
      crew.1.calls[caller]? = some call ∧ crew.1.CanTurn call := by
  simp only [Finished, not_forall] at h
  obtain ⟨call, member, unfinished⟩ := h
  obtain ⟨caller, hcall⟩ := List.getElem?_of_mem member
  by_cases can : crew.1.CanTurn call
  · exact ⟨caller, call, hcall, can⟩
  · cases hstage : call.stage with
    | waiting =>
        have busy : crew.1.isLoading = true := by
          simp only [CanTurn, hstage, Classical.not_imp] at can
          simpa using can.2
        obtain ⟨loader, inside, loads⟩ := List.any_eq_true.mp busy
        obtain ⟨other, hother⟩ := List.getElem?_of_mem inside
        refine ⟨other, loader, hother, ?_⟩
        cases hloader : loader.stage with
        | loading sent => simp [CanTurn, hloader]
        | _ => simp [hloader, Stage.isLoading] at loads
    | loading sent => exact absurd (by simp [CanTurn, hstage]) can
    | working sent => exact absurd (by simp [CanTurn, hstage]) can
    | finished reply => simp [hstage, Stage.result?] at unfinished

theorem length_turn (source : Source σ) (crew : Crew × σ) (caller : Nat) :
    (crew.1.turn source crew.2 caller).1.calls.length = crew.1.calls.length := by
  unfold turn
  split
  · rfl
  · exact List.length_set

/-- A goal that turns lead to, whoever has them: short of it, one that can be
taken lowers the measure. -/
structure Approaches (source : Source σ) (Keeps Goal : Crew × σ → Prop)
    (measure : Crew × σ → Nat) : Prop where
  keep {crew : Crew × σ} (caller : Nat) : Keeps crew →
    Keeps (crew.1.turn source crew.2 caller)
  stay {crew : Crew × σ} (caller : Nat) :
    Keeps crew → Goal crew → Goal (crew.1.turn source crew.2 caller)
  reached {crew : Crew × σ} : crew.1.Finished → Goal crew
  lower {crew : Crew × σ} {caller : Nat} {call : Call} : Keeps crew → ¬ Goal crew →
    crew.1.calls[caller]? = some call → crew.1.CanTurn call →
      measure (crew.1.turn source crew.2 caller) < measure crew

namespace Approaches

variable {Keeps Goal : Crew × σ → Prop} {measure : Crew × σ → Nat}

/-- Turns lead to the goal, or lower the measure, or change nothing
because none can be taken. -/
theorem play_turns (h : Approaches source Keeps Goal measure) {events : List Event}
    (turns : ∀ event ∈ events, ∃ caller, event = .turn caller) (keeps : Keeps crew) :
    let after := play source events crew
    Keeps after ∧ after.1.calls.length = crew.1.calls.length ∧ (Goal crew → Goal after) ∧
      (Goal after ∨ measure after < measure crew ∨
        after = crew ∧ ∀ caller call, .turn caller ∈ events →
          crew.1.calls[caller]? = some call → ¬ crew.1.CanTurn call) := by
  induction events generalizing crew with
  | nil => exact ⟨keeps, rfl, id, .inr (.inr ⟨rfl, nofun⟩)⟩
  | cons event rest ih =>
      obtain ⟨caller, rfl⟩ := turns event (List.mem_cons_self ..)
      obtain ⟨keeps', length', stays, outcome⟩ :=
        ih (fun other member => turns other (List.mem_cons_of_mem _ member))
          (h.keep caller keeps)
      have length := length_turn source crew caller
      refine ⟨keeps', length'.trans length,
        fun goal => stays (h.stay caller keeps goal), ?_⟩
      by_cases goal : Goal crew
      · exact .inl (stays (h.stay caller keeps goal))
      · by_cases can : ∃ call, crew.1.calls[caller]? = some call ∧ crew.1.CanTurn call
        · obtain ⟨call, hcall, can⟩ := can
          have lower := h.lower keeps goal hcall can
          rcases outcome with goal | lower' | ⟨unchanged, _⟩
          · exact .inl goal
          · exact .inr (.inl (lower'.trans lower))
          · apply Or.inr
            apply Or.inl
            simp only [play, List.foldl_cons, act] at unchanged ⊢
            rw [unchanged]
            exact lower
        · have stuck : ∀ call, crew.1.calls[caller]? = some call → ¬ crew.1.CanTurn call :=
            fun call hcall can' => can ⟨call, hcall, can'⟩
          have same : crew.1.turn source crew.2 caller = crew := turn_eq_self source stuck
          rw [same] at outcome
          simp only [play, List.foldl_cons, act, same]
          refine outcome.imp_right (Or.imp_right ?_)
          rintro ⟨unchanged, stuck'⟩
          refine ⟨unchanged, fun other call member hcall => ?_⟩
          rcases List.mem_cons.mp member with here | later
          · cases here
            exact stuck call hcall
          · exact stuck' other call later hcall

theorem play_rounds (h : Approaches source Keeps Goal measure) {rounds : List (List Event)}
    (fair : ∀ round ∈ rounds, IsRound crew.1.calls.length round) (keeps : Keeps crew)
    (enough : measure crew ≤ rounds.length) : Goal (play source rounds.flatten crew) := by
  -- Until the goal is reached some call can take its turn, and each
  -- round gives that call one.
  induction rounds generalizing crew with
  | nil =>
      apply Classical.byContradiction
      intro short
      obtain ⟨caller, call, hcall, can⟩ := exists_canTurn (mt h.reached short)
      exact absurd ((h.lower keeps short hcall can).trans_le enough) (Nat.not_lt_zero _)
  | cons round rest ih =>
      have turns : ∀ event ∈ rest.flatten, ∃ caller, event = .turn caller := by
        intro event member
        obtain ⟨other, inside, member⟩ := List.mem_flatten.mp member
        exact (fair other (List.mem_cons_of_mem round inside)).turns member
      have isRound := fair round (List.mem_cons_self ..)
      obtain ⟨keeps', length', stays, outcome⟩ :=
        h.play_turns (fun _ => isRound.turns) keeps
      simp only [List.flatten_cons, play, List.foldl_append]
      simp only [play] at keeps' length' stays outcome
      obtain ⟨_, _, later, _⟩ := h.play_turns turns keeps'
      by_cases goal : Goal crew
      · exact later (stays goal)
      · rcases outcome with reached | lower | ⟨_, stuck⟩
        · exact later reached
        · refine ih (fun other member => ?_) keeps' ?_
          · rw [length']
            exact fair other (List.mem_cons_of_mem round member)
          · rw [List.length_cons] at enough
            omega
        · obtain ⟨caller, call, hcall, can⟩ := exists_canTurn (mt h.reached goal)
          obtain ⟨inside, _⟩ := List.getElem?_eq_some_iff.mp hcall
          exact absurd can (stuck caller call (isRound.fair inside) hcall)

end Approaches

theorem Finished.turn_eq (h : crew.1.Finished) (caller : Nat) :
    crew.1.turn source crew.2 caller = crew := by
  apply turn_eq_self
  intro call hcall can
  obtain ⟨reply, isOver⟩ := h.exists_reply (List.mem_of_getElem? hcall)
  simp [CanTurn, isOver] at can

theorem Finished.play_turns (h : crew.1.Finished) {events : List Event}
    (turns : ∀ event ∈ events, ∃ caller, event = .turn caller) :
    play source events crew = crew := by
  induction events with
  | nil => rfl
  | cons event rest ih =>
      obtain ⟨caller, rfl⟩ := turns event (List.mem_cons_self ..)
      simp only [play, List.foldl_cons, act, h.turn_eq]
      exact ih fun other member => turns other (List.mem_cons_of_mem _ member)

/-- Over a store that answers everything, all calls come to their end. -/
theorem approaches_finished (blob : Bytes) (config : Config) :
    Approaches (Store.ofBytes blob).source (fun crew => (moment crew).Orderly blob config)
      (fun crew => crew.1.Finished)
      (fun crew => (moment crew).potential (Store.ofBytes blob) config) where
  keep caller orderly :=
    turn_keeps (Moment.Orderly blob config) Moment.Step.orderly caller orderly
  stay caller _ finished := by rwa [finished.turn_eq]
  reached := id
  lower orderly _ hcall can := Moment.potential_lt_of_steps orderly (turn_steps _ hcall can)

end Crew

end SortedBlob
