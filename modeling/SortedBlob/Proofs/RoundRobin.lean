import SortedBlob.Proofs.Interleaving
import SortedBlob.Proofs.RequestBounds
import SortedBlob.Proofs.TrailerCell

/-!
Queries that are asked at once and take their turns one after the other, round by round. The
rounds that `Crew.rounds` counts are enough for all of them, whatever the source answers.
Main statements: `Crew.finished_roundRobin` and `Crew.results_roundRobin`.
-/

namespace SortedBlob

variable {σ : Type}

/-! As long as the trailer is not settled, each round takes a load one step further. -/

namespace Stage

/-- How many turns of a call a load can still take up. -/
def loadTurns : Stage → Nat
  | waiting => 3
  | loading (.length _) => 2
  | loading (.read _ _ _) => 1
  | working _ => 0
  | finished _ => 0

variable {source : Source σ} {query : Query} {s : Session} {state : σ} {stage : Stage}

theorem trailer_ofWork (place : Progress Verdict × Session × σ) :
    (ofWork place).2.1.trailer = place.2.1.trailer := by
  rcases place with ⟨(interruption | verdict) | sent, s, state⟩
  · rfl
  · exact s.trailer_countEnd verdict
  · rfl

theorem trailer_work_settle (loaded : Except FormatError Trailer) (s : Session)
    (state : σ) :
    (work source query loaded (s.settle loaded) state).2.1.trailer = some loaded := by
  rw [work, trailer_ofWork, Plan.trailer_proceed]
  rfl

/-- Short of a trailer, a turn that can be taken settles it or takes the load further. -/
theorem loadTurns_turn_lt (source : Source σ)
    (uses : stage.activity.Uses s.config query s.trailer) (unknown : s.trailer = none)
    {othersLoad : Bool} (free : stage = .waiting → othersLoad = false)
    (unfinished : ∀ reply, stage ≠ .finished reply) (state : σ) :
    let out := stage.turn source query othersLoad s state
    0 < stage.loadTurns ∧ (out.2.1.trailer = none → out.1.loadTurns < stage.loadTurns) := by
  have settled (loaded : Except FormatError Trailer) (s : Session) (state : σ) :
      (work source query loaded (s.settle loaded) state).2.1.trailer ≠ none := by
    rw [trailer_work_settle]
    exact nofun
  cases stage with
  | waiting =>
      simp only [turn, unknown, free rfl]
      exact ⟨Nat.succ_pos 2, fun _ => Nat.lt_succ_self 2⟩
  | working sent =>
      obtain ⟨_, known, _⟩ := uses
      cases unknown.symm.trans known
  | finished reply => exact absurd rfl (unfinished reply)
  | loading sent =>
      obtain ⟨_, origin⟩ := uses
      cases sent with
      | length next =>
          refine ⟨Nat.succ_pos 1, fun still => ?_⟩
          rcases hreply : source.length state with ⟨interruption | n, state'⟩
          · simp only [turn, Pending.resume, hreply]
            exact Nat.succ_pos 1
          · simp only [turn, Pending.resume, hreply] at still ⊢
            obtain first | ⟨_, isOver⟩ | ⟨_, _, last⟩ := Trailer.leads_load origin
            · cases first
              by_cases short : n < Trailer.size
              · simp only [if_pos short] at still
                exact (settled _ s state' still).elim
              · simp only [if_neg short]
                exact Nat.lt_succ_self 1
            · cases isOver
            · cases last
      | read purpose span next =>
          refine ⟨Nat.succ_pos 0, fun still => ?_⟩
          rcases hreply : source.read purpose span state with ⟨interruption | bytes, state'⟩
          · simp only [turn, Pending.resume, hreply]
            exact Nat.succ_pos 0
          · simp only [turn, Pending.resume, hreply] at still
            obtain first | ⟨loaded, isOver⟩ | ⟨_, later, last⟩ := Trailer.leads_load origin
            · cases first
            · cases isOver
            · cases last
              exact (settled _ (s.receive .trailer span bytes) state' still).elim

end Stage

theorem Query.plan_costsAtMost_of_word (query : Query) (config : Config)
    (loaded : Except FormatError Trailer) :
    (query.plan config loaded).CostsAtMost (fun _ => 1) 65 := by
  cases loaded with
  | error error => trivial
  | ok t =>
      have costs : (query.plan config (.ok t)).CostsAtMost (fun _ => 1) (64 + 1) :=
        query.plan_costsAtMost config (fun _ => Nat.le_refl 1) (fun _ => Nat.le_refl 1)
          (halvesTo_powers _) t.entryCount.toNat_lt
      exact costs

namespace Crew

variable {source : Source σ} {config : Config} {crew : Crew × σ}

/-- How many turns loads can still take up, short of a trailer. -/
def loadTurns (crew : Crew) : Nat :=
  if crew.session.trailer.isSome then 0
  else (crew.calls.map fun call => call.stage.loadTurns).sum

/-- Turns lead to a trailer that is settled, unless all calls end without one. -/
theorem approaches_settled (source : Source σ) (config : Config) :
    Approaches source (fun crew => (moment crew).Disciplined config)
      (fun crew => crew.1.session.trailer.isSome = true ∨ crew.1.Finished)
      (fun crew => crew.1.loadTurns) where
  keep caller disciplined := disciplined_act source disciplined (.turn caller)
  stay {crew} caller disciplined := by
    rintro (settled | finished)
    · obtain ⟨loaded, known⟩ := Option.isSome_iff_exists.mp settled
      have kept := (turn_keptBy source disciplined caller).trailer loaded known
      exact .inl (Option.isSome_iff_exists.mpr ⟨loaded, kept⟩)
    · rw [finished.turn_eq]
      exact .inr finished
  reached := .inr
  lower {crew caller call} disciplined short hcall can := by
    have unknown : crew.1.session.trailer = none := by simpa using not_or.mp short |>.1
    have uses := disciplined.uses (getElem?_moment hcall)
    rw [← disciplined.sameConfig] at uses
    have free : call.stage = .waiting → crew.1.isLoading = false := by
      intro waits
      rw [CanTurn, waits] at can
      exact can unknown
    have unfinished : ∀ reply, call.stage ≠ .finished reply := by
      intro reply isOver
      rw [CanTurn, isOver] at can
      exact can
    obtain ⟨busy, further⟩ :=
      Stage.loadTurns_turn_lt source uses unknown free unfinished crew.2
    have exchanged (new : Call) :=
      sum_map_set (f := fun call => call.stage.loadTurns) hcall new
    rw [turn_of_some source hcall]
    simp only [loadTurns, unknown, Option.isSome_none, Bool.false_eq_true, if_false]
    split
    · have without := exchanged ⟨call.query, .finished (.error .dropped)⟩
      have idle : (Stage.finished (.error .dropped)).loadTurns = 0 := rfl
      dsimp only at without
      omega
    · rename_i unsettled
      have lower := further (Option.not_isSome_iff_eq_none.mp unsettled)
      have after := exchanged ⟨call.query,
        (call.stage.turn source call.query crew.1.isLoading crew.1.session crew.2).1⟩
      exact Nat.lt_of_add_lt_add_right (after ▸ Nat.add_lt_add_left lower _)

/-- Once the trailer is settled, each call ends within 66 turns, one of which
may only find it settled. -/
theorem finished_of_settled (disciplined : (moment crew).Disciplined config)
    (settled : crew.1.session.trailer.isSome = true) {events : List Event}
    (turns : ∀ event ∈ events, ∃ caller, event = .turn caller)
    (enough : ∀ caller < crew.1.calls.length, 66 ≤ events.count (.turn caller)) :
    (play source events crew).1.Finished := by
  obtain ⟨loaded, known⟩ := Option.isSome_iff_exists.mp settled
  have length := ((approaches_settled source config).play_turns turns disciplined).2.1
  intro call member
  obtain ⟨caller, hcall⟩ := List.getElem?_of_mem member
  obtain ⟨inside, _⟩ := List.getElem?_eq_some_iff.mp hcall
  rw [length] at inside
  have costs := crew.1.calls[caller].query.plan_costsAtMost_of_word config loaded
  have ends :=
    (endsWithin_of_costs disciplined (List.getElem?_eq_getElem inside) known costs).play
    source disciplined events
  rw [Nat.sub_eq_zero_of_le (enough caller inside)] at ends
  obtain ⟨reply, isOver⟩ := ends.isOver
  rw [results, List.getElem?_map, hcall] at isOver
  exact Option.isSome_iff_exists.mpr ⟨reply, Option.some.inj isOver⟩

theorem calls_play_start (source : Source σ) (queries : List Query) (crew : Crew × σ) :
    (play source (queries.map .start) crew).1.calls =
      crew.1.calls ++ queries.map fun query => ⟨query, .waiting⟩ := by
  induction queries generalizing crew with
  | nil => exact (List.append_nil _).symm
  | cons query rest ih =>
      have later := ih (crew.1.start query, crew.2)
      rw [start, List.append_assoc] at later
      exact later

theorem isRound_range (callers : Nat) :
    IsRound callers ((List.range callers).map .turn) where
  turns member := by
    obtain ⟨caller, _, rfl⟩ := List.mem_map.mp member
    exact ⟨caller, rfl⟩
  fair inside := List.mem_map_of_mem (List.mem_range.mpr inside)

/-- The rounds in which the trailer is settled, and then those in which the calls end. -/
theorem roundRobin_eq (source : Source σ) (queries : List Query) (s : Session) (state : σ) :
    roundRobin source queries s state =
      let round := (List.range queries.length).map Event.turn
      play source (List.replicate 66 round).flatten <|
        play source (List.replicate (3 * queries.length) round).flatten <|
          play source (queries.map .start) (new s, state) := by
  simp only [roundRobin, rounds, play, List.replicate_add, List.flatten_append,
    List.foldl_append]

/-- Asked in turns, all queries come to their end, whatever the source answers. -/
theorem finished_roundRobin (source : Source σ) (queries : List Query) (s : Session)
    (state : σ) :
    (roundRobin source queries s state).1.Finished := by
  let round := (List.range queries.length).map Event.turn
  let begun := play source (queries.map .start) (new s, state)
  have isRound : IsRound queries.length round := isRound_range queries.length
  have turns (count : Nat) : ∀ event ∈ (List.replicate count round).flatten,
      ∃ caller, event = .turn caller := by
    intro event member
    obtain ⟨other, inside, member⟩ := List.mem_flatten.mp member
    rw [List.eq_of_mem_replicate inside] at member
    exact isRound.turns member
  have calls : begun.1.calls = queries.map fun query => ⟨query, .waiting⟩ :=
    calls_play_start source queries (new s, state)
  have length : begun.1.calls.length = queries.length := by rw [calls, List.length_map]
  have few : begun.1.loadTurns ≤ (List.replicate (3 * queries.length) round).length := by
    rw [loadTurns, List.length_replicate]
    split
    · exact Nat.zero_le _
    · simp [calls, Function.comp_def, Stage.loadTurns, Nat.mul_comm]
  have fresh : (moment (new s, state)).Disciplined s.config := ⟨rfl, nofun, nofun⟩
  have disciplined : (moment begun).Disciplined s.config := play_disciplined source fresh _
  have approaches := approaches_settled source s.config
  have outcome := approaches.play_rounds (fun other member => by
    rw [List.eq_of_mem_replicate member, length]
    exact isRound) disciplined few
  obtain ⟨disciplined', length', _⟩ :=
    approaches.play_turns (turns (3 * queries.length)) disciplined
  rw [roundRobin_eq]
  rcases outcome with settled | finished
  · refine finished_of_settled disciplined' settled (turns 66) fun caller inside => ?_
    rw [length', length] at inside
    have once := List.count_pos_iff.mpr (isRound.fair inside)
    rw [List.count_flatten, List.map_replicate, List.sum_replicate_nat]
    exact Nat.le_mul_of_pos_right 66 once
  · rw [finished.play_turns (turns 66)]
    exact finished

/-- Over a store that answers everything, each query comes to what it comes to alone. -/
theorem results_roundRobin (blob : Bytes) (config : Config) (queries : List Query) :
    (roundRobin (Store.ofBytes blob).source queries (Session.new config) ()).1.results =
      queries.map fun query =>
        some ((Session.new config).ask (Store.ofBytes blob).source query ()).1 := by
  let source := (Store.ofBytes blob).source
  let start := (new (Session.new config), ())
  let turns := (List.replicate (rounds queries.length)
    ((List.range queries.length).map Event.turn)).flatten
  let events := queries.map Event.start ++ turns
  let crew := (play source events start).1
  have kept : ∀ caller, Event.drop caller ∉ events := by simp [events, turns]
  have none : turns.filterMap Event.query? = [] := by
    simp [turns, List.filterMap_eq_nil_iff, Event.query?]
  have started : events.filterMap Event.query? = queries := by
    rw [List.filterMap_append, none, List.append_nil, List.filterMap_map]
    exact List.filterMap_some
  have balanced : (moment (crew, ())).Balanced blob config := balanced_play kept
  have finished : crew.Finished :=
    finished_roundRobin source queries (Session.new config) ()
  have asked : crew.calls.map Call.query = queries := by
    have played := queries_play source events start
    rwa [started, queries_moment, queries_moment] at played
  have alone : ∀ call ∈ crew.calls, call.stage.result? =
      some ((Session.new config).ask source call.query ()).1 := by
    intro call member
    obtain ⟨reply, isOver⟩ := finished.exists_reply member
    rw [Stage.result?_eq_some_iff.mpr isOver, reply_eq_alone balanced member isOver]
  calc crew.results
      = crew.calls.map fun call => some ((Session.new config).ask source call.query ()).1 :=
        List.map_congr_left alone
    _ = (crew.calls.map Call.query).map fun query =>
          some ((Session.new config).ask source query ()).1 := by rw [List.map_map]; rfl
    _ = _ := by rw [asked]

end Crew

end SortedBlob
