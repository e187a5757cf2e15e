import SortedBlob.Proofs.Soundness

/-!
Sources that may fail or fall silent but tell no lies. Whatever happened to the queries
before, a query that comes to a verdict comes to the one it has by itself, and only what
happens to it while it runs can keep it from one.
-/

namespace SortedBlob

variable {α σ : Type}

/-- Whatever a source says of the store is so; it may fail at any
request, or never answer. -/
structure Source.Honest (source : Source σ) (store : Store) : Prop where
  length {n : UInt64} {state : σ} : (source.length state).1 = .ok n → n = store.length
  read {purpose : Purpose} {span : Span} {bytes : Bytes} {state : σ} :
    (source.read purpose span state).1 = .ok bytes → store.read span = .ok bytes

/-- A reply that brings bytes brings those that the store has. -/
theorem Store.read_of_reply {store : Store} {span : Span} {bytes : Bytes}
    (h : (store.read span).mapError Interruption.failed = .ok bytes) :
    store.read span = .ok bytes := by
  cases hread : store.read span with
  | error error =>
      rw [hread] at h
      cases h
  | ok found =>
      rw [hread] at h
      exact congrArg Except.ok (Except.ok.inj h)

theorem Store.honest_source (store : Store) : store.source.Honest store where
  length h := (Except.ok.inj h).symm
  read h := read_of_reply h

/-- The next request is answered as the script has it, by the store where
that has no interruption. -/
def Store.scripted (store : Store) : Source (List (Option Interruption)) where
  ask _ script := script
  length script :=
    match script.head?.join with
    | some interruption => (.error interruption, script.tail)
    | none => (.ok store.length, script.tail)
  read _ span script :=
    match script.head?.join with
    | some interruption => (.error interruption, script.tail)
    | none => ((store.read span).mapError .failed, script.tail)

theorem Store.honest_scripted (store : Store) : store.scripted.Honest store where
  length {n script} h := by
    simp only [scripted] at h
    split at h
    · cases h
    · have told : (store.source.length ()).1 = .ok n := h
      exact store.honest_source.length told
  read {purpose span bytes script} h := by
    simp only [scripted] at h
    split at h
    · cases h
    · have told : (store.source.read purpose span ()).1 = .ok bytes := h
      exact store.honest_source.read told

namespace Signal

def interruption? : Signal → Option Interruption
  | .length (.error interruption) => some interruption
  | .read _ _ (.error interruption) => some interruption
  | _ => none

/-- Whether a reply is the one that the store gives. -/
def IsFaithful (store : Store) : Signal → Prop
  | .asked _ => True
  | .length reply => reply = .ok store.length
  | .read _ span reply => reply = (store.read span).mapError .failed

end Signal

namespace Source

variable {source : Source σ} {store : Store}

theorem Honest.faithful_or_length (honest : source.Honest store) (state : σ) :
    let reply := (source.length state).1
    (Signal.length reply).IsFaithful store ∨
        ∃ interruption, reply = .error interruption := by
  cases h : (source.length state).1 with
  | error interruption => exact .inr ⟨interruption, rfl⟩
  | ok n => exact .inl (congrArg _ (honest.length h))

theorem Honest.faithful_or_read (honest : source.Honest store) (purpose : Purpose)
    (span : Span) (state : σ) :
    let reply := (source.read purpose span state).1
    (Signal.read purpose span reply).IsFaithful store ∨
      ∃ interruption, reply = .error interruption := by
  cases h : (source.read purpose span state).1 with
  | error interruption => exact .inr ⟨interruption, rfl⟩
  | ok bytes => exact .inl (by rw [Signal.IsFaithful, honest.read h]; rfl)

/-- Without a record, any interruption of an honest source is excused. -/
theorem Honest.serves (honest : source.Honest store) :
    source.Serves store fun _ _ => True where
  length {reply state state'} h := by
    have told := honest.faithful_or_length state
    rw [h] at told
    apply told.imp id
    rintro ⟨interruption, same⟩
    exact ⟨interruption, same, trivial⟩
  read {purpose span reply state state'} h := by
    have told := honest.faithful_or_read purpose span state
    rw [h] at told
    apply told.imp id
    rintro ⟨interruption, same⟩
    exact ⟨interruption, same, trivial⟩
  excuse_ask _ := trivial
  excuse_length _ _ := trivial
  excuse_read _ _ := trivial

/-- The record has a reply that interrupts and that is not the store's. -/
def Blames (store : Store) (interruption : Interruption) (state : σ × List Signal) : Prop :=
  ∃ signal ∈ state.2, signal.interruption? = some interruption ∧ ¬ signal.IsFaithful store

theorem Blames.cons {interruption : Interruption} {state : σ} {log : List Signal}
    (h : Blames store interruption (state, log)) (signal : Signal) (state' : σ) :
    Blames store interruption (state', signal :: log) := by
  obtain ⟨culprit, member, guilty⟩ := h
  exact ⟨culprit, List.mem_cons_of_mem signal member, guilty⟩

theorem Honest.recorded_serves (honest : source.Honest store) :
    source.recorded.Serves store (Blames store) where
  length {reply state state'} h := by
    cases h
    by_cases faithful : (Signal.length (source.length state.1).1).IsFaithful store
    · exact .inl faithful
    · obtain told | ⟨interruption, same⟩ := honest.faithful_or_length state.1
      · exact absurd told faithful
      · exact .inr ⟨interruption, same, _,
          List.mem_cons_self .., by rw [same]; rfl, faithful⟩
  read {purpose span reply state state'} h := by
    cases h
    by_cases faithful :
        (Signal.read purpose span (source.read purpose span state.1).1).IsFaithful store
    · exact .inl faithful
    · obtain told | ⟨interruption, same⟩ := honest.faithful_or_read purpose span state.1
      · exact absurd told faithful
      · exact .inr ⟨interruption, same, _,
          List.mem_cons_self .., by rw [same]; rfl, faithful⟩
  excuse_ask h := h.cons ..
  excuse_length reply h := by
    cases reply
    exact h.cons ..
  excuse_read reply h := by
    cases reply
    exact h.cons ..

end Source

/-! A record makes no difference to what is recorded. -/

namespace Source

variable (source : Source σ) (state : σ) (log : List Signal)

theorem recorded_ask (request : Request) :
    source.recorded.ask request (state, log) =
      (source.ask request state, .asked request :: log) :=
  rfl

theorem recorded_length :
    source.recorded.length (state, log) =
      ((source.length state).1, (source.length state).2,
        .length (source.length state).1 :: log) :=
  rfl

theorem recorded_read (purpose : Purpose) (span : Span) :
    source.recorded.read purpose span (state, log) =
      ((source.read purpose span state).1, (source.read purpose span state).2,
        .read purpose span (source.read purpose span state).1 :: log) :=
  rfl

end Source

theorem Plan.run_recorded (source : Source σ) (plan : Plan α) (s : Session) (state : σ)
    (log : List Signal) :
    let out := plan.run source s state
    ∃ heard, plan.run source.recorded s (state, log) =
        (out.1, out.2.1, out.2.2, heard ++ log) := by
  fun_induction plan.run source s state generalizing log with
  | case1 result s state => exact ⟨[], rfl⟩
  | case2 next s state interruption state' reply =>
      refine ⟨[.length (.error interruption), .asked .length], ?_⟩
      simp only [run, Source.recorded_ask, Source.recorded_length, reply]
      rfl
  | case3 next s state n state' reply ih =>
      obtain ⟨heard, later⟩ := ih (.length (.ok n) :: .asked .length :: log)
      refine ⟨heard ++ [.length (.ok n), .asked .length], ?_⟩
      simp only [run, Source.recorded_ask, Source.recorded_length, reply]
      simpa using later
  | case4 purpose span next s state bytes cached ih =>
      obtain ⟨heard, later⟩ := ih log
      exact ⟨heard, by simpa only [run, cached] using later⟩
  | case5 purpose span next s state missed interruption state' reply =>
      refine ⟨[.read purpose span (.error interruption), .asked (.read purpose span)], ?_⟩
      simp only [run, missed, Source.recorded_ask, Source.recorded_read, reply]
      rfl
  | case6 purpose span next s state missed bytes state' reply ih =>
      obtain ⟨heard, later⟩ :=
        ih (.read purpose span (.ok bytes) :: .asked (.read purpose span) :: log)
      refine ⟨heard ++ [.read purpose span (.ok bytes), .asked (.read purpose span)], ?_⟩
      simp only [run, missed, Source.recorded_ask, Source.recorded_read, reply]
      simpa using later

namespace Session

theorem loadTrailer_recorded (source : Source σ) (s : Session) (state : σ)
    (log : List Signal) :
    let out := loadTrailer source s state
    ∃ heard, loadTrailer source.recorded s (state, log) =
      (out.1, out.2.1, out.2.2, heard ++ log) := by
  unfold loadTrailer
  cases known : s.trailer with
  | some loaded => exact ⟨[], rfl⟩
  | none =>
      obtain ⟨heard, same⟩ := (Trailer.load s.config).run_recorded source s state log
      refine ⟨heard, ?_⟩
      simp only [same]
      rcases (Trailer.load s.config).run source s state with
        ⟨interruption | loaded, s', state'⟩ <;>
        rfl

theorem ask_recorded (source : Source σ) (query : Query) (s : Session) (state : σ)
    (log : List Signal) :
    let out := s.ask source query state
    ∃ heard, s.ask source.recorded query (state, log) =
      (out.1, out.2.1, out.2.2, heard ++ log) := by
  obtain ⟨loading, same⟩ := loadTrailer_recorded source (s.countStart query) state log
  unfold ask
  rw [same]
  rcases loadTrailer source (s.countStart query) state with
    ⟨interruption | loaded, s', state'⟩
  · exact ⟨loading, rfl⟩
  · obtain ⟨working, same⟩ :=
      (query.plan s'.config loaded).run_recorded source s' state' (loading ++ log)
    refine ⟨working ++ loading, ?_⟩
    simp only [same, List.append_assoc]
    rcases (query.plan s'.config loaded).run source s' state' with
      ⟨interruption | verdict, s'', state''⟩ <;> rfl

/-- Over an honest source, whatever failed or was dropped in the queries before: a verdict
is the one of a new session that keeps no ranges and asks the store itself, an
interruption is one that the source raised meanwhile, and there is none when each reply
meanwhile is the store's. -/
theorem ask_honest {source : Source σ} {blob : Bytes}
    (honest : source.Honest (Store.ofBytes blob)) (config : Config) (before : List Query)
    (query : Query) (state : σ) :
    let earlier := askAll source before (new config) state
    let reply := (earlier.2.1.ask source query earlier.2.2).1
    let heard := (earlier.2.1.ask source.recorded query (earlier.2.2, [])).2.2.2
    let alone := ((new config.withoutReadCache).ask (Store.ofBytes blob).source query ()).1
    (∀ verdict, reply = .ok verdict → alone = .ok verdict) ∧
      (∀ interruption, reply = .error interruption →
        ∃ signal ∈ heard, signal.interruption? = some interruption) ∧
      ((∀ signal ∈ heard, signal.IsFaithful (Store.ofBytes blob)) →
        ∃ verdict, reply = .ok verdict) := by
  intro earlier reply heard alone
  have sound : earlier.2.1.Sound (Store.ofBytes blob) config :=
    sound_new.askAll honest.serves before state
  have outcome := (sound.ask honest.recorded_serves query (earlier.2.2, [])).2
  obtain ⟨_, same⟩ := ask_recorded source query earlier.2.1 earlier.2.2 []
  have sameReply : (earlier.2.1.ask source.recorded query (earlier.2.2, [])).1 = reply := by
    rw [same]
  rw [sameReply] at outcome
  obtain ⟨verdict, heval⟩ := query.exists_eval_whole config blob
  have fresh : (new config.withoutReadCache).Sound (Store.ofBytes blob)
      config.withoutReadCache :=
    sound_new
  have lonely : alone = .ok verdict :=
    fresh.ask_eval ((query.whole_withoutReadCache config).symm ▸ heval)
  rcases hreply : reply with interruption | found
  · rw [hreply] at outcome
    obtain ⟨signal, member, raised, unfaithful⟩ := outcome
    refine ⟨nofun, ?_, fun faithful => absurd (faithful signal member) unfaithful⟩
    rintro _ ⟨rfl⟩
    exact ⟨signal, member, raised⟩
  · rw [hreply] at outcome
    refine ⟨?_, nofun, fun _ => ⟨found, rfl⟩⟩
    rintro _ ⟨rfl⟩
    have agree : Except.ok verdict = Except.ok found := heval.symm.trans outcome
    rw [lonely, Except.ok.inj agree]

/-- The first of two queries is dropped in the middle of the load, the
second has its verdict. -/
theorem ask_honest_after_drop :
    let t := Trailer.ofCounts 1 0 0
    let store := Store.ofBytes t.encode
    store.scripted.Honest store ∧
      (askAll store.scripted [.trailer] (new {}) [none, some .dropped]).1 =
      [.error .dropped] ∧
      ((new (Config.withoutReadCache {})).ask store.source .trailer ()).1 =
        .ok (.ok (.trailer t)) := by
  refine ⟨Store.honest_scripted _, by decide +kernel, ?_⟩
  exact (ask_honest (Store.honest_scripted _) {} [.trailer] .trailer
    [none, some .dropped]).1 _ (by decide +kernel)

end Session

end SortedBlob
