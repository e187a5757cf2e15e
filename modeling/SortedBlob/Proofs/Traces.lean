import SortedBlob.Proofs.Regions

/-!
What passed between one call and the source on its way through a plan (`Plan.Traces`),
whatever the source answered. Main statements: `Course.Step.traces`, by which every step
goes on with the trace of its call, and `Plan.traces_bind_done`, by which the trace of a
plan falls into those of its parts.
-/

namespace SortedBlob

variable {α β σ : Type}

/-- The plan can come to `rest` while this passes between it and the source, the latest
first. What it was not answered by the source, it was answered from the cache. -/
inductive Plan.Traces (cache : ReadCache) : Plan α → List Signal → Plan α → Prop
  | refl (plan : Plan α) : Traces cache plan [] plan
  | length {next : UInt64 → Plan α} {n : UInt64} {later : List Signal} {rest : Plan α}
      (h : Traces cache (next n) later rest) :
      Traces cache (.length next) (later ++ [.length (.ok n), .asked .length]) rest
  | read {purpose : Purpose} {span : Span} {next : Bytes → Plan α} {bytes : Bytes}
      {later : List Signal} {rest : Plan α} (h : Traces cache (next bytes) later rest) :
      Traces cache (.read purpose span next)
        (later ++ [.read purpose span (.ok bytes), .asked (.read purpose span)]) rest
  | hit {span : Span} {next : Bytes → Plan α} {bytes : Bytes} {later : List Signal}
      {rest : Plan α} (kept : cache.get? span = some bytes)
      (h : Traces cache (next bytes) later rest) :
      Traces cache (.read .index span next) later rest

namespace Plan

variable {cache cache' : ReadCache} {plan middle rest : Plan α} {own later : List Signal}

theorem Traces.trans (h : plan.Traces cache own middle)
    (h' : middle.Traces cache later rest) :
    plan.Traces cache (later ++ own) rest := by
  induction h with
  | refl plan => rwa [List.append_nil]
  | length _ ih =>
      rw [← List.append_assoc]
      exact .length (ih h')
  | read _ ih =>
      rw [← List.append_assoc]
      exact .read (ih h')
  | hit kept _ ih => exact .hit kept (ih h')

/-- A cache that keeps what was kept explains whatever the old one did. -/
theorem Traces.keep (h : plan.Traces cache own rest)
    (kept : ∀ span bytes, cache.get? span = some bytes → cache'.get? span = some bytes) :
    plan.Traces cache' own rest := by
  induction h with
  | refl plan => exact .refl plan
  | length _ ih => exact .length ih
  | read _ ih => exact .read ih
  | hit found _ ih => exact .hit (kept _ _ found) ih

theorem Traces.asks {P : Request → Prop} (h : plan.Traces cache own rest)
    (asks : plan.Asks P) :
    rest.Asks P ∧ ∀ signal ∈ own, P signal.request := by
  induction h with
  | refl plan => exact ⟨asks, nofun⟩
  | length _ ih =>
      obtain ⟨later, allowed⟩ := ih (asks.2 _)
      exact ⟨later, List.forall_mem_append.mpr
        ⟨allowed, by simpa [Signal.request] using asks.1⟩⟩
  | read _ ih =>
      obtain ⟨later, allowed⟩ := ih (asks.2 _)
      exact ⟨later, List.forall_mem_append.mpr
        ⟨allowed, by simpa [Signal.request] using asks.1⟩⟩
  | hit kept _ ih => exact ih (asks.2 _)

theorem traces_done {result : α} (h : (done result).Traces cache own rest) :
    own = [] ∧ rest = done result := by
  cases h
  exact ⟨rfl, rfl⟩

theorem traces_bind_done {f : α → Plan β} {result : β}
    (h : (plan.bind f).Traces cache own (done result)) :
    ∃ middle first second, own = second ++ first ∧ plan.Traces cache first (done middle) ∧
      (f middle).Traces cache second (done result) := by
  induction plan generalizing own with
  | done middle => exact ⟨middle, [], own, (List.append_nil own).symm, .refl _, h⟩
  | length next ih =>
      cases h with
      | length h =>
          obtain ⟨middle, first, second, rfl, before, after⟩ := ih _ h
          exact ⟨middle, _, second, List.append_assoc .., .length before, after⟩
  | read purpose span next ih =>
      cases h with
      | read h =>
          obtain ⟨middle, first, second, rfl, before, after⟩ := ih _ h
          exact ⟨middle, _, second, List.append_assoc .., .read before, after⟩
      | hit kept h =>
          obtain ⟨middle, first, second, same, before, after⟩ := ih _ h
          exact ⟨middle, first, second, same, .hit kept before, after⟩

theorem traces_map_done {f : α → β} {result : β}
    (h : (plan.map f).Traces cache own (done result)) :
    ∃ middle, f middle = result ∧ plan.Traces cache own (done middle) := by
  obtain ⟨middle, first, second, rfl, before, after⟩ := traces_bind_done h
  obtain ⟨rfl, same⟩ := traces_done after
  cases same
  exact ⟨middle, rfl, before⟩

end Plan

/-- All that a load hears when it accepts a trailer. -/
theorem Trailer.traces_load {cache : ReadCache} {config : Config} {own : List Signal}
    {t : Trailer} (h : (load config).Traces cache own (.done (.ok t))) :
    ∃ blobLength bytes, own = loadedFrom blobLength bytes ∧
      decode bytes config.verifyTrailerChecksum = .ok t ∧
      t.validate blobLength config = .ok () := by
  cases h with
  | @length _ blobLength _ _ h =>
      dsimp only at h
      split at h
      · obtain ⟨_, impossible⟩ := Plan.traces_done h
        cases impossible
      · cases h with
        | @read _ _ _ bytes _ _ h =>
            obtain ⟨rfl, same⟩ := Plan.traces_done h
            exact ⟨blobLength, bytes, rfl, accept_eq_ok_iff.mp (Plan.done.inj same).symm⟩

namespace Source

variable {source : Source σ} {state state' : σ × List Signal}

theorem log_of_recorded_length {reply : Reply UInt64}
    (h : source.recorded.length state = (reply, state')) :
    state'.2 = .length reply :: state.2 := by
  cases h
  rfl

theorem log_of_recorded_read {purpose : Purpose} {span : Span} {reply : Reply Bytes}
    (h : source.recorded.read purpose span state = (reply, state')) :
    state'.2 = .read purpose span reply :: state.2 := by
  cases h
  rfl

end Source

def Pending.request : Pending α → Request
  | .length _ => .length
  | .read purpose span _ => .read purpose span

/-- The request that a signal sends. -/
def Signal.asked? : Signal → Option Request
  | .asked request => some request
  | _ => none

/-- What passed between a course and the source since it set out on the plan. -/
def Course.Traces (cache : ReadCache) (plan : Plan α) (own : List Signal) : Course α → Prop
  | running rest => plan.Traces cache own rest
  | pending sent =>
      ∃ earlier, own = .asked sent.request :: earlier ∧ plan.Traces cache earlier sent.plan
  | ended (.ok result) => plan.Traces cache own (.done result)
  | ended (.error _) =>
      ∃ (sent : Pending α) (reply : Signal) (earlier : List Signal), reply.asked? = none ∧
        own = reply :: .asked sent.request :: earlier ∧ plan.Traces cache earlier sent.plan

section

variable {source : Source σ} {s s' : Session}

theorem Course.Step.keeps_cached {course course' : Course α} {state state' : σ}
    (h : Step source (course, s, state) (course', s', state')) {span : Span} {bytes : Bytes}
    (kept : s.cache.get? span = some bytes) : s'.cache.get? span = some bytes := by
  cases h with
  | askLength => rwa [Session.cache_count]
  | askRead missed => rwa [Session.cache_count]
  | read reply =>
      rw [Session.cache_receive]
      split
      · exact ReadCache.get?_offer_of_get? kept ..
      · exact kept
  | _ => exact kept

theorem Activity.Step.keeps_cached {query : Query} {activity activity' : Activity}
    {state state' : σ} {span : Span} {bytes : Bytes}
    (h : Step source query (activity, s, state) (activity', s', state'))
    (kept : s.cache.get? span = some bytes) : s'.cache.get? span = some bytes := by
  cases h with
  | load h => exact h.keeps_cached kept
  | work h => exact h.keeps_cached kept
  | answer => rwa [Session.cache_countEnd]
  | _ => exact kept

theorem Course.Traces.keep {cache cache' : ReadCache} {plan : Plan α} {own : List Signal}
    {course : Course α} (h : course.Traces cache plan own)
    (kept : ∀ span bytes, cache.get? span = some bytes → cache'.get? span = some bytes) :
    course.Traces cache' plan own := by
  rcases course with rest | sent | interruption | result
  · exact Plan.Traces.keep h kept
  · obtain ⟨earlier, same, traces⟩ := h
    exact ⟨earlier, same, traces.keep kept⟩
  · obtain ⟨sent, reply, earlier, isReply, same, traces⟩ := h
    exact ⟨sent, reply, earlier, isReply, same, traces.keep kept⟩
  · exact Plan.Traces.keep h kept

/-- A step goes on with the trace of its course. -/
theorem Course.Step.traces {plan : Plan α} {own : List Signal} {course course' : Course α}
    {state state' : σ × List Signal}
    (h : Step source.recorded (course, s, state) (course', s', state'))
    (traces : course.Traces s.cache plan own) :
    ∃ heard, state'.2 = heard ++ state.2 ∧ course'.Traces s'.cache plan (heard ++ own) := by
  have old := traces.keep fun span bytes => h.keeps_cached
  cases h with
  | done => exact ⟨[], rfl, old⟩
  | askLength => exact ⟨[.asked .length], rfl, own, rfl, old⟩
  | hit cached =>
      obtain ⟨rfl, kept⟩ := Session.cached?_eq_some cached
      exact ⟨[], rfl, Plan.Traces.trans old (.hit kept (.refl _))⟩
  | @askRead purpose span _ _ _ missed =>
    exact ⟨[.asked (.read purpose span)], rfl, own, rfl, old⟩
  | length reply =>
      obtain ⟨earlier, rfl, sent⟩ := old
      exact ⟨[_], Source.log_of_recorded_length reply, sent.trans (.length (.refl _))⟩
  | read reply =>
      obtain ⟨earlier, rfl, sent⟩ := old
      exact ⟨[_], Source.log_of_recorded_read reply, sent.trans (.read (.refl _))⟩
  | lengthFailed reply =>
      obtain ⟨earlier, rfl, sent⟩ := old
      exact ⟨[_], Source.log_of_recorded_length reply, _, _, earlier, rfl, rfl, sent⟩
  | readFailed reply =>
      obtain ⟨earlier, rfl, sent⟩ := old
      exact ⟨[_], Source.log_of_recorded_read reply, _, _, earlier, rfl, rfl, sent⟩

end

end SortedBlob
