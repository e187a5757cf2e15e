import SortedBlob.Proofs.Discipline
import SortedBlob.Proofs.Reading

/-!
The requests for ranges of the index that calls make, those included that the cache answers
(`Crew.indexRequests`). A turn makes some only if it comes to work
(`Stage.turn_of_resumes`); what else a turn can do is `Stage.Idles`.
-/

namespace SortedBlob

variable {α σ : Type}

/-- A request for a range of the index. It is sent to the source unless
the cache has the range. -/
structure IndexRequest where
  caller : Nat
  span : Span
  sent : Bool
  deriving DecidableEq, Repr

/-- The requests that a plan makes up to the first one that has to wait for a reply. -/
def Plan.indexRequests (cache : ReadCache) (caller : Nat) : Plan α → List IndexRequest
  | .read .index span next =>
      match cache.get? span with
      | some bytes => ⟨caller, span, false⟩ :: (next bytes).indexRequests cache caller
      | none => [⟨caller, span, true⟩]
  | _ => []

/-- Takes the reply, without going on. -/
def Pending.reply (source : Source σ) :
    Pending α → Session → σ → Reply (Plan α) × Session × σ
  | .length next, s, state =>
      match source.length state with
      | (.error interruption, state) => (.error interruption, s, state)
      | (.ok n, state) => (.ok (next n), s, state)
  | .read purpose span next, s, state =>
      match source.read purpose span state with
      | (.error interruption, state) => (.error interruption, s, state)
      | (.ok bytes, state) => (.ok (next bytes), s.receive purpose span bytes, state)

/-- The work that a turn goes on with, if it comes to that. -/
def Stage.resumed (source : Source σ) (query : Query) (s : Session) (state : σ) :
    Stage → Option (Plan Verdict × Session × σ)
  | .waiting => s.trailer.map fun loaded => (query.plan s.config loaded, s, state)
  | .loading sent =>
      match sent.reply source s state with
      | (.ok (.done loaded), s, state) =>
          some (query.plan s.config loaded, s.settle loaded, state)
      | _ => none
  | .working sent =>
      match sent.reply source s state with
      | (.ok rest, s, state) => some (rest, s, state)
      | _ => none
  | .finished _ => none

/-- The requests that a turn goes on with. Loading the trailer makes none. -/
def Stage.indexRequests (source : Source σ) (query : Query) (s : Session) (state : σ)
    (caller : Nat) (stage : Stage) : List IndexRequest :=
  match stage.resumed source query s state with
  | none => []
  | some (rest, s, _) => rest.indexRequests s.cache caller

namespace Crew

def requestsOf (source : Source σ) (crew : Crew × σ) : Event → List IndexRequest
  | .turn caller =>
      match crew.1.calls[caller]? with
      | none => []
      | some call => call.stage.indexRequests source call.query crew.1.session crew.2 caller
  | _ => []

/-- The requests for ranges of the index that are made while these events
happen, in their order. -/
def indexRequests (source : Source σ) : List Event → Crew × σ → List IndexRequest
  | [], _ => []
  | event :: rest, crew =>
      requestsOf source crew event ++ indexRequests source rest (act source crew event)

end Crew

theorem Pending.resume_eq (source : Source σ) (sent : Pending α) (s : Session) (state : σ) :
    sent.resume source s state =
      match sent.reply source s state with
      | (.error interruption, s, state) => (.ended (.error interruption), s, state)
      | (.ok rest, s, state) => rest.proceed source s state := by
  cases sent with
  | length next =>
      simp only [resume, reply]
      rcases source.length state with ⟨interruption | n, state'⟩ <;> rfl
  | read purpose span next =>
      simp only [resume, reply]
      rcases source.read purpose span state with ⟨interruption | bytes, state'⟩ <;> rfl

theorem Pending.leads_reply {source : Source σ} {plan rest : Plan α} {sent : Pending α}
    {s s' : Session} {state state' : σ} (origin : plan.Leads sent.plan)
    (h : sent.reply source s state = (.ok rest, s', state')) : plan.Leads rest := by
  cases sent with
  | length next =>
      simp only [reply] at h
      split at h <;> cases h
      exact origin.length _
  | read purpose span next =>
      simp only [reply] at h
      split at h <;> cases h
      exact origin.read _

/-- How a turn comes to work. -/
inductive Stage.Resumes (source : Source σ) (query : Query) (s : Session) (state : σ) :
    Stage → Plan Verdict × Session × σ → Prop
  | enter {loaded : Except FormatError Trailer} (known : s.trailer = some loaded) :
      Resumes source query s state .waiting (query.plan s.config loaded, s, state)
  | settle {sent : Pending (Except FormatError Trailer)}
      {loaded : Except FormatError Trailer} {s' : Session} {state' : σ}
      (replied : sent.reply source s state = (.ok (.done loaded), s', state')) :
      Resumes source query s state (.loading sent)
        (query.plan s'.config loaded, s'.settle loaded, state')
  | work {sent : Pending Verdict} {rest : Plan Verdict} {s' : Session} {state' : σ}
      (replied : sent.reply source s state = (.ok rest, s', state')) :
      Resumes source query s state (.working sent) (rest, s', state')

theorem Stage.resumes_of_resumed {source : Source σ} {query : Query} {s : Session}
    {state : σ} {stage : Stage} {place : Plan Verdict × Session × σ}
    (h : stage.resumed source query s state = some place) :
    stage.Resumes source query s state place := by
  cases stage with
  | waiting =>
      obtain ⟨loaded, known, rfl⟩ := Option.map_eq_some_iff.mp h
      exact .enter known
  | loading sent =>
      simp only [resumed] at h
      split at h
      · rename_i replied
        cases h
        exact .settle replied
      · cases h
  | working sent =>
      simp only [resumed] at h
      split at h
      · rename_i replied
        cases h
        exact .work replied
      · cases h
  | finished result => cases h

/-- A turn that comes to work is that work. -/
theorem Stage.turn_of_resumes {source : Source σ} {query : Query} {s : Session} {state : σ}
    {stage : Stage} {place : Plan Verdict × Session × σ}
    (h : stage.Resumes source query s state place) (othersLoad : Bool) :
    stage.turn source query othersLoad s state =
      ofWork (place.1.proceed source place.2.1 place.2.2) := by
  cases h with
  | enter known => simp only [turn, known, work]
  | @settle sent loaded s' state' replied =>
      have same : s'.config = (s'.settle loaded).config := rfl
      simp only [turn, sent.resume_eq, replied, Plan.proceed, ofLoad, work, same]
  | @work sent _ _ _ replied => simp only [turn, sent.resume_eq, replied]

/-- A plan that goes on by asking for the length or for the trailer. -/
inductive Plan.LoadsOn : Plan α → Prop
  | length (next : UInt64 → Plan α) : LoadsOn (.length next)
  | read (span : Span) (next : Bytes → Plan α) : LoadsOn (.read .trailer span next)

/-- A load that is not over goes on. -/
theorem Plan.loadsOn_of_leads {config : Config} {rest : Plan (Except FormatError Trailer)}
    (origin : (Trailer.load config).Leads rest) (busy : ∀ loaded, rest ≠ .done loaded) :
    rest.LoadsOn := by
  have asks := (Trailer.load_asks config).leads origin
  cases rest with
  | done loaded => exact absurd rfl (busy loaded)
  | length next => exact .length next
  | read purpose span next =>
      obtain rfl : purpose = .trailer := by simpa [Request.isOfLoad] using asks.1
      exact .read span next

/-- What a turn does that does not come to work. -/
inductive Stage.Idles (source : Source σ) (query : Query) (s : Session) (state : σ) :
    Stage → Stage × Session × σ → Prop
  | stay (stage : Stage) : Idles source query s state stage (stage, s, state)
  | begin {rest : Plan (Except FormatError Trailer)} (onward : rest.LoadsOn) :
      Idles source query s state .waiting
        (ofLoad source query (rest.proceed source s state))
  | load {sent : Pending (Except FormatError Trailer)}
      {rest : Plan (Except FormatError Trailer)} {s' : Session} {state' : σ}
      (replied : sent.reply source s state = (.ok rest, s', state'))
      (onward : rest.LoadsOn) :
      Idles source query s state (.loading sent)
      (ofLoad source query (rest.proceed source s' state'))
  | lose {α : Type} {sent : Pending α} {stage : Stage} {interruption : Interruption}
      {s' : Session} {state' : σ}
      (replied : sent.reply source s state = (.error interruption, s', state')) :
      Idles source query s state stage (.finished (.error interruption), s', state')

theorem Stage.idles_of_resumed {source : Source σ} {query : Query} {s : Session} {state : σ}
    {stage : Stage} (uses : stage.activity.Uses s.config query s.trailer)
    (idle : stage.resumed source query s state = none) (othersLoad : Bool) :
    stage.Idles source query s state (stage.turn source query othersLoad s state) := by
  cases stage with
  | waiting =>
      have unknown : s.trailer = none := Option.map_eq_none_iff.mp idle
      simp only [turn, unknown]
      split
      · exact .stay _
      · exact .begin (.length _)
  | loading sent =>
      rcases hreply : sent.reply source s state with ⟨interruption | rest, s', state'⟩
      · simp only [turn, sent.resume_eq, hreply]
        exact .lose hreply
      · have busy : ∀ loaded, rest ≠ .done loaded := by
          rintro loaded rfl
          simp [resumed, hreply] at idle
        simp only [turn, sent.resume_eq, hreply]
        exact .load hreply (Plan.loadsOn_of_leads (Pending.leads_reply uses.2 hreply) busy)
  | working sent =>
      rcases hreply : sent.reply source s state with ⟨interruption | rest, s', state'⟩
      · simp only [turn, sent.resume_eq, hreply]
        exact .lose hreply
      · simp [resumed, hreply] at idle
  | finished result => exact .stay _

theorem Plan.caller_of_indexRequests (plan : Plan α) (cache : ReadCache) (caller : Nat) :
    ∀ request ∈ plan.indexRequests cache caller, request.caller = caller := by
  induction plan with
  | done result => exact nofun
  | length next ih => exact nofun
  | read purpose span next ih =>
      cases purpose with
      | trailer => exact nofun
      | value => exact nofun
      | index =>
          rw [indexRequests]
          split
          · exact List.forall_mem_cons.mpr ⟨rfl, ih _⟩
          · exact List.forall_mem_singleton.mpr rfl

theorem Stage.caller_of_indexRequests (source : Source σ) (query : Query) (s : Session)
    (state : σ) (caller : Nat) (stage : Stage) :
    ∀ request ∈ stage.indexRequests source query s state caller,
      request.caller = caller := by
  rw [indexRequests]
  split
  · exact nofun
  · exact Plan.caller_of_indexRequests _ _ _

end SortedBlob
