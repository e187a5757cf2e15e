import SortedBlob.Session

/-!
Queries that share one session and take turns. A turn ends where a call has to wait: for a
reply, or for the trailer that another call loads. When a load is interrupted, a call that
waits for it loads the trailer itself.
-/

namespace SortedBlob

/-- A plan whose next request was sent and not answered yet. -/
inductive Pending (α : Type) where
  | length (next : UInt64 → Plan α)
  | read (purpose : Purpose) (span : Span) (next : Bytes → Plan α)

inductive Progress (α : Type) where
  | ended (result : Reply α)
  | pending (pending : Pending α)

section

variable {α σ : Type}

/-- Follows a plan up to the next request that the cache cannot answer,
and sends that one. -/
def Plan.proceed (source : Source σ) : Plan α → Session → σ → Progress α × Session × σ
  | .done result, s, state => (.ended (.ok result), s, state)
  | .length next, s, state =>
      (.pending (.length next), s.count .length, source.ask .length state)
  | .read purpose span next, s, state =>
      match s.cached? purpose span with
      | some bytes => (next bytes).proceed source s.countHit state
      | none =>
          (.pending (.read purpose span next), s.count (.read purpose span),
            source.ask (.read purpose span) state)

/-- Takes the reply and goes on. -/
def Pending.resume (source : Source σ) :
    Pending α → Session → σ → Progress α × Session × σ
  | .length next, s, state =>
      match source.length state with
      | (.error interruption, state) => (.ended (.error interruption), s, state)
      | (.ok n, state) => (next n).proceed source s state
  | .read purpose span next, s, state =>
      match source.read purpose span state with
      | (.error interruption, state) => (.ended (.error interruption), s, state)
      | (.ok bytes, state) =>
        (next bytes).proceed source (s.receive purpose span bytes) state

end

inductive Stage where
  | waiting
  | loading (pending : Pending (Except FormatError Trailer))
  | working (pending : Pending Verdict)
  | finished (result : Reply Verdict)

namespace Stage

variable {σ : Type}

def isLoading : Stage → Bool
  | .loading _ => true
  | _ => false

def result? : Stage → Option (Reply Verdict)
  | .finished result => some result
  | _ => none

/-- A call that is over can no longer be dropped. -/
def dropped : Stage → Stage
  | .finished result => .finished result
  | _ => .finished (.error .dropped)

def ofWork : Progress Verdict × Session × σ → Stage × Session × σ
  | (.ended (.ok verdict), s, state) => (.finished (.ok verdict), s.countEnd verdict, state)
  | (.ended (.error interruption), s, state) => (.finished (.error interruption), s, state)
  | (.pending pending, s, state) => (.working pending, s, state)

def work (source : Source σ) (query : Query) (loaded : Except FormatError Trailer)
    (s : Session) (state : σ) : Stage × Session × σ :=
  ofWork ((query.plan s.config loaded).proceed source s state)

/-- The turn in which a load ends settles the trailer and goes on with it. -/
def ofLoad (source : Source σ) (query : Query) :
    Progress (Except FormatError Trailer) × Session × σ → Stage × Session × σ
  | (.ended (.ok loaded), s, state) => work source query loaded (s.settle loaded) state
  | (.ended (.error interruption), s, state) => (.finished (.error interruption), s, state)
  | (.pending pending, s, state) => (.loading pending, s, state)

/-- One turn of a call. Only one call at a time may load the trailer. -/
def turn (source : Source σ) (query : Query) (othersLoad : Bool) (s : Session) (state : σ) :
    Stage → Stage × Session × σ
  | .waiting =>
      match s.trailer with
      | some loaded => work source query loaded s state
      | none =>
          if othersLoad then (.waiting, s, state)
          else ofLoad source query ((Trailer.load s.config).proceed source s state)
  | .loading pending => ofLoad source query (pending.resume source s state)
  | .working pending => ofWork (pending.resume source s state)
  | .finished result => (.finished result, s, state)

end Stage

structure Call where
  query : Query
  stage : Stage

structure Crew where
  session : Session
  calls : List Call

inductive Event where
  | start (query : Query)
  | turn (caller : Nat)
  | drop (caller : Nat)
  deriving DecidableEq, Repr

namespace Crew

variable {σ : Type}

def new (session : Session) : Crew := ⟨session, []⟩

def isLoading (crew : Crew) : Bool := crew.calls.any (·.stage.isLoading)

def start (crew : Crew) (query : Query) : Crew :=
  ⟨crew.session.countStart query, crew.calls ++ [⟨query, .waiting⟩]⟩

def turn (source : Source σ) (crew : Crew) (state : σ) (caller : Nat) : Crew × σ :=
  match crew.calls[caller]? with
  | none => (crew, state)
  | some call =>
      let (stage, session, state) :=
        call.stage.turn source call.query crew.isLoading crew.session state
      (⟨session, crew.calls.set caller { call with stage }⟩, state)

def drop (crew : Crew) (caller : Nat) : Crew :=
  { crew with calls := crew.calls.modify caller fun call =>
      { call with stage := call.stage.dropped } }

def act (source : Source σ) (crew : Crew × σ) : Event → Crew × σ
  | .start query => (crew.1.start query, crew.2)
  | .turn caller => crew.1.turn source crew.2 caller
  | .drop caller => (crew.1.drop caller, crew.2)

def play (source : Source σ) (events : List Event) (crew : Crew × σ) : Crew × σ :=
  events.foldl (act source) crew

/-- Rounds in which all calls end, whatever they are answered: three for every load, one of
which may be lost with every call, one to go on, and then one for each of at most 64 reads
of the index and one of a value. -/
def rounds (callers : Nat) : Nat := 3 * callers + 66

/-- All queries at once, each in turn, until all are answered. -/
def roundRobin (source : Source σ) (queries : List Query) (s : Session) (state : σ) :
    Crew × σ :=
  let callers := queries.length
  let round := (List.range callers).map Event.turn
  play source (queries.map Event.start ++ (List.replicate (rounds callers) round).flatten)
    (Crew.new s, state)

def results (crew : Crew) : List (Option (Reply Verdict)) :=
  crew.calls.map (·.stage.result?)

end Crew

end SortedBlob
