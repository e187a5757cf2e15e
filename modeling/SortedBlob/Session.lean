import SortedBlob.Query
import SortedBlob.ReadCache
import SortedBlob.Source

/-!
A reader of one blob over many queries: what it remembers between them, and what it counts.
-/

namespace SortedBlob

/-- What was counted so far. All counts but that of the bytes are taken to stay below 2^64,
where a word would wrap. -/
structure Stats where
  lengthCalls : Nat := 0
  rangeReads : Nat := 0
  /-- The sum of all lengths, as a word. -/
  bytesRead : UInt64 := 0
  cacheHits : Nat := 0
  trailerLoads : Nat := 0
  lookups : Nat := 0
  found : Nat := 0
  deriving DecidableEq, Repr

structure Session where
  config : Config
  /-- The trailer, or what is wrong with it, once that is known. -/
  trailer : Option (Except FormatError Trailer)
  cache : ReadCache
  stats : Stats

namespace Session

def new (config : Config) : Session :=
  ⟨config, none, ReadCache.empty config.readCacheCapacity, {}⟩

/-- Only ranges of the index are kept. -/
def cached? (s : Session) : Purpose → Span → Option Bytes
  | .index, span => s.cache.get? span
  | .trailer, _ => none
  | .value, _ => none

def countHit (s : Session) : Session :=
  { s with stats := { s.stats with cacheHits := s.stats.cacheHits + 1 } }

def count (s : Session) : Request → Session
  | .length => { s with stats := { s.stats with lengthCalls := s.stats.lengthCalls + 1 } }
  | .read _ _ => { s with stats := { s.stats with rangeReads := s.stats.rangeReads + 1 } }

/-- What the bytes that a read was answered with leave behind. -/
def receive (s : Session) (purpose : Purpose) (span : Span) (bytes : Bytes) : Session :=
  let stats := { s.stats with bytesRead := s.stats.bytesRead + UInt64.ofNat bytes.length }
  match purpose with
  | .trailer => { s with stats := { stats with trailerLoads := stats.trailerLoads + 1 } }
  | .index => { s with stats, cache := s.cache.offer span bytes }
  | .value => { s with stats }

def settle (s : Session) (loaded : Except FormatError Trailer) : Session :=
  { s with trailer := some loaded }

def countStart (s : Session) (query : Query) : Session :=
  if query.isLookup then { s with stats := { s.stats with lookups := s.stats.lookups + 1 } }
  else s

def countEnd (s : Session) (verdict : Verdict) : Session :=
  if verdict.isFound then { s with stats := { s.stats with found := s.stats.found + 1 } }
  else s

@[simp] theorem config_count (s : Session) (request : Request) :
    (s.count request).config = s.config := by
  cases request <;> rfl

@[simp] theorem trailer_count (s : Session) (request : Request) :
    (s.count request).trailer = s.trailer := by
  cases request <;> rfl

@[simp] theorem cache_count (s : Session) (request : Request) :
    (s.count request).cache = s.cache := by
  cases request <;> rfl

@[simp] theorem config_receive (s : Session) (purpose : Purpose) (span : Span)
    (bytes : Bytes) :
    (s.receive purpose span bytes).config = s.config := by
  cases purpose <;> rfl

@[simp] theorem trailer_receive (s : Session) (purpose : Purpose) (span : Span)
    (bytes : Bytes) :
    (s.receive purpose span bytes).trailer = s.trailer := by
  cases purpose <;> rfl

theorem cache_receive (s : Session) (purpose : Purpose) (span : Span) (bytes : Bytes) :
    (s.receive purpose span bytes).cache =
      if purpose = .index then s.cache.offer span bytes else s.cache := by
  cases purpose <;> rfl

@[simp] theorem config_countStart (s : Session) (query : Query) :
    (s.countStart query).config = s.config := by
  unfold countStart
  split <;> rfl

@[simp] theorem trailer_countStart (s : Session) (query : Query) :
    (s.countStart query).trailer = s.trailer := by
  unfold countStart
  split <;> rfl

@[simp] theorem cache_countStart (s : Session) (query : Query) :
    (s.countStart query).cache = s.cache := by
  unfold countStart
  split <;> rfl

@[simp] theorem config_countEnd (s : Session) (verdict : Verdict) :
    (s.countEnd verdict).config = s.config := by
  unfold countEnd
  split <;> rfl

@[simp] theorem trailer_countEnd (s : Session) (verdict : Verdict) :
    (s.countEnd verdict).trailer = s.trailer := by
  unfold countEnd
  split <;> rfl

@[simp] theorem cache_countEnd (s : Session) (verdict : Verdict) :
    (s.countEnd verdict).cache = s.cache := by
  unfold countEnd
  split <;> rfl

theorem trailerLoads_count (s : Session) (request : Request) :
    (s.count request).stats.trailerLoads = s.stats.trailerLoads := by
  cases request <;> rfl

theorem trailerLoads_receive (s : Session) (purpose : Purpose) (span : Span)
    (bytes : Bytes) :
    (s.receive purpose span bytes).stats.trailerLoads =
      if purpose = .trailer then s.stats.trailerLoads + 1 else s.stats.trailerLoads := by
  cases purpose <;> rfl

theorem trailerLoads_countStart (s : Session) (query : Query) :
    (s.countStart query).stats.trailerLoads = s.stats.trailerLoads := by
  unfold countStart
  split <;> rfl

theorem trailerLoads_countEnd (s : Session) (verdict : Verdict) :
    (s.countEnd verdict).stats.trailerLoads = s.stats.trailerLoads := by
  unfold countEnd
  split <;> rfl

theorem lengthCalls_countStart (s : Session) (query : Query) :
    (s.countStart query).stats.lengthCalls = s.stats.lengthCalls := by
  unfold countStart
  split <;> rfl

theorem lengthCalls_countEnd (s : Session) (verdict : Verdict) :
    (s.countEnd verdict).stats.lengthCalls = s.stats.lengthCalls := by
  unfold countEnd
  split <;> rfl

theorem cached?_eq_some {s : Session} {purpose : Purpose} {span : Span} {bytes : Bytes}
    (h : s.cached? purpose span = some bytes) :
    purpose = .index ∧ s.cache.get? span = some bytes := by
  cases purpose with
  | index => exact ⟨rfl, h⟩
  | trailer => cases h
  | value => cases h

end Session

/-- Follows a plan to its end or to the first request that is not answered. -/
def Plan.run {α σ : Type} (source : Source σ) :
    Plan α → Session → σ → Reply α × Session × σ
  | .done result, s, state => (.ok result, s, state)
  | .length next, s, state =>
      match source.length (source.ask .length state) with
      | (.error interruption, state) => (.error interruption, s.count .length, state)
      | (.ok n, state) => (next n).run source (s.count .length) state
  | .read purpose span next, s, state =>
      match s.cached? purpose span with
      | some bytes => (next bytes).run source s.countHit state
      | none =>
          match source.read purpose span (source.ask (.read purpose span) state) with
          | (.error interruption, state) =>
              (.error interruption, s.count (.read purpose span), state)
          | (.ok bytes, state) =>
              (next bytes).run source
                ((s.count (.read purpose span)).receive purpose span bytes) state

namespace Session

variable {σ : Type}

/-- The trailer is loaded once; what was wrong with its bytes is remembered, a
failure to get them is not. -/
def loadTrailer (source : Source σ) (s : Session) (state : σ) :
    Reply (Except FormatError Trailer) × Session × σ :=
  match s.trailer with
  | some loaded => (.ok loaded, s, state)
  | none =>
      match (Trailer.load s.config).run source s state with
      | (.error interruption, s, state) => (.error interruption, s, state)
      | (.ok loaded, s, state) => (.ok loaded, s.settle loaded, state)

def ask (source : Source σ) (query : Query) (s : Session) (state : σ) :
    Reply Verdict × Session × σ :=
  match loadTrailer source (s.countStart query) state with
  | (.error interruption, s, state) => (.error interruption, s, state)
  | (.ok loaded, s, state) =>
      match (query.plan s.config loaded).run source s state with
      | (.error interruption, s, state) => (.error interruption, s, state)
      | (.ok verdict, s, state) => (.ok verdict, s.countEnd verdict, state)

/-- One query after the other. -/
def askAll (source : Source σ) :
    List Query → Session → σ → List (Reply Verdict) × Session × σ
  | [], s, state => ([], s, state)
  | query :: rest, s, state =>
      let (reply, s, state) := s.ask source query state
      let (replies, s, state) := askAll source rest s state
      (reply :: replies, s, state)

end Session

end SortedBlob
