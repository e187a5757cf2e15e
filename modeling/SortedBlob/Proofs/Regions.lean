import SortedBlob.Proofs.FaultTolerance
import SortedBlob.Proofs.GuardedReading
import SortedBlob.Proofs.TrailerCell

/-!
Where a reader reads, whatever it is answered: every read lies in the region that an
accepted trailer gives its purpose, and no guard of the reader with guards ever fails on the
way. Main statement: `Session.reads_in_region_without_fault`.
-/

namespace SortedBlob

variable {α σ : Type}

/-- What passes between a load and its source, the latest first. -/
def Trailer.loadedFrom (blobLength : UInt64) (bytes : Bytes) : List Signal :=
  let span : Span := ⟨blobLength - size, blobLength⟩
  [.read .trailer span (.ok bytes), .asked (.read .trailer span), .length (.ok blobLength),
    .asked .length]

/-- A load got the bytes of the trailer and accepted it against the
length that it got before. -/
def Trailer.AcceptedBy (t : Trailer) (config : Config) (blobLength : UInt64)
    (log : List Signal) : Prop :=
  ∃ bytes, loadedFrom blobLength bytes <:+: log ∧
    decode bytes config.verifyTrailerChecksum = .ok t ∧
    t.validate blobLength config = .ok ()

/-- Where a read may lie, given the trailer and all that came before the read. -/
def Span.InRegion (config : Config) (trailer : Option (Except FormatError Trailer))
    (earlier : List Signal) (span : Span) : Purpose → Prop
  | .trailer => ∃ blobLength before,
      earlier = .length (.ok blobLength) :: .asked .length :: before ∧
      span.start.toNat + Trailer.size.toNat = blobLength.toNat ∧ span.stop = blobLength
  | .index => ∃ t blobLength, trailer = some (.ok t) ∧
      t.AcceptedBy config blobLength earlier ∧
      ∃ a b, a < b ∧ b ≤ t.entryCount.toNat ∧
        span.start.toNat = t.indexOffset.toNat + a * Record.size t.keySize.toNat ∧
        span.stop.toNat = t.indexOffset.toNat + b * Record.size t.keySize.toNat ∧
        span.stop.toNat + Trailer.size.toNat ≤ blobLength.toNat
  | .value => ∃ t blobLength, trailer = some (.ok t) ∧
      t.AcceptedBy config blobLength earlier ∧
      span.stop ≤ t.indexOffset

def ReadsInRegion (config : Config) (trailer : Option (Except FormatError Trailer))
    (log : List Signal) : Prop :=
  ∀ ⦃purpose : Purpose⦄ ⦃span : Span⦄ ⦃earlier : List Signal⦄,
    .asked (.read purpose span) :: earlier <:+ log →
      span.start < span.stop ∧ span.InRegion config trailer earlier purpose

section

variable {t : Trailer} {config : Config} {blobLength : UInt64} {log : List Signal}
  {trailer : Option (Except FormatError Trailer)}

theorem Trailer.AcceptedBy.later (h : t.AcceptedBy config blobLength log)
    (heard : List Signal) :
    t.AcceptedBy config blobLength (heard ++ log) := by
  obtain ⟨bytes, load, accepted⟩ := h
  exact ⟨bytes, load.trans (List.suffix_append heard log).isInfix, accepted⟩

theorem Trailer.AcceptedBy.fits (h : t.AcceptedBy config blobLength log) :
    t.FitsIn blobLength := by
  obtain ⟨_, _, _, valid⟩ := h
  exact (validate_eq_ok_iff.mp valid).2

theorem readsInRegion_nil : ReadsInRegion config trailer [] := by
  intro purpose span earlier h
  cases List.suffix_nil.mp h

theorem readsInRegion_cons {signal : Signal} :
    ReadsInRegion config trailer (signal :: log) ↔
      (∀ purpose span, signal = .asked (.read purpose span) →
        span.start < span.stop ∧ span.InRegion config trailer log purpose) ∧
      ReadsInRegion config trailer log := by
  constructor
  · intro h
    refine ⟨?_, fun purpose span earlier suffix => h (suffix.trans (List.suffix_cons ..))⟩
    intro purpose span same
    subst same
    exact h (List.suffix_refl _)
  · intro h purpose span earlier suffix
    obtain ⟨first, rest⟩ := h
    rcases List.suffix_cons_iff.mp suffix with same | inside
    · obtain ⟨rfl, rfl⟩ := List.cons.inj same
      exact first purpose span rfl
    · exact rest inside

/-- Only loads read before the trailer is settled. -/
theorem ReadsInRegion.settle (h : ReadsInRegion config none log)
    (loaded : Except FormatError Trailer) : ReadsInRegion config (some loaded) log := by
  intro purpose span earlier suffix
  obtain ⟨rising, region⟩ := h suffix
  refine ⟨rising, ?_⟩
  cases purpose with
  | trailer => exact region
  | index =>
      obtain ⟨_, _, unsettled, _⟩ := region
      cases unsettled
  | value =>
      obtain ⟨_, _, unsettled, _⟩ := region
      cases unsettled

theorem Trailer.Permits.inRegion (accepted : t.AcceptedBy config blobLength log)
    {purpose : Purpose} {span : Span} (h : t.Permits (.read purpose span)) :
    span.start < span.stop ∧ span.InRegion config (some (.ok t)) log purpose := by
  have fits := accepted.fits
  cases purpose with
  | trailer => exact h.elim
  | index =>
      obtain ⟨low, high, rising, inside, rfl⟩ := h
      have order := UInt64.lt_iff_toNat_lt.mp rising
      have last := UInt64.le_iff_toNat_le.mp inside
      have start : (t.recordsSpan low high).start.toNat = t.recordStart low.toNat :=
        fits.toNat_start (UInt64.le_trans (UInt64.le_of_lt rising) inside)
      have stop : (t.recordsSpan low high).stop.toNat = t.recordStart high.toNat :=
        fits.toNat_stop inside
      have bounded := fits.recordStart_add_size_le last
      have wide := Nat.mul_lt_mul_of_pos_right order t.recordSize_pos
      refine ⟨?_, t, blobLength, rfl, accepted, low.toNat, high.toNat, order, last,
        ?_, ?_, ?_⟩
      · rw [UInt64.lt_iff_toNat_lt, start, stop]
        exact Nat.add_lt_add_left wide _
      · rw [start, t.size_keySize]
        rfl
      · rw [stop, t.size_keySize]
        rfl
      · rw [stop]
        exact bounded
  | value =>
      obtain ⟨rising, inside⟩ := h
      exact ⟨rising, t, blobLength, rfl, accepted, inside⟩

theorem ReadsInRegion.heard (h : ReadsInRegion config (some (.ok t)) log)
    (accepted : t.AcceptedBy config blobLength log) {heard : List Signal}
    (permitted : ∀ signal ∈ heard, t.Permits signal.request) :
    ReadsInRegion config (some (.ok t)) (heard ++ log) := by
  induction heard with
  | nil => exact h
  | cons signal rest ih =>
      obtain ⟨first, others⟩ := List.forall_mem_cons.mp permitted
      refine readsInRegion_cons.mpr ⟨?_, ih others⟩
      intro purpose span same
      subst same
      exact first.inRegion (accepted.later rest)

end

section

variable {config : Config}

/-- What a run asks for is what its plan allows, and it settles nothing. -/
theorem Plan.Asks.run_heard {P : Request → Prop} {plan : Plan α} (asks : plan.Asks P)
    (source : Source σ) (s : Session) (state : σ × List Signal) :
    let out := plan.run source.recorded s state
    out.2.1.config = s.config ∧ out.2.1.trailer = s.trailer ∧
      ∃ heard, out.2.2.2 = heard ++ state.2 ∧ ∀ signal ∈ heard, P signal.request := by
  have kept {place : Course α × Session × σ × List Signal}
      (h : Relation.ReflTransGen (Course.Step source.recorded) (.running plan, s, state)
        place) :
      place.1.From plan ∧ place.2.1.config = s.config ∧ place.2.1.trailer = s.trailer ∧
        ∃ heard, place.2.2.2 = heard ++ state.2 ∧ ∀ signal ∈ heard, P signal.request := by
    induction h with
    | refl => exact ⟨.refl, rfl, rfl, [], rfl, nofun⟩
    | tail _ step ih =>
        obtain ⟨origin, config, trailer, earlier, same, allowed⟩ := ih
        obtain ⟨heard, later, allowedLater⟩ := step.heard asks origin
        refine ⟨step.from origin, step.config_eq.trans config,
          step.trailer_eq.trans trailer, heard ++ earlier, ?_, ?_⟩
        · rw [later, same, List.append_assoc]
        · exact List.forall_mem_append.mpr ⟨allowedLater, allowed⟩
  exact (kept (plan.run_steps source.recorded s state).to_reflTransGen).2

/-- What a load hears, by how far it gets, and that it accepts a trailer only at the end. -/
theorem Trailer.run_load_recorded (source : Source σ) (config : Config) (s : Session)
    (state : σ) (log : List Signal) :
    let out := (load config).run source.recorded s (state, log)
    (∃ reply, out.2.2.2 = .length reply :: .asked .length :: log ∧
      ∀ t, out.1 ≠ .ok (.ok t)) ∨
      ∃ (n : UInt64) (reply : Reply Bytes),
        let span : Span := ⟨n - size, n⟩
        size ≤ n ∧
        out.2.2.2 = .read .trailer span reply :: .asked (.read .trailer span) ::
          .length (.ok n) :: .asked .length :: log ∧
        ∀ t, out.1 = .ok (.ok t) → ∃ bytes, reply = .ok bytes ∧
          decode bytes config.verifyTrailerChecksum = .ok t ∧
          t.validate n config = .ok () := by
  simp only [load, Plan.run, Source.recorded_ask, Source.recorded_length]
  rcases source.length (source.ask .length state) with ⟨interruption | n, state'⟩
  · refine .inl ⟨_, rfl, fun t h => ?_⟩
    cases h
  · by_cases short : n < size
    · simp only [if_pos short, Plan.run]
      refine .inl ⟨_, rfl, fun t h => ?_⟩
      cases h
    · simp only [if_neg short, Plan.run, Session.cached?, Source.recorded_ask,
        Source.recorded_read]
      rcases source.read .trailer ⟨n - size, n⟩
        (source.ask (.read .trailer ⟨n - size, n⟩) state') with
        ⟨interruption | bytes, state''⟩
      · refine .inr ⟨n, _, UInt64.not_lt.mp short, rfl, fun t h => ?_⟩
        cases h
      · refine .inr ⟨n, _, UInt64.not_lt.mp short, rfl, fun t h => ⟨bytes, rfl, ?_⟩⟩
        exact accept_eq_ok_iff.mp (Except.ok.inj h)

theorem ReadsInRegion.run_load {log : List Signal} (reads : ReadsInRegion config none log)
    (source : Source σ) (s : Session) (state : σ) :
    let out := (Trailer.load config).run source.recorded s (state, log)
    ReadsInRegion config none out.2.2.2 ∧
      ∀ t, out.1 = .ok (.ok t) →
        ∃ blobLength, t.AcceptedBy config blobLength out.2.2.2 := by
  intro out
  have measured (reply : Reply UInt64) :
      ReadsInRegion config none (.length reply :: .asked .length :: log) :=
    readsInRegion_cons.mpr ⟨nofun, readsInRegion_cons.mpr ⟨nofun, reads⟩⟩
  rcases Trailer.run_load_recorded source config s state log with
    ⟨reply, heard, refused⟩ | ⟨n, reply, long, heard, accepts⟩
  · rw [heard]
    exact ⟨measured reply, fun t h => absurd h (refused t)⟩
  · rw [heard]
    have start : (n - Trailer.size).toNat + Trailer.size.toNat = n.toNat := by
      have bound := UInt64.le_iff_toNat_le.mp long
      rw [UInt64.toNat_sub_of_le _ _ long]
      omega
    have rising : n - Trailer.size < n := by
      have positive : Trailer.size.toNat = 40 := rfl
      rw [UInt64.lt_iff_toNat_lt]
      omega
    refine ⟨readsInRegion_cons.mpr ⟨nofun, readsInRegion_cons.mpr ⟨?_, measured _⟩⟩, ?_⟩
    · intro purpose span same
      cases same
      exact ⟨rising, n, log, rfl, start, rfl⟩
    · intro t h
      obtain ⟨bytes, rfl, valid⟩ := accepts t h
      exact ⟨n, bytes, ⟨[], log, rfl⟩, valid⟩

end

namespace Session

/-- The reads of a session lie where they may, and it holds a trailer
only if a load accepted it. -/
structure Located (config : Config) (log : List Signal) (s : Session) : Prop where
  sameConfig : s.config = config
  reads : ReadsInRegion config s.trailer log
  accepted {t : Trailer} :
    s.trailer = some (.ok t) → ∃ blobLength, t.AcceptedBy config blobLength log

variable {config : Config} {s s' : Session} {log : List Signal}

theorem located_new (config : Config) : (new config).Located config [] :=
  ⟨rfl, readsInRegion_nil, nofun⟩

theorem Located.of_eq (located : s.Located config log) (hconfig : s'.config = s.config)
    (htrailer : s'.trailer = s.trailer) : s'.Located config log := by
  obtain ⟨sameConfig, reads, accepted⟩ := located
  rw [← htrailer] at reads accepted
  exact ⟨hconfig.trans sameConfig, reads, accepted⟩

theorem Located.loadTrailer (located : s.Located config log) (source : Source σ)
    (state : σ) :
    let out := loadTrailer source.recorded s (state, log)
    out.2.1.Located config out.2.2.2 ∧
      ∀ loaded, out.1 = .ok loaded → out.2.1.trailer = some loaded := by
  obtain rfl := located.sameConfig
  unfold Session.loadTrailer
  cases known : s.trailer with
  | some loaded =>
      refine ⟨located, ?_⟩
      intro found same
      cases same
      exact known
  | none =>
      have reads := located.reads
      rw [known] at reads
      obtain ⟨reads', accepts⟩ := reads.run_load source s state
      obtain ⟨sameConfig, sameTrailer, _⟩ :=
        (Trailer.load_asks s.config).run_heard source s (state, log)
      rw [known] at sameTrailer
      rcases hrun : (Trailer.load s.config).run source.recorded s (state, log) with
        ⟨interruption | loaded, s', state', log'⟩
      · simp only [hrun] at sameConfig sameTrailer reads' ⊢
        refine ⟨⟨sameConfig, sameTrailer ▸ reads', fun {t} h => ?_⟩, nofun⟩
        rw [sameTrailer] at h
        cases h
      · simp only [hrun] at sameConfig reads' accepts ⊢
        refine ⟨⟨sameConfig, reads'.settle loaded, ?_⟩, ?_⟩
        · intro t same
          cases same
          exact accepts t rfl
        · intro found same
          cases same
          rfl

theorem Located.run_plan (located : s.Located config log)
    {loaded : Except FormatError Trailer} (known : s.trailer = some loaded)
    (query : Query) (source : Source σ) (state : σ) :
    let out := (query.plan s.config loaded).run source.recorded s (state, log)
    out.2.1.Located config out.2.2.2 := by
  obtain rfl := located.sameConfig
  cases loaded with
  | error error => exact located
  | ok t =>
      obtain ⟨sameConfig, sameTrailer, heard, later, permitted⟩ :=
        (query.plan_asks s.config t).run_heard source s (state, log)
      obtain ⟨blobLength, accepted⟩ := located.accepted known
      have reads := located.reads
      rw [known] at reads sameTrailer
      refine ⟨sameConfig, ?_, fun {t'} h => ?_⟩
      · rw [sameTrailer, later]
        exact reads.heard accepted permitted
      · rw [sameTrailer] at h
        cases h
        rw [later]
        exact ⟨blobLength, accepted.later heard⟩

/-- A query reads where it may, and no guard stops it. -/
theorem Located.ask (located : s.Located config log) (query : Query) (source : Source σ)
    (state : σ) :
    let out := s.ask source.recorded query (state, log)
    out.2.1.Located config out.2.2.2 ∧
      s.guardedAsk source.recorded query (state, log) = (out.1.map .ok, out.2) := by
  have started := located.of_eq (config_countStart s query) (trailer_countStart s query)
  obtain ⟨loading, known⟩ := started.loadTrailer source state
  refine ⟨?_, guardedAsk_eq query fun t h => ?_⟩
  · unfold Session.ask
    rcases hload : Session.loadTrailer source.recorded (s.countStart query)
        (state, log) with
      ⟨interruption | loaded, s', state', log'⟩
    · rw [hload] at loading
      exact loading
    · rw [hload] at loading known
      have working := loading.run_plan (known loaded rfl) query source state'
      dsimp only at working ⊢
      rcases hrun : (query.plan s'.config loaded).run source.recorded s' (state', log') with
        ⟨interruption | verdict, s'', state'', log''⟩
      · rw [hrun] at working
        exact working
      · rw [hrun] at working
        exact working.of_eq (config_countEnd s'' verdict) (trailer_countEnd s'' verdict)
  · obtain ⟨blobLength, accepted⟩ := loading.accepted (known _ h)
    exact ⟨blobLength, accepted.fits⟩

theorem Located.askAll (located : s.Located config log) (queries : List Query)
    (source : Source σ) (state : σ) :
    let out := askAll source.recorded queries s (state, log)
    out.2.1.Located config out.2.2.2 ∧
      guardedAskAll source.recorded queries s (state, log) =
        (out.1.map (Except.map .ok), out.2) := by
  induction queries generalizing s log state with
  | nil => exact ⟨located, rfl⟩
  | cons query rest ih =>
      obtain ⟨asked, unhindered⟩ := located.ask query source state
      simp only [Session.askAll, guardedAskAll, unhindered]
      rcases hask : s.ask source.recorded query (state, log) with ⟨reply, s', state', log'⟩
      rw [hask] at asked
      obtain ⟨others, unhinderedToo⟩ := ih asked state'
      exact ⟨others, by rw [unhinderedToo]; rfl⟩

/-- Whatever a source answers, over any queries: each read lies in the region that
the trailer gives it, and each reply is the one of the reader with guards, so that
none of them ever fails. -/
theorem reads_in_region_without_fault (source : Source σ) (config : Config)
    (queries : List Query) (state : σ) :
    let out := askAll source.recorded queries (new config) (state, [])
    ReadsInRegion config out.2.1.trailer out.2.2.2 ∧
      guardedAskAll source.recorded queries (new config) (state, []) =
        (out.1.map (Except.map .ok), out.2) := by
  obtain ⟨located, unhindered⟩ := (located_new config).askAll queries source state
  exact ⟨located.reads, unhindered⟩

/-- The index that a blob of the largest length can hold; the record in
the middle is asked for. -/
example :
    let t := Trailer.ofCounts 1 1418980313362273198 1
    let source : Source (List Bytes) :=
      { ask := fun _ replies => replies
        length := fun replies => (.ok 18446744073709551615, replies)
        read := fun _ _ replies => (.ok (replies.headD []), replies.tail) }
    let out := askAll source.recorded [.find [7]] (new {}) ([t.encode], [])
    out.1 = [.ok (.error (.format (.truncatedRecord 709490156681136599 13 0)))] ∧
      out.2.2.2.filterMap Signal.span? =
        [⟨9223372036854775788, 9223372036854775801⟩,
          ⟨18446744073709551575, 18446744073709551615⟩] := by
  decide +kernel

end Session

end SortedBlob
