import SortedBlob.Proofs.FaultTolerance
import SortedBlob.Source.Faults

/-!
The sources that readers are tried on: stores that are zero almost everywhere, and sources
that fail or lie on demand. Unless they lie, what they say is what a blob in memory says,
and so are the verdicts that queries come to. Main statements: `Store.honest_sparse` and
`Session.ask_faultySource`.
-/

namespace SortedBlob

namespace Store

/-- The byte at a place with one more segment over it, if it reaches so far. -/
def under (place offset : Nat) (segment : Bytes) (byte : UInt8) : UInt8 :=
  if offset ≤ place then segment[place - offset]?.getD byte else byte

def sparseByte (segments : List (UInt64 × Bytes)) (place : Nat) (byte : UInt8) : UInt8 :=
  segments.foldl (fun byte (offset, segment) => under place offset.toNat segment byte) byte

/-- All bytes of a sparse store. -/
def sparseBytes (length : UInt64) (segments : List (UInt64 × Bytes)) : Bytes :=
  (List.range length.toNat).map fun place => sparseByte segments place 0

theorem getElem?_splice {base piece : Bytes} {lead : Nat}
    (fits : lead + piece.length ≤ base.length) (position : Nat) :
    (base.take lead ++ piece ++ base.drop (lead + piece.length))[position]? =
      if lead ≤ position ∧ position < lead + piece.length then piece[position - lead]?
      else base[position]? := by
  have before : (base.take lead).length = lead := List.length_take_of_le (by omega)
  rw [List.append_assoc, List.getElem?_append, before]
  split
  · rw [if_neg (by omega), List.getElem?_take_of_lt ‹_›]
  · rw [List.getElem?_append]
    split
    · rw [if_pos (by omega)]
    · rw [if_neg (by omega), List.getElem?_drop]
      congr 1
      omega

theorem overlay_eq (start : Nat) (base : Bytes) (offset : Nat) (segment : Bytes) :
    let lead := offset - start
    let piece := (segment.drop (start - offset)).take (base.length - lead)
    overlay start base offset segment =
      base.take lead ++ piece ++ base.drop (lead + piece.length) := by
  intro lead piece
  rw [overlay]
  split
  · rename_i empty
    have none : piece = [] := List.isEmpty_iff.mp empty
    simp [none]
  · rfl

theorem length_overlay (start : Nat) (base : Bytes) (offset : Nat) (segment : Bytes) :
    (overlay start base offset segment).length = base.length := by
  rw [overlay_eq]
  simp only [List.length_append, List.length_take, List.length_drop]
  omega

/-- A segment changes those bytes of a store that it lies over. -/
theorem getElem?_overlay (start : Nat) (base : Bytes) (offset : Nat) (segment : Bytes)
    (position : Nat) :
    (overlay start base offset segment)[position]? =
      base[position]?.map (under (start + position) offset segment) := by
  obtain ⟨lead, hlead⟩ : ∃ lead, lead = offset - start := ⟨_, rfl⟩
  obtain ⟨piece, hpiece⟩ :
      ∃ piece, piece = (segment.drop (start - offset)).take (base.length - lead) := ⟨_, rfl⟩
  have length : piece.length =
      min (base.length - lead) (segment.length - (start - offset)) := by
    rw [hpiece, List.length_take, List.length_drop]
  have overlaid : overlay start base offset segment =
      base.take lead ++ piece ++ base.drop (lead + piece.length) := by
    rw [overlay_eq, hpiece, hlead]
  by_cases inside : position < base.length
  · rw [overlaid, List.getElem?_eq_getElem inside, Option.map_some]
    by_cases covers : offset ≤ start + position
    · have here : under (start + position) offset segment base[position] =
          segment[start + position - offset]?.getD base[position] := if_pos covers
      rw [getElem?_splice (by omega), here]
      by_cases short : start + position - offset < segment.length
      · have place : start - offset + (position - lead) = start + position - offset := by omega
        rw [if_pos (by omega), hpiece, List.getElem?_take_of_lt (by omega),
          List.getElem?_drop, place, List.getElem?_eq_getElem short, Option.getD_some]
      · rw [if_neg (by omega), List.getElem?_eq_none (Nat.not_lt.mp short),
          Option.getD_none, List.getElem?_eq_getElem inside]
    · have first : position < (base.take lead).length := by
        rw [List.length_take]
        omega
      have here : under (start + position) offset segment base[position] = base[position] :=
        if_neg covers
      rw [here, List.append_assoc, List.getElem?_append_left first,
        List.getElem?_take_of_lt (by omega), List.getElem?_eq_getElem inside]
  · have outside := Nat.not_lt.mp inside
    rw [List.getElem?_eq_none outside, Option.map_none, List.getElem?_eq_none_iff,
      length_overlay]
    exact outside

theorem getElem?_overlays (start : Nat) (segments : List (UInt64 × Bytes)) (base : Bytes)
    (position : Nat) :
    (segments.foldl (fun base (offset, segment) => overlay start base offset.toNat segment)
        base)[position]? =
      base[position]?.map (sparseByte segments (start + position)) := by
  induction segments generalizing base with
  | nil => exact (congrFun Option.map_id _).symm
  | cons segment rest ih =>
      rw [List.foldl_cons, ih, getElem?_overlay, Option.map_map]
      rfl

variable {length : UInt64} {segments : List (UInt64 × Bytes)}

theorem length_sparseBytes : (sparseBytes length segments).length = length.toNat := by
  rw [sparseBytes, List.length_map, List.length_range]

theorem length_ofBytes_sparse :
    (ofBytes (sparseBytes length segments)).length = length := by
  simp only [ofBytes, length_sparseBytes, UInt64.ofNat_toNat]

theorem read_of_sparse {span : Span} {bytes : Bytes}
    (h : (sparse length segments).read span = .ok bytes) :
    (ofBytes (sparseBytes length segments)).read span = .ok bytes := by
  have same : UInt64.ofNat (sparseBytes length segments).length = length :=
    length_ofBytes_sparse
  simp only [sparse] at h
  split at h
  · cases h
  · rename_i inside
    obtain ⟨ordered, within⟩ : span.start ≤ span.stop ∧ span.stop ≤ length :=
      ⟨UInt64.not_lt.mp fun bad => inside (.inl bad),
        UInt64.not_lt.mp fun bad => inside (.inr (.inl bad))⟩
    have width : span.width.toNat = span.stop.toNat - span.start.toNat :=
      UInt64.toNat_sub_of_le _ _ ordered
    rw [UInt64.le_iff_toNat_le] at ordered within
    simp only [ofBytes, same, if_neg (UInt64.not_lt.mpr ordered),
      if_neg (UInt64.not_lt.mpr within)]
    rw [← Except.ok.inj h]
    refine congrArg Except.ok (List.ext_getElem? fun position => ?_)
    rw [getElem?_overlays, Bytes.slice, List.getElem?_replicate, List.getElem?_take]
    split
    · rw [List.getElem?_drop, sparseBytes, List.getElem?_map,
        List.getElem?_range (by omega)]
      rfl
    · rfl

/-- Whatever a sparse store says of its bytes is so. -/
theorem honest_sparse (length : UInt64) (segments : List (UInt64 × Bytes)) :
    (sparse length segments).source.Honest (ofBytes (sparseBytes length segments)) where
  length h := (Except.ok.inj h).symm.trans length_ofBytes_sparse.symm
  read h := read_of_sparse (read_of_reply h)

end Store

variable {α σ τ : Type}

/-! A source that behaves like another one is asked with the same outcome. -/

/-- The one source does what the other does, in states that stand for its own. -/
structure Source.Follows (other : Source τ) (source : Source σ) (shown : σ → τ) : Prop where
  ask (request : Request) (state : σ) :
    other.ask request (shown state) = shown (source.ask request state)
  length (state : σ) :
    other.length (shown state) = ((source.length state).1, shown (source.length state).2)
  read (purpose : Purpose) (span : Span) (state : σ) :
    other.read purpose span (shown state) =
      ((source.read purpose span state).1, shown (source.read purpose span state).2)

section

variable {other : Source τ} {source : Source σ} {shown : σ → τ}

theorem Source.Follows.run (follows : other.Follows source shown) (plan : Plan α)
    (s : Session) (state : σ) :
    let out := plan.run source s state
    plan.run other s (shown state) = (out.1, out.2.1, shown out.2.2) := by
  fun_induction plan.run source s state with
  | case1 result s state => rfl
  | case2 next s state interruption state' reply =>
      simp only [Plan.run, follows.ask, follows.length, reply]
  | case3 next s state n state' reply ih =>
      simp only [Plan.run, follows.ask, follows.length, reply]
      exact ih
  | case4 purpose span next s state bytes cached ih =>
      simp only [Plan.run, cached]
      exact ih
  | case5 purpose span next s state missed interruption state' reply =>
      simp only [Plan.run, missed, follows.ask, follows.read, reply]
  | case6 purpose span next s state missed bytes state' reply ih =>
      simp only [Plan.run, missed, follows.ask, follows.read, reply]
      exact ih

theorem Source.Follows.loadTrailer (follows : other.Follows source shown) (s : Session)
    (state : σ) :
    let out := Session.loadTrailer source s state
    Session.loadTrailer other s (shown state) = (out.1, out.2.1, shown out.2.2) := by
  unfold Session.loadTrailer
  cases s.trailer with
  | some loaded => rfl
  | none =>
      simp only [follows.run]
      rcases (Trailer.load s.config).run source s state with
        ⟨interruption | loaded, s', state'⟩ <;>
        rfl

theorem Source.Follows.ask_eq (follows : other.Follows source shown) (query : Query)
    (s : Session) (state : σ) :
    let out := s.ask source query state
    s.ask other query (shown state) = (out.1, out.2.1, shown out.2.2) := by
  unfold Session.ask
  simp only [follows.loadTrailer]
  rcases Session.loadTrailer source (s.countStart query) state with
    ⟨interruption | loaded, s', state'⟩
  · rfl
  · simp only [follows.run]
    rcases (query.plan s'.config loaded).run source s' state' with
      ⟨interruption | verdict, s'', state''⟩ <;> rfl

theorem Source.Follows.askAll_eq (follows : other.Follows source shown)
    (queries : List Query) (s : Session) (state : σ) :
    let out := Session.askAll source queries s state
    Session.askAll other queries s (shown state) = (out.1, out.2.1, shown out.2.2) := by
  induction queries generalizing s state with
  | nil => rfl
  | cons query rest ih => simp only [Session.askAll, follows.ask_eq, ih]

end

/-- Faults that keep a reader from replies but do not change what they say. -/
structure Faults.Truthful (faults : Faults) : Prop where
  length : faults.length = none
  served : faults.served = []
  resized : faults.resized = []

namespace Faults

variable {store : Store} {faults : Faults}

theorem answer_of_truthful (truthful : faults.Truthful) {span : Span} {bytes : Bytes}
    (h : faults.answer store span = .ok bytes) : store.read span = .ok bytes := by
  simp only [answer, truthful.served, truthful.resized, List.lookup_nil,
    Option.getD_none] at h
  split at h
  · cases h
  · cases hread : store.read span with
    | error error =>
        rw [hread] at h
        cases h
    | ok found =>
        rw [hread] at h
        simp [resize] at h
        rw [h]

theorem Truthful.read_snd (truthful : faults.Truthful) (store : Store) (span : Span) :
    (faults.read store span).2.Truthful := by
  unfold read
  split
  · exact truthful
  · exact truthful
  · exact ⟨truthful.length, truthful.served, truthful.resized⟩

end Faults

/-- The source whose faults only keep readers from replies. -/
def Store.truthfulSource (store : Store) :
    Source { faults : Faults // faults.Truthful } where
  ask _ state := state
  length state := (state.1.reportedLength store, state)
  read _ span state :=
    ((state.1.read store span).1,
      ⟨(state.1.read store span).2, state.2.read_snd store span⟩)

theorem Store.faultySource_follows (store : Store) :
    store.faultySource.Follows store.truthfulSource Subtype.val :=
  ⟨fun _ _ => rfl, fun _ => rfl, fun _ _ _ => rfl⟩

theorem Store.honest_truthfulSource {store whole : Store}
    (honest : store.source.Honest whole) :
    store.truthfulSource.Honest whole where
  length {n state} h := by
    have reported : store.length = n := by
      simp only [truthfulSource, Faults.reportedLength, state.2.length,
        Option.getD_none] at h
      split at h
      · cases h
      · exact Except.ok.inj h
    have told : (store.source.length ()).1 = .ok store.length := rfl
    rw [← reported]
    exact honest.length told
  read {purpose span bytes state} h := by
    have answered : state.1.answer store span = .ok bytes := by
      simp only [truthfulSource, Faults.read] at h
      split at h
      · exact h
      · cases h
      · exact h
    have held : store.read span = .ok bytes := Faults.answer_of_truthful state.2 answered
    have said : (store.source.read purpose span ()).1 = .ok bytes := by
      simp only [source, held]
      rfl
    exact honest.read said

/-- Faults can keep a query from its verdict, but unless they lie they give it no other. -/
theorem Session.ask_faultySource {store : Store} {blob : Bytes}
    (honest : store.source.Honest (Store.ofBytes blob)) {faults : Faults}
    (truthful : faults.Truthful) (config : Config) (before : List Query) (query : Query)
    {verdict : Verdict} :
    let earlier := askAll store.faultySource before (new config) faults
    (earlier.2.1.ask store.faultySource query earlier.2.2).1 = .ok verdict →
      ((new config).ask (Store.ofBytes blob).source query ()).1 = .ok verdict := by
  intro earlier asked
  let source := store.truthfulSource
  let start : { faults : Faults // faults.Truthful } := ⟨faults, truthful⟩
  let sincere := askAll source before (new config) start
  have serves := (Store.honest_truthfulSource honest).serves
  have sound : sincere.2.1.Sound (Store.ofBytes blob) config :=
    sound_new.askAll serves before start
  have outcome := (sound.ask serves query sincere.2.2).2
  have same : earlier = (sincere.1, sincere.2.1, sincere.2.2.1) :=
    store.faultySource_follows.askAll_eq before (new config) start
  have reply := store.faultySource_follows.ask_eq query sincere.2.1 sincere.2.2
  rw [same, reply] at asked
  dsimp only at asked
  rw [asked] at outcome
  exact sound_new.ask_eval outcome

end SortedBlob
