import SortedBlob.Proofs.FaultTolerance

/-!
What the store of a blob with an accepted trailer replies to `find` and `lookup`, in terms
of the records at the positions of its index. The index may be out of order and the values
may lie anywhere. Main statements: `Session.find_certified_by_positions` and
`Session.lookup_of_any_layout`.
-/

namespace SortedBlob

variable {σ : Type} {blob : Bytes} {t : Trailer}

/-! Records that are known by their positions. -/

section

variable {records : List Record} {count : Nat} {record : Nat → Record}
  (places : ∀ i, records[i]? = if i < count then some (record i) else none)

include places

theorem eq_of_getElem?_eq_some {i : Nat} {r : Record} (h : records[i]? = some r) :
    i < count ∧ r = record i := by
  rw [places] at h
  split at h
  · rename_i inside
    exact ⟨inside, (Option.some.inj h).symm⟩
  · cases h

theorem exists_position_of_mem {r : Record} (member : r ∈ records) :
    ∃ i < count, r = record i := by
  obtain ⟨i, hi⟩ := List.getElem?_of_mem member
  obtain ⟨inside, same⟩ := eq_of_getElem?_eq_some places hi
  exact ⟨i, inside, same⟩

theorem length_eq_of_places : records.length = count := by
  have last := places records.length
  have next := places count
  rw [List.getElem?_eq_none (Nat.le_refl _)] at last
  rw [if_neg (Nat.lt_irrefl _), List.getElem?_eq_none_iff] at next
  split at last
  · cases last
  · omega

theorem Certified.positions {key : Bytes} {outcome : Except FormatError (Option Record)}
    (h : Certified records key outcome) :
    (∃ i < count, (record i).key = key ∧ outcome = .ok (some (record i))) ∨
      (outcome = .ok none ∧ ∃ p ≤ count,
        (p = 0 ∨ (record (p - 1)).key < key) ∧ (p = count ∨ key < (record p).key)) ∨
      ∃ p : UInt64, outcome = .error (.unsortedIndex p) ∧ p.toNat < count ∧
        ((∃ q < p.toNat, (record p.toNat).key ≤ (record q).key) ∨
          ∃ q < count, p.toNat < q ∧ (record q).key ≤ (record p.toNat).key) := by
  cases h with
  | found member same =>
      obtain ⟨i, inside, rfl⟩ := exists_position_of_mem places member
      exact .inl ⟨i, inside, same, rfl⟩
  | @absent before after split gap =>
      have length := length_eq_of_places places
      rw [split, List.length_append] at length
      obtain ⟨below, above⟩ := between_eq_true_iff.mp gap
      refine .inr (.inl ⟨rfl, before.length, by omega, ?_, ?_⟩)
      · cases hlast : before.getLast? with
        | none => exact .inl (by rw [List.getLast?_eq_none_iff.mp hlast]; rfl)
        | some r =>
            have place : records[before.length - 1]? = some r := by
              rw [List.getLast?_eq_getElem?] at hlast
              obtain ⟨inside, _⟩ := List.getElem?_eq_some_iff.mp hlast
              rw [split, List.getElem?_append_left inside, hlast]
            obtain ⟨_, rfl⟩ := eq_of_getElem?_eq_some places place
            exact .inr (below _ (by rw [lastKey, hlast]; rfl))
      · cases hfirst : after.head? with
        | none =>
            rw [List.head?_eq_none_iff.mp hfirst] at length
            exact .inl (by simpa using length)
        | some r =>
            have place : records[before.length]? = some r := by
              rw [split, List.getElem?_append_right (Nat.le_refl _), Nat.sub_self, ← hfirst,
                List.head?_eq_getElem?]
            obtain ⟨_, rfl⟩ := eq_of_getElem?_eq_some places place
            exact .inr (above _ (by rw [firstKey, hfirst]; rfl))
  | @disorder before after r position split place inverted =>
      have here : records[position.toNat]? = some r := by
        rw [split, place, List.getElem?_append_right (Nat.le_refl _), Nat.sub_self]
        rfl
      obtain ⟨inside, rfl⟩ := eq_of_getElem?_eq_some places here
      refine .inr (.inr ⟨position, rfl, inside, ?_⟩)
      rcases inverted with ⟨other, member, out⟩ | ⟨other, member, out⟩
      · obtain ⟨q, hq⟩ := List.getElem?_of_mem member
        obtain ⟨early, _⟩ := List.getElem?_eq_some_iff.mp hq
        have there : records[q]? = some other := by
          rw [split, List.getElem?_append_left early, hq]
        obtain ⟨_, rfl⟩ := eq_of_getElem?_eq_some places there
        exact .inl ⟨q, by omega, List.not_lt.mp out⟩
      · obtain ⟨q, hq⟩ := List.getElem?_of_mem member
        have there : records[before.length + (q + 1)]? = some other := by
          rw [split, List.getElem?_append_right (by omega), Nat.add_sub_cancel_left,
            List.getElem?_cons_succ, hq]
        obtain ⟨late, rfl⟩ := eq_of_getElem?_eq_some places there
        exact .inr ⟨_, late, by omega, List.not_lt.mp out⟩

end

theorem strictlySorted_recordsIn
    (h : ∀ j < t.entryCount.toNat, ∀ i < j,
      (t.recordAt blob i).key < (t.recordAt blob j).key) :
    StrictlySorted (t.recordsIn blob) := by
  refine List.pairwise_iff_getElem.mpr fun i j hi hj before => ?_
  have first := eq_of_getElem?_eq_some (t.getElem?_recordsIn blob)
    (List.getElem?_eq_getElem hi)
  have second := eq_of_getElem?_eq_some (t.getElem?_recordsIn blob)
    (List.getElem?_eq_getElem hj)
  rw [first.2, second.2]
  exact h j second.1 i before

theorem key_lt_of_strictlySorted (sorted : StrictlySorted (t.recordsIn blob)) :
    ∀ j < t.entryCount.toNat, ∀ i < j,
      (t.recordAt blob i).key < (t.recordAt blob j).key := by
  intro j inside i before
  rw [← t.length_recordsIn blob] at inside
  have hi := Nat.lt_trans before inside
  have first := eq_of_getElem?_eq_some (t.getElem?_recordsIn blob)
    (List.getElem?_eq_getElem hi)
  have second := eq_of_getElem?_eq_some (t.getElem?_recordsIn blob)
    (List.getElem?_eq_getElem inside)
  rw [← first.2, ← second.2]
  exact List.pairwise_iff_getElem.mp sorted i j hi inside before

/-! The trailer that is accepted is the one in the last bytes. -/

namespace Trailer

theorem length_of_decode {bytes : Bytes} {verifyChecksum : Bool}
    (h : decode bytes verifyChecksum = .ok t) : bytes.length = size.toNat := by
  by_contra wrong
  simp only [decode, wrong, not_false_eq_true, ne_eq, if_true] at h
  cases h

theorem eval_load_of_validate {config : Config} {length : UInt64}
    (exact : length.toNat = blob.length)
    (decoded :
      decode (blob.drop (blob.length - size.toNat)) config.verifyTrailerChecksum = .ok t)
    (validated : t.validate length config = .ok ()) :
    (load config).eval (Store.ofBytes blob) = .ok (.ok t) := by
  have whole : (Store.ofBytes blob).length = length := by
    rw [← UInt64.ofNat_toNat (x := length), exact]
    rfl
  have last := length_of_decode decoded
  rw [List.length_drop] at last
  have long : size ≤ (Store.ofBytes blob).length := by
    rw [UInt64.le_iff_toNat_le, whole]
    omega
  have hread := Store.read_last long
  rw [whole, exact, Bytes.slice,
    List.take_of_length_le (by rw [List.length_drop]; omega)] at hread
  rw [load, Plan.eval, whole, if_neg (UInt64.not_lt.mpr (whole ▸ long)),
    Plan.eval_read hread, Plan.eval, accept_eq_ok_iff.mpr ⟨decoded, validated⟩]

end Trailer

namespace Session

/-- What the store itself replies to a query, in a session that put
others to a source before. -/
def replyAfter (source : Source σ) (before : List Query) (state : σ) (blob : Bytes)
    (config : Config) (query : Query) : Reply Verdict :=
  ((askAll source before (new config) state).2.1.ask (Store.ofBytes blob).source query ()).1

variable {source : Source σ} {config : Config}

theorem replyAfter_eq (honest : source.Honest (Store.ofBytes blob)) (before : List Query)
    (state : σ) (accepted : (Trailer.load config).eval (Store.ofBytes blob) = .ok (.ok t))
    {query : Query} {verdict : Verdict}
    (h : (query.plan config (.ok t)).eval (Store.ofBytes blob) = .ok verdict) :
    replyAfter source before state blob config query = .ok verdict :=
  (sound_new.askAll honest.serves before state).ask_eval
    ((Query.eval_whole accepted query).trans h)

theorem replyAfter_find (honest : source.Honest (Store.ofBytes blob)) (before : List Query)
    (state : σ) (accepted : (Trailer.load config).eval (Store.ofBytes blob) = .ok (.ok t))
    {key : Bytes} {found : Except LookupError (Option Record)}
    (h : (t.find config key).eval (Store.ofBytes blob) = .ok found) :
    replyAfter source before state blob config (.find key) = .ok (found.map .record) := by
  refine replyAfter_eq honest before state accepted ?_
  rw [Query.plan, Plan.eval_map, h]
  rfl

/-- Over any index, in whatever order: the search finds a record with the key, or a gap
between two records where the key would lie if they are in order, or a record that is out of
order with another. -/
theorem find_certified_by_positions
    (accepted : (Trailer.load config).eval (Store.ofBytes blob) = .ok (.ok t))
    (honest : source.Honest (Store.ofBytes blob)) (before : List Query) (state : σ)
    (key : Bytes) (size : key.length = t.keySize.toNat) :
    let count := t.entryCount.toNat
    let record := t.recordAt blob
    let reply := replyAfter source before state blob config (.find key)
    (∃ i < count, (record i).key = key ∧ reply = .ok (.ok (.record (some (record i))))) ∨
      (reply = .ok (.ok (.record none)) ∧ ∃ p ≤ count,
        (p = 0 ∨ (record (p - 1)).key < key) ∧ (p = count ∨ key < (record p).key)) ∨
      ∃ p : UInt64, reply = .ok (.error (.format (.unsortedIndex p))) ∧ p.toNat < count ∧
        ((∃ q < p.toNat, (record p.toNat).key ≤ (record q).key) ∨
          ∃ q < count, p.toNat < q ∧ (record q).key ≤ (record p.toNat).key) := by
  intro count record reply
  obtain ⟨_, fits⟩ := Trailer.fits_of_eval_load accepted
  obtain ⟨outcome, heval, certified⟩ := fits.exists_eval_find config size
  have answer := replyAfter_find honest before state accepted heval
  rcases certified.positions (t.getElem?_recordsIn blob) with
    ⟨i, inside, same, rfl⟩ | ⟨rfl, gap⟩ | ⟨p, rfl, inside, inverted⟩
  · exact .inl ⟨i, inside, same, answer⟩
  · exact .inr (.inl ⟨answer, gap⟩)
  · exact .inr (.inr ⟨p, answer, inside, inverted⟩)

/-- The first of three keys is too large. A query before was dropped
while it read the trailer. -/
theorem find_certified_by_positions_of_inversion :
    let t := Trailer.ofCounts 1 3 0
    let blob := Index.encode [⟨[3], 0, 0⟩, ⟨[1], 0, 0⟩, ⟨[2], 0, 0⟩] ++ t.encode
    let reply := replyAfter (Store.ofBytes blob).scripted [.find [2]]
      [none, some .dropped] blob {} (.find [2])
    (Trailer.load {}).eval (Store.ofBytes blob) = .ok (.ok t) ∧
      (Store.ofBytes blob).scripted.Honest (Store.ofBytes blob) ∧
      [2].length = t.keySize.toNat ∧
      ∃ p : UInt64, reply = .ok (.error (.format (.unsortedIndex p))) ∧
        ((∃ q < p.toNat, (t.recordAt blob p.toNat).key ≤ (t.recordAt blob q).key) ∨
          ∃ q < 3, p.toNat < q ∧
            (t.recordAt blob q).key ≤ (t.recordAt blob p.toNat).key) := by
  intro t blob reply
  have accepted : (Trailer.load {}).eval (Store.ofBytes blob) = .ok (.ok t) := by
    decide +kernel
  have honest := (Store.ofBytes blob).honest_scripted
  have refused : reply = .ok (.error (.format (.unsortedIndex 1))) := by decide +kernel
  refine ⟨accepted, honest, rfl, ?_⟩
  obtain ⟨_, _, _, same⟩ | ⟨same, _⟩ | ⟨p, same, _, inverted⟩ :=
    find_certified_by_positions accepted honest [.find [2]] [none, some .dropped] [2] rfl
  · cases refused.symm.trans same
  · cases refused.symm.trans same
  · exact ⟨p, same, inverted⟩

/-- Over any index in order, wherever the values lie: the value of the record with the key
if that ends before the index, over exact numbers, a complaint about its bounds if not, and
nothing without a record. -/
theorem lookup_of_any_layout {length : UInt64} (exact : length.toNat = blob.length)
    (decoded : Trailer.decode (blob.drop (blob.length - Trailer.size.toNat))
      config.verifyTrailerChecksum = .ok t)
    (validated : t.validate length config = .ok ())
    (sorted : ∀ j < t.entryCount.toNat, ∀ i < j,
      (t.recordAt blob i).key < (t.recordAt blob j).key)
    (honest : source.Honest (Store.ofBytes blob)) (before : List Query) (state : σ)
    (key : Bytes) (size : key.length = t.keySize.toNat) :
    let reply := replyAfter source before state blob config (.lookup key)
    ((∀ i < t.entryCount.toNat, (t.recordAt blob i).key ≠ key) →
        reply = .ok (.ok (.value none))) ∧
      ∀ i < t.entryCount.toNat,
        let r := t.recordAt blob i
        let stop := r.valueOffset.toNat + r.valueLength.toNat
        r.key = key →
          (stop ≤ t.indexOffset.toNat →
              reply = .ok (.ok (.value
                (some (Bytes.slice blob r.valueOffset.toNat r.valueLength.toNat))))) ∧
            (t.indexOffset.toNat < stop →
              reply = .ok (.error (.format
                (.valueOutOfBounds r.valueOffset r.valueLength t.indexOffset)))) := by
  intro reply
  have accepted := Trailer.eval_load_of_validate exact decoded validated
  obtain ⟨_, fits⟩ := Trailer.fits_of_eval_load accepted
  have ordered := strictlySorted_recordsIn sorted
  have answer : reply = .ok (((t.valueIn blob key).mapError .format).map .value) := by
    refine replyAfter_eq honest before state accepted ?_
    rw [Query.plan, Plan.eval_map, fits.eval_lookup ordered config size]
    rfl
  refine ⟨fun missing => ?_, fun i inside => ?_⟩
  · have none : (t.recordsIn blob).find? (fun r => r.key == key) = none := by
      refine List.find?_eq_none.mpr fun r member => ?_
      obtain ⟨i, inside, rfl⟩ := exists_position_of_mem (t.getElem?_recordsIn blob) member
      simpa using missing i inside
    rw [answer, Trailer.valueIn, none]
    rfl
  · intro r stop same
    have member : r ∈ t.recordsIn blob := by
      refine List.mem_of_getElem? (i := i) ?_
      rw [t.getElem?_recordsIn, if_pos inside]
    have found := find?_eq_some_of_strictlySorted ordered member
    rw [same] at found
    rw [answer, Trailer.valueIn, found]
    refine ⟨fun fitting => ?_, fun escaping => ?_⟩
    · have value : r.valueIn t blob = .ok _ := if_pos fitting
      simp only [value]
      rfl
    · have refused : r.valueIn t blob = .error _ := if_neg (Nat.not_le.mpr escaping)
      simp only [refused]
      rfl

/-- Two values overlap, that of the last key would end beyond all words, and there are bytes
between the index and the trailer. -/
theorem lookup_of_any_layout_of_overlap :
    let t := Trailer.ofCounts 1 3 2
    let records : List Record := [⟨[1], 0, 2⟩, ⟨[2], 1, 1⟩, ⟨[3], 18446744073709551615, 1⟩]
    let blob := [7, 8] ++ Index.encode records ++ [0, 0, 0] ++ t.encode
    let source := (Store.ofBytes blob).scripted
    (84 : UInt64).toNat = blob.length ∧
      Trailer.decode (blob.drop (blob.length - Trailer.size.toNat))
        (Config.verifyTrailerChecksum {}) = .ok t ∧
      t.validate 84 {} = .ok () ∧
      (∀ j < t.entryCount.toNat, ∀ i < j,
        (t.recordAt blob i).key < (t.recordAt blob j).key) ∧
      source.Honest (Store.ofBytes blob) ∧
      replyAfter source [] [] blob {} (.lookup [2]) = .ok (.ok (.value (some [8]))) ∧
      replyAfter source [] [] blob {} (.lookup [3]) =
        .ok (.error (.format (.valueOutOfBounds 18446744073709551615 1 2))) := by
  intro t records blob source
  have exact : (84 : UInt64).toNat = blob.length := by decide +kernel
  have decoded : Trailer.decode (blob.drop (blob.length - Trailer.size.toNat))
      (Config.verifyTrailerChecksum {}) = .ok t := by decide +kernel
  have validated : t.validate 84 {} = .ok () := by decide +kernel
  have sorted : ∀ j < t.entryCount.toNat, ∀ i < j,
      (t.recordAt blob i).key < (t.recordAt blob j).key := by decide +kernel
  have honest := (Store.ofBytes blob).honest_scripted
  have second : t.recordAt blob 1 = ⟨[2], 1, 1⟩ := by decide +kernel
  have third : t.recordAt blob 2 = ⟨[3], 18446744073709551615, 1⟩ := by decide +kernel
  have value :=
    (lookup_of_any_layout exact decoded validated sorted honest [] [] [2] rfl).2 1
    (by decide +kernel)
  have refused :=
    (lookup_of_any_layout exact decoded validated sorted honest [] [] [3] rfl).2 2
    (by decide +kernel)
  rw [second] at value
  rw [third] at refused
  exact ⟨exact, decoded, validated, sorted, honest, (value rfl).1 (by decide),
    (refused rfl).2 (by decide)⟩

end Session

end SortedBlob
