import SortedBlob.Proofs.AcceptedBlob

/-!
What the threshold for scans changes about a search. A scan checks its whole window, so it
can only complain where halving the window would not: what it finds, halving finds. Main
statements: `Window.search_of_inOrder` and `Window.search_of_coarser`.
-/

namespace SortedBlob

section

variable {below above : Option Bytes} {left right : List Record} {r : Record} {key : Bytes}

/-! What is left of records in order on either side of one of them. -/

theorem InOrder.upper (h : InOrder below above (left ++ r :: right)) :
    InOrder (some r.key) above right := by
  induction left generalizing below with
  | nil => exact (inOrder_cons_iff.mp h).2
  | cons first rest ih => exact ih (inOrder_cons_iff.mp h).2

theorem InOrder.lower (h : InOrder below above (left ++ r :: right)) :
    InOrder below (some r.key) left := by
  obtain ⟨sorted, _, across⟩ := List.pairwise_append.mp h.sorted
  refine ⟨sorted, fun {other} member => ?_⟩
  obtain ⟨low, _⟩ := between_eq_true_iff.mp (h.bounded (List.mem_append_left _ member))
  refine between_eq_true_iff.mpr ⟨low, ?_⟩
  rintro _ ⟨⟩
  exact across other member r (List.mem_cons_self ..)

theorem StrictlySorted.find?_right (sorted : StrictlySorted (left ++ r :: right))
    (h : r.key < key) :
    ((left ++ r :: right).find? fun other => other.key == key) =
      right.find? fun other => other.key == key := by
  obtain ⟨_, _, across⟩ := List.pairwise_append.mp sorted
  have missing : ∀ other ∈ left, ¬ (other.key == key) = true := by
    intro other member same
    have smaller := List.lt_trans (across other member r (List.mem_cons_self ..)) h
    rw [eq_of_beq same] at smaller
    exact List.lt_irrefl key smaller
  have different : ¬ (r.key == key) = true := by
    intro same
    rw [eq_of_beq same] at h
    exact List.lt_irrefl key h
  rw [List.find?_append, List.find?_eq_none.mpr missing, Option.none_or]
  exact List.find?_cons_of_neg different

theorem StrictlySorted.find?_left (sorted : StrictlySorted (left ++ r :: right))
    (h : key < r.key) :
    ((left ++ r :: right).find? fun other => other.key == key) =
      left.find? fun other => other.key == key := by
  obtain ⟨_, tail, _⟩ := List.pairwise_append.mp sorted
  have missing : ∀ other ∈ r :: right, ¬ (other.key == key) = true := by
    intro other member same
    have larger : key < other.key := by
      rcases List.mem_cons.mp member with rfl | later
      · exact h
      · exact List.lt_trans h ((List.pairwise_cons.mp tail).1 other later)
    rw [eq_of_beq same] at larger
    exact List.lt_irrefl key larger
  rw [List.find?_append, List.find?_eq_none.mpr missing, Option.or_none]

end

namespace Window

variable {w : Window} {pre win post : List Record} {t : Trailer} {blob key : Bytes}

/-- On records in order the search finds what going through all of them
finds, by any threshold. -/
theorem search_of_inOrder (fits : t.FitsIn (Store.ofBytes blob).length)
    (scanThreshold : UInt64) (split : w.Splits pre win post)
    (whole : t.recordsIn blob = pre ++ win ++ post)
    (ordered : InOrder w.below w.above win) :
    (search t scanThreshold key w).eval (Store.ofBytes blob) =
      .ok (.ok (win.find? fun r => r.key == key)) := by
  induction w using search.induct scanThreshold generalizing pre win post with
  | case1 w nonempty small =>
      rw [split.eval_search_of_small fits whole nonempty small, answer_of_inOrder ordered]
  | case2 w nonempty wide upper lower =>
      obtain ⟨bytes, left, r, right, hread, hdecode, rfl, place⟩ :=
        split.exists_middle fits whole nonempty
      have inside := ordered.bounded (List.mem_append_right left (List.mem_cons_self ..))
      rw [search, dif_pos nonempty, if_neg wide, Plan.eval_read hread]
      simp only [hdecode, inside, Bool.true_eq_false, if_false]
      split
      · rename_i same
        have member : r ∈ left ++ r :: right := by simp
        rw [Plan.eval, ← same, find?_eq_some_of_strictlySorted ordered.sorted member]
      · rename_i different
        split
        · rename_i less
          rw [ordered.sorted.find?_right less]
          exact upper r (split.upperHalf place) (by simp [whole]) ordered.upper
        · rename_i notLess
          have larger := Std.lt_of_le_of_ne (List.not_lt.mp notLess) (Ne.symm different)
          rw [ordered.sorted.find?_left larger]
          exact lower r (split.lowerHalf place) (by simp [whole]) ordered.lower
  | case3 w empty =>
      have order := UInt64.le_iff_toNat_le.mp (UInt64.not_lt.mp empty)
      have low := split.low
      have high := split.high
      have nil : win = [] := List.eq_nil_of_length_eq_zero (by omega)
      rw [search, dif_neg empty, nil]
      rfl

theorem wide_of_coarser {fine coarse : UInt64} (h : fine ≤ coarse)
    (wide : ¬ (1 < coarse ∧ w.width ≤ coarse)) : ¬ (1 < fine ∧ w.width ≤ fine) :=
  fun small =>
  wide ⟨UInt64.lt_of_lt_of_le small.1 h, UInt64.le_trans small.2 h⟩

/-- Two searches go the same way until the one with the larger threshold scans. If it has no
complaint, its window is in order. -/
theorem search_of_coarser (fits : t.FitsIn (Store.ofBytes blob).length)
    {fine coarse : UInt64} (h : fine ≤ coarse) (split : w.Splits pre win post)
    (whole : t.recordsIn blob = pre ++ win ++ post) {found : Option Record}
    (hfound : (search t coarse key w).eval (Store.ofBytes blob) = .ok (.ok found)) :
    (search t fine key w).eval (Store.ofBytes blob) = .ok (.ok found) := by
  induction w using search.induct coarse generalizing pre win post with
  | case1 w nonempty small =>
      rw [split.eval_search_of_small fits whole nonempty small] at hfound
      obtain ⟨ordered, rfl⟩ := answer_eq_ok_iff.mp (Except.ok.inj hfound)
      exact search_of_inOrder fits fine split whole ordered
  | case2 w nonempty wide upper lower =>
      obtain ⟨bytes, left, r, right, hread, hdecode, rfl, place⟩ :=
        split.exists_middle fits whole nonempty
      rw [search, dif_pos nonempty, if_neg wide, Plan.eval_read hread] at hfound
      rw [search, dif_pos nonempty, if_neg (wide_of_coarser h wide), Plan.eval_read hread]
      simp only [hdecode] at hfound ⊢
      split at hfound
      · simp [Plan.eval] at hfound
      · rename_i inside
        rw [if_neg inside]
        split at hfound
        · rename_i same
          rw [if_pos same]
          exact hfound
        · rename_i different
          rw [if_neg different]
          split at hfound
          · rename_i less
            rw [if_pos less]
            exact upper r (split.upperHalf place) (by simp [whole]) hfound
          · rename_i notLess
            rw [if_neg notLess]
            exact lower r (split.lowerHalf place) (by simp [whole]) hfound
  | case3 w empty =>
      rw [search, dif_neg empty] at hfound ⊢
      exact hfound

end Window

/-- The same in all but the threshold for scans. -/
def Config.scanning (config : Config) (scanThreshold : UInt64) : Config :=
  { config with scanThreshold }

variable {σ : Type} {t : Trailer} {blob key : Bytes} {config : Config}

theorem Trailer.FitsIn.eval_find_of_coarser (fits : t.FitsIn (Store.ofBytes blob).length)
    {fine coarse : UInt64} (h : fine ≤ coarse) {found : Option Record}
    (hfound : (t.find (config.scanning coarse) key).eval (Store.ofBytes blob) =
      .ok (.ok found)) :
    (t.find (config.scanning fine) key).eval (Store.ofBytes blob) = .ok (.ok found) := by
  by_cases size : key.length = t.keySize.toNat
  · rw [find_of_length size, Plan.eval_map] at hfound ⊢
    have answer : (Window.search t coarse key (Window.whole t.entryCount)).eval
        (Store.ofBytes blob) = .ok (.ok found) := by
      rcases hsearch : (Window.search t coarse key (Window.whole t.entryCount)).eval
        (Store.ofBytes blob) with error | error | answer
      · simp [Config.scanning, hsearch, Except.map] at hfound
      · simp [Config.scanning, hsearch, Except.map, Except.mapError] at hfound
      · simpa [Config.scanning, hsearch, Except.map, Except.mapError] using hfound
    have finer := Window.search_of_coarser fits h (Window.splits_whole t blob)
      (by simp) answer
    rw [Config.scanning, finer]
    rfl
  · rw [find_of_length_ne size] at hfound
    cases hfound

namespace Session

variable {source : Source σ}

/-- Over any index: an answer by one threshold is the answer by every smaller one, so
whoever complains by the smaller one complains by the larger one too. Over an index in order
there is one answer for each key that is long enough. -/
theorem find_with_finer_threshold
    (accepted : (Trailer.load config).eval (Store.ofBytes blob) = .ok (.ok t))
    (honest : source.Honest (Store.ofBytes blob)) (before : List Query) (state : σ)
    {fine coarse : UInt64} (h : fine ≤ coarse) (key : Bytes) :
    let reply scanThreshold :=
      replyAfter source before state blob (config.scanning scanThreshold) (.find key)
    (∀ answer, reply coarse = .ok (.ok answer) → reply fine = .ok (.ok answer)) ∧
      (∀ error, reply fine = .ok (.error error) →
        ∃ error', reply coarse = .ok (.error error')) ∧
      ((∀ j < t.entryCount.toNat, ∀ i < j, (t.recordAt blob i).key < (t.recordAt blob j).key) →
        key.length = t.keySize.toNat →
          ∃ answer, ∀ scanThreshold, reply scanThreshold = .ok (.ok answer)) ∧
      (key.length ≠ t.keySize.toNat →
        ∀ scanThreshold, reply scanThreshold =
            .ok (.error (.invalidKey t.keySize key.length))) := by
  intro reply
  obtain ⟨_, fits⟩ := Trailer.fits_of_eval_load accepted
  have answered {scanThreshold : UInt64} {found : Except LookupError (Option Record)}
      (heval : (t.find (config.scanning scanThreshold) key).eval (Store.ofBytes blob) =
        .ok found) : reply scanThreshold = .ok (found.map .record) := by
    have same : Trailer.load (config.scanning scanThreshold) = Trailer.load config := rfl
    exact replyAfter_find honest before state (same ▸ accepted) heval
  have finer (answer : Answer) (hcoarse : reply coarse = .ok (.ok answer)) :
      reply fine = .ok (.ok answer) := by
    obtain ⟨found, heval⟩ := fits.exists_eval (t.find_asks (config.scanning coarse) key)
    rw [answered heval] at hcoarse
    cases found with
    | error error => cases hcoarse
    | ok found =>
        rw [answered (fits.eval_find_of_coarser h heval), ← hcoarse]
  refine ⟨finer, fun error hfine => ?_, fun sorted size => ?_, fun size scanThreshold => ?_⟩
  · obtain ⟨found, heval⟩ := fits.exists_eval (t.find_asks (config.scanning coarse) key)
    cases found with
    | error error' => exact ⟨error', answered heval⟩
    | ok found =>
        have impossible := (finer _ (answered heval)).symm.trans hfine
        cases impossible
  · exact ⟨_, fun scanThreshold =>
      answered (fits.eval_find (strictlySorted_recordsIn sorted) _ size)⟩
  · exact answered (by rw [Trailer.find_of_length_ne size]; rfl)

/-- The key has one byte and not two, so there is no answer by any threshold. -/
theorem find_of_short_key_refused :
    let t := Trailer.ofCounts 2 0 0
    let blob := t.encode
    let reply scanThreshold :=
      replyAfter (Store.ofBytes blob).scripted [] [] blob (Config.scanning {} scanThreshold)
        (.find [1])
    (Trailer.load {}).eval (Store.ofBytes blob) = .ok (.ok t) ∧
      (∀ j < t.entryCount.toNat, ∀ i < j,
        (t.recordAt blob i).key < (t.recordAt blob j).key) ∧
      ¬ ∃ answer, reply 0 = .ok (.ok answer) ∧ reply 8 = .ok (.ok answer) := by
  intro t blob reply
  have refused : reply 8 = .ok (.error (.invalidKey 2 1)) := by decide +kernel
  refine ⟨by decide +kernel, by decide +kernel, ?_⟩
  intro agreed
  obtain ⟨answer, _, found⟩ := agreed
  cases refused.symm.trans found

/-- The second of three keys is smaller than the first. A scan of the last key alone does
not notice it when it finds that key, and neither does halving; a scan of all three does. -/
theorem find_with_finer_threshold_of_inversion :
    let t := Trailer.ofCounts 1 3 0
    let blob := Index.encode [⟨[5], 0, 0⟩, ⟨[4], 0, 0⟩, ⟨[6], 0, 0⟩] ++ t.encode
    let source := (Store.ofBytes blob).scripted
    let reply scanThreshold :=
      replyAfter source [.trailer] [some .dropped] blob (Config.scanning {} scanThreshold)
        (.find [6])
    (Trailer.load {}).eval (Store.ofBytes blob) = .ok (.ok t) ∧
      source.Honest (Store.ofBytes blob) ∧ (0 : UInt64) ≤ 2 ∧
      reply 2 = .ok (.ok (.record (some ⟨[6], 0, 0⟩))) ∧
      reply 0 = .ok (.ok (.record (some ⟨[6], 0, 0⟩))) ∧
      reply 3 = .ok (.error (.format (.unsortedIndex 1))) := by
  intro t blob source reply
  have accepted : (Trailer.load {}).eval (Store.ofBytes blob) = .ok (.ok t) := by
    decide +kernel
  have honest := (Store.ofBytes blob).honest_scripted
  have finer : (0 : UInt64) ≤ 2 := by decide
  have coarse : reply 2 = .ok (.ok (.record (some ⟨[6], 0, 0⟩))) := by decide +kernel
  have fine := (find_with_finer_threshold accepted honest [.trailer] [some .dropped] finer
    [6]).1 _ coarse
  exact ⟨accepted, honest, finer, coarse, fine, by decide +kernel⟩

end Session

end SortedBlob
