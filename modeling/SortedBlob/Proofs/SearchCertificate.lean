import Mathlib.Data.List.Basic
import Mathlib.Data.List.TakeWhile
import SortedBlob.Proofs.IndexLayout
import SortedBlob.Proofs.Plan
import SortedBlob.Proofs.RecordOrder

/-!
What an answer of the search says about the index, be it sorted or not. Main
statements: `Window.search_certified`, and `Certified.eq_find?`, by which a sorted
index leaves one answer only.
-/

namespace SortedBlob

/-! The keys on either side of a gap between records. -/

def lastKey (records : List Record) : Option Bytes := records.getLast?.map Record.key

def firstKey (records : List Record) : Option Bytes := records.head?.map Record.key

@[simp] theorem lastKey_nil : lastKey [] = none := rfl

@[simp] theorem lastKey_concat (records : List Record) (r : Record) :
    lastKey (records ++ [r]) = some r.key := by
  simp [lastKey]

theorem lastKey_append (first second : List Record) :
    lastKey (first ++ second) = (lastKey second).or (lastKey first) := by
  rw [lastKey, List.getLast?_append]
  cases hlast : second.getLast? <;> simp [lastKey, hlast]

theorem firstKey_append (first second : List Record) :
    firstKey (first ++ second) = (firstKey first).or (firstKey second) := by
  cases first with
  | nil => rfl
  | cons r rest => rfl

theorem exists_mem_of_lastKey {records : List Record} {key : Bytes}
    (h : lastKey records = some key) : ∃ r ∈ records, r.key = key := by
  obtain ⟨r, hr, rfl⟩ := Option.map_eq_some_iff.mp h
  exact ⟨r, List.mem_of_getLast? hr, rfl⟩

theorem exists_mem_of_firstKey {records : List Record} {key : Bytes}
    (h : firstKey records = some key) : ∃ r ∈ records, r.key = key := by
  obtain ⟨r, hr, rfl⟩ := Option.map_eq_some_iff.mp h
  exact ⟨r, List.mem_of_head? hr, rfl⟩

theorem lt_of_lastKey_takeWhile {records : List Record} {key bound : Bytes}
    (h : lastKey (records.takeWhile fun r => decide (r.key < key)) = some bound) :
    bound < key := by
  obtain ⟨r, member, rfl⟩ := exists_mem_of_lastKey h
  have inside := List.mem_takeWhile_imp member
  simpa using inside

theorem lt_of_firstKey_dropWhile {records : List Record} {key bound : Bytes}
    (missing : ∀ r ∈ records, r.key ≠ key)
    (h : firstKey (records.dropWhile fun r => decide (r.key < key)) = some bound) :
    key < bound := by
  obtain ⟨r, hr, rfl⟩ := Option.map_eq_some_iff.mp h
  have large : ¬ r.key < key := by
    have stopped := List.head?_dropWhile_not
      (fun r : Record => decide (r.key < key)) records
    rw [hr] at stopped
    simpa using stopped
  have member : r ∈ records := (List.dropWhile_sublist _).mem (List.mem_of_head? hr)
  exact Std.lt_of_le_of_ne (List.not_lt.mp large) (missing r member).symm

/-- What the records of an index say for an answer to the search for a key among them. -/
inductive Certified (records : List Record) (key : Bytes) :
    Except FormatError (Option Record) → Prop
  | found {r : Record} (member : r ∈ records) (same : r.key = key) :
      Certified records key (.ok (some r))
  | absent {before after : List Record} (split : records = before ++ after)
      (gap : between (lastKey before) (firstKey after) key = true) :
      Certified records key (.ok none)
  | disorder {before after : List Record} {r : Record} {position : UInt64}
      (split : records = before ++ r :: after) (place : position.toNat = before.length)
      (inverted : (∃ other ∈ before, ¬ other.key < r.key) ∨
        ∃ other ∈ after, ¬ r.key < other.key) :
      Certified records key (.error (.unsortedIndex position))

theorem StrictlySorted.lt_of_lastKey_lt {records : List Record}
    (sorted : StrictlySorted records) {key : Bytes}
    (h : ∀ bound, lastKey records = some bound → bound < key) :
    ∀ r ∈ records, r.key < key := by
  intro r member
  rcases List.eq_nil_or_concat' records with rfl | ⟨init, last, rfl⟩
  · cases member
  · have hlast : last.key < key := h last.key (lastKey_concat init last)
    obtain ⟨_, _, across⟩ := List.pairwise_append.mp sorted
    rcases List.mem_append.mp member with inInit | inLast
    · exact List.lt_trans (across r inInit last (List.mem_singleton_self last)) hlast
    · rw [List.mem_singleton.mp inLast]
      exact hlast

theorem StrictlySorted.lt_of_lt_firstKey {records : List Record}
    (sorted : StrictlySorted records) {key : Bytes}
    (h : ∀ bound, firstKey records = some bound → key < bound) :
    ∀ r ∈ records, key < r.key := by
  intro r member
  cases records with
  | nil => cases member
  | cons first rest =>
      have hfirst : key < first.key := h first.key rfl
      rcases List.mem_cons.mp member with rfl | inRest
      · exact hfirst
      · exact List.lt_trans hfirst ((List.pairwise_cons.mp sorted).1 r inRest)

/-- On a sorted index there is one answer that it certifies. -/
theorem Certified.eq_find? {records : List Record} {key : Bytes}
    {outcome : Except FormatError (Option Record)} (h : Certified records key outcome)
    (sorted : StrictlySorted records) :
    outcome = .ok (records.find? fun r => r.key == key) := by
  cases h with
  | found member same =>
      subst same
      rw [find?_eq_some_of_strictlySorted sorted member]
  | @absent before after split gap =>
      subst split
      obtain ⟨last, first⟩ := between_eq_true_iff.mp gap
      obtain ⟨sortedBefore, sortedAfter, _⟩ := List.pairwise_append.mp sorted
      have missing : ∀ r ∈ before ++ after, ¬ (r.key == key) = true := by
        intro r member same
        have same := eq_of_beq same
        rcases List.mem_append.mp member with inBefore | inAfter
        · have smaller := StrictlySorted.lt_of_lastKey_lt sortedBefore last r inBefore
          exact List.lt_irrefl key (same ▸ smaller)
        · have larger := StrictlySorted.lt_of_lt_firstKey sortedAfter first r inAfter
          exact List.lt_irrefl key (same ▸ larger)
      rw [List.find?_eq_none.mpr missing]
  | @disorder before after r position split place inverted =>
      subst split
      obtain ⟨_, sortedAfter, across⟩ := List.pairwise_append.mp sorted
      rcases inverted with ⟨other, member, out⟩ | ⟨other, member, out⟩
      · exact absurd (across other member r (List.mem_cons_self ..)) out
      · exact absurd ((List.pairwise_cons.mp sortedAfter).1 other member) out

theorem exists_split_of_getElem? {records : List Record} {position : Nat} {r : Record}
    (h : records[position]? = some r) :
    ∃ left right, records = left ++ r :: right ∧ left.length = position := by
  obtain ⟨inside, rfl⟩ := List.getElem?_eq_some_iff.mp h
  refine ⟨records.take position, records.drop (position + 1), ?_, ?_⟩
  · rw [List.getElem_cons_drop, List.take_append_drop]
  · rw [List.length_take]
    omega

theorem keyBefore_length (below : Option Bytes) (first second : List Record) :
    keyBefore below (first ++ second) first.length = (lastKey first).or below := by
  rcases List.eq_nil_or_concat' first with rfl | ⟨init, last, rfl⟩
  · rfl
  · simp [keyBefore]

theorem firstDisorder?_eq_some {above previous : Option Bytes} {position place : UInt64}
    {records : List Record}
    (h : firstDisorder? above previous position records = some place) :
    ∃ before r after, records = before ++ r :: after ∧
      place = position + UInt64.ofNat before.length ∧
      between ((lastKey before).or previous) above r.key = false := by
  obtain ⟨_, ⟨r, here, out⟩, _, rfl⟩ := firstDisorder?_eq_some_iff.mp h
  obtain ⟨before, after, rfl, rfl⟩ := exists_split_of_getElem? here
  rw [keyBefore_length] at out
  exact ⟨before, r, after, rfl, rfl, out⟩

namespace Window

/-- The window lies between the records `pre` and `post` of an index
and knows their keys. -/
structure Splits (w : Window) (pre win post : List Record) : Prop where
  low : w.low.toNat = pre.length
  high : w.high.toNat = pre.length + win.length
  below : w.below = lastKey pre
  above : w.above = firstKey post

variable {w : Window} {pre win post left right : List Record} {r : Record} {key : Bytes}

theorem Splits.upperHalf (split : w.Splits pre (left ++ r :: right) post)
    (middle : w.middle.toNat = pre.length + left.length) :
    (w.upperHalf r.key).Splits (pre ++ left ++ [r]) right post where
  low := by
    have high := split.high
    simp only [List.length_append, List.length_cons] at high
    have inside : w.middle < w.high := by
      rw [UInt64.lt_iff_toNat_lt]
      omega
    simp only [Window.upperHalf, Word.toNat_succ_of_lt inside, middle, List.length_append,
      List.length_singleton]
  high := by
    have high := split.high
    simp only [List.length_append, List.length_cons] at high
    simp only [Window.upperHalf, high, List.length_append, List.length_singleton]
    omega
  below := (lastKey_concat _ r).symm
  above := split.above

theorem Splits.lowerHalf (split : w.Splits pre (left ++ r :: right) post)
    (middle : w.middle.toNat = pre.length + left.length) :
    (w.lowerHalf r.key).Splits pre left (r :: right ++ post) where
  low := split.low
  high := middle
  below := split.below
  above := rfl

/-- A key that is not between one before it and the one above the window is out of order. -/
theorem Splits.disorder (split : w.Splits pre (left ++ r :: right) post) {place : UInt64}
    (hplace : place.toNat = pre.length + left.length) {below : Option Bytes}
    (known : ∀ bound, below = some bound → ∃ other ∈ pre ++ left, other.key = bound)
    (out : between below w.above r.key = false) :
    Certified (pre ++ (left ++ r :: right) ++ post) key
      (.error (.unsortedIndex place)) := by
  have parts : pre ++ (left ++ r :: right) ++ post =
      (pre ++ left) ++ r :: (right ++ post) := by
    simp
  apply Certified.disorder parts (by rw [hplace, List.length_append])
  rw [split.above] at out
  rcases between_eq_false_iff.mp out with ⟨bound, hbound, low⟩ | ⟨bound, hbound, high⟩
  · obtain ⟨other, member, rfl⟩ := known bound hbound
    exact .inl ⟨other, member, low⟩
  · obtain ⟨other, member, rfl⟩ := exists_mem_of_firstKey hbound
    exact .inr ⟨other, List.mem_append_right right member, high⟩

theorem Splits.absent (split : w.Splits pre win post)
    (hkey : between w.below w.above key = true) (missing : ∀ r ∈ win, r.key ≠ key) :
    Certified (pre ++ win ++ post) key (.ok none) := by
  obtain ⟨below, above⟩ := between_eq_true_iff.mp hkey
  have parts : pre ++ win ++ post =
      (pre ++ win.takeWhile fun r => decide (r.key < key)) ++
        ((win.dropWhile fun r => decide (r.key < key)) ++ post) := by
    rw [← List.append_assoc, List.append_assoc pre (win.takeWhile _),
      List.takeWhile_append_dropWhile]
  apply Certified.absent parts
  refine between_eq_true_iff.mpr ⟨fun bound hbound => ?_, fun bound hbound => ?_⟩
  · rw [lastKey_append] at hbound
    rcases Option.or_eq_some_iff.mp hbound with inside | ⟨_, before⟩
    · exact lt_of_lastKey_takeWhile inside
    · exact below bound (split.below.trans before)
  · rw [firstKey_append] at hbound
    rcases Option.or_eq_some_iff.mp hbound with inside | ⟨_, behind⟩
    · exact lt_of_firstKey_dropWhile missing inside
    · exact above bound (split.above.trans behind)

theorem Splits.answer_certified (split : w.Splits pre win post)
    (hkey : between w.below w.above key = true) :
    Certified (pre ++ win ++ post) key (w.answer win key) := by
  unfold answer
  cases hdisorder : firstDisorder? w.above w.below w.low win with
  | some place =>
      obtain ⟨left, r, right, rfl, rfl, out⟩ := firstDisorder?_eq_some hdisorder
      rw [split.below, ← lastKey_append] at out
      refine split.disorder ?_ (fun bound => exists_mem_of_lastKey) out
      have high := split.high
      have bound := w.high.toNat_lt_size
      simp only [List.length_append, List.length_cons] at high
      rw [Word.toNat_add_ofNat (by rw [split.low]; omega), split.low]
  | none =>
      cases hfind : win.find? fun r => r.key == key with
      | none =>
          apply split.absent hkey
          intro r member same
          have other := List.find?_eq_none.mp hfind r member
          exact other (beq_iff_eq.mpr same)
      | some r =>
          have member : r ∈ pre ++ win ++ post := by
            simp [List.mem_of_find?_eq_some hfind]
          have same := List.find?_some hfind
          exact .found member (beq_iff_eq.mp same)

variable {t : Trailer} {blob : Bytes}

theorem Splits.high_le (split : w.Splits pre win post)
    (whole : t.recordsIn blob = pre ++ win ++ post) : w.high ≤ t.entryCount := by
  have total := congrArg List.length whole
  have high := split.high
  simp only [Trailer.length_recordsIn, List.length_append] at total
  rw [UInt64.le_iff_toNat_le]
  omega

theorem Splits.exists_window (split : w.Splits pre win post)
    (fits : t.FitsIn (Store.ofBytes blob).length)
    (whole : t.recordsIn blob = pre ++ win ++ post) (nonempty : w.low < w.high) :
    ∃ bytes, (Store.ofBytes blob).read (t.recordsSpan w.low w.high) = .ok bytes ∧
      Index.decode t.keySize.toNat w.width.toNat bytes = win := by
  have horder := UInt64.le_of_lt nonempty
  have hhigh := split.high_le whole
  have hread := fits.read_records horder hhigh
  refine ⟨_, hread, ?_⟩
  rw [toNat_width nonempty, fits.decode_records horder hhigh hread, whole, split.low,
    split.high, List.append_assoc, List.drop_left, Nat.add_sub_cancel_left, List.take_left]

/-- The read that halves a window is answered with the record in its middle. -/
theorem Splits.exists_middle (split : w.Splits pre win post)
    (fits : t.FitsIn (Store.ofBytes blob).length)
    (whole : t.recordsIn blob = pre ++ win ++ post) (nonempty : w.low < w.high) :
    ∃ bytes left r right, (Store.ofBytes blob).read (t.recordSpan w.middle) = .ok bytes ∧
      Record.decode bytes t.keySize.toNat w.middle = .ok r ∧ win = left ++ r :: right ∧
      w.middle.toNat = pre.length + left.length := by
  have order := UInt64.lt_iff_toNat_lt.mp nonempty
  have middle := toNat_middle nonempty
  have low := split.low
  have high := split.high
  have inside : w.middle < t.entryCount :=
    UInt64.lt_of_lt_of_le (middle_lt nonempty) (split.high_le whole)
  obtain ⟨bytes, r, hread, hdecode, hrecord⟩ := fits.decode_record inside
  rw [whole, List.append_assoc, List.getElem?_append_right (by omega),
    List.getElem?_append_left (by omega)] at hrecord
  obtain ⟨left, right, hwin, hleft⟩ := exists_split_of_getElem? hrecord
  exact ⟨bytes, left, r, right, hread, hdecode, hwin, by omega⟩

theorem splits_whole (t : Trailer) (blob : Bytes) :
    (whole t.entryCount).Splits [] (t.recordsIn blob) [] :=
  ⟨rfl, by simp [whole], rfl, rfl⟩

/-- A window that is small enough is answered from its records alone. -/
theorem Splits.eval_search_of_small (split : w.Splits pre win post)
    (fits : t.FitsIn (Store.ofBytes blob).length)
    (whole : t.recordsIn blob = pre ++ win ++ post) (nonempty : w.low < w.high)
    {scanThreshold : UInt64} (small : 1 < scanThreshold ∧ w.width ≤ scanThreshold) :
    (search t scanThreshold key w).eval (Store.ofBytes blob) =
      .ok (w.answer win key) := by
  obtain ⟨bytes, hread, hdecode⟩ := split.exists_window fits whole nonempty
  rw [search, dif_pos nonempty, if_pos small, Plan.eval_read hread, Plan.eval,
    scan_of_width (Store.length_of_read_ofBytes hread), hdecode]

/-- Every answer of the search over a blob is certified by the index that the blob holds. -/
theorem search_certified (fits : t.FitsIn (Store.ofBytes blob).length)
    (scanThreshold : UInt64) (split : w.Splits pre win post)
    (whole : t.recordsIn blob = pre ++ win ++ post)
    (hkey : between w.below w.above key = true) :
    ∃ outcome, (search t scanThreshold key w).eval (Store.ofBytes blob) = .ok outcome ∧
      Certified (t.recordsIn blob) key outcome := by
  -- Halving keeps the window a segment of the index, with the keys of
  -- the records next to it.
  induction w using search.induct scanThreshold generalizing pre win post with
  | case1 w nonempty small =>
      rw [split.eval_search_of_small fits whole nonempty small, whole]
      exact ⟨_, rfl, split.answer_certified hkey⟩
  | case2 w nonempty wide upper lower =>
      obtain ⟨bytes, left, r, right, hread, hdecode, rfl, place⟩ :=
        split.exists_middle fits whole nonempty
      rw [search, dif_pos nonempty, if_neg wide, Plan.eval_read hread]
      simp only [hdecode]
      split
      · rename_i out
        refine ⟨_, rfl, ?_⟩
        rw [whole]
        refine split.disorder place (fun bound hbound => ?_) out
        rw [split.below] at hbound
        obtain ⟨other, member, same⟩ := exists_mem_of_lastKey hbound
        exact ⟨other, List.mem_append_left left member, same⟩
      · obtain ⟨below, above⟩ := between_eq_true_iff.mp hkey
        split
        · rename_i same
          exact ⟨_, rfl, .found (by simp [whole]) same⟩
        · rename_i different
          split
          · rename_i less
            refine upper r (split.upperHalf place) (by simp [whole])
              (between_eq_true_iff.mpr ⟨?_, above⟩)
            rintro _ ⟨⟩
            exact less
          · rename_i notLess
            refine lower r (split.lowerHalf place) (by simp [whole])
              (between_eq_true_iff.mpr ⟨below, ?_⟩)
            rintro _ ⟨⟩
            exact Std.lt_of_le_of_ne (List.not_lt.mp notLess) (Ne.symm different)
  | case3 w empty =>
      refine ⟨.ok none, by rw [search, dif_neg empty, Plan.eval], ?_⟩
      have order := UInt64.le_iff_toNat_le.mp (UInt64.not_lt.mp empty)
      have low := split.low
      have high := split.high
      have nil : win = [] := List.eq_nil_of_length_eq_zero (by omega)
      rw [whole]
      exact split.absent hkey (by simp [nil])

end Window

end SortedBlob
