import SortedBlob.Search

/-!
Records in order. A window is checked key by key, up to the first that is out of order;
where none is, halving finds in memory what going through all records finds. Main
statements: `firstDisorder?_eq_some_iff`, `Index.place?_eq_some_iff` and
`Window.scan_eq_answer`.
-/

namespace SortedBlob

variable {below above : Option Bytes} {records rest : List Record} {r : Record}
  {key : Bytes}

theorem between_eq_true_iff :
    between below above key = true ↔
      (∀ bound, below = some bound → bound < key) ∧
        ∀ bound, above = some bound → key < bound := by
  simp [between, Option.all_eq_true]

theorem between_eq_false_iff :
    between below above key = false ↔
      (∃ bound, below = some bound ∧ ¬ bound < key) ∨
        ∃ bound, above = some bound ∧ ¬ key < bound := by
  rw [← Bool.not_eq_true, between_eq_true_iff, Classical.not_and_iff_not_or_not]
  simp

def StrictlySorted (records : List Record) : Prop :=
  records.Pairwise fun first second => first.key < second.key

theorem find?_eq_some_of_strictlySorted (sorted : StrictlySorted records)
    (member : r ∈ records) :
    (records.find? fun other => other.key == r.key) = some r := by
  induction records with
  | nil => cases member
  | cons head rest ih =>
      obtain ⟨first, tail⟩ := List.pairwise_cons.mp sorted
      rcases List.mem_cons.mp member with rfl | inRest
      · simp
      · have different : head.key ≠ r.key := fun same =>
          List.lt_irrefl r.key (same ▸ first r inRest)
        rw [List.find?_cons_of_neg (by simpa using different)]
        exact ih tail inRest

/-- Records whose keys increase strictly, within bounds. -/
structure InOrder (below above : Option Bytes) (records : List Record) : Prop where
  sorted : StrictlySorted records
  bounded {r : Record} : r ∈ records → between below above r.key = true

theorem inOrder_cons_iff :
    InOrder below above (r :: rest) ↔
      between below above r.key = true ∧ InOrder (some r.key) above rest := by
  constructor
  · intro h
    obtain ⟨first, later⟩ := List.pairwise_cons.mp h.sorted
    refine ⟨h.bounded (List.mem_cons_self ..), later, fun {other} member => ?_⟩
    obtain ⟨_, high⟩ := between_eq_true_iff.mp (h.bounded (List.mem_cons_of_mem r member))
    refine between_eq_true_iff.mpr ⟨?_, high⟩
    rintro _ ⟨⟩
    exact first other member
  · intro h
    obtain ⟨inside, later⟩ := h
    have larger : ∀ other ∈ rest, r.key < other.key := fun other member =>
      (between_eq_true_iff.mp (later.bounded member)).1 _ rfl
    refine ⟨List.pairwise_cons.mpr ⟨larger, later.sorted⟩, fun {other} member => ?_⟩
    rcases List.mem_cons.mp member with rfl | behind
    · exact inside
    · obtain ⟨low, _⟩ := between_eq_true_iff.mp inside
      obtain ⟨_, high⟩ := between_eq_true_iff.mp (later.bounded behind)
      exact between_eq_true_iff.mpr
        ⟨fun bound h => List.lt_trans (low bound h) (larger other behind), high⟩

/-! What the check of a window complains about. -/

theorem firstDisorder?_eq_none_iff {position : UInt64} :
    firstDisorder? above below position records = none ↔ InOrder below above records := by
  induction records generalizing below position with
  | nil =>
    exact ⟨fun _ => ⟨List.Pairwise.nil, fun h => absurd h List.not_mem_nil⟩, fun _ => rfl⟩
  | cons r rest ih =>
      rw [firstDisorder?, inOrder_cons_iff]
      by_cases inside : between below above r.key = true
      · rw [if_pos inside, ih]
        exact ⟨fun h => ⟨inside, h⟩, And.right⟩
      · rw [if_neg inside]
        exact ⟨fun h => absurd h (Option.some_ne_none position), fun h => absurd h.1 inside⟩

/-- The key before a place among records that come behind `below`. -/
def keyBefore (below : Option Bytes) (records : List Record) : (place : Nat) → Option Bytes
  | 0 => below
  | place + 1 => records[place]?.map Record.key

/-- At the place there is a key that is not between the one before it and `above`. -/
def DisorderAt (below above : Option Bytes) (records : List Record) (place : Nat) : Prop :=
  ∃ r, records[place]? = some r ∧
    between (keyBefore below records place) above r.key = false

theorem not_disorderAt_nil (place : Nat) : ¬ DisorderAt below above [] place := by
  intro h
  obtain ⟨r, here, _⟩ := h
  cases here

@[simp] theorem disorderAt_zero_iff :
    DisorderAt below above (r :: rest) 0 ↔ between below above r.key = false := by
  simp [DisorderAt, keyBefore]

@[simp] theorem disorderAt_succ_iff {place : Nat} :
    DisorderAt below above (r :: rest) (place + 1) ↔
    DisorderAt (some r.key) above rest place := by
  cases place with
  | zero => simp [DisorderAt, keyBefore]
  | succ place => simp [DisorderAt, keyBefore]

/-- The complaint is about the first place that is out of order, and about no other. -/
theorem firstDisorder?_eq_some_iff {position found : UInt64} :
    firstDisorder? above below position records = some found ↔
      ∃ place, DisorderAt below above records place ∧
        (∀ earlier < place, ¬ DisorderAt below above records earlier) ∧
        found = position + UInt64.ofNat place := by
  -- Each record that is in order becomes the bound of those behind it,
  -- so places move up by one.
  induction records generalizing below position with
  | nil => simp [firstDisorder?, not_disorderAt_nil]
  | cons r rest ih =>
      have next (place : Nat) :
          position + 1 + UInt64.ofNat place = position + UInt64.ofNat (place + 1) := by
        rw [UInt64.ofNat_add, UInt64.add_assoc, UInt64.add_comm 1]
        rfl
      rw [firstDisorder?, ← Nat.or_exists_add_one]
      simp only [Nat.forall_lt_succ_left, disorderAt_zero_iff, disorderAt_succ_iff]
      cases inside : between below above r.key with
      | true =>
          rw [if_pos rfl, ih]
          simp only [Bool.true_eq_false, not_false_eq_true, true_and, false_and,
            false_or, next]
      | false =>
          rw [if_neg Bool.false_ne_true]
          simp [eq_comm]

/-! Halving in memory, over records in order. -/

namespace Index

/-- The place of the key is not left out. -/
theorem narrow_eq (sorted : StrictlySorted records) {place : Fin records.length}
    (here : (records.get place).key = key) {first count : Nat}
    {inside : 0 < count ∧ first + count ≤ records.length} (low : first ≤ place)
    (high : place < first + count) : narrow records key first count inside = place := by
  have ordered {i j : Fin records.length} (before : i < j) :
      (records.get i).key < (records.get j).key :=
    List.pairwise_iff_getElem.mp sorted i j i.isLt j.isLt before
  have notAbove {i j : Fin records.length} (behind : i ≤ j) :
      ¬ (records.get j).key < (records.get i).key := by
    rcases Nat.lt_or_eq_of_le behind with before | same
    · exact List.lt_asymm (ordered before)
    · rw [Fin.ext same]
      exact List.lt_irrefl _
  -- Each step keeps the half that holds the place.
  fun_induction narrow records key first count inside with
  | case1 first count inside wide large ih =>
      have before : place.val < first + count / 2 := by
        refine Nat.lt_of_not_le fun behind => notAbove (i := ⟨first + count / 2, by omega⟩)
          behind ?_
        rw [here]
        exact large
      exact ih low (by omega)
  | case2 first count inside wide small ih =>
      refine ih (Nat.le_of_not_lt fun before => small ?_) (by omega)
      rw [← here]
      exact ordered before
  | case3 first count inside one => exact Fin.ext (by simp; omega)

theorem place?_eq_some_iff (sorted : StrictlySorted records) {place : Fin records.length} :
    place? records key = some place ↔ (records.get place).key = key := by
  unfold place?
  constructor
  · intro h
    split at h
    · dsimp only at h
      split at h
      · rename_i here
        cases h
        exact here
      · cases h
    · cases h
  · intro here
    have found : narrow records key 0 records.length ⟨place.pos, by omega⟩ = place :=
      narrow_eq sorted here (Nat.zero_le _) (by omega)
    rw [dif_pos place.pos, found]
    exact if_pos here

/-- Halving finds what going through all of them finds. -/
theorem map_get_place? (sorted : StrictlySorted records) (key : Bytes) :
    (place? records key).map records.get = records.find? fun r => r.key == key := by
  cases hfind : records.find? fun r => r.key == key with
  | none =>
      cases hplace : place? records key with
      | none => rfl
      | some place =>
          have same := (place?_eq_some_iff sorted).mp hplace
          have other := List.find?_eq_none.mp hfind _ (records.get_mem place)
          exact absurd (beq_iff_eq.mpr same) other
  | some r =>
      obtain ⟨place, rfl⟩ := List.mem_iff_get.mp (List.mem_of_find?_eq_some hfind)
      have same := List.find?_some hfind
      rw [(place?_eq_some_iff sorted).mpr (beq_iff_eq.mp same)]
      rfl

end Index

theorem StrictlySorted.place_eq (sorted : StrictlySorted records) {first second : Nat}
    {r other : Record} (hfirst : records[first]? = some r)
    (hsecond : records[second]? = some other) (same : r.key = other.key) :
    first = second := by
  obtain ⟨inside, rfl⟩ := List.getElem?_eq_some_iff.mp hfirst
  obtain ⟨inside', rfl⟩ := List.getElem?_eq_some_iff.mp hsecond
  have found : Index.place? records records[first].key = some ⟨first, inside⟩ :=
    (Index.place?_eq_some_iff sorted).mpr rfl
  have found' : Index.place? records records[first].key = some ⟨second, inside'⟩ :=
    (Index.place?_eq_some_iff sorted).mpr same.symm
  exact Fin.mk.inj (Option.some.inj (found.symm.trans found'))

namespace Window

variable {w : Window} {position : UInt64}

/-- What going through the records of a window one after the other comes to. -/
def answer (w : Window) (records : List Record) (key : Bytes) :
    Except FormatError (Option Record) :=
  match firstDisorder? w.above w.below w.low records with
  | some position => .error (.unsortedIndex position)
  | none => .ok (records.find? fun r => r.key == key)

theorem answer_of_disorder
    (h : firstDisorder? w.above w.below w.low records = some position) :
    w.answer records key = .error (.unsortedIndex position) := by
  rw [answer, h]

theorem answer_of_inOrder (ordered : InOrder w.below w.above records) :
    w.answer records key = .ok (records.find? fun r => r.key == key) := by
  rw [answer, firstDisorder?_eq_none_iff.mpr ordered]

theorem answer_eq_ok_iff {found : Option Record} :
    w.answer records key = .ok found ↔
      InOrder w.below w.above records ∧ (records.find? fun r => r.key == key) = found := by
  have clean : firstDisorder? w.above w.below w.low records = none ↔
      InOrder w.below w.above records := firstDisorder?_eq_none_iff
  rw [answer, ← clean]
  cases firstDisorder? w.above w.below w.low records with
  | some position => simp
  | none => simp

/-- Halving is put to records in order only. -/
theorem scan_eq_answer (w : Window) (t : Trailer) (key bytes : Bytes) :
    w.scan t key bytes =
      let expected := (t.recordsSpan w.low w.high).width.toNat
      if bytes.length ≠ expected then .error (.truncatedRecord w.low expected bytes.length)
      else w.answer (Index.decode t.keySize.toNat w.width.toNat bytes) key := by
  unfold scan answer
  dsimp only
  split
  · rfl
  · cases hdisorder : firstDisorder? w.above w.below w.low
      (Index.decode t.keySize.toNat w.width.toNat bytes) with
    | some position => rfl
    | none =>
        have ordered := firstDisorder?_eq_none_iff.mp hdisorder
        dsimp only
        rw [Index.map_get_place? ordered.sorted]

theorem scan_of_width {t : Trailer} {bytes : Bytes}
    (h : bytes.length = (t.recordsSpan w.low w.high).width.toNat) :
    w.scan t key bytes =
      w.answer (Index.decode t.keySize.toNat w.width.toNat bytes) key := by
  rw [scan_eq_answer]
  exact if_neg (not_not_intro h)

end Window

end SortedBlob
