import SortedBlob.Proofs.AcceptedBlob

/-!
What a scan makes of the bytes of its window, whatever they are: all of them are checked,
and only then is there an answer, which is that of all records of the window. Main
statement: `Session.scan_checks_whole_window`.
-/

namespace SortedBlob

/-- The number of bytes that some records take, if it is a word. -/
theorem Trailer.toNat_width_recordsSpan {t : Trailer} {low high : UInt64}
    (order : low ≤ high)
    (small : (high.toNat - low.toNat) * t.recordSize.toNat < UInt64.size) :
    (t.recordsSpan low high).width.toNat =
      (high.toNat - low.toNat) * t.recordSize.toNat := by
  have count := UInt64.toNat_sub_of_le _ _ order
  have width : (t.recordsSpan low high).width = (high - low) * t.recordSize := by
    simp only [Span.width, recordsSpan]
    grind
  rw [width, Word.toNat_mul_of_lt (by rw [count]; exact small), count]

namespace Window

instance : Membership UInt64 Window where
  mem w position := w.low ≤ position ∧ position < w.high

/-- The record at a position of the window, from the bytes of all its records. -/
def recordAt (w : Window) (t : Trailer) (bytes : Bytes) (position : Nat) : Record :=
  Record.ofBytes t.keySize.toNat
    (Bytes.slice bytes ((position - w.low.toNat) * t.recordSize.toNat) t.recordSize.toNat)

/-- The key at a position of the window is not larger than the one before it, which for the
first position is the one below the window, or not smaller than the one above the window. -/
inductive OutOfOrder (w : Window) (record : Nat → Record) (position : Nat) : Prop
  | first (start : position = w.low.toNat) {bound : Bytes} (outside : w.below = some bound)
      (small : (record position).key ≤ bound)
  | later (behind : w.low.toNat < position)
      (small : (record position).key ≤ (record (position - 1)).key)
  | last {bound : Bytes} (outside : w.above = some bound)
      (large : bound ≤ (record position).key)

variable {w : Window} {t : Trailer} {bytes key : Bytes}

theorem outOfOrder_iff {record : Nat → Record} {position : Nat} :
    w.OutOfOrder record position ↔
      (position = w.low.toNat ∧ ∃ bound ∈ w.below, (record position).key ≤ bound) ∨
      (w.low.toNat < position ∧ (record position).key ≤ (record (position - 1)).key) ∨
      ∃ bound ∈ w.above, bound ≤ (record position).key := by
  constructor
  · intro out
    cases out with
    | first start outside small => exact .inl ⟨start, _, outside, small⟩
    | later behind small => exact .inr (.inl ⟨behind, small⟩)
    | last outside large => exact .inr (.inr ⟨_, outside, large⟩)
  · rintro (⟨start, _, outside, small⟩ | ⟨behind, small⟩ | ⟨_, outside, large⟩)
    · exact .first start outside small
    · exact .later behind small
    · exact .last outside large

instance (record : Nat → Record) (position : Nat) :
    Decidable (w.OutOfOrder record position) :=
  decidable_of_iff _ outOfOrder_iff.symm

theorem toNat_place (order : w.low ≤ w.high) {place : Nat}
    (inside : place < w.width.toNat) :
    (w.low + UInt64.ofNat place).toNat = w.low.toNat + place := by
  have width : w.width.toNat = w.high.toNat - w.low.toNat :=
    UInt64.toNat_sub_of_le _ _ order
  have bound := w.high.toNat_lt_size
  exact Word.toNat_add_ofNat (by omega)

theorem mem_iff_exists_place (order : w.low ≤ w.high) {position : UInt64} :
    position ∈ w ↔ ∃ place < w.width.toNat, position = w.low + UInt64.ofNat place := by
  have width : w.width.toNat = w.high.toNat - w.low.toNat :=
    UInt64.toNat_sub_of_le _ _ order
  have unfolded : position ∈ w ↔ w.low ≤ position ∧ position < w.high := Iff.rfl
  rw [unfolded, UInt64.le_iff_toNat_le, UInt64.lt_iff_toNat_lt]
  constructor
  · rintro ⟨low, high⟩
    have inside : position.toNat - w.low.toNat < w.width.toNat := by omega
    refine ⟨_, inside, ?_⟩
    rw [← UInt64.toNat_inj, toNat_place order inside, Nat.add_sub_cancel' low]
  · rintro ⟨place, inside, rfl⟩
    rw [toNat_place order inside]
    omega

theorem forall_mem_iff (order : w.low ≤ w.high) {P : UInt64 → Prop} :
    (∀ position ∈ w, P position) ↔
      ∀ place < w.width.toNat, P (w.low + UInt64.ofNat place) := by
  simp only [mem_iff_exists_place order, forall_exists_index, and_imp,
    forall_comm (α := UInt64), forall_eq]

/-! Records that are known by their positions. -/

section

variable {records : List Record} {record : Nat → Record}
  (places : ∀ place, records[place]? =
    if place < w.width.toNat then some (record (w.low.toNat + place)) else none)

include places

theorem disorderAt_iff_outOfOrder {place : Nat} :
    DisorderAt w.below w.above records place ↔
      place < w.width.toNat ∧ w.OutOfOrder record (w.low.toNat + place) := by
  constructor
  · rintro ⟨r, here, out⟩
    rw [places] at here
    split at here
    · rename_i inside
      cases here
      refine ⟨inside, ?_⟩
      rcases between_eq_false_iff.mp out with ⟨bound, known, small⟩ | ⟨bound, known, large⟩
      · -- Only the first record of the window has the bound before it.
        cases place with
        | zero => exact .first rfl known (List.not_lt.mp small)
        | succ place =>
            rw [keyBefore, places, if_pos (Nat.lt_of_succ_lt inside)] at known
            cases known
            exact .later (by omega) (List.not_lt.mp small)
      · exact .last known (List.not_lt.mp large)
    · cases here
  · rintro ⟨inside, out⟩
    refine ⟨record (w.low.toNat + place), by rw [places, if_pos inside],
      between_eq_false_iff.mpr ?_⟩
    cases out with
    | first start outside small =>
        obtain rfl : place = 0 := by omega
        exact .inl ⟨_, outside, List.not_lt.mpr small⟩
    | later behind small =>
        obtain ⟨earlier, rfl⟩ : ∃ earlier, place = earlier + 1 := ⟨place - 1, by omega⟩
        refine .inl ⟨_, ?_, List.not_lt.mpr small⟩
        rw [keyBefore, places, if_pos (Nat.lt_of_succ_lt inside)]
        rfl
    | last outside large => exact .inr ⟨_, outside, List.not_lt.mpr large⟩

/-- The position that is complained about is the least that is out of order. -/
theorem firstDisorder?_eq_some_iff_outOfOrder (order : w.low ≤ w.high) {position : UInt64} :
    firstDisorder? w.above w.below w.low records = some position ↔
      position ∈ w ∧ w.OutOfOrder record position.toNat ∧
        ∀ earlier ∈ w, earlier < position → ¬ w.OutOfOrder record earlier.toNat := by
  rw [firstDisorder?_eq_some_iff]
  constructor
  · rintro ⟨place, here, least, rfl⟩
    obtain ⟨inside, out⟩ := (disorderAt_iff_outOfOrder places).mp here
    refine ⟨(mem_iff_exists_place order).mpr ⟨place, inside, rfl⟩, ?_, ?_⟩
    · rw [toNat_place order inside]
      exact out
    · rw [forall_mem_iff order]
      intro earlier inside' before out'
      rw [UInt64.lt_iff_toNat_lt, toNat_place order inside,
        toNat_place order inside'] at before
      rw [toNat_place order inside'] at out'
      exact least earlier (by omega)
        ((disorderAt_iff_outOfOrder places).mpr ⟨inside', out'⟩)
  · rintro ⟨member, out, least⟩
    obtain ⟨place, inside, rfl⟩ := (mem_iff_exists_place order).mp member
    rw [forall_mem_iff order] at least
    rw [toNat_place order inside] at out
    refine ⟨place, (disorderAt_iff_outOfOrder places).mpr ⟨inside, out⟩,
      fun earlier before here => ?_, rfl⟩
    obtain ⟨inside', out'⟩ := (disorderAt_iff_outOfOrder places).mp here
    refine least earlier inside' ?_ ((toNat_place order inside').symm ▸ out')
    rw [UInt64.lt_iff_toNat_lt, toNat_place order inside, toNat_place order inside']
    omega

theorem inOrder_of_ordered (order : w.low ≤ w.high)
    (ordered : ∀ position ∈ w, ¬ w.OutOfOrder record position.toNat) :
    InOrder w.below w.above records := by
  have clean : firstDisorder? w.above w.below w.low records = none := by
    refine Option.eq_none_iff_forall_ne_some.mpr fun position found => ?_
    obtain ⟨member, out, _⟩ := (firstDisorder?_eq_some_iff_outOfOrder places order).mp found
    exact ordered position member out
  exact firstDisorder?_eq_none_iff.mp clean

theorem getElem?_of_mem (order : w.low ≤ w.high) {position : UInt64}
    (member : position ∈ w) :
    records[position.toNat - w.low.toNat]? = some (record position.toNat) := by
  obtain ⟨place, inside, rfl⟩ := (mem_iff_exists_place order).mp member
  rw [toNat_place order inside, Nat.add_sub_cancel_left, places, if_pos inside]

theorem exists_position_of_mem_records (order : w.low ≤ w.high) {r : Record}
    (member : r ∈ records) : ∃ position ∈ w, r = record position.toNat := by
  obtain ⟨place, inside, rfl⟩ := exists_position_of_mem places member
  exact ⟨_, (mem_iff_exists_place order).mpr ⟨place, inside, rfl⟩,
    by rw [toNat_place order inside]⟩

end

/-! The records of a window, from bytes of the right number. -/

theorem getElem?_records (w : Window) (t : Trailer) (bytes : Bytes) (place : Nat) :
    (Index.decode t.keySize.toNat w.width.toNat bytes)[place]? =
      if place < w.width.toNat then some (w.recordAt t bytes (w.low.toNat + place))
        else none := by
  rw [Index.getElem?_decode, recordAt, Nat.add_sub_cancel_left, t.size_keySize]

section

variable (order : w.low ≤ w.high)
  (small : (w.high.toNat - w.low.toNat) * t.recordSize.toNat < UInt64.size)

include order small

theorem scan_of_length_ne
    (wrong : bytes.length ≠ (w.high.toNat - w.low.toNat) * t.recordSize.toNat) :
    w.scan t key bytes = .error (.truncatedRecord w.low
      ((w.high.toNat - w.low.toNat) * t.recordSize.toNat) bytes.length) := by
  rw [scan_eq_answer, Trailer.toNat_width_recordsSpan order small]
  exact if_pos wrong

variable (complete : bytes.length = (w.high.toNat - w.low.toNat) * t.recordSize.toNat)

include complete

theorem scan_of_length :
    w.scan t key bytes = w.answer (Index.decode t.keySize.toNat w.width.toNat bytes) key :=
  scan_of_width (by rw [Trailer.toNat_width_recordsSpan order small, complete])

theorem scan_of_outOfOrder {position : UInt64} (member : position ∈ w)
    (out : w.OutOfOrder (w.recordAt t bytes) position.toNat)
    (least : ∀ earlier ∈ w, earlier < position →
      ¬ w.OutOfOrder (w.recordAt t bytes) earlier.toNat) :
    w.scan t key bytes = .error (.unsortedIndex position) := by
  have found :=
    (firstDisorder?_eq_some_iff_outOfOrder (w.getElem?_records t bytes) order).mpr
    ⟨member, out, least⟩
  rw [scan_of_length order small complete, answer_of_disorder found]

variable (ordered : ∀ position ∈ w, ¬ w.OutOfOrder (w.recordAt t bytes) position.toNat)

include ordered

theorem scan_of_ordered :
    w.scan t key bytes = .ok ((Index.decode t.keySize.toNat w.width.toNat bytes).find?
      fun r => r.key == key) := by
  have inOrder := inOrder_of_ordered (w.getElem?_records t bytes) order ordered
  rw [scan_of_length order small complete, answer_of_inOrder inOrder]

theorem scan_of_key_eq {position : UInt64} (member : position ∈ w)
    (same : (w.recordAt t bytes position.toNat).key = key) :
    w.scan t key bytes = .ok (some (w.recordAt t bytes position.toNat)) := by
  have sorted := (inOrder_of_ordered (w.getElem?_records t bytes) order ordered).sorted
  have place := getElem?_of_mem (w.getElem?_records t bytes) order member
  rw [scan_of_ordered order small complete ordered, ← same,
    find?_eq_some_of_strictlySorted sorted (List.mem_of_getElem? place)]

theorem scan_of_key_ne
    (missing : ∀ position ∈ w, (w.recordAt t bytes position.toNat).key ≠ key) :
    w.scan t key bytes = .ok none := by
  rw [scan_of_ordered order small complete ordered]
  refine congrArg Except.ok (List.find?_eq_none.mpr fun r member => ?_)
  obtain ⟨position, inside, rfl⟩ :=
    exists_position_of_mem_records (w.getElem?_records t bytes) order member
  simpa using missing position inside

omit small complete

theorem position_eq_of_key_eq {position other : UInt64} (member : position ∈ w)
    (member' : other ∈ w)
    (same : (w.recordAt t bytes other.toNat).key =
      (w.recordAt t bytes position.toNat).key) :
    other = position := by
  have places := w.getElem?_records t bytes
  have place := (inOrder_of_ordered places order ordered).sorted.place_eq
    (getElem?_of_mem places order member') (getElem?_of_mem places order member) same
  obtain ⟨low, _⟩ := member
  obtain ⟨low', _⟩ := member'
  rw [UInt64.le_iff_toNat_le] at low low'
  rw [← UInt64.toNat_inj]
  omega

end

end Window

/-! Where the whole index is one window. -/

namespace Trailer

variable {t : Trailer} {blob key : Bytes} {config : Config} {position : UInt64}

/-- No keys bound the whole index, so a key can only be out of order
with the one before it. -/
theorem disorderAt_recordsIn_iff {place : Nat} :
    DisorderAt none none (t.recordsIn blob) place ↔
      place < t.entryCount.toNat ∧ 0 < place ∧
        (t.recordAt blob place).key ≤ (t.recordAt blob (place - 1)).key := by
  let w := Window.whole t.entryCount
  have width : w.width = t.entryCount := UInt64.sub_zero _
  have low (place : Nat) : w.low.toNat + place = place := Nat.zero_add place
  have places (place : Nat) : (t.recordsIn blob)[place]? =
      if place < w.width.toNat then some (t.recordAt blob (w.low.toNat + place))
      else none := by
    rw [width, low, t.getElem?_recordsIn]
  have positions : DisorderAt none none (t.recordsIn blob) place ↔ _ :=
    Window.disorderAt_iff_outOfOrder (w := w) places
  rw [positions, width, low]
  refine and_congr_right fun _ =>
    ⟨fun out => ?_, fun ⟨behind, small⟩ => .later behind small⟩
  cases out with
  | first _ outside => cases outside
  | later behind small => exact ⟨behind, small⟩
  | last outside => cases outside

theorem positions_of_first_disorder
    (found : firstDisorder? none none 0 (t.recordsIn blob) = some position) :
    position.toNat < t.entryCount.toNat ∧ 0 < position.toNat ∧
      (t.recordAt blob position.toNat).key ≤ (t.recordAt blob (position.toNat - 1)).key ∧
      ∀ q < position.toNat, 0 < q →
        (t.recordAt blob (q - 1)).key < (t.recordAt blob q).key := by
  obtain ⟨place, here, least, same⟩ := firstDisorder?_eq_some_iff.mp found
  obtain ⟨inside, behind, small⟩ := disorderAt_recordsIn_iff.mp here
  have bound := t.entryCount.toNat_lt_size
  have exact : position.toNat = place := by
    rw [same, UInt64.zero_add]
    exact UInt64.toNat_ofNat_of_lt' (Nat.lt_trans inside bound)
  rw [exact]
  refine ⟨inside, behind, small, fun q before later => List.not_le.mp fun out => ?_⟩
  exact least q before
    (disorderAt_recordsIn_iff.mpr ⟨Nat.lt_trans before inside, later, out⟩)

/-- An index that is not in order has a first key that is not larger
than the one before it. -/
theorem exists_first_disorder
    (unsorted : ¬ ∀ j < t.entryCount.toNat, ∀ i < j,
      (t.recordAt blob i).key < (t.recordAt blob j).key) :
    ∃ position, firstDisorder? none none 0 (t.recordsIn blob) = some position := by
  cases hdisorder : firstDisorder? none none 0 (t.recordsIn blob) with
  | some position => exact ⟨position, rfl⟩
  | none =>
      have ordered := firstDisorder?_eq_none_iff.mp hdisorder
      exact absurd (key_lt_of_strictlySorted ordered.sorted) unsorted

theorem FitsIn.eval_find_of_disorder (fits : t.FitsIn (Store.ofBytes blob).length)
    (scanned : max 2 t.entryCount.toNat ≤ config.scanThreshold.toNat)
    (found : firstDisorder? none none 0 (t.recordsIn blob) = some position)
    (size : key.length = t.keySize.toNat) :
    (t.find config key).eval (Store.ofBytes blob) =
      .ok (.error (.format (.unsortedIndex position))) := by
  have nonempty : (0 : UInt64) < t.entryCount := by
    refine UInt64.pos_iff_ne_zero.mpr fun empty => ?_
    rw [Trailer.recordsIn, empty] at found
    cases found
  have small : 1 < config.scanThreshold ∧ t.entryCount - 0 ≤ config.scanThreshold := by
    rw [UInt64.sub_zero, UInt64.lt_iff_toNat_lt, UInt64.le_iff_toNat_le]
    exact Nat.max_le.mp scanned
  have answer : (Window.search t config.scanThreshold key (Window.whole t.entryCount)).eval
      (Store.ofBytes blob) = .ok (.error (.unsortedIndex position)) := by
    rw [(Window.splits_whole t blob).eval_search_of_small fits (by simp) nonempty small,
      Window.answer_of_disorder found]
  rw [find_of_length size, Plan.eval_map, answer]
  rfl

theorem FitsIn.eval_lookup_of_disorder (fits : t.FitsIn (Store.ofBytes blob).length)
    (scanned : max 2 t.entryCount.toNat ≤ config.scanThreshold.toNat)
    (found : firstDisorder? none none 0 (t.recordsIn blob) = some position)
    (size : key.length = t.keySize.toNat) :
    (t.lookup config key).eval (Store.ofBytes blob) =
      .ok (.error (.format (.unsortedIndex position))) := by
  rw [lookup, Plan.eval_bind, fits.eval_find_of_disorder scanned found size]
  rfl

end Trailer

namespace Session

variable {σ : Type}

/-- A scan of a window, the size of which is a word, takes bytes of the right number only.
It complains about the least position of its window that is out of order, whatever key it
looks for, and if there is none it answers with the one record of the window that has the
key, or with nothing. So where an index out of order is scanned at once, each query
complains about its first key that is not larger than the one before. -/
theorem scan_checks_whole_window (t : Trailer) :
    (∀ w : Window, w.low ≤ w.high →
      let expected := (w.high.toNat - w.low.toNat) * t.recordSize.toNat
      expected < UInt64.size → ∀ bytes key : Bytes,
        let record := w.recordAt t bytes
        (bytes.length ≠ expected →
          w.scan t key bytes = .error (.truncatedRecord w.low expected bytes.length)) ∧
        (bytes.length = expected →
          (∀ p ∈ w, w.OutOfOrder record p.toNat →
            (∀ q ∈ w, q < p → ¬ w.OutOfOrder record q.toNat) →
              w.scan t key bytes = .error (.unsortedIndex p)) ∧
          ((∀ p ∈ w, ¬ w.OutOfOrder record p.toNat) →
            (∀ p ∈ w, (record p.toNat).key = key →
              w.scan t key bytes = .ok (some (record p.toNat)) ∧
                ∀ q ∈ w, (record q.toNat).key = key → q = p) ∧
            ((∀ p ∈ w, (record p.toNat).key ≠ key) → w.scan t key bytes = .ok none)))) ∧
    ∀ (config : Config) (blob : Bytes),
      (Trailer.load config).eval (Store.ofBytes blob) = .ok (.ok t) →
      max 2 t.entryCount.toNat ≤ config.scanThreshold.toNat →
      let count := t.entryCount.toNat
      let record := t.recordAt blob
      (¬ ∀ j < count, ∀ i < j, (record i).key < (record j).key) →
        ∃ p : UInt64, p.toNat < count ∧ 0 < p.toNat ∧
          (record p.toNat).key ≤ (record (p.toNat - 1)).key ∧
          (∀ q < p.toNat, 0 < q → (record (q - 1)).key < (record q).key) ∧
          ∀ key : Bytes, key.length = t.keySize.toNat →
            ∀ source : Source σ, source.Honest (Store.ofBytes blob) →
              ∀ (before : List Query) (state : σ),
                let reply := replyAfter source before state blob config
                reply (.find key) = .ok (.error (.format (.unsortedIndex p))) ∧
                  reply (.lookup key) = .ok (.error (.format (.unsortedIndex p))) := by
  constructor
  · intro w order expected small bytes key record
    refine ⟨Window.scan_of_length_ne order small,
      fun complete => ⟨fun p member out least => ?_, fun ordered =>
        ⟨fun p member same => ⟨?_, fun q member' same' => ?_⟩, fun missing => ?_⟩⟩⟩
    · exact Window.scan_of_outOfOrder order small complete member out least
    · exact Window.scan_of_key_eq order small complete ordered member same
    · exact Window.position_eq_of_key_eq order ordered member member'
        (same'.trans same.symm)
    · exact Window.scan_of_key_ne order small complete ordered missing
  · intro config blob accepted scanned count record unsorted
    obtain ⟨_, fits⟩ := Trailer.fits_of_eval_load accepted
    obtain ⟨p, found⟩ := Trailer.exists_first_disorder unsorted
    obtain ⟨inside, behind, small, least⟩ := Trailer.positions_of_first_disorder found
    refine ⟨p, inside, behind, small, least, fun key size source honest before state =>
      ⟨?_, ?_⟩⟩
    · exact replyAfter_find honest before state accepted
        (fits.eval_find_of_disorder scanned found size)
    · refine replyAfter_eq honest before state accepted ?_
      rw [Query.plan, Plan.eval_map, fits.eval_lookup_of_disorder scanned found size]
      rfl

/-- A window with one key twice, a window in order, and one with too few bytes. Then an
index whose second key is out of order, of which a query for the last key is told. -/
theorem scan_checks_whole_window_of_three :
    let t := Trailer.ofCounts 1 3 0
    let w : Window := ⟨1, 4, some [2], some [9]⟩
    let region (keys : Bytes) := Index.encode (keys.map fun byte => ⟨[byte], 0, 0⟩)
    let blob := region [5, 4, 6] ++ t.encode
    let source := (Store.ofBytes blob).scripted
    w.low ≤ w.high ∧ (w.high.toNat - w.low.toNat) * t.recordSize.toNat < UInt64.size ∧
      (3 ∈ w ∧ w.OutOfOrder (w.recordAt t (region [3, 5, 5])) 3) ∧
      w.scan t [3] (region [3, 5, 5]) = .error (.unsortedIndex 3) ∧
      w.scan t [5] (region [3, 5, 8]) = .ok (some ⟨[5], 0, 0⟩) ∧
      w.scan t [6] (region [3, 5, 8]) = .ok none ∧
      w.scan t [3] (region [3, 5]) = .error (.truncatedRecord 1 39 26) ∧
      (Trailer.load {}).eval (Store.ofBytes blob) = .ok (.ok t) ∧
      max 2 t.entryCount.toNat ≤ (Config.scanThreshold {}).toNat ∧
      (¬ ∀ j < t.entryCount.toNat, ∀ i < j,
        (t.recordAt blob i).key < (t.recordAt blob j).key) ∧
      source.Honest (Store.ofBytes blob) ∧
      ∃ p : UInt64, 0 < p.toNat ∧
        (t.recordAt blob p.toNat).key ≤ (t.recordAt blob (p.toNat - 1)).key ∧
        replyAfter source [.trailer] [some .dropped] blob {} (.find [6]) =
          .ok (.error (.format (.unsortedIndex p))) := by
  intro t w region blob source
  have order : w.low ≤ w.high := by decide
  have small : (w.high.toNat - w.low.toNat) * t.recordSize.toNat < UInt64.size := by
    decide +kernel
  have accepted : (Trailer.load {}).eval (Store.ofBytes blob) = .ok (.ok t) := by
    decide +kernel
  have scanned : max 2 t.entryCount.toNat ≤ (Config.scanThreshold {}).toNat := by decide
  have unsorted : ¬ ∀ j < t.entryCount.toNat, ∀ i < j,
      (t.recordAt blob i).key < (t.recordAt blob j).key := by decide +kernel
  have honest := (Store.ofBytes blob).honest_scripted
  have middle : 2 ∈ w := ⟨by decide, by decide⟩
  have last : 3 ∈ w := ⟨by decide, by decide⟩
  have twice : w.OutOfOrder (w.recordAt t (region [3, 5, 5])) 3 := by decide +kernel
  have before : ∀ q ∈ w, q < 3 → ¬ w.OutOfOrder (w.recordAt t (region [3, 5, 5])) q.toNat :=
    (Window.forall_mem_iff order).mpr (by decide +kernel)
  have ordered : ∀ p ∈ w, ¬ w.OutOfOrder (w.recordAt t (region [3, 5, 8])) p.toNat :=
    (Window.forall_mem_iff order).mpr (by decide +kernel)
  have missing : ∀ p ∈ w, (w.recordAt t (region [3, 5, 8]) p.toNat).key ≠ [6] :=
    (Window.forall_mem_iff order).mpr (by decide +kernel)
  have five : w.recordAt t (region [3, 5, 8]) (2 : UInt64).toNat = ⟨[5], 0, 0⟩ := by
    decide +kernel
  have complete : (region [3, 5, 5]).length =
      (w.high.toNat - w.low.toNat) * t.recordSize.toNat := by
    decide +kernel
  have complete' : (region [3, 5, 8]).length =
      (w.high.toNat - w.low.toNat) * t.recordSize.toNat := by
    decide +kernel
  have wrong : (region [3, 5]).length ≠ (w.high.toNat - w.low.toNat) *
      t.recordSize.toNat := by
    decide +kernel
  obtain ⟨scans, whole⟩ := scan_checks_whole_window (σ := List (Option Interruption)) t
  obtain ⟨disorder, _⟩ := (scans w order small (region [3, 5, 5]) [3]).2 complete
  obtain ⟨present, _⟩ :=
    ((scans w order small (region [3, 5, 8]) [5]).2 complete').2 ordered
  obtain ⟨_, absent⟩ := ((scans w order small (region [3, 5, 8]) [6]).2 complete').2 ordered
  obtain ⟨short, _⟩ := scans w order small (region [3, 5]) [3]
  obtain ⟨found, _⟩ := present 2 middle (by rw [five])
  obtain ⟨p, _, behind, inverted, _, replies⟩ := whole {} blob accepted scanned unsorted
  refine ⟨order, small, ⟨last, twice⟩, disorder 3 last twice before, five ▸ found,
    absent missing, ?_, accepted, scanned, unsorted, honest, p, behind, inverted, ?_⟩
  · exact short wrong
  · exact (replies [6] rfl source honest [.trailer] [some .dropped]).1

end Session

end SortedBlob
