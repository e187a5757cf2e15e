import Mathlib.Algebra.GroupWithZero.Nat
import SortedBlob.Proofs.BuilderContents
import SortedBlob.Sink

/-!
The bytes of a blob, one by one, in terms of the pairs that were accepted
(`Entries.layout`). Main statement: `Builder.finish_of_adds`.
-/

namespace SortedBlob

namespace Entries

/-- Where the value at a position starts when all values follow one another. -/
def valueStart (entries : Entries) (position : Nat) : Nat :=
  ((entries.take position).map fun entry => entry.2.length).sum

/-- The values, then for each entry its key, where its value starts and how long
that is, then the trailer. -/
def layout (keySize : UInt32) (entries : Entries) : Bytes :=
  (entries.map Prod.snd).flatten ++
    (entries.zipIdx.flatMap fun (entry, position) =>
      entry.1 ++ Bytes.littleEndian 8 (entries.valueStart position) ++
        Bytes.littleEndian 4 entry.2.length) ++
    Trailer.encode
      ⟨1, keySize, UInt64.ofNat entries.length,
        UInt64.ofNat (entries.valueStart entries.length)⟩

theorem valueStart_succ (first : Bytes × Bytes) (rest : Entries) (position : Nat) :
    valueStart (first :: rest) (position + 1) =
      first.2.length + valueStart rest position := by
  simp [valueStart]

theorem length_flatten_take (entries : Entries) (position : Nat) :
    (values (entries.take position)).flatten.length = entries.valueStart position := by
  simp [values, valueStart, List.length_flatten, Function.comp_def]

/-- The values before a position, the one at it and those after it. -/
theorem flatten_values_split {entries : Entries} {position : Nat} {key value : Bytes}
    (member : entries[position]? = some (key, value)) :
    entries.values.flatten = (values (entries.take position)).flatten ++
      (value ++ (values (entries.drop (position + 1))).flatten) := by
  obtain ⟨inside, same⟩ := List.getElem?_eq_some_iff.mp member
  have parts : entries = entries.take position ++ (key, value) :: entries.drop
      (position + 1) := by
    rw [← same, ← List.drop_eq_getElem_cons inside, List.take_append_drop]
  conv => lhs; rw [parts]
  simp [values]

theorem getElem?_records (offset : UInt64) (entries : Entries) (position : Nat) :
    (records offset entries)[position]? = entries[position]?.map fun entry =>
      ⟨entry.1, offset + UInt64.ofNat (entries.valueStart position),
        UInt32.ofNat entry.2.length⟩ := by
  induction entries generalizing offset position with
  | nil => rfl
  | cons first rest ih =>
      cases position with
      | zero => simp [records, valueStart]
      | succ position =>
          simp only [records, List.getElem?_cons_succ, ih, valueStart_succ,
            UInt64.ofNat_add, UInt64.add_assoc]

theorem endOffset_eq (offset : UInt64) (entries : Entries) :
    endOffset offset entries =
      offset + UInt64.ofNat (entries.valueStart entries.length) := by
  induction entries generalizing offset with
  | nil => simp [endOffset, valueStart]
  | cons first rest ih =>
      rw [endOffset, ih, List.length_cons, valueStart_succ, UInt64.ofNat_add,
        UInt64.add_assoc]

theorem encode_records (entries : Entries) :
    Index.encode (records 0 entries) = entries.zipIdx.flatMap fun (entry, position) =>
      entry.1 ++ Bytes.littleEndian 8 (entries.valueStart position) ++
        Bytes.littleEndian 4 entry.2.length := by
  have placed : records 0 entries = entries.zipIdx.map fun (entry, position) =>
      ⟨entry.1, UInt64.ofNat (entries.valueStart position),
          UInt32.ofNat entry.2.length⟩ := by
    apply List.ext_getElem?
    intro position
    rw [getElem?_records, List.getElem?_map, List.getElem?_zipIdx, Option.map_map]
    simp [Function.comp_def]
  rw [placed, Index.encode, List.flatMap_map]
  simp only [Record.encode, Bytes.ofUInt64_ofNat, Bytes.ofUInt32_ofNat]

variable {key value : Bytes} {entries entries' : Entries}

theorem perm_insert? (h : insert? key value entries = some entries') :
    entries'.Perm ((key, value) :: entries) := by
  induction entries generalizing entries' with
  | nil =>
      cases h
      exact .refl _
  | cons first rest ih =>
      obtain ⟨k, v⟩ := first
      simp only [insert?] at h
      split at h
      · cases h
        exact .refl _
      · split at h
        · cases h
        · obtain ⟨later, hlater, rfl⟩ := Option.map_eq_some_iff.mp h
          exact ((ih hlater).cons (k, v)).trans (.swap ..)

theorem mem_keys_of_insert? (h : insert? key value entries = none) :
    key ∈ entries.map Prod.fst := by
  induction entries with
  | nil => cases h
  | cons first rest ih =>
      obtain ⟨k, v⟩ := first
      simp only [insert?] at h
      split at h
      · cases h
      · split at h
        · rename_i same
          rw [same]
          exact List.mem_cons_self ..
        · exact List.mem_cons_of_mem k (ih (Option.map_eq_none_iff.mp h))

theorem Sorted.nodup (sorted : entries.Sorted) : entries.Nodup := by
  refine List.Pairwise.imp ?_ sorted
  rintro first second less rfl
  exact List.lt_irrefl _ less

/-- There is one order only in which entries can be sorted. -/
theorem Sorted.eq_of_mem_iff (sorted : entries.Sorted) (sorted' : entries'.Sorted)
    (h : ∀ entry, entry ∈ entries ↔ entry ∈ entries') : entries = entries' := by
  have same : entries.Perm entries' :=
    (List.perm_ext_iff_of_nodup sorted.nodup sorted'.nodup).mpr h
  refine same.eq_of_pairwise ?_ sorted sorted'
  intro first second _ _ less more
  exact absurd more (List.lt_asymm less)

end Entries

namespace Builder

variable {b : Builder}

theorem trailer_of_writeTo {σ : Type} {sink : Sink σ} {state : σ} {t : Trailer}
    (h : (b.writeTo sink state).1 = .ok t) : t = b.trailer := by
  unfold writeTo at h
  split at h
  · cases h
  · split at h
    · cases h
    · exact (Except.ok.inj h).symm

theorem trailer_eq (b : Builder) :
    b.trailer = ⟨1, b.keySize, UInt64.ofNat b.entries.length,
      UInt64.ofNat (b.entries.valueStart b.entries.length)⟩ := by
  rw [trailer, Entries.endOffset_eq, UInt64.zero_add]
  rfl

theorem blob_eq_layout (b : Builder) : b.blob = b.entries.layout b.keySize := by
  rw [blob_eq, records, Entries.encode_records, trailer_eq, Entries.layout,
    List.append_assoc]
  rfl

theorem drop_blob (b : Builder) :
    b.blob.drop (b.blob.length - Trailer.size.toNat) = b.trailer.encode := by
  have before : (b.entries.values.flatten ++ Index.encode b.records).length =
      b.blob.length - Trailer.size.toNat := by
    have total := congrArg List.length (blob_eq b)
    simp only [List.length_append, Trailer.length_encode] at total ⊢
    omega
  have parts := blob_eq b
  rw [← List.append_assoc] at parts
  rw [← before]
  exact (congrArg (List.drop _) parts).trans List.drop_left

/-! What is added, one pair after the other. -/

theorem addAll_append (b : Builder) (first second : Entries) :
    b.addAll (first ++ second) = (b.addAll first).addAll second := by
  induction first generalizing b with
  | nil => rfl
  | cons entry rest ih =>
      rw [List.cons_append, addAll, addAll]
      split <;> exact ih _

theorem accepted_append (b : Builder) (first second : Entries) :
    b.accepted (first ++ second) =
      b.accepted first ++ (b.addAll first).accepted second := by
  induction first generalizing b with
  | nil => rfl
  | cons entry rest ih =>
      obtain ⟨key, value⟩ := entry
      rw [List.cons_append, accepted, accepted, addAll]
      cases b.add key value with
      | error error => exact ih b
      | ok b' => exact congrArg _ (ih b')

theorem accepted_sublist (b : Builder) (adds : Entries) :
    (b.accepted adds).Sublist adds := by
  induction adds generalizing b with
  | nil => exact .slnil
  | cons entry rest ih =>
      rw [accepted]
      split
      · exact (ih _).cons_cons _
      · exact (ih b).cons _

/-- Everything is accepted if the first part is, and the second after it. -/
theorem accepted_append_eq_iff {first second : Entries} :
    b.accepted (first ++ second) = first ++ second ↔
      b.accepted first = first ∧ (b.addAll first).accepted second = second := by
  rw [accepted_append]
  constructor
  · intro same
    have left := (b.accepted_sublist first).length_le
    have right := ((b.addAll first).accepted_sublist second).length_le
    have total := congrArg List.length same
    simp only [List.length_append] at total
    exact List.append_inj same (by omega)
  · rintro ⟨left, right⟩
    rw [left, right]

theorem perm_addAll (b : Builder) (adds : Entries) :
    (b.addAll adds).entries.Perm (b.accepted adds ++ b.entries) := by
  induction adds generalizing b with
  | nil => exact .refl _
  | cons first rest ih =>
      obtain ⟨key, value⟩ := first
      rw [addAll, accepted]
      cases hadd : b.add key value with
      | error error => exact ih b
      | ok b' =>
          obtain ⟨_, _, entries, hentries, rfl⟩ := add_eq_ok_iff.mp hadd
          have inserted := (Entries.perm_insert? hentries).append_left
            (accepted { b with entries } rest)
          exact (ih _).trans (inserted.trans List.perm_middle)

theorem addAll_singleton {b' : Builder} {key value : Bytes} (h : b.add key value = .ok b') :
    b.addAll [(key, value)] = b' := by
  simp only [addAll, h]

theorem addAll_singleton_of_error {key value : Bytes} {error : BuildError}
    (h : b.add key value = .error error) : b.addAll [(key, value)] = b := by
  simp only [addAll, h]

theorem accepted_singleton_eq_iff {b' : Builder} {entry : Bytes × Bytes} :
    (b.accepted [entry] = [entry] ∧ b' = b.addAll [entry]) ↔
    b.add entry.1 entry.2 = .ok b' := by
  cases hadd : b.add entry.1 entry.2 with
  | error error => simp [accepted, hadd]
  | ok added => simp [accepted, addAll, hadd, eq_comm]

section

variable {key value : Bytes}

theorem WellFormed.insert?_eq_none_iff (h : b.WellFormed) :
    b.entries.insert? key value = none ↔ key ∈ b.entries.map Prod.fst := by
  constructor
  · intro refused
    exact Entries.mem_keys_of_insert? refused
  · intro held
    cases hentries : b.entries.insert? key value with
    | none => rfl
    | some entries =>
        obtain ⟨entry, member, rfl⟩ := List.mem_map.mp held
        have missing := List.lookup_eq_none_iff.mp (h.sorted.lookup_eq_none hentries)
          entry member
        simp at missing

theorem WellFormed.add_eq (h : b.WellFormed) (short : value.length < UInt32.size) :
    b.add key value =
      if key.length ≠ b.keySize.toNat then .error (.keySize b.keySize key.length)
      else if key ∈ b.entries.map Prod.fst then .error (.duplicateKey key)
      else .ok (b.addAll [(key, value)]) := by
  by_cases wrong : key.length ≠ b.keySize.toNat
  · rw [if_pos wrong, Builder.add, if_pos wrong]
  · rw [if_neg wrong]
    have refusal : b.entries.insert? key value = none ↔ key ∈ b.entries.map Prod.fst :=
      h.insert?_eq_none_iff
    by_cases held : key ∈ b.entries.map Prod.fst
    · have refused := refusal.mpr held
      simp only [Builder.add, if_neg wrong, if_neg (Nat.not_le_of_lt short), refused,
        if_pos held]
    · obtain ⟨entries, hentries⟩ :=
        Option.ne_none_iff_exists'.mp (mt refusal.mp held)
      have hadd : b.add key value = .ok { b with entries } :=
        add_eq_ok_iff.mpr ⟨Decidable.not_not.mp wrong, short, entries, hentries, rfl⟩
      rw [if_neg held, addAll_singleton hadd, hadd]

/-- Of the pairs of a fresh builder, what is held are those accepted. -/
theorem mem_keys_addAll (empty : b.entries = []) (adds : Entries) :
    key ∈ (b.addAll adds).entries.map Prod.fst ↔ key ∈ (b.accepted adds).map Prod.fst := by
  have same := b.perm_addAll adds
  rw [empty, List.append_nil] at same
  exact (same.map Prod.fst).mem_iff

/-- All is accepted if the keys have the right length and are new, and the
values are not too long. -/
theorem WellFormed.accepted_eq_self_iff (h : b.WellFormed) {adds : Entries} :
    b.accepted adds = adds ↔
      (∀ entry ∈ adds, entry.1.length = b.keySize.toNat ∧ entry.2.length < UInt32.size ∧
        entry.1 ∉ b.entries.map Prod.fst) ∧ (adds.map Prod.fst).Nodup := by
  induction adds generalizing b with
  | nil => simp [accepted]
  | cons entry rest ih =>
      obtain ⟨key, value⟩ := entry
      have added : b.accepted [(key, value)] = [(key, value)] ↔
          key.length = b.keySize.toNat ∧ value.length < UInt32.size ∧
            key ∉ b.entries.map Prod.fst := by
        have refusal : b.entries.insert? key value = none ↔ key ∈ b.entries.map Prod.fst :=
          h.insert?_eq_none_iff
        rw [← refusal, ← ne_eq, Option.ne_none_iff_exists']
        constructor
        · intro same
          obtain ⟨right, short, entries, inserted, _⟩ :=
            add_eq_ok_iff.mp (accepted_singleton_eq_iff.mp ⟨same, rfl⟩)
          exact ⟨right, short, entries, inserted⟩
        · rintro ⟨right, short, entries, inserted⟩
          exact (accepted_singleton_eq_iff.mpr
            (add_eq_ok_iff.mpr ⟨right, short, entries, inserted, rfl⟩)).1
      rw [← List.singleton_append, accepted_append_eq_iff, ih (h.addAll [(key, value)]),
        keySize_addAll, List.forall_mem_append, List.forall_mem_singleton, ← added,
        List.map_append, List.map_singleton, List.singleton_append, List.nodup_cons,
        and_assoc]
      refine and_congr_right fun same => ?_
      have keys : ∀ other, other ∈ (b.addAll [(key, value)]).entries.map Prod.fst ↔
          other = key ∨ other ∈ b.entries.map Prod.fst := by
        intro other
        have perm := (b.perm_addAll [(key, value)]).map Prod.fst
        rw [same] at perm
        exact perm.mem_iff.trans List.mem_cons
      simp only [keys, not_or]
      constructor
      · rintro ⟨each, distinct⟩
        refine ⟨fun entry member => ?_, fun again => ?_, distinct⟩
        · obtain ⟨right, short, _, fresh⟩ := each entry member
          exact ⟨right, short, fresh⟩
        · obtain ⟨entry, member, taken⟩ := List.mem_map.mp again
          exact (each entry member).2.2.1 taken
      · rintro ⟨each, fresh, distinct⟩
        refine ⟨fun entry member => ?_, distinct⟩
        obtain ⟨right, short, missing⟩ := each entry member
        exact ⟨right, short, fun same => fresh (List.mem_map.mpr ⟨entry, member, same⟩),
          missing⟩

theorem wellFormed_empty (keySize : UInt32) : (mk keySize []).WellFormed :=
  ⟨.nil, nofun, nofun⟩

theorem accepted_empty_eq_self_iff {keySize : UInt32} {adds : Entries} :
    (mk keySize []).accepted adds = adds ↔
      (∀ entry ∈ adds, entry.1.length = keySize.toNat) ∧ (adds.map Prod.fst).Nodup ∧
        ∀ entry ∈ adds, entry.2.length < UInt32.size := by
  rw [(wellFormed_empty keySize).accepted_eq_self_iff]
  constructor
  · rintro ⟨each, distinct⟩
    exact ⟨fun entry member => (each entry member).1, distinct,
      fun entry member => (each entry member).2.1⟩
  · rintro ⟨keys, distinct, short⟩
    exact ⟨fun entry member => ⟨keys entry member, short entry member, List.not_mem_nil⟩,
      distinct⟩

/-- It does not matter in which order pairs are added. -/
theorem addAll_empty_eq {keySize : UInt32} {adds others : Entries}
    (same : ∀ entry, entry ∈ (mk keySize []).accepted adds ↔
      entry ∈ (mk keySize []).accepted others) :
    (mk keySize []).addAll adds = (mk keySize []).addAll others := by
  have fresh := wellFormed_empty keySize
  have held (adds : Entries) (entry : Bytes × Bytes) :
      entry ∈ ((mk keySize []).addAll adds).entries ↔
          entry ∈ (mk keySize []).accepted adds := by
    rw [((mk keySize []).perm_addAll adds).mem_iff, List.append_nil]
  have entries := (fresh.addAll adds).sorted.eq_of_mem_iff (fresh.addAll others).sorted
      fun entry =>
    (held adds entry).trans ((same entry).trans (held others entry).symm)
  have size := (keySize_addAll (mk keySize []) adds).trans (keySize_addAll _ others).symm
  cases hadds : (mk keySize []).addAll adds
  cases hothers : (mk keySize []).addAll others
  rw [hadds, hothers] at size entries
  exact (mk.injEq ..).mpr ⟨size, entries⟩

end

theorem WellFormed.validate_iff (h : b.WellFormed) (fits : b.blob.length < UInt64.size)
    {config : Config} (allowed : b.trailer.AllowedBy config) (length : UInt64) :
    b.trailer.validate length config = .ok () ↔ b.blob.length ≤ length.toNat := by
  rw [Trailer.validate_eq_ok_iff, Trailer.FitsIn, h.toNat_indexOffset fits,
    h.toNat_entryCount fits, ← Trailer.size_keySize, h.length_blob]
  exact and_iff_right allowed

section

-- Only the values have to be in reach of an offset: the index and the
-- trailer may end behind it.
variable (h : b.WellFormed) (small : b.entries.valueStart b.entries.length < UInt64.size)

include h small

theorem WellFormed.recordAt_blob {position : Nat} {key value : Bytes}
    (member : b.entries[position]? = some (key, value)) :
    b.trailer.recordAt b.blob position =
      ⟨key, UInt64.ofNat (b.entries.valueStart position), UInt32.ofNat value.length⟩ := by
  have offset : b.trailer.indexOffset.toNat = b.entries.values.flatten.length := by
    have total := Entries.length_flatten_take b.entries b.entries.length
    rw [List.take_length] at total
    rw [trailer_eq, total]
    exact UInt64.toNat_ofNat_of_lt' small
  have place : b.records[position]? =
      some ⟨key, UInt64.ofNat (b.entries.valueStart position),
          UInt32.ofNat value.length⟩ := by
    rw [records, Entries.getElem?_records, member, UInt64.zero_add]
    rfl
  have inside : position < b.entries.length := (List.getElem?_eq_some_iff.mp member).1
  rw [← h.decode_blob offset, Index.getElem?_decode, if_pos inside, Bytes.slice,
    List.drop_drop] at place
  rw [Trailer.recordAt, Bytes.slice, Trailer.recordStart, ← b.trailer.size_keySize]
  exact Option.some.inj place

/-- The span of a record leads to its value. -/
theorem WellFormed.slice_value {position : Nat} {key value : Bytes}
    (member : b.entries[position]? = some (key, value)) :
    ∃ span, (b.trailer.recordAt b.blob position).valueSpan? = some span ∧
      Bytes.slice b.blob span.start.toNat span.width.toNat = value := by
  have parts := Entries.flatten_values_split member
  have start := Entries.length_flatten_take b.entries position
  have bound : b.entries.valueStart position + value.length ≤
      b.entries.valueStart b.entries.length := by
    have total := Entries.length_flatten_take b.entries b.entries.length
    rw [List.take_length, parts, List.length_append, List.length_append, start] at total
    omega
  have short := h.values (List.mem_of_getElem? member)
  have exactStart : (UInt64.ofNat (b.entries.valueStart position)).toNat =
      b.entries.valueStart position := UInt64.toNat_ofNat_of_lt' (by omega)
  have exactStop : (UInt64.ofNat (b.entries.valueStart position + value.length)).toNat =
      b.entries.valueStart position + value.length := UInt64.toNat_ofNat_of_lt' (by omega)
  have exactLength : (UInt32.ofNat value.length).toUInt64.toNat = value.length := by
    rw [UInt32.toNat_toUInt64]
    exact UInt32.toNat_ofNat_of_lt' short
  refine ⟨⟨UInt64.ofNat (b.entries.valueStart position),
    UInt64.ofNat (b.entries.valueStart position + value.length)⟩, ?_, ?_⟩
  · rw [h.recordAt_blob small member, Record.valueSpan?,
      Word.add?_eq_some_iff.mpr (by rw [exactStop, exactStart, exactLength])]
    rfl
  · have straight : UInt64.ofNat (b.entries.valueStart position) ≤
        UInt64.ofNat (b.entries.valueStart position + value.length) := by
      rw [UInt64.le_iff_toNat_le, exactStart, exactStop]
      exact Nat.le_add_right _ _
    rw [Span.width, UInt64.toNat_sub_of_le _ _ straight, exactStart, exactStop,
      Nat.add_sub_cancel_left, blob_eq, parts]
    simp only [List.append_assoc]
    exact Bytes.slice_append _ start rfl

end

/-- Whatever is added, in whatever order: an add is refused if its key has the wrong length
or was accepted before, and then nothing changes. The blob has the layout of the accepted
pairs in the order of their keys, so it depends on nothing but what these are. Its trailer,
which is what any writer of it returns, is read from its last bytes, takes no length for the
blob's that is too small, and leads to each value. -/
theorem finish_of_adds {keySize : UInt32} (positive : keySize ≠ 0) (adds : Entries) :
    ∃ b, new keySize = .ok b ∧
      (∀ (before : Entries) (key value : Bytes), value.length < UInt32.size →
        (b.addAll before).add key value =
            (if key.length ≠ keySize.toNat then .error (.keySize keySize key.length)
              else if key ∈ (b.accepted before).map Prod.fst then .error (.duplicateKey key)
              else .ok (b.addAll (before ++ [(key, value)]))) ∧
          ∀ error, (b.addAll before).add key value = .error error →
            b.addAll (before ++ [(key, value)]) = b.addAll before) ∧
      (∀ others : Entries, (∀ entry, entry ∈ b.accepted others ↔ entry ∈ b.accepted adds) →
        (b.addAll others).finish = (b.addAll adds).finish) ∧
      ∃ entries : Entries, entries.Sorted ∧ entries.Perm (b.accepted adds) ∧
        let blob := entries.layout keySize
        (b.addAll adds).finish = .ok blob ∧
          ∀ (σ : Type) (sink : Sink σ) (state : σ) (t : Trailer),
            ((b.addAll adds).writeTo sink state).1 = .ok t →
              (∀ verifyChecksum,
                Trailer.decode (blob.drop (blob.length - Trailer.size.toNat))
                verifyChecksum = .ok t) ∧
              (blob.length < UInt64.size →
                ∀ config : Config, keySize ≤ config.maxKeySize →
                  (∀ size, config.expectedKeySize = some size → size = keySize) →
                    ∀ length : UInt64,
                      t.validate length config = .ok () ↔ blob.length ≤ length.toNat) ∧
              (entries.valueStart entries.length < UInt64.size →
                ∀ (position : Nat) (key value : Bytes),
                  entries[position]? = some (key, value) →
                  (t.recordAt blob position).key = key ∧
                    ∃ span, (t.recordAt blob position).valueSpan? = some span ∧
                      Bytes.slice blob span.start.toNat span.width.toNat = value) := by
  have made : new keySize = .ok ⟨keySize, []⟩ := if_neg positive
  obtain ⟨fresh, _, _⟩ := wellFormed_of_new made
  have size (before : Entries) := keySize_addAll ⟨keySize, []⟩ before
  refine ⟨_, made, fun before key value short => ⟨?_, fun error refused => ?_⟩,
    fun others same => ?_, (addAll ⟨keySize, []⟩ adds).entries,
    (fresh.addAll adds).sorted, ?_, ?_, fun σ sink state t written => ?_⟩
  · rw [(fresh.addAll before).add_eq short, size, addAll_append]
    simp only [mem_keys_addAll (b := ⟨keySize, []⟩) rfl before]
  · rw [addAll_append, addAll_singleton_of_error refused]
  · have entries : (addAll ⟨keySize, []⟩ others).entries =
        (addAll ⟨keySize, []⟩ adds).entries := by
      refine (fresh.addAll others).sorted.eq_of_mem_iff (fresh.addAll adds).sorted
        fun entry => ?_
      have left := (perm_addAll ⟨keySize, []⟩ others).mem_iff (a := entry)
      have right := (perm_addAll ⟨keySize, []⟩ adds).mem_iff (a := entry)
      rw [List.append_nil] at left right
      exact left.trans ((same entry).trans right.symm)
    rw [finish_eq, finish_eq, blob_eq_layout, blob_eq_layout, entries, size, size]
  · simpa using perm_addAll ⟨keySize, []⟩ adds
  · rw [finish_eq, blob_eq_layout, size]
  · have layout := blob_eq_layout (addAll ⟨keySize, []⟩ adds)
    rw [size] at layout
    rw [← layout]
    obtain rfl := trailer_of_writeTo written
    refine ⟨fun verifyChecksum => ?_, fun fits config allowed expected length => ?_,
      fun small position key value member => ⟨?_, ?_⟩⟩
    · rw [drop_blob]
      exact Trailer.decode_encode rfl verifyChecksum
    · refine (fresh.addAll adds).validate_iff fits ?_ length
      rw [Trailer.AllowedBy, trailer_eq, size]
      exact ⟨positive, allowed, expected⟩
    · rw [(fresh.addAll adds).recordAt_blob small member]
    · exact (fresh.addAll adds).slice_value small member

/-- A repeated key, a key that is too long and the order of the rest make no difference. -/
theorem finish_of_adds_reordered :
    (1 : UInt32) ≠ 0 ∧
      (addAll ⟨1, []⟩ [([5], [9, 9]), ([5], [1]), ([1, 2], [3]), ([4], [])]).finish =
        (addAll ⟨1, []⟩ [([4], []), ([5], [9, 9])]).finish := by
  have positive : (1 : UInt32) ≠ 0 := by decide
  obtain ⟨b, made, _, reordered, _⟩ := finish_of_adds positive [([4], []), ([5], [9, 9])]
  obtain rfl : ⟨1, []⟩ = b := Except.ok.inj ((if_neg positive).symm.trans made)
  refine ⟨positive, reordered _ fun entry => ?_⟩
  have first : accepted ⟨1, []⟩ [([5], [9, 9]), ([5], [1]), ([1, 2], [3]), ([4], [])] =
      [([5], [9, 9]), ([4], [])] := by decide +kernel
  have second : accepted ⟨1, []⟩ [([4], []), ([5], [9, 9])] =
      [([4], []), ([5], [9, 9])] := by decide +kernel
  rw [first, second]
  simp only [List.mem_cons, List.not_mem_nil, or_false]
  exact or_comm

end Builder

end SortedBlob
