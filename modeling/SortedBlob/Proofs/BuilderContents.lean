import SortedBlob.Builder
import SortedBlob.Proofs.SearchCertificate
import SortedBlob.Proofs.TrailerCodec

/-!
What a builder holds (`Builder.WellFormed`), and what its blob holds when it is
read plainly: the trailer it wrote, its records in order, and for each key the
value that was added for it.
-/

namespace SortedBlob

namespace Entries

def Sorted (entries : Entries) : Prop :=
  entries.Pairwise fun first second => first.1 < second.1

variable {key value : Bytes} {entries entries' : Entries}

theorem mem_insert? (h : insert? key value entries = some entries')
    {entry : Bytes × Bytes} :
    entry ∈ entries' ↔ entry = (key, value) ∨ entry ∈ entries := by
  induction entries generalizing entries' with
  | nil =>
      cases h
      simp
  | cons first rest ih =>
      obtain ⟨k, v⟩ := first
      simp only [insert?] at h
      split at h
      · cases h
        simp
      · split at h
        · cases h
        · obtain ⟨later, hlater, rfl⟩ := Option.map_eq_some_iff.mp h
          rw [List.mem_cons, ih hlater, List.mem_cons]
          exact or_left_comm

theorem Sorted.of_insert? (sorted : entries.Sorted)
    (h : insert? key value entries = some entries') :
    entries'.Sorted := by
  induction entries generalizing entries' with
  | nil =>
      cases h
      exact List.pairwise_singleton _ _
  | cons first rest ih =>
      obtain ⟨k, v⟩ := first
      obtain ⟨least, tail⟩ := List.pairwise_cons.mp sorted
      simp only [insert?] at h
      split at h
      · rename_i less
        cases h
        refine List.pairwise_cons.mpr ⟨fun entry member => ?_, sorted⟩
        rcases List.mem_cons.mp member with rfl | later
        · exact less
        · exact List.lt_trans less (least entry later)
      · rename_i notLess
        split at h
        · cases h
        · rename_i different
          obtain ⟨later, hlater, rfl⟩ := Option.map_eq_some_iff.mp h
          refine List.pairwise_cons.mpr ⟨fun entry member => ?_, ih tail hlater⟩
          rcases (mem_insert? hlater).mp member with rfl | old
          · exact Std.lt_of_le_of_ne (List.not_lt.mp notLess) (Ne.symm different)
          · exact least entry old

theorem lookup_insert? (h : insert? key value entries = some entries') (other : Bytes) :
    entries'.lookup other = if other = key then some value else entries.lookup other := by
  induction entries generalizing entries' with
  | nil =>
      cases h
      by_cases same : other = key
      · simp [same]
      · simp [List.lookup_cons, same, beq_eq_false_iff_ne.mpr same]
  | cons first rest ih =>
      obtain ⟨k, v⟩ := first
      simp only [insert?] at h
      split at h
      · cases h
        by_cases same : other = key
        · simp [same]
        · rw [List.lookup_cons, beq_eq_false_iff_ne.mpr same, if_neg same]
      · split at h
        · cases h
        · rename_i different
          obtain ⟨later, hlater, rfl⟩ := Option.map_eq_some_iff.mp h
          rw [List.lookup_cons, List.lookup_cons, ih hlater]
          by_cases here : other = k
          · subst here
            simp [Ne.symm different]
          · simp [beq_eq_false_iff_ne.mpr here]

theorem Sorted.lookup_eq_none (sorted : entries.Sorted)
    (h : insert? key value entries = some entries') : entries.lookup key = none := by
  induction entries generalizing entries' with
  | nil => rfl
  | cons first rest ih =>
      obtain ⟨k, v⟩ := first
      obtain ⟨least, tail⟩ := List.pairwise_cons.mp sorted
      simp only [insert?] at h
      split at h
      · rename_i less
        apply List.lookup_eq_none_iff.mpr
        intro entry member
        apply bne_iff_ne.mpr
        rintro rfl
        rcases List.mem_cons.mp member with rfl | later
        · exact List.lt_irrefl _ less
        · exact List.lt_asymm less (least entry later)
      · split at h
        · cases h
        · rename_i different
          obtain ⟨later, hlater, _⟩ := Option.map_eq_some_iff.mp h
          rw [List.lookup_cons, beq_eq_false_iff_ne.mpr different]
          exact ih tail hlater

end Entries

namespace Builder

structure WellFormed (b : Builder) : Prop where
  sorted : b.entries.Sorted
  keys {entry : Bytes × Bytes} : entry ∈ b.entries → entry.1.length = b.keySize.toNat
  values {entry : Bytes × Bytes} : entry ∈ b.entries → entry.2.length < UInt32.size

variable {b b' : Builder} {key value : Bytes}

theorem wellFormed_of_new {keySize : UInt32} (h : new keySize = .ok b) :
    b.WellFormed ∧ b.keySize = keySize ∧ b.entries = [] := by
  unfold new at h
  split at h
  · cases h
  · cases h
    exact ⟨⟨List.Pairwise.nil, nofun, nofun⟩, rfl, rfl⟩

theorem add_eq_ok_iff : b.add key value = .ok b' ↔
    key.length = b.keySize.toNat ∧ value.length < UInt32.size ∧
      ∃ entries, b.entries.insert? key value = some entries ∧ b' = { b with entries } := by
  unfold add
  split
  · rename_i wrong
    simp [wrong]
  · rename_i right
    split
    · rename_i long
      simp [Nat.not_lt.mpr long]
    · rename_i short
      cases hentries : b.entries.insert? key value with
      | none => simp
      | some entries => simp [not_not.mp right, Nat.not_le.mp short, eq_comm]

theorem WellFormed.add (h : b.WellFormed) (added : b.add key value = .ok b') :
    b'.WellFormed := by
  obtain ⟨keyLength, valueLength, entries, hentries, rfl⟩ := add_eq_ok_iff.mp added
  refine ⟨h.sorted.of_insert? hentries, fun {entry} member => ?_, fun {entry} member => ?_⟩
  · rcases (Entries.mem_insert? hentries).mp member with rfl | old
    · exact keyLength
    · exact h.keys old
  · rcases (Entries.mem_insert? hentries).mp member with rfl | old
    · exact valueLength
    · exact h.values old

/-- The pairs that can be added one after the other, without the rest. -/
def accepted (b : Builder) : Entries → Entries
  | [] => []
  | (key, value) :: rest =>
      match b.add key value with
      | .ok b => (key, value) :: b.accepted rest
      | .error _ => b.accepted rest

theorem WellFormed.addAll (h : b.WellFormed) (adds : Entries) :
    (b.addAll adds).WellFormed := by
  induction adds generalizing b with
  | nil => exact h
  | cons first rest ih =>
      rw [Builder.addAll]
      split
      · rename_i added
        exact ih (h.add added)
      · exact ih h

theorem keySize_addAll (b : Builder) (adds : Entries) :
    (b.addAll adds).keySize = b.keySize := by
  induction adds generalizing b with
  | nil => rfl
  | cons first rest ih =>
      rw [addAll]
      split
      · rename_i added
        obtain ⟨_, _, _, _, rfl⟩ := add_eq_ok_iff.mp added
        exact ih _
      · exact ih b

/-- What is held for a key is what was held before, or what was added for it. -/
theorem WellFormed.lookup_addAll (h : b.WellFormed) (adds : Entries) (key : Bytes) :
    (b.addAll adds).entries.lookup key =
      (b.entries.lookup key).or ((b.accepted adds).lookup key) := by
  induction adds generalizing b with
  | nil => simp [Builder.addAll, accepted]
  | cons first rest ih =>
      obtain ⟨k, v⟩ := first
      rw [Builder.addAll, accepted]
      cases hadd : b.add k v with
      | error error => exact ih h
      | ok b' =>
          obtain ⟨_, _, entries, hentries, rfl⟩ := add_eq_ok_iff.mp hadd
          apply (ih (h.add hadd)).trans
          rw [Entries.lookup_insert? hentries, List.lookup_cons]
          by_cases same : key = k
          · subst same
            rw [if_pos rfl, h.sorted.lookup_eq_none hentries, beq_self_eq_true]
            rfl
          · simp [same, beq_eq_false_iff_ne.mpr same]

/-- No key is accepted twice, nor one that is there already. -/
theorem WellFormed.nodup_accepted (h : b.WellFormed) (adds : Entries) :
    ((b.accepted adds).map Prod.fst).Nodup ∧
      ∀ entry ∈ b.accepted adds, b.entries.lookup entry.1 = none := by
  induction adds generalizing b with
  | nil => exact ⟨List.nodup_nil, nofun⟩
  | cons first rest ih =>
      obtain ⟨k, v⟩ := first
      rw [accepted]
      cases hadd : b.add k v with
      | error error => exact ih h
      | ok b' =>
          obtain ⟨distinct, new⟩ := ih (h.add hadd)
          obtain ⟨_, _, entries, hentries, rfl⟩ := add_eq_ok_iff.mp hadd
          have apart : ∀ entry ∈ accepted { b with entries } rest,
              entry.1 ≠ k ∧ b.entries.lookup entry.1 = none := by
            intro entry member
            have missing := new entry member
            rw [Entries.lookup_insert? hentries] at missing
            by_cases same : entry.1 = k
            · rw [if_pos same] at missing
              cases missing
            · exact ⟨same, (if_neg same).symm.trans missing⟩
          refine ⟨List.nodup_cons.mpr ⟨fun again => ?_, distinct⟩, fun entry member => ?_⟩
          · obtain ⟨entry, member, same⟩ := List.mem_map.mp again
            exact (apart entry member).1 same
          · rcases List.mem_cons.mp member with rfl | later
            · exact h.sorted.lookup_eq_none hentries
            · exact (apart entry later).2

end Builder

/-! Where the entries lie in a blob. -/

namespace Entries

theorem key_records (offset : UInt64) (entries : Entries) :
    (records offset entries).map Record.key = entries.map Prod.fst := by
  induction entries generalizing offset with
  | nil => rfl
  | cons first rest ih => simp [records, ih]

theorem strictlySorted_records {entries : Entries} (sorted : entries.Sorted)
    (offset : UInt64) :
    StrictlySorted (records offset entries) := by
  have keys := sorted.map Prod.fst fun _ _ less => less
  rw [← key_records offset, List.pairwise_map] at keys
  exact keys

theorem length_values_cons (first : Bytes × Bytes) (rest : Entries) :
    (values (first :: rest)).flatten.length =
      first.2.length + rest.values.flatten.length := by
  simp [values]

theorem toNat_endOffset (offset : UInt64) (entries : Entries)
    (fits : offset.toNat + entries.values.flatten.length < UInt64.size) :
    (endOffset offset entries).toNat = offset.toNat + entries.values.flatten.length := by
  induction entries generalizing offset with
  | nil => rfl
  | cons first rest ih =>
      rw [length_values_cons] at fits ⊢
      have next : (offset + UInt64.ofNat first.2.length).toNat =
          offset.toNat + first.2.length := Word.toNat_add_ofNat (by omega)
      rw [endOffset, ih _ (by omega), next]
      omega

/-- The records of entries lead to their values, wherever these lie before the index. -/
theorem valueIn_records {t : Trailer} {blob : Bytes} {entries : Entries} {offset : UInt64}
    {before after : Bytes} (split : blob = before ++ (entries.values.flatten ++ after))
    (start : offset.toNat = before.length)
    (inside : offset.toNat + entries.values.flatten.length ≤ t.indexOffset.toNat)
    (short : ∀ entry ∈ entries, entry.2.length < UInt32.size) (key : Bytes) :
    (match (records offset entries).find? fun r => r.key == key with
      | none => Except.ok none
      | some r => (r.valueIn t blob).map some) = .ok (entries.lookup key) := by
  -- The value of an entry that is passed over joins what lies before.
  induction entries generalizing offset before with
  | nil => rfl
  | cons first rest ih =>
      obtain ⟨k, v⟩ := first
      have bound := t.indexOffset.toNat_lt_size
      have fits := short (k, v) (List.mem_cons_self ..)
      rw [length_values_cons] at inside
      simp only at inside fits
      have width : (UInt32.ofNat v.length).toNat = v.length :=
        UInt32.toNat_ofNat_of_lt' fits
      rw [records, List.lookup_cons]
      by_cases same : key = k
      · subst same
        rw [List.find?_cons_of_pos (by simp), beq_self_eq_true]
        have parts : (values ((key, v) :: rest)).flatten ++ after =
            v ++ ((values rest).flatten ++ after) := by
          simp [values]
        rw [parts] at split
        simp only [Record.valueIn, width]
        rw [if_pos (by omega), split, Bytes.slice_append _ start.symm rfl]
        rfl
      · rw [List.find?_cons_of_neg (by simpa using Ne.symm same),
          beq_eq_false_iff_ne.mpr same]
        have parts : blob = (before ++ v) ++ ((values rest).flatten ++ after) := by
          rw [split]
          simp [values]
        have next : (offset + UInt64.ofNat v.length).toNat = offset.toNat + v.length :=
          Word.toNat_add_ofNat (by omega)
        refine ih parts ?_ ?_ fun entry member =>
          short entry (List.mem_cons_of_mem _ member)
        · rw [next, start, List.length_append]
        · rw [next]
          omega

end Entries

namespace Builder

variable {b : Builder}

theorem blob_eq (b : Builder) :
    b.blob = b.entries.values.flatten ++ (Index.encode b.records ++ b.trailer.encode) := by
  simp [blob, pieces]

theorem WellFormed.key_length (h : b.WellFormed) {r : Record} (member : r ∈ b.records) :
    r.key.length = b.keySize.toNat := by
  have inside : r.key ∈ b.entries.map Prod.fst :=
    Entries.key_records 0 b.entries ▸ List.mem_map_of_mem member
  obtain ⟨entry, held, same⟩ := List.mem_map.mp inside
  rw [← same]
  exact h.keys held

theorem WellFormed.length_blob (h : b.WellFormed) :
    b.blob.length = b.entries.values.flatten.length +
      b.entries.length * Record.size b.keySize.toNat + Trailer.size.toNat := by
  rw [blob_eq, List.length_append, List.length_append, Trailer.length_encode,
    Index.length_encode fun r member => h.key_length member, records,
    Entries.length_records]
  omega

theorem WellFormed.decode_blob (h : b.WellFormed)
    (offset : b.trailer.indexOffset.toNat = b.entries.values.flatten.length) :
    Index.decode b.keySize.toNat b.entries.length
      (b.blob.drop b.trailer.indexOffset.toNat) = b.records := by
  have count : b.entries.length = b.records.length :=
    (Entries.length_records 0 b.entries).symm
  rw [count, blob_eq, List.drop_left' offset.symm]
  exact Index.decode_encode_append (fun r member => h.key_length member) _

section

variable (h : b.WellFormed) (fits : b.blob.length < UInt64.size)

include h fits

theorem WellFormed.toNat_indexOffset :
    b.trailer.indexOffset.toNat = b.entries.values.flatten.length := by
  have length := h.length_blob
  have zero : (0 : UInt64).toNat = 0 := rfl
  have exact := Entries.toNat_endOffset 0 b.entries (by omega)
  rw [zero, Nat.zero_add] at exact
  exact exact

theorem WellFormed.toNat_entryCount : b.trailer.entryCount.toNat = b.entries.length := by
  have length := h.length_blob
  have atLeast : b.entries.length ≤ b.entries.length * Record.size b.keySize.toNat :=
    Nat.le_mul_of_pos_right _ (Nat.add_pos_right _ (by decide))
  exact UInt64.toNat_ofNat_of_lt' (by omega)

theorem WellFormed.fitsIn : b.trailer.FitsIn (Store.ofBytes b.blob).length := by
  have size : (Store.ofBytes b.blob).length.toNat = b.blob.length :=
    UInt64.toNat_ofNat_of_lt' fits
  rw [Trailer.FitsIn, size, h.toNat_indexOffset fits, h.toNat_entryCount fits,
    ← Trailer.size_keySize, h.length_blob]
  exact Nat.le_refl _

theorem WellFormed.recordsIn_blob : b.trailer.recordsIn b.blob = b.records := by
  rw [Trailer.recordsIn, h.toNat_entryCount fits]
  exact h.decode_blob (h.toNat_indexOffset fits)

theorem WellFormed.valueIn_blob (key : Bytes) :
    b.trailer.valueIn b.blob key = .ok (b.entries.lookup key) := by
  have offset := h.toNat_indexOffset fits
  rw [Trailer.valueIn, h.recordsIn_blob fits]
  have parts : b.blob =
      [] ++ (b.entries.values.flatten ++ (Index.encode b.records ++ b.trailer.encode)) :=
    blob_eq b
  refine Entries.valueIn_records parts rfl ?_ (fun entry member => h.values member) key
  exact Nat.le_of_eq ((Nat.zero_add _).trans offset.symm)

theorem WellFormed.read_trailer :
    (Store.ofBytes b.blob).read
        ⟨(Store.ofBytes b.blob).length - Trailer.size, (Store.ofBytes b.blob).length⟩ =
      .ok b.trailer.encode := by
  have whole : (Store.ofBytes b.blob).length.toNat = b.blob.length :=
    UInt64.toNat_ofNat_of_lt' fits
  have length := h.length_blob
  have long : Trailer.size ≤ (Store.ofBytes b.blob).length := by
    rw [UInt64.le_iff_toNat_le, whole]
    omega
  rw [Store.read_last long, whole]
  have parts : b.blob = (b.entries.values.flatten ++ Index.encode b.records) ++
      (b.trailer.encode ++ []) := by
    rw [blob_eq, List.append_assoc, List.append_nil]
  have before : (b.entries.values.flatten ++ Index.encode b.records).length =
      b.blob.length - Trailer.size.toNat := by
    have total := congrArg List.length parts
    rw [List.length_append, List.append_nil, Trailer.length_encode] at total
    omega
  have last := b.trailer.length_encode
  exact congrArg _ ((congrArg (Bytes.slice · _ _) parts).trans
    (Bytes.slice_append [] before last))

end

end Builder

end SortedBlob
