import Mathlib.Data.List.Forall2
import SortedBlob.Proofs.CommandReports

/-!
What the tool builds of a table, it reads again, as long as its keys are not longer than a
reader takes by itself. Main statements: `Directory.round_trip` and
`Directory.reads_what_it_built`.
-/

namespace SortedBlob

variable {d : Directory} {name : String} {b : Builder}

theorem Builder.checkKeySize_of_large (large : 1024 < b.keySize) :
    b.trailer.checkKeySize {} = .error (.unsupportedKeySize b.keySize 1024) :=
  if_pos (.inr large)

/-- The check of a trailer by a reader that was told nothing comes down to the key size. -/
theorem Builder.WellFormed.validate_default (h : b.WellFormed)
    (fits : b.blob.length < UInt64.size) (positive : b.keySize ≠ 0) {length : UInt64}
    (exact : length.toNat = b.blob.length) :
    b.trailer.validate length {} =
      if b.keySize ≤ 1024 then .ok () else .error (.unsupportedKeySize b.keySize 1024) := by
  split
  · rename_i small
    have allowed : b.trailer.AllowedBy {} := ⟨positive, small, nofun⟩
    exact (h.validate_iff fits allowed length).mpr exact.ge
  · rename_i large
    rw [Trailer.validate, b.checkKeySize_of_large (UInt32.not_le.mp large)]
    rfl

section

variable (h : b.WellFormed) (fits : b.blob.length < UInt64.size)
  (stored : d.get name = .ok (.file b.blob))

include h fits

theorem Builder.WellFormed.eval_load_of_large (large : 1024 < b.keySize) :
    (Trailer.load {}).eval (Store.ofBytes b.blob) =
      .ok (.error (.unsupportedKeySize b.keySize 1024)) := by
  rw [h.eval_load_eq fits, Trailer.validate, b.checkKeySize_of_large large]
  rfl

include stored

namespace Directory

theorem run_get_stored (allowed : b.trailer.AllowedBy {}) {key : String} {k : Bytes}
    (spelled : key.toLower = Hex.encode k) (asHex : Bool) :
    ∃ log, d.run (.get name key asHex) =
      (Command.reportOf asHex log
        (if k.length = b.keySize.toNat then .ok (.value (b.entries.lookup k))
          else .error (.invalidKey b.keySize k.length)), d) := by
  have decoded := Hex.decode_eq_ok_iff.mpr (Hex.spells_toList_iff.mpr spelled)
  obtain ⟨log, report⟩ := Command.exists_getFrom (h.eval_lookup fits allowed k) asHex
  exact ⟨log, by rw [run_get stored decoded, report]⟩

theorem run_info_stored (allowed : b.trailer.AllowedBy {}) :
    d.run (.info name) = (.success b.trailer.describe [], d) := by
  rw [run_info stored, Command.infoFrom_eq (h.eval_load fits allowed)]
  rfl

theorem run_get_of_large (large : 1024 < b.keySize) {key : String} {k : Bytes}
    (spelled : key.toLower = Hex.encode k) (asHex : Bool) :
    (d.run (.get name key asHex)).1.exitCode = 2 := by
  have decoded := Hex.decode_eq_ok_iff.mpr (Hex.spells_toList_iff.mpr spelled)
  have whole := Query.eval_whole (h.eval_load_of_large fits large) (.lookup k)
  obtain ⟨log, report⟩ := Command.exists_getFrom whole asHex
  rw [run_get stored decoded, report]
  rfl

theorem run_info_of_large (large : 1024 < b.keySize) :
    (d.run (.info name)).1.exitCode = 2 := by
  rw [run_info stored, Command.infoFrom_eq (h.eval_load_of_large fits large)]
  rfl

end Directory

end

/-- What is shown of a trailer, with its fields as numbers. -/
theorem Builder.WellFormed.describe_trailer (h : b.WellFormed)
    (fits : b.blob.length < UInt64.size) :
    let keySize := b.keySize.toNat
    let count := b.entries.length
    let total := (b.entries.map fun entry => entry.2.length).sum
    let recordSize := keySize + 12
    b.trailer.describe =
      s!"version:      1\nkey_size:     {keySize}\nentry_count:  {count}\n" ++
        s!"index_offset: {total}\nrecord_size:  {recordSize}\n" := by
  intro keySize count total recordSize
  have hcount : b.trailer.entryCount.toNat = count := h.toNat_entryCount fits
  have htotal : b.trailer.indexOffset.toNat = total := by
    rw [h.toNat_indexOffset fits, Entries.values, List.length_flatten, List.map_map]
    rfl
  have hrecord : b.trailer.recordSize.toNat = recordSize := b.trailer.toNat_recordSize
  rw [← hcount, ← htotal, ← hrecord]
  rfl

/-! What is found under a key, among pairs with different keys. -/

theorem Entries.lookup_of_mem {entries : Entries} (distinct : (entries.map Prod.fst).Nodup)
    {key value : Bytes} (member : (key, value) ∈ entries) :
    entries.lookup key = some value := by
  induction entries with
  | nil => cases member
  | cons first rest ih =>
      obtain ⟨k, v⟩ := first
      obtain ⟨apart, distinct⟩ := List.nodup_cons.mp distinct
      rw [List.lookup_cons]
      rcases List.mem_cons.mp member with same | later
      · cases same
        rw [beq_self_eq_true]
      · have different : key ≠ k := fun same => apart (List.mem_map.mpr ⟨_, later, same⟩)
        rw [beq_eq_false_iff_ne.mpr different]
        exact ih distinct later

namespace Directory

/-- What was built of a table is found again, if files hold what was written to them. A key
of a data line, in any letter case, gives the value of the line; any other key of the key
size is not found, and everything else is refused. The trailer tells how many data lines
there are, and how long their values are in all. -/
theorem round_trip {d : Directory} {input output : String} {table : Bytes}
    {keySize : UInt32} (opened : d.get input = .ok (.file table)) (small : keySize ≤ 1024)
    (built : (d.run (.build input output keySize)).1.exitCode = 0)
    (returns : (d.run (.build input output keySize)).2.Returns output) :
    let d' := (d.run (.build input output keySize)).2
    ∃ entries : Entries, List.Forall₂ Table.Spells (Table.dataLines table) entries ∧
      (∀ line ∈ Table.dataLines table, ∀ k v, Table.Spells line (k, v) →
        ∀ key : String, key.toLower = Hex.encode k →
          ∃ log, d'.run (.get output key true) = (⟨0, Hex.encode v ++ "\n", log⟩, d')) ∧
      (∀ k : Bytes, k.length = keySize.toNat →
        (∀ line ∈ Table.dataLines table, ∀ v, ¬ Table.Spells line (k, v)) →
          ∀ (key : String) (asHex : Bool), key.toLower = Hex.encode k →
            ∃ log, d'.run (.get output key asHex) =
              (⟨1, "", log ++ [.plain "not found"]⟩, d')) ∧
      (∀ (key : String) (asHex : Bool),
        (∀ k : Bytes, key.toLower = Hex.encode k → k.length ≠ keySize.toNat) →
          ∃ log, d'.run (.get output key asHex) = (⟨2, "", log⟩, d')) ∧
      (let size := keySize.toNat
        let count := (Table.dataLines table).length
        let total := (entries.map fun entry => entry.2.length).sum
        let recordSize := size + 12
        d'.run (.info output) =
          (⟨0, s!"version:      1\nkey_size:     {size}\nentry_count:  {count}\n" ++
            s!"index_offset: {total}\nrecord_size:  {recordSize}\n", []⟩, d')) := by
  intro d'
  obtain ⟨content, b, found, made, stored⟩ := exists_stored_of_build built
  obtain rfl : table = content := Node.file.inj (Except.ok.inj (opened.symm.trans found))
  obtain ⟨positive, wellFormed, rfl, entries, spelled, distinct, perm, lookup⟩ :=
    Table.exists_entries made
  have fits := returns.length_lt stored
  have allowed : b.trailer.AllowedBy {} := ⟨positive, small, nofun⟩
  have held {k v : Bytes} (member : (k, v) ∈ entries) :
      k.length = b.keySize.toNat ∧ b.entries.lookup k = some v :=
    ⟨wellFormed.keys (perm.mem_iff.mpr member),
      (lookup k).trans (Entries.lookup_of_mem distinct member)⟩
  refine ⟨entries, spelled, ?_, ?_, ?_, ?_⟩
  · intro line member k v spells key spelledKey
    obtain ⟨right, present⟩ :=
      held ((Table.mem_entries_iff spelled).mpr ⟨line, member, spells⟩)
    obtain ⟨log, report⟩ := run_get_stored wellFormed fits stored allowed spelledKey true
    rw [if_pos right, present] at report
    exact ⟨log, report⟩
  · intro k right absent key asHex spelledKey
    have missing : b.entries.lookup k = none := by
      rw [lookup, List.lookup_eq_none_iff]
      rintro ⟨key, v⟩ member
      obtain ⟨line, inside, spells⟩ := (Table.mem_entries_iff spelled).mp member
      refine bne_iff_ne.mpr ?_
      rintro rfl
      exact absent line inside v spells
    obtain ⟨log, report⟩ := run_get_stored wellFormed fits stored allowed spelledKey asHex
    rw [if_pos right, missing] at report
    exact ⟨log, report⟩
  · intro key asHex other
    cases decoded : Hex.decode (Utf8.encode key.toList) with
    | error error => exact ⟨_, run_get_of_bad_key decoded d' output asHex⟩
    | ok k =>
        have spelledKey := Hex.spells_toList_iff.mp (Hex.decode_eq_ok_iff.mp decoded)
        obtain ⟨log, report⟩ :=
          run_get_stored wellFormed fits stored allowed spelledKey asHex
        rw [if_neg (other k spelledKey)] at report
        exact ⟨_, report⟩
  · have count : b.entries.length = (Table.dataLines table).length :=
      perm.length_eq.trans spelled.length_eq.symm
    have total : (b.entries.map fun entry => entry.2.length).sum =
        (entries.map fun entry => entry.2.length).sum := (perm.map _).sum_nat
    rw [← count, ← total]
    refine (run_info_stored wellFormed fits stored allowed).trans ?_
    rw [wellFormed.describe_trailer fits]
    rfl

/-- Two pairs, a comment and a blank line, with blanks and capitals in between. -/
theorem round_trip_of_two :
    let table := Utf8.encode "# pairs\n0A, FF00\r\n\n 0b,".toList
    let d := ofFiles [("in.csv", table)]
    let out := d.run (.build "in.csv" "out" 1)
    d.get "in.csv" = .ok (.file table) ∧ (1 : UInt32) ≤ 1024 ∧ out.1.exitCode = 0 ∧
      out.2.Returns "out" ∧
      (∃ log, out.2.run (.get "out" "0a" true) = (⟨0, "ff00\n", log⟩, out.2)) ∧
      ∃ log, out.2.run (.get "out" "0a0b" true) = (⟨2, "", log⟩, out.2) := by
  intro table d out
  have opened : d.get "in.csv" = .ok (.file table) := by decide +kernel
  have small : (1 : UInt32) ≤ 1024 := by decide
  have built : out.1.exitCode = 0 := by decide +kernel
  have returns : out.2.Returns "out" := returns_iff.mpr (by decide +kernel)
  obtain ⟨_, _, found, _, refused, _⟩ := round_trip opened small built returns
  have line : "0A, FF00\r".toList ∈ Table.dataLines table := by decide +kernel
  have spells : Table.Spells "0A, FF00\r".toList ([0x0A], [0xFF, 0]) :=
    ⟨"0A".toList, " FF00".toList, by decide, by decide, by decide, by decide⟩
  refine ⟨opened, small, built, returns,
    found _ line _ _ spells "0a" (by decide +kernel), ?_⟩
  refine refused "0a0b" true fun k same => ?_
  have pair : Hex.Spells "0a0b".toList [0x0A, 0x0B] := by decide
  rw [(Hex.spells_toList_iff.mpr same).unique pair]
  decide

/-- A blob with keys of 1025 bytes is written and then refused. -/
theorem long_keys_are_refused :
    let d := ofFiles [("in.csv", [])]
    let out := d.run (.build "in.csv" "out" 1025)
    out.1.exitCode = 0 ∧ (out.2.run (.info "out")).1.exitCode = 2 := by
  decide +kernel

/-- What was built is read again if its keys have at most as many bytes as a reader takes
that was told nothing; else every reader of that kind refuses it. So it is with each blob
that a builder can write: its trailer is read from its last bytes, and passes the check
against its own length unless the keys are too long. -/
theorem reads_what_it_built (d : Directory) (input output : String) (keySize : UInt32) :
    let out := d.run (.build input output keySize)
    let exitOf (command : Command) := (out.2.run command).1.exitCode
    (out.1.exitCode = 0 → out.2.Returns output →
      (keySize ≤ 1024 → exitOf (.info output) = 0 ∧
        ∀ (k : Bytes) (key : String) (asHex : Bool), k.length = keySize.toNat →
          key.toLower = Hex.encode k →
            exitOf (.get output key asHex) = 0 ∨ exitOf (.get output key asHex) = 1) ∧
      (1024 < keySize → exitOf (.info output) = 2 ∧
        ∀ (k : Bytes) (key : String) (asHex : Bool), k.length = keySize.toNat →
          key.toLower = Hex.encode k → exitOf (.get output key asHex) = 2)) ∧
    ∀ (b : Builder) (adds : Entries) (blob : Bytes), Builder.new keySize = .ok b →
      (b.addAll adds).finish = .ok blob →
        ∃ t, (∀ verifyChecksum,
          Trailer.decode (blob.drop (blob.length - Trailer.size.toNat))
            verifyChecksum = .ok t) ∧
          ∀ length : UInt64, length.toNat = blob.length →
            t.validate length {} =
              if keySize ≤ 1024 then .ok ()
              else .error (.unsupportedKeySize keySize 1024) := by
  intro out exitOf
  refine ⟨fun built returns => ?_, fun b adds blob made finished => ?_⟩
  · obtain ⟨table, b, _, read, stored⟩ := exists_stored_of_build built
    obtain ⟨positive, wellFormed, rfl, _⟩ := Table.exists_entries read
    have fits := returns.length_lt stored
    refine ⟨fun small => ?_, fun large => ?_⟩
    · have allowed : b.trailer.AllowedBy {} := ⟨positive, small, nofun⟩
      refine ⟨congrArg (·.1.exitCode) (run_info_stored wellFormed fits stored allowed), ?_⟩
      intro k key asHex right spelled
      obtain ⟨log, report⟩ := run_get_stored wellFormed fits stored allowed spelled asHex
      rw [if_pos right] at report
      simp only [exitOf, out, report]
      cases b.entries.lookup k with
      | none => exact .inr rfl
      | some v => exact .inl rfl
    · exact ⟨run_info_of_large wellFormed fits stored large, fun k key asHex _ spelled =>
        run_get_of_large wellFormed fits stored large spelled asHex⟩
  · obtain ⟨fresh, rfl, _⟩ := Builder.wellFormed_of_new made
    rw [Builder.finish_eq] at finished
    cases finished
    have positive : b.keySize ≠ 0 := by
      intro zero
      rw [zero] at made
      cases made
    refine ⟨(b.addAll adds).trailer, fun verifyChecksum => ?_, fun length exact => ?_⟩
    · rw [Builder.drop_blob]
      exact Trailer.decode_encode rfl verifyChecksum
    · have size := b.keySize_addAll adds
      have fits : (b.addAll adds).blob.length < UInt64.size := exact ▸ length.toNat_lt_size
      have outcome := (fresh.addAll adds).validate_default fits (size ▸ positive) exact
      rwa [size] at outcome

/-- A table of one pair, whose key is found and whose length fits. -/
theorem reads_what_it_built_of_one :
    let d := ofFiles [("in.csv", Utf8.encode "0a,ff".toList)]
    let out := d.run (.build "in.csv" "out" 1)
    let b := Builder.mk 1 [([0x0A], [0xFF])]
    out.1.exitCode = 0 ∧ out.2.Returns "out" ∧ (out.2.run (.info "out")).1.exitCode = 0 ∧
      (Builder.new 1 = .ok ⟨1, []⟩ ∧ b.finish = .ok b.blob) ∧
      ∃ t : Trailer, t.validate 54 {} = .ok () := by
  intro d out b
  have built : out.1.exitCode = 0 := by decide +kernel
  have returns : out.2.Returns "out" := returns_iff.mpr (by decide +kernel)
  have made : Builder.new 1 = .ok ⟨1, []⟩ := by decide
  have finished : b.finish = .ok b.blob := b.finish_eq
  obtain ⟨tool, library⟩ := reads_what_it_built d "in.csv" "out" 1
  obtain ⟨t, _, valid⟩ := library _ [([0x0A], [0xFF])] b.blob made finished
  exact ⟨built, returns, ((tool built returns).1 (by decide)).1, ⟨made, finished⟩, t,
    (valid 54 (by decide +kernel)).trans (by decide)⟩

end Directory

end SortedBlob
