import SortedBlob.Command.Arguments
import SortedBlob.Proofs.CommandReports
import SortedBlob.Proofs.TableFlaws
import SortedBlob.Proofs.TableLayouts

/-!
What the tool builds of a table: the blob of its pairs, whatever their order and layout, or
a report of the first thing that is wrong, and then no file is touched. Main statements:
`Directory.builds_the_pairs_of_a_table` and `Directory.build_touches_only_its_output`.
-/

namespace SortedBlob

namespace Table

variable {keySize : UInt32} {table table' : Bytes} {entries entries' : Entries}

/-- The digits of a value are part of the table. -/
theorem Lists.length_value_le (h : Lists keySize (lines table) entries)
    {entry : Bytes × Bytes} (member : entry ∈ entries) :
    2 * entry.2.length ≤ table.length := by
  obtain ⟨found, held, rfl⟩ := h.held
  obtain ⟨text, data, spells⟩ := (mem_entries_iff (forall₂_spells_of_holds held)).mp member
  obtain ⟨line, inside, decoded⟩ := List.mem_filterMap.mp (List.mem_filter.mp data).1
  obtain ⟨key, value, rfl, _, _, hvalue⟩ := spells_iff_untrimmed.mp spells
  calc 2 * entry.2.length = (Text.trim value).length := hvalue.length_eq.symm
    _ ≤ value.length := Text.length_trim_le value
    _ ≤ (key ++ ',' :: value).length := by simp; omega
    _ ≤ line.length := Utf8.length_le_of_decode? decoded
    _ ≤ table.length := length_line_le inside

theorem build_isOk_iff (positive : keySize ≠ 0) :
    (∃ b, build keySize table = .ok b) ↔
      ∃ entries, Lists keySize (lines table) entries ∧
        ∀ entry ∈ entries, entry.2.length < UInt32.size := by
  simp only [build_eq_ok_iff positive]
  constructor
  · rintro ⟨_, entries, lists, short, rfl⟩
    exact ⟨entries, lists, short⟩
  · rintro ⟨entries, lists, short⟩
    exact ⟨_, entries, lists, short, rfl⟩

/-- Whatever pairs the one table lists, the other lists too. -/
def Covers (keySize : UInt32) (table table' : Bytes) : Prop :=
  ∀ entries, Lists keySize (lines table) entries →
    ∃ entries', Lists keySize (lines table') entries' ∧
      ∀ entry, entry ∈ entries' ↔ entry ∈ entries

theorem covers_of_reformats (h : Relation.EqvGen Reformats table table') :
    Covers keySize table table' := by
  intro entries lists
  obtain ⟨held, perm, lists'⟩ := lists.reformat h
  exact ⟨held, lists', fun _ => perm.mem_iff⟩

theorem covers_of_same_pairs (lists : Lists keySize (lines table) entries)
    (lists' : Lists keySize (lines table') entries')
    (same : ∀ entry, entry ∈ entries ↔ entry ∈ entries') : Covers keySize table table' := by
  intro held listed
  obtain rfl := lists.unique listed
  exact ⟨entries', lists', fun entry => (same entry).symm⟩

/-- Only the set of pairs matters for what is built. -/
theorem Covers.build_eq_ok (h : Covers keySize table table') (positive : keySize ≠ 0)
    {b : Builder} (made : build keySize table = .ok b) : build keySize table' = .ok b := by
  obtain ⟨entries, lists, short, rfl⟩ := (build_eq_ok_iff positive).mp made
  obtain ⟨entries', lists', agree⟩ := h entries lists
  have short' : ∀ entry ∈ entries', entry.2.length < UInt32.size := fun entry member =>
    short entry ((agree entry).mp member)
  refine (build_eq_ok_iff positive).mpr ⟨entries', lists', short', ?_⟩
  refine Builder.addAll_empty_eq fun entry => ?_
  rw [lists.accepted_eq short, lists'.accepted_eq short']
  exact (agree entry).symm

end Table

/-! The key size as it stands on a command line. -/

namespace Command

theorem number?_toString (n : Nat) : number? (toString n) = some n := by
  have text : (toString n).toList = Nat.toDigits 10 n := Nat.toList_repr
  have digits : ∀ c ∈ Nat.toDigits 10 n, c.isDigit = true := fun c member =>
    Nat.isDigit_of_mem_toDigits (by decide) (by decide) member
  have value : Nat.ofDigitChars 10 (Nat.toDigits 10 n) 0 = n :=
    Nat.ofDigitChars_toDigits (by decide) (by decide)
  have unsigned : ∀ rest, Nat.toDigits 10 n ≠ '+' :: rest := by
    intro rest same
    cases digits '+' (same ▸ List.mem_cons_self ..)
  rw [number?, text]
  split
  · rename_i rest same
    exact absurd same (unsigned rest)
  · rw [if_pos ⟨Nat.toDigits_ne_nil, List.all_eq_true.mpr digits⟩]
    exact congrArg some value

end Command

namespace Directory

/-- A key size that is no word is refused, and nothing is touched. -/
theorem runArguments_build (d : Directory) (input output : String) (n : Nat) :
    d.runArguments ["build", "--input", input, "--output", output, "--key-size",
      toString n] =
      if n < UInt32.size then d.run (.build input output (UInt32.ofNat n))
      else (Command.oversized (toString n) n, d) := by
  have number := Command.number?_toString n
  generalize toString n = text at number
  have read : Command.ofArguments?
      ["build", "--input", input, "--output", output, "--key-size", text] =
        (Command.word? text).map (.build input output) := by
    rw [Command.ofArguments?]
    simp only [Command.ofBuildOptions?, String.reduceEq, or_false, if_true, if_false]
    cases Command.word? text <;> rfl
  have refused : Command.refuse
      ["build", "--input", input, "--output", output, "--key-size", text] =
        if n < UInt32.size then ⟨2, "", [.plain Command.usage]⟩
        else Command.oversized text n := by
    simp only [Command.refuse, Command.refuseBuildOptions, String.reduceEq, or_false,
      if_true, if_false, number]
  rw [runArguments, read, refused, Command.word?, number]
  by_cases small : n < UInt32.size
  · simp only [if_pos small, Option.map_some]
  · simp only [if_neg small, Option.map_none]

/-- There is a table to read under the one name, and a file can be
written under the other. -/
structure Ready (d : Directory) (input : String) (table : Bytes) (output : String) :
    Prop where
  opened : d.get input = .ok (.file table)
  writable : ∃ stored, d.write output [] = .ok stored

section

variable {d : Directory} {input output : String} {table : Bytes} {keySize : UInt32}
  {b : Builder}

theorem Ready.run_build_of_ok (ready : d.Ready input table output)
    (made : Table.build keySize table = .ok b) :
    (d.run (.build input output keySize)).1.exitCode = 0 ∧
      (d.run (.build input output keySize)).2.get output = .ok (.file b.blob) := by
  obtain ⟨_, writable⟩ := ready.writable
  have written := write_of_write writable b.blob
  rw [Directory.run_build_of_ok ready.opened made written]
  exact ⟨rfl, get_of_write written⟩

theorem Ready.exitCode_eq_zero_iff (ready : d.Ready input table output) :
    (d.run (.build input output keySize)).1.exitCode = 0 ↔
    ∃ b, Table.build keySize table = .ok b := by
  constructor
  · intro built
    cases made : Table.build keySize table with
    | ok b => exact ⟨b, rfl⟩
    | error error =>
        rw [run_build_of_error ready.opened made] at built
        cases built
  · rintro ⟨b, made⟩
    exact (ready.run_build_of_ok made).1

/-- Tables of the same pairs are refused together, or else give the same blob. -/
theorem Ready.build_eq (ready : d.Ready input table output) (positive : keySize ≠ 0)
    {d' : Directory} {input' output' : String} {table' : Bytes}
    (ready' : d'.Ready input' table' output') (forth : Table.Covers keySize table table')
    (back : Table.Covers keySize table' table) :
    let out := d.run (.build input output keySize)
    let out' := d'.run (.build input' output' keySize)
    out'.1.exitCode = out.1.exitCode ∧
      (out.1.exitCode = 0 → out'.2.get output' = out.2.get output) := by
  intro out out'
  cases made : Table.build keySize table with
  | ok b =>
      obtain ⟨built, stored⟩ := ready.run_build_of_ok made
      obtain ⟨built', stored'⟩ := ready'.run_build_of_ok (forth.build_eq_ok positive made)
      exact ⟨built'.trans built.symm, fun _ => stored'.trans stored.symm⟩
  | error error =>
      cases made' : Table.build keySize table' with
      | ok b => cases made.symm.trans (back.build_eq_ok positive made')
      | error error' =>
          have failed : out = _ := run_build_of_error ready.opened made output
          have failed' : out' = _ := run_build_of_error ready'.opened made' output'
          rw [failed, failed']
          exact ⟨rfl, nofun⟩

end

/-- Of a table that can be read, and a file that can be written, the tool accepts the
grammar of tables and nothing else: it succeeds if the lines hold pairs with keys of the key
size and all different, and with values that are not too long, which takes more than eight
gigabytes of text. What is stored is the blob of these pairs. It is the same for every
table, in whatever directory and under whatever names, that lists the same pairs or is the
same but for its layout. A table that is refused is reported for what is wrong with the
first line that has something wrong, and then no file is touched. -/
theorem builds_the_pairs_of_a_table {d : Directory} {input output : String} {table : Bytes}
    {keySize : UInt32} (positive : keySize ≠ 0) (ready : d.Ready input table output) :
    let out := d.run (.build input output keySize)
    let read := Table.lines table
    (out.1.exitCode = 0 ↔ ∃ entries, Table.Lists keySize read entries ∧
      ∀ entry ∈ entries, entry.2.length < UInt32.size) ∧
    (table.length < 2 * UInt32.size → ∀ entries, Table.Lists keySize read entries →
      ∀ entry ∈ entries, entry.2.length < UInt32.size) ∧
    (out.1.exitCode = 0 → ∀ entries, Table.Lists keySize read entries →
      ∃ b blob, Builder.new keySize = .ok b ∧ b.accepted entries = entries ∧
        (b.addAll entries).finish = .ok blob ∧ out.2.get output = .ok (.file blob)) ∧
    (∀ (d' : Directory) (input' : String) (table' : Bytes) (output' : String),
      d'.Ready input' table' output' →
        (Relation.EqvGen Table.Reformats table table' ∨
          ∃ entries entries', Table.Lists keySize read entries ∧
            Table.Lists keySize (Table.lines table') entries' ∧
            ∀ entry, entry ∈ entries ↔ entry ∈ entries') →
          let out' := d'.run (.build input' output' keySize)
          out'.1.exitCode = out.1.exitCode ∧
            (out.1.exitCode = 0 → out'.2.get output' = out.2.get output)) ∧
    (out.1.exitCode ≠ 0 → ∃ error, Table.FirstFlaw keySize read error) ∧
    ∀ error, Table.FirstFlaw keySize read error → out = (.failure error.message, d) := by
  intro out read
  have accepts : out.1.exitCode = 0 ↔ ∃ b, Table.build keySize table = .ok b :=
    ready.exitCode_eq_zero_iff
  refine ⟨accepts.trans (Table.build_isOk_iff positive),
    fun small entries lists entry member => ?_, fun built entries lists => ?_,
    fun d' input' table' output' ready' same => ?_, fun failed => ?_, fun error flaw => ?_⟩
  · have digits := lists.length_value_le member
    omega
  · obtain ⟨b, made⟩ := accepts.mp built
    obtain ⟨held, lists', short, rfl⟩ := (Table.build_eq_ok_iff positive).mp made
    obtain rfl := lists.unique lists'
    exact ⟨_, _, if_neg positive, lists.accepted_eq short, Builder.finish_eq _,
      (ready.run_build_of_ok made).2⟩
  · intro out'
    have covers : Table.Covers keySize table table' ∧
        Table.Covers keySize table' table := by
      rcases same with layout | ⟨entries, entries', lists, lists', agree⟩
      · exact ⟨Table.covers_of_reformats layout,
          Table.covers_of_reformats (.symm _ _ layout)⟩
      · exact ⟨Table.covers_of_same_pairs lists lists' agree,
          Table.covers_of_same_pairs lists' lists fun entry => (agree entry).symm⟩
    exact ready.build_eq positive ready' covers.1 covers.2
  · cases made : Table.build keySize table with
    | ok b => exact absurd (accepts.mpr ⟨b, made⟩) failed
    | error error => exact ⟨error, (Table.build_eq_error_iff positive).mp made⟩
  · exact run_build_of_error ready.opened
      ((Table.build_eq_error_iff positive).mpr flaw) output

/-- Two pairs in two layouts are one blob, and a value with an odd digit is
reported with its line. -/
theorem builds_the_pairs_of_a_table_of_two :
    let table := Utf8.encode "# pairs\n0B,\r\n 0A , FF00".toList
    let table' := Utf8.encode "0a,ff00\n0b,\n".toList
    let bad := Utf8.encode "0a,ff\n\n0A,1\n,".toList
    let d := ofFiles [("in", table), ("in2", table'), ("bad", bad)]
    let out := d.run (.build "in" "out" 1)
    let failed := d.run (.build "bad" "out" 1)
    (1 : UInt32) ≠ 0 ∧ d.Ready "in" table "out" ∧ d.Ready "in2" table' "in2" ∧
      d.Ready "bad" bad "out" ∧ out.1.exitCode = 0 ∧
      (d.run (.build "in2" "in2" 1)).2.get "in2" = out.2.get "out" ∧
      (∃ error, Table.FirstFlaw 1 (Table.lines bad) error ∧
        failed = (.failure error.message, d)) ∧
      failed.1 = .failure "line 3: value: Odd number of digits" := by
  intro table table' bad d out failed
  have positive : (1 : UInt32) ≠ 0 := by decide
  have ready : d.Ready "in" table "out" := ⟨by decide +kernel, ⟨_, rfl⟩⟩
  have ready' : d.Ready "in2" table' "in2" := ⟨by decide +kernel, ⟨_, rfl⟩⟩
  have readyBad : d.Ready "bad" bad "out" := ⟨by decide +kernel, ⟨_, rfl⟩⟩
  have built : out.1.exitCode = 0 := by decide +kernel
  have unbuilt : failed.1.exitCode ≠ 0 := by decide +kernel
  have lists : Table.Lists 1 (Table.lines table) [([0x0B], []), ([0x0A], [0xFF, 0])] :=
    ⟨⟨[none, some ([0x0B], []), some ([0x0A], [0xFF, 0])], by decide +kernel, rfl⟩, by decide,
      by decide⟩
  have lists' : Table.Lists 1 (Table.lines table') [([0x0A], [0xFF, 0]), ([0x0B], [])] :=
    ⟨⟨[some ([0x0A], [0xFF, 0]), some ([0x0B], [])], by decide +kernel, rfl⟩,
      by decide, by decide⟩
  have agree (entry : Bytes × Bytes) : entry ∈ [([0x0B], []), ([0x0A], [0xFF, 0])] ↔
      entry ∈ ([([0x0A], [0xFF, 0]), ([0x0B], [])] : Entries) := (List.Perm.swap ..).mem_iff
  obtain ⟨_, _, _, same, _⟩ := builds_the_pairs_of_a_table positive ready
  obtain ⟨_, stored⟩ := same d "in2" table' "in2" ready' (.inr ⟨_, _, lists, lists', agree⟩)
  obtain ⟨_, _, _, _, flawed, reports⟩ := builds_the_pairs_of_a_table positive readyBad
  obtain ⟨error, flaw⟩ := flawed unbuilt
  exact ⟨positive, ready, ready', readyBad, built, stored built,
    ⟨error, flaw, reports error flaw⟩, by decide +kernel⟩

/-- A pair by itself is a table of its own, but not one that the tool takes
if its value is too long. -/
theorem Ready.exitCode_of_long_value {d : Directory} {input output : String}
    {keySize : UInt32} {key value : Bytes}
    (ready : d.Ready input (Table.row key value) output)
    (right : key.length = keySize.toNat) (long : UInt32.size ≤ value.length) :
    (d.run (.build input output keySize)).1.exitCode = 2 := by
  rcases d.run_build_cases input output keySize with
    ⟨message, failed⟩ | ⟨table, b, _, opened, made, _⟩
  · rw [failed]
    rfl
  · have positive : keySize ≠ 0 := by
      rintro rfl
      cases made
    obtain rfl : _ = table := Node.file.inj (Except.ok.inj (ready.opened.symm.trans opened))
    obtain ⟨entries, lists, short, _⟩ := (Table.build_eq_ok_iff positive).mp made
    obtain rfl := lists.unique (Table.lists_row right value)
    exact absurd (short _ (List.mem_singleton_self _)) (Nat.not_lt.mpr long)

/-- There is nothing wrong with the one table but that its value has 2^32 bytes, and nothing
at all with the other, which is empty, but 2^32 is too much for a key size. -/
theorem refuses_long_values_and_large_key_sizes :
    let value : Bytes := List.replicate UInt32.size 0
    let table := Table.row [0] value
    let d := ofFiles [("in.csv", table)]
    let empty := ofFiles [("in.csv", [])]
    d.Ready "in.csv" table "out.blob" ∧ Table.Lists 1 (Table.lines table) [([0], value)] ∧
      (d.run (.build "in.csv" "out.blob" 1)).1.exitCode = 2 ∧
      empty.Ready "in.csv" [] "out.blob" ∧ Table.lines [] = [] ∧
      (empty.runArguments ["build", "--input", "in.csv", "--output", "out.blob", "--key-size",
        "4294967296"]).1.exitCode = 2 := by
  have ready (table : Bytes) :
      (ofFiles [("in.csv", table)]).Ready "in.csv" table "out.blob" :=
    ⟨rfl, ⟨_, rfl⟩⟩
  have long : UInt32.size ≤ (List.replicate UInt32.size (0 : UInt8)).length :=
    List.length_replicate.ge
  have refused := (ofFiles [("in.csv", [])]).runArguments_build "in.csv" "out.blob"
    UInt32.size
  rw [if_neg (Nat.lt_irrefl _)] at refused
  exact ⟨ready _, Table.lists_row rfl _, (ready _).exitCode_of_long_value rfl long,
    ready _, rfl, (congrArg (·.1.exitCode) refused).trans rfl⟩

/-- A failing build leaves every file as it was. A build that succeeds changes the file that
it stores and no other, and that file is the blob of the pairs that the table listed before
the run, even if it takes the place of the table. -/
theorem build_touches_only_its_output (d : Directory) (input output : String)
    (keySize : UInt32) :
    let out := d.run (.build input output keySize)
    let place := (Path.ofName output).place
    (out.1.exitCode = 0 ∨ out.1.exitCode = 2) ∧
      (out.1.exitCode = 2 → out.2 = d) ∧
      (out.1.exitCode = 0 →
        ∃ table entries b blob, d.get input = .ok (.file table) ∧
          Table.Lists keySize (Table.lines table) entries ∧ Builder.new keySize = .ok b ∧
          b.accepted entries = entries ∧ (b.addAll entries).finish = .ok blob ∧
          out.2.get output = .ok (.file blob) ∧
          (∀ other : Place, out.2.files.lookup other =
            if other = place then some blob else d.files.lookup other) ∧
          ∀ name, (Path.ofName name).place ≠ place →
              out.2.contents? name = d.contents? name) := by
  intro out place
  rcases d.run_build_cases input output keySize with
    ⟨message, failed⟩ | ⟨table, b, d', opened, made, written, stored⟩
  · have same : out = (.failure message, d) := failed
    rw [same]
    exact ⟨.inr rfl, fun _ => rfl, nofun⟩
  · have same : out = (.success "" [.info (b.describe output)], d') := stored
    rw [same]
    refine ⟨.inl rfl, nofun, fun _ => ?_⟩
    have positive : keySize ≠ 0 := by
      rintro rfl
      cases made
    obtain ⟨entries, lists, short, rfl⟩ := (Table.build_eq_ok_iff positive).mp made
    exact ⟨table, entries, _, _, opened, lists, if_neg positive, lists.accepted_eq short,
      Builder.finish_eq _, get_of_write written, lookup_of_write written,
      fun _ => contents?_of_write written⟩

/-- A table that makes room for its own blob, and one that stays because
there is no such folder. -/
theorem build_touches_only_its_output_in_place :
    let table := Utf8.encode "0a,ff".toList
    let d := ofFiles [("table", table), ("other", [7])]
    let out := d.run (.build "table" "table" 1)
    let failed := d.run (.build "table" "missing/out" 1)
    out.1.exitCode = 0 ∧ out.2.contents? "other" = d.contents? "other" ∧
      out.2.contents? "table" ≠ d.contents? "table" ∧ failed.1.exitCode = 2 ∧
      failed.2 = d := by
  intro table d out failed
  have built : out.1.exitCode = 0 := by decide +kernel
  have unbuilt : failed.1.exitCode = 2 := by decide +kernel
  obtain ⟨_, _, stored⟩ := build_touches_only_its_output d "table" "table" 1
  obtain ⟨_, _, _, _, _, _, _, _, _, _, _, others⟩ := stored built
  obtain ⟨_, untouched, _⟩ := build_touches_only_its_output d "table" "missing/out" 1
  exact ⟨built, others "other" (by decide +kernel), by decide +kernel,
    unbuilt, untouched unbuilt⟩

end Directory

end SortedBlob
