import SortedBlob.Command
import SortedBlob.Proofs.RoundTrip
import SortedBlob.Proofs.StoredFiles
import SortedBlob.Proofs.TableContents

/-!
What the commands report on a blob that lies in a file, in terms of what a reader of the
blob comes to, and where the blob of a table lies once it was built.
-/

namespace SortedBlob

theorem Session.loadTrailer_eval {blob : Bytes} {config : Config}
    {loaded : Except FormatError Trailer}
    (h : (Trailer.load config).eval (Store.ofBytes blob) = .ok loaded) :
    ((new config).loadTrailer (Store.ofBytes blob).source ()).1 = .ok loaded := by
  have start : (new config).countStart .trailer = new config := rfl
  have plan (config : Config) (loaded : Except FormatError Trailer) :
      Query.plan .trailer config loaded =
        .done ((loaded.mapError LookupError.format).map Answer.trailer) := by
    cases loaded <;> rfl
  have asked := sound_new.ask_eval ((Query.eval_whole h .trailer).trans (by rw [plan]; rfl))
  rcases hload : (new config).loadTrailer (Store.ofBytes blob).source () with
    ⟨interruption | found, s, state⟩
  · simp only [ask, start, hload] at asked
    cases asked
  · simp only [ask, start, hload, plan, Plan.run] at asked
    cases loaded <;> cases found <;> cases asked <;> rfl

namespace Command

/-- The report on what a lookup came to. -/
def reportOf (asHex : Bool) (log : List LogLine) : Verdict → Report
  | .error error => .failure error.message
  | .ok answer =>
      match answer.value? with
      | some value => .success (shown asHex value) log
      | none => .notFound log

theorem exists_getFrom {blob key : Bytes} {verdict : Verdict}
    (h : ((Query.lookup key).whole {}).eval (Store.ofBytes blob) = .ok verdict)
    (asHex : Bool) :
    ∃ log, getFrom (.file blob) key asHex = reportOf asHex log verdict := by
  have asked := Session.sound_new.ask_eval h
  rcases hask : (Session.new {}).ask (Store.ofBytes blob).source (.lookup key) () with
    ⟨reply, s, _⟩
  rw [hask] at asked
  cases asked
  refine ⟨[.debug s.stats.describe], ?_⟩
  simp only [getFrom, Node.store, hask]
  cases verdict <;> rfl

/-- The report on what a load came to. -/
def reportOfTrailer : Except FormatError Trailer → Report
  | .error error => .failure (LookupError.format error).message
  | .ok t => .success t.describe []

theorem infoFrom_eq {blob : Bytes} {loaded : Except FormatError Trailer}
    (h : (Trailer.load {}).eval (Store.ofBytes blob) = .ok loaded) :
    infoFrom (.file blob) = reportOfTrailer loaded := by
  have known := Session.loadTrailer_eval h
  rcases hload : (Session.new {}).loadTrailer (Store.ofBytes blob).source () with
    ⟨reply, s, _⟩
  rw [hload] at known
  cases known
  simp only [infoFrom, Node.store, hload]
  cases loaded <;> rfl

theorem exists_table_of_tableOf {keySize : UInt32} {node : Node} {b : Builder}
    (h : tableOf keySize node = .ok b) :
    ∃ table, node = .file table ∧ Table.build keySize table = .ok b := by
  cases node with
  | file table => exact ⟨table, rfl, h⟩
  | folder =>
      rw [tableOf] at h
      cases made : Builder.new keySize <;> simp [made] at h

end Command

/-- The length that is reported of the file is that of its content, as for every
file that can be stored. -/
def Directory.Returns (d : Directory) (name : String) : Prop :=
  ∀ content, d.contents? name = some content →
    (Store.ofBytes content).length.toNat = content.length

namespace Directory

variable {d : Directory} {name key : String} {content : Bytes}

theorem returns_iff :
    d.Returns name ↔ (d.contents? name).all fun content =>
      (Store.ofBytes content).length.toNat == content.length := by
  simp [Returns, Option.all_eq_true]

theorem Returns.length_lt (h : d.Returns name) (stored : d.get name = .ok (.file content)) :
    content.length < UInt64.size := by
  rw [← h content (by simp only [contents?, stored])]
  exact UInt64.toNat_lt_size _

theorem run_get {bytes : Bytes} (stored : d.get name = .ok (.file content))
    (decoded : Hex.decode (Utf8.encode key.toList) = .ok bytes) (asHex : Bool) :
    d.run (.get name key asHex) = (Command.getFrom (.file content) bytes asHex, d) := by
  simp only [run, Command.respond, Command.input, stored, decoded]

theorem run_get_of_bad_key {error : HexError}
    (refused : Hex.decode (Utf8.encode key.toList) = .error error) (d : Directory)
    (name : String) (asHex : Bool) :
    d.run (.get name key asHex) = (.failure error.message, d) := by
  simp only [run, Command.respond, refused]

theorem run_info (stored : d.get name = .ok (.file content)) :
    d.run (.info name) = (Command.infoFrom (.file content), d) := by
  simp only [run, Command.respond, Command.input, stored]

/-- A table is read, built and stored, or else a failure is reported
and nothing is touched. -/
theorem run_build_cases (d : Directory) (input output : String) (keySize : UInt32) :
    (∃ message, d.run (.build input output keySize) = (.failure message, d)) ∨
      ∃ table b d', d.get input = .ok (.file table) ∧ Table.build keySize table = .ok b ∧
        d.write output b.blob = .ok d' ∧
          d.run (.build input output keySize) =
            (.success "" [.info (b.describe output)], d') := by
  simp only [run, Command.respond, Command.input, Command.buildFrom]
  cases hget : d.get input with
  | error error => exact .inl ⟨_, rfl⟩
  | ok node =>
      cases htable : Command.tableOf keySize node with
      | error error =>
          simp only [htable]
          exact .inl ⟨_, rfl⟩
      | ok b =>
          obtain ⟨table, rfl, hbuild⟩ := Command.exists_table_of_tableOf htable
          cases hwrite : d.write output b.blob with
          | error error =>
              simp only [htable, Builder.writeFile_of_error hwrite]
              exact .inl ⟨_, rfl⟩
          | ok d' =>
              simp only [htable, Builder.writeFile_of_write hwrite]
              exact .inr ⟨table, b, d', rfl, hbuild, hwrite, rfl⟩

section

variable {input output : String} {keySize : UInt32}

theorem run_build_of_error {error : TableError} (opened : d.get input = .ok (.file content))
    (refused : Table.build keySize content = .error error) (output : String) :
    d.run (.build input output keySize) = (.failure error.message, d) := by
  simp only [run, Command.respond, Command.input, Command.buildFrom, Command.tableOf,
    opened, refused]

theorem run_build_of_ok {b : Builder} {d' : Directory}
    (opened : d.get input = .ok (.file content))
    (made : Table.build keySize content = .ok b)
    (written : d.write output b.blob = .ok d') :
    d.run (.build input output keySize) =
      (.success "" [.info (b.describe output)], d') := by
  simp only [run, Command.respond, Command.input, Command.buildFrom, Command.tableOf,
    opened, made, Builder.writeFile_of_write written]

/-- When a table was built, its blob lies where it was to be stored. -/
theorem exists_stored_of_build
    (built : (d.run (.build input output keySize)).1.exitCode = 0) :
    ∃ table b, d.get input = .ok (.file table) ∧ Table.build keySize table = .ok b ∧
      (d.run (.build input output keySize)).2.get output = .ok (.file b.blob) := by
  rcases d.run_build_cases input output keySize with
    ⟨message, failed⟩ | ⟨table, b, d', opened, made, written, stored⟩
  · rw [failed] at built
    cases built
  · rw [stored]
    exact ⟨table, b, opened, made, get_of_write written⟩

end

end Directory

end SortedBlob
