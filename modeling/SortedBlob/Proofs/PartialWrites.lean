import SortedBlob.Proofs.BlobLayout
import SortedBlob.Proofs.StoredFiles

/-!
What a sink took by the time a writer ends, whatever the sink does. Main statement:
`Builder.written_to_any_sink`.
-/

namespace SortedBlob

variable {σ : Type}

namespace Sink

/-- How a deed ends the writing. To take nothing of what is offered is a failure, too. -/
def Deed.failure? : Deed → Option IoError
  | .write _ (.ok (_ + 1)) => none
  | .write _ (.ok 0) => some stuck
  | .write _ (.error error) => some error
  | .flush (.ok ()) => none
  | .flush (.error error) => some error

@[simp] theorem taken_nil : taken [] = [] := rfl

@[simp] theorem taken_append (later earlier : List Deed) :
    taken (later ++ earlier) = taken earlier ++ taken later := by
  simp [taken]

@[simp] theorem taken_cons (last : Deed) (earlier : List Deed) :
    taken (last :: earlier) = taken earlier ++ last.taken := by
  simp [taken]

theorem taken_append_write (later : List Deed) (offered : Bytes) (count : Nat) :
    taken (later ++ [.write offered (.ok count)]) = offered.take count ++ taken later := by
  rw [taken_append, taken_cons, taken_nil, List.nil_append, Deed.taken]

theorem Deed.taken_of_failure {deed : Deed} {error : IoError}
    (h : deed.failure? = some error) :
    deed.taken = [] := by
  match deed with
  | .write _ (.ok 0) => rfl
  | .write _ (.error _) => rfl
  | .flush _ => rfl

/-- The writes that bring bytes to a sink, the latest first. Each offers some of what is
left, until nothing is or a write fails. -/
inductive Writes (sink : Sink σ) : Bytes → σ → List Deed → Except IoError Unit → σ → Prop
  | nil (state : σ) : Writes sink [] state [] (.ok ()) state
  | took (rest : Bytes) {offered : Bytes} {count : Nat} {state next state' : σ}
      {later : List Deed} {result : Except IoError Unit} (nonempty : offered ≠ [])
      (write : sink.write offered state = (.ok (count + 1), next))
      (h : Writes sink (offered.drop (count + 1) ++ rest) next later result state') :
      Writes sink (offered ++ rest) state (later ++ [.write offered (.ok (count + 1))])
      result state'
  | failed (rest : Bytes) {offered : Bytes} {reply : Except IoError Nat} {error : IoError}
      {state state' : σ} (nonempty : offered ≠ [])
      (write : sink.write offered state = (reply, state'))
      (failure : (Deed.write offered reply).failure? = some error) :
      Writes sink (offered ++ rest) state [.write offered reply] (.error error) state'

/-- Takes some of what it is offered until it holds `limit` bytes, and
fails from then on. -/
structure FailsAfter (sink : Sink σ) (held : σ → Nat) (limit : Nat) : Prop where
  takes {bytes : Bytes} {state : σ} (nonempty : bytes ≠ []) (room : held state < limit) :
    ∃ count next, sink.write bytes state = (.ok count, next) ∧
      0 < count ∧ count ≤ bytes.length ∧
      held next = held state + count ∧ held next ≤ limit
  fails {bytes : Bytes} {state : σ} (nonempty : bytes ≠ []) (full : limit ≤ held state) :
    (Deed.write bytes (sink.write bytes state).1).failure? ≠ none

namespace Writes

variable {sink : Sink σ} {bytes more : Bytes} {state middle state' : σ}
  {deeds later : List Deed} {result : Except IoError Unit} {error : IoError}

/-! A sink that is offered all that is left. -/

theorem took_all {count : Nat} (nonempty : bytes ≠ [])
    (write : sink.write bytes state = (.ok (count + 1), middle))
    (h : Writes sink (bytes.drop (count + 1)) middle later result state') :
    Writes sink bytes state (later ++ [.write bytes (.ok (count + 1))]) result state' := by
  have writes := took [] nonempty write (by rwa [List.append_nil])
  rwa [List.append_nil] at writes

theorem failed_all {reply : Except IoError Nat} (nonempty : bytes ≠ [])
    (write : sink.write bytes state = (reply, state'))
    (failure : (Deed.write bytes reply).failure? = some error) :
    Writes sink bytes state [.write bytes reply] (.error error) state' := by
  have writes := failed [] nonempty write failure
  rwa [List.append_nil] at writes

/-! Writes after writes. -/

theorem append (h : Writes sink bytes state deeds (.ok ()) middle)
    (h' : Writes sink more middle later result state') :
    Writes sink (bytes ++ more) state (later ++ deeds) result state' := by
  generalize hresult : (Except.ok () : Except IoError Unit) = first at h
  induction h with
  | nil => rwa [List.append_nil]
  | took rest nonempty write h ih =>
      rw [List.append_assoc, ← List.append_assoc later]
      refine took _ nonempty write ?_
      rw [← List.append_assoc]
      exact ih h' hresult
  | failed => cases hresult

/-- What is left after a failure may be more. -/
theorem append_of_failed (h : Writes sink bytes state deeds (.error error) state')
    (more : Bytes) :
    Writes sink (bytes ++ more) state deeds (.error error) state' := by
  generalize hresult : (Except.error error : Except IoError Unit) = result at h
  induction h with
  | nil => cases hresult
  | took rest nonempty write h ih =>
      rw [List.append_assoc]
      refine took _ nonempty write ?_
      rw [← List.append_assoc]
      exact ih hresult
  | failed rest nonempty write failure =>
      rw [List.append_assoc]
      exact failed _ nonempty write failure

theorem isFlush_eq_false (h : Writes sink bytes state deeds result state') :
    ∀ deed ∈ deeds, deed.isFlush = false := by
  induction h with
  | nil => exact nofun
  | took rest nonempty write h ih =>
    exact List.forall_mem_append.mpr ⟨ih, by simp [Deed.isFlush]⟩
  | failed rest nonempty write failure => simp [Deed.isFlush]

theorem taken_eq (h : Writes sink bytes state deeds (.ok ()) state') :
    taken deeds = bytes ∧ ∀ deed ∈ deeds, deed.failure? = none := by
  generalize hresult : (Except.ok () : Except IoError Unit) = result at h
  induction h with
  | nil => exact ⟨rfl, nofun⟩
  | @took rest offered count _ _ _ _ _ nonempty write h ih =>
      obtain ⟨same, smooth⟩ := ih hresult
      refine ⟨?_, List.forall_mem_append.mpr ⟨smooth, by simp [Deed.failure?]⟩⟩
      rw [taken_append_write, same, ← List.append_assoc, List.take_append_drop]
  | failed => cases hresult

/-- A failure is the last that is seen of the sink, and something is left. -/
theorem of_failed (h : Writes sink bytes state deeds (.error error) state') :
    (∃ left, left ≠ [] ∧ taken deeds ++ left = bytes) ∧
      ∃ last earlier, deeds = last :: earlier ∧ last.failure? = some error ∧
        ∀ deed ∈ earlier, deed.failure? = none := by
  generalize hresult : (Except.error error : Except IoError Unit) = result at h
  induction h with
  | nil => cases hresult
  | @took rest offered count _ _ _ later _ nonempty write h ih =>
      obtain ⟨⟨left, unfinished, same⟩, last, earlier, rfl, failure, smooth⟩ := ih hresult
      refine ⟨⟨left, unfinished, ?_⟩, last, earlier ++ [.write offered (.ok (count + 1))],
        rfl, failure, List.forall_mem_append.mpr ⟨smooth, by simp [Deed.failure?]⟩⟩
      rw [taken_append_write, List.append_assoc, same, ← List.append_assoc,
        List.take_append_drop]
  | @failed rest offered _ _ _ _ nonempty write failure =>
      cases hresult
      refine ⟨⟨offered ++ rest, ?_, ?_⟩, _, [], rfl, failure, nofun⟩
      · exact fun empty => nonempty (List.append_eq_nil_iff.mp empty).1
      · rw [taken_cons, Deed.taken_of_failure failure]
        rfl

theorem held_le (h : Writes sink bytes state deeds result state') {held : σ → Nat}
    {limit : Nat} (limited : sink.FailsAfter held limit) (room : held state ≤ limit) :
    held state + (taken deeds).length ≤ limit ∧
      ∀ error, result = .error error → limit ≤ held state + (taken deeds).length := by
  induction h with
  | nil => exact ⟨room, nofun⟩
  | @took rest offered count state _ _ _ _ nonempty write h ih =>
      by_cases full : limit ≤ held state
      · have refused := limited.fails nonempty full
        rw [write] at refused
        exact absurd rfl refused
      · obtain ⟨_, _, write', _, inside, more, room'⟩ :=
          limited.takes nonempty (Nat.not_le.mp full)
        cases write.symm.trans write'
        obtain ⟨bound, reached⟩ := ih room'
        have taken_length : (offered.take (count + 1)).length = count + 1 :=
          List.length_take_of_le inside
        rw [taken_append_write, List.length_append, taken_length]
        refine ⟨by omega, fun error failed => ?_⟩
        have := reached error failed
        omega
  | @failed rest offered reply error state _ nonempty write failure =>
      rw [taken_cons, Deed.taken_of_failure failure]
      by_cases full : limit ≤ held state
      · exact ⟨room, fun _ _ => full⟩
      · obtain ⟨count, _, write', positive, _⟩ :=
          limited.takes nonempty (Nat.not_le.mp full)
        cases write.symm.trans write'
        obtain ⟨count, rfl⟩ := Nat.exists_eq_add_of_lt positive
        cases failure

end Writes

section

variable {sink : Sink σ} {bytes : Bytes} {state next : σ} {before : List Deed}

theorem recorded_write {reply : Except IoError Nat}
    (h : sink.write bytes state = (reply, next)) :
    sink.recorded.write bytes (state, before) =
      (reply, next, .write bytes reply :: before) := by
  simp only [recorded, h]

theorem recorded_flush {reply : Except IoError Unit}
    (h : sink.flush state = (reply, next)) :
    sink.recorded.flush (state, before) = (reply, next, .flush reply :: before) := by
  simp only [recorded, h]

end

/-! A sink does not notice that it is recorded. -/

theorem writeAll_writes (sink : Sink σ) (bytes : Bytes) (state : σ) (before : List Deed) :
    ∃ deeds, sink.recorded.writeAll bytes (state, before) =
        ((sink.writeAll bytes state).1, (sink.writeAll bytes state).2, deeds ++ before) ∧
      Writes sink bytes state deeds (sink.writeAll bytes state).1
        (sink.writeAll bytes state).2 := by
  fun_induction sink.writeAll bytes state generalizing before with
  | case1 state =>
      rw [writeAll]
      exact ⟨[], rfl, .nil state⟩
  | case2 byte rest state error next write =>
      rw [writeAll, recorded_write write]
      exact ⟨_, rfl, .failed_all (List.cons_ne_nil byte rest) write rfl⟩
  | case3 byte rest state next write =>
      rw [writeAll, recorded_write write]
      exact ⟨_, rfl, .failed_all (List.cons_ne_nil byte rest) write rfl⟩
  | case4 byte rest state count next write ih =>
      rw [writeAll, recorded_write write]
      obtain ⟨deeds, same, later⟩ := ih (.write (byte :: rest) (.ok (count + 1)) :: before)
      refine ⟨deeds ++ [.write (byte :: rest) (.ok (count + 1))], ?_,
        .took_all (List.cons_ne_nil byte rest) write later⟩
      simp only [same, List.append_assoc, List.singleton_append]

theorem writePieces_writes (sink : Sink σ) (pieces : List Bytes) (state : σ)
    (before : List Deed) :
    ∃ deeds, sink.recorded.writePieces pieces (state, before) =
        ((sink.writePieces pieces state).1, (sink.writePieces pieces state).2,
          deeds ++ before) ∧
      Writes sink pieces.flatten state deeds (sink.writePieces pieces state).1
        (sink.writePieces pieces state).2 := by
  induction pieces generalizing state before with
  | nil =>
      rw [writePieces, writePieces]
      exact ⟨[], rfl, .nil state⟩
  | cons piece rest ih =>
      obtain ⟨first, same, writes⟩ := sink.writeAll_writes piece state before
      rw [writePieces, writePieces, same, List.flatten_cons]
      generalize sink.writeAll piece state = written at writes
      obtain ⟨result, middle⟩ := written
      cases result with
      | error error => exact ⟨first, rfl, writes.append_of_failed _⟩
      | ok _ =>
          obtain ⟨later, same, more⟩ := ih middle (first ++ before)
          refine ⟨later ++ first, ?_, writes.append more⟩
          simp only [same, List.append_assoc]

end Sink

namespace Tank

variable {tank : Tank} {limit held : Nat}

theorem write_of_room (limited : tank.limit = some limit) (bytes : Bytes)
    (room : held < limit) :
    ∃ count, tank.sink.write bytes held = (.ok count, held + count) ∧
      count = min (limit - held) (min (tank.chunk.getD bytes.length) bytes.length) := by
  obtain ⟨left, hleft⟩ := Nat.exists_eq_add_of_lt (Nat.sub_pos_of_lt room)
  simp only [sink, Tank.room, limited, Option.map_some, hleft]
  refine ⟨_, rfl, ?_⟩
  cases tank.chunk with
  | none => simp
  | some chunk => simp

theorem failsAfter (limited : tank.limit = some limit) (moves : tank.chunk ≠ some 0) :
    tank.sink.FailsAfter id limit where
  takes {bytes held} nonempty room := by
    obtain ⟨count, write, exactly⟩ := write_of_room limited bytes room
    have offers := List.length_pos_of_ne_nil nonempty
    have chunk_pos : 0 < tank.chunk.getD bytes.length := by
      cases hchunk : tank.chunk with
      | none => exact offers
      | some chunk =>
          refine Nat.pos_of_ne_zero fun zero => moves ?_
          rw [hchunk]
          exact congrArg some zero
    have fits : count ≤ limit - held := exactly ▸ Nat.min_le_left ..
    refine ⟨count, held + count, write, ?_, ?_, rfl,
      Nat.add_le_of_le_sub' (Nat.le_of_lt room) fits⟩
    · rw [exactly]
      exact Nat.lt_min.mpr ⟨Nat.sub_pos_of_lt room, Nat.lt_min.mpr ⟨chunk_pos, offers⟩⟩
    · rw [exactly]
      exact Nat.le_trans (Nat.min_le_right ..) (Nat.min_le_right ..)
  fails {bytes held} _ full := by
    have none_left : limit - held = 0 := Nat.sub_eq_zero_of_le full
    simp only [sink, Tank.room, limited, Option.map_some, none_left]
    cases tank.whenFull with
    | none => simp [Sink.Deed.failure?]
    | some error => simp [Sink.Deed.failure?]

end Tank

namespace Builder

/-- How writing a blob to a sink in some state can end, with all that
was done to the sink. -/
inductive Written (b : Builder) (sink : Sink σ) (state : σ) :
    Except BuildError Trailer → List Sink.Deed → Prop
  | broken {error : IoError} {deeds : List Sink.Deed} {state' : σ}
      (writes : sink.Writes b.blob state deeds (.error error) state') :
      Written b sink state (.error (.io error)) deeds
  | flushed (reply : Except IoError Unit) {deeds : List Sink.Deed} {state' : σ}
      (writes : sink.Writes b.blob state deeds (.ok ()) state') :
      Written b sink state ((reply.mapError .io).map fun _ => b.trailer)
      (.flush reply :: deeds)

theorem writeTo_written (b : Builder) (sink : Sink σ) (state : σ) :
    b.Written sink state (b.writeTo sink state).1
      (b.writeTo sink.recorded (state, [])).2.2 := by
  obtain ⟨deeds, same, writes⟩ := sink.writePieces_writes b.pieces state []
  rw [List.append_nil] at same
  simp only [writeTo, same]
  generalize sink.writePieces b.pieces state = written at writes
  obtain ⟨result, middle⟩ := written
  cases result with
  | error error => exact .broken writes
  | ok _ =>
      cases hflush : sink.flush middle with
      | mk reply next =>
          simp only [Sink.recorded_flush hflush, hflush]
          cases reply with
          | error error => exact .flushed (.error error) writes
          | ok _ => exact .flushed (.ok ()) writes

namespace Written

variable {b : Builder} {sink : Sink σ} {state : σ} {result : Except BuildError Trailer}
  {deeds : List Sink.Deed}

theorem taken_prefix (h : b.Written sink state result deeds) :
    Sink.taken deeds <+: b.blob := by
  cases h with
  | broken writes =>
      obtain ⟨⟨left, _, same⟩, _⟩ := writes.of_failed
      exact ⟨left, same⟩
  | flushed reply writes =>
      rw [Sink.taken_cons, writes.taken_eq.1]
      exact ⟨[], by simp [Sink.Deed.taken]⟩

theorem flush_last (h : b.Written sink state result deeds) {later earlier : List Sink.Deed}
    {reply : Except IoError Unit} (same : deeds = later ++ .flush reply :: earlier) :
    later = [] ∧ Sink.taken earlier = b.blob ∧ ∀ deed ∈ earlier, deed.isFlush = false := by
  cases h with
  | broken writes =>
      have flush := writes.isFlush_eq_false (.flush reply) (by simp [same])
      cases flush
  | flushed reply' writes =>
      cases later with
      | nil =>
          cases same
          exact ⟨rfl, writes.taken_eq.1, writes.isFlush_eq_false⟩
      | cons last rest =>
          have flush := writes.isFlush_eq_false (.flush reply)
            (by simp [(List.cons.inj same).2])
          cases flush

theorem exists_ok_iff (b : Builder) (reply : Except IoError Unit) :
    (∃ t, (reply.mapError BuildError.io).map (fun _ => b.trailer) = .ok t) ↔
    reply = .ok () := by
  cases reply with
  | error error => simp [Except.map, Except.mapError]
  | ok _ => simp [Except.map, Except.mapError]

theorem eq_ok_iff (h : b.Written sink state result deeds) :
    (∃ t, result = .ok t) ↔ Sink.taken deeds = b.blob ∧ .flush (.ok ()) ∈ deeds := by
  cases h with
  | broken writes =>
      constructor
      · rintro ⟨t, impossible⟩
        cases impossible
      · rintro ⟨_, flushed⟩
        cases writes.isFlush_eq_false _ flushed
  | flushed reply writes =>
      rw [exists_ok_iff]
      constructor
      · rintro rfl
        refine ⟨?_, List.mem_cons_self ..⟩
        rw [Sink.taken_cons, writes.taken_eq.1]
        exact List.append_nil _
      · rintro ⟨_, flushed⟩
        rcases List.mem_cons.mp flushed with same | earlier
        · exact (Sink.Deed.flush.inj same).symm
        · cases writes.isFlush_eq_false _ earlier

theorem first_failure (h : b.Written sink state result deeds) {error : BuildError}
    (failed : result = .error error) :
    ∃ failure last earlier, error = .io failure ∧ deeds = last :: earlier ∧
      last.failure? = some failure ∧ ∀ deed ∈ earlier, deed.failure? = none := by
  cases h with
  | broken writes =>
      obtain ⟨_, last, earlier, same, failure, smooth⟩ := writes.of_failed
      exact ⟨_, last, earlier, (Except.error.inj failed).symm, same, failure, smooth⟩
  | flushed reply writes =>
      cases reply with
      | error flushing =>
          exact ⟨flushing, _, _, (Except.error.inj failed).symm, rfl, rfl,
            writes.taken_eq.2⟩
      | ok _ => cases failed

theorem of_failsAfter (h : b.Written sink state result deeds) {held : σ → Nat} {limit : Nat}
    (limited : sink.FailsAfter held limit) (empty : held state = 0) :
    Sink.taken deeds = b.blob.take limit ∧
      (b.blob.length ≤ limit →
        ∃ reply, .flush reply ∈ deeds ∧ ((∃ t, result = .ok t) ↔ reply = .ok ())) := by
  cases h with
  | broken writes =>
      obtain ⟨⟨left, unfinished, same⟩, _⟩ := writes.of_failed
      obtain ⟨bound, reached⟩ := writes.held_le limited (by omega)
      have full := reached _ rfl
      have length : (Sink.taken deeds).length = limit := by omega
      have more := List.length_pos_of_ne_nil unfinished
      refine ⟨?_, fun long => ?_⟩
      · rw [← same, List.take_left' length]
      · rw [← same, List.length_append] at long
        omega
  | flushed reply writes =>
      obtain ⟨bound, _⟩ := writes.held_le limited (by omega)
      obtain ⟨same, _⟩ := writes.taken_eq
      refine ⟨?_, fun _ => ⟨reply, List.mem_cons_self .., exists_ok_iff b reply⟩⟩
      rw [Sink.taken_cons, same, List.take_of_length_le (by rw [← same]; omega)]
      exact List.append_nil _

end Written

/-- Whatever the sink does, it was brought the start of the blob. It is flushed once it has
taken all, and that is the last that is done to it; it is what makes the difference between
a blob that was written and one that was not. A failure ends the writing and is what is
told. A sink that fails when it is full took what it has room for, and a file holds the blob
instead of what it held before. -/
theorem written_to_any_sink (b : Builder) (sink : Sink σ) (state : σ) :
    let result := (b.writeTo sink state).1
    let deeds := (b.writeTo sink.recorded (state, [])).2.2
    ∃ blob, b.finish = .ok blob ∧
      Sink.taken deeds <+: blob ∧
      (∀ later reply earlier, deeds = later ++ .flush reply :: earlier →
        later = [] ∧ Sink.taken earlier = blob ∧ ∀ deed ∈ earlier, deed.isFlush = false) ∧
      ((∃ t, result = .ok t) ↔ Sink.taken deeds = blob ∧ .flush (.ok ()) ∈ deeds) ∧
      (∀ t, result = .ok t → ∀ verifyChecksum,
        Trailer.decode (blob.drop (blob.length - Trailer.size.toNat)) verifyChecksum =
        .ok t) ∧
      (∀ error, result = .error error → ∃ failure last earlier, error = .io failure ∧
        deeds = last :: earlier ∧ last.failure? = some failure ∧
        ∀ deed ∈ earlier, deed.failure? = none) ∧
      (∀ (held : σ → Nat) (limit : Nat), sink.FailsAfter held limit → held state = 0 →
        Sink.taken deeds = blob.take limit ∧
          (blob.length ≤ limit →
            ∃ reply, .flush reply ∈ deeds ∧ ((∃ t, result = .ok t) ↔ reply = .ok ()))) ∧
      ∀ (d : Directory) (name : String) (content : Bytes),
        (∀ d', d.write name content = .ok d' →
          ∃ t stored, b.writeFile name d = (.ok t, stored) ∧
            stored.contents? name = some blob ∧
            ∀ verifyChecksum, Trailer.decode (blob.drop (blob.length - Trailer.size.toNat))
              verifyChecksum = .ok t) ∧
        (∀ error, d.write name content = .error error →
          b.writeFile name d = (.error (.io error), d)) := by
  intro result deeds
  have h : b.Written sink state result deeds := b.writeTo_written sink state
  have decoded (verifyChecksum : Bool) :
      Trailer.decode (b.blob.drop (b.blob.length - Trailer.size.toNat)) verifyChecksum =
        .ok b.trailer := by
    rw [drop_blob]
    exact Trailer.decode_encode rfl verifyChecksum
  refine ⟨b.blob, b.finish_eq, h.taken_prefix, fun _ _ _ => h.flush_last, h.eq_ok_iff,
    fun t written => ?_, fun _ => h.first_failure, fun _ _ => h.of_failsAfter,
    fun d name content => ⟨fun d' opened => ?_, fun error refused => ?_⟩⟩
  · rw [trailer_of_writeTo written]
    exact decoded
  · have written := Directory.write_of_write opened b.blob
    refine ⟨b.trailer, _, writeFile_of_write written, ?_, decoded⟩
    rw [Directory.contents?, Directory.get_of_write written]
  · exact writeFile_of_error refused

/-- Two values of two bytes, brought to a sink with room for all but the last byte. -/
theorem written_to_any_sink_of_tank :
    let b : Builder := ⟨1, [([1], [10, 20]), ([2], [30, 40])]⟩
    let tank : Tank := ⟨some 3, some 69, none, none⟩
    Sink.taken (b.writeTo tank.sink.recorded (0, [])).2.2 = b.blob.take 69 ∧
      ∀ t, (b.writeTo tank.sink 0).1 ≠ .ok t := by
  intro b tank
  obtain ⟨blob, finish, _, _, written, _, _, fails, _⟩ := b.written_to_any_sink tank.sink 0
  cases b.finish_eq.symm.trans finish
  have full := (fails id 69 (Tank.failsAfter rfl (by decide)) rfl).1
  refine ⟨full, fun t ok => ?_⟩
  have same := congrArg List.length (full.symm.trans (written.mp ⟨t, ok⟩).1)
  have length : b.blob.length = 70 := by decide +kernel
  rw [List.length_take, length] at same
  cases same

end Builder

end SortedBlob
