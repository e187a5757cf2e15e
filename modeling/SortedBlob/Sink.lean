import SortedBlob.Builder

/-!
Places that take bytes a few at a time, and how a blob is written to one.
-/

namespace SortedBlob

/-- A sink says how many of the bytes offered it took, or fails. -/
structure Sink (σ : Type) where
  write : Bytes → σ → Except IoError Nat × σ
  flush : σ → Except IoError Unit × σ

variable {σ : Type}

namespace Sink

def stuck : IoError := ⟨.writeZero, "failed to write whole buffer"⟩

/-- Offers what is left until nothing is; a sink that takes nothing has failed. -/
def writeAll (sink : Sink σ) : Bytes → σ → Except IoError Unit × σ
  | [], state => (.ok (), state)
  | byte :: rest, state =>
      match sink.write (byte :: rest) state with
      | (.error error, state) => (.error error, state)
      | (.ok 0, state) => (.error stuck, state)
      | (.ok (taken + 1), state) => sink.writeAll (rest.drop taken) state
termination_by bytes => bytes.length
decreasing_by simp only [List.length_drop, List.length_cons]; omega

def writePieces (sink : Sink σ) : List Bytes → σ → Except IoError Unit × σ
  | [], state => (.ok (), state)
  | piece :: rest, state =>
      match sink.writeAll piece state with
      | (.error error, state) => (.error error, state)
      | (.ok (), state) => sink.writePieces rest state

end Sink

/-- The trailer that was written, once every byte was taken and the flush went through. -/
def Builder.writeTo (b : Builder) (sink : Sink σ) (state : σ) :
    Except BuildError Trailer × σ :=
  match sink.writePieces b.pieces state with
  | (.error error, state) => (.error (.io error), state)
  | (.ok (), state) =>
      match sink.flush state with
      | (.error error, state) => (.error (.io error), state)
      | (.ok (), state) => (.ok b.trailer, state)

/-- A sink that takes all that it is offered: `holding bytes` is its
state while it holds them. -/
structure Sink.Collects (sink : Sink σ) (holding : Bytes → σ) : Prop where
  write (bytes held : Bytes) :
    sink.write bytes (holding held) = (.ok bytes.length, holding (held ++ bytes))
  flush (held : Bytes) : sink.flush (holding held) = (.ok (), holding held)

namespace Sink.Collects

variable {sink : Sink σ} {holding : Bytes → σ}

theorem writeAll_eq (collects : sink.Collects holding) (bytes held : Bytes) :
    sink.writeAll bytes (holding held) = (.ok (), holding (held ++ bytes)) := by
  cases bytes with
  | nil => rw [writeAll, List.append_nil]
  | cons byte rest =>
      rw [writeAll, collects.write]
      simp only [List.length_cons, List.drop_length]
      rw [writeAll]

theorem writePieces_eq (collects : sink.Collects holding) (pieces : List Bytes)
    (held : Bytes) :
    sink.writePieces pieces (holding held) =
      (.ok (), holding (held ++ pieces.flatten)) := by
  induction pieces generalizing held with
  | nil => rw [writePieces, List.flatten_nil, List.append_nil]
  | cons piece rest ih =>
      simp only [writePieces, collects.writeAll_eq, ih, List.flatten_cons,
        List.append_assoc]

theorem writeTo_eq (collects : sink.Collects holding) (b : Builder) :
    b.writeTo sink (holding []) = (.ok b.trailer, holding b.blob) := by
  simp only [Builder.writeTo, collects.writePieces_eq, collects.flush]
  rfl

end Sink.Collects

/-- Takes all that it is offered. -/
def Sink.memory : Sink Bytes where
  write bytes held := (.ok bytes.length, held ++ bytes)
  flush held := (.ok (), held)

theorem Sink.collects_memory : Sink.memory.Collects id := ⟨fun _ _ => rfl, fun _ => rfl⟩

/-- The blob as bytes in memory. -/
def Builder.finish (b : Builder) : Except BuildError Bytes :=
  let (written, held) := b.writeTo Sink.memory []
  written.map fun _ => held

theorem Builder.finish_eq (b : Builder) : b.finish = .ok b.blob := by
  have written : b.writeTo Sink.memory [] = (.ok b.trailer, b.blob) :=
    Sink.collects_memory.writeTo_eq b
  rw [finish, written]
  rfl

/-! What passes between a sink and those who write to it. -/

inductive Sink.Deed where
  | write (offered : Bytes) (reply : Except IoError Nat)
  | flush (reply : Except IoError Unit)

namespace Sink

/-- The sink with everything that was done to it, the latest first. -/
def recorded (sink : Sink σ) : Sink (σ × List Deed) where
  write bytes state :=
    let (reply, inner) := sink.write bytes state.1
    (reply, inner, .write bytes reply :: state.2)
  flush state :=
    let (reply, inner) := sink.flush state.1
    (reply, inner, .flush reply :: state.2)

namespace Deed

def taken : Deed → Bytes
  | .write offered (.ok count) => offered.take count
  | _ => []

def isFlush : Deed → Bool
  | .flush _ => true
  | _ => false

end Deed

/-- All bytes taken, in the order in which they were. -/
def taken (deeds : List Deed) : Bytes := (deeds.reverse.map Deed.taken).flatten

end Sink

/-! A sink with limited room, which takes a limited number of bytes at a time. Its state is
how many bytes it holds. -/

structure Tank where
  /-- The most it takes at a time. -/
  chunk : Option Nat
  /-- The most it takes in all. -/
  limit : Option Nat
  /-- What it says when it is full; it takes no bytes if there is nothing to say. -/
  whenFull : Option IoError
  whenFlushed : Option IoError
  deriving DecidableEq, Repr

def Tank.room (tank : Tank) (held : Nat) : Option Nat :=
  tank.limit.map (· - held)

def Tank.sink (tank : Tank) : Sink Nat where
  write bytes held :=
    match tank.room held, tank.whenFull with
    | some 0, some error => (.error error, held)
    | room, _ =>
        let taken := (tank.chunk.toList ++ room.toList).foldl
          (fun piece most => piece.take most) bytes
        (.ok taken.length, held + taken.length)
  flush held :=
    match tank.whenFlushed with
    | some error => (.error error, held)
    | none => (.ok (), held)

end SortedBlob
