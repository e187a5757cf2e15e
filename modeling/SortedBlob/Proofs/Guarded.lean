import SortedBlob.Session

/-!
Reading with a guard before every sum, difference and product of words and before every
piece of a byte string: where the exact result is no word, or the bytes are not there, the
reader stops with a fault. Checks that can be answered without one are left as they are.
Counters are not guarded; no request and no verdict depends on them.
-/

namespace SortedBlob

inductive Fault where
  | wrapped
  | outOfRange
  deriving DecidableEq, Repr

abbrev Guarded (α : Type) := Except Fault α

namespace Guarded

def exact (result : Option UInt64) : Guarded UInt64 :=
  match result with
  | some n => .ok n
  | none => .error .wrapped

def sum (a b : UInt64) : Guarded UInt64 := exact (Word.add? a b)

def product (a b : UInt64) : Guarded UInt64 := exact (Word.mul? a b)

def difference (a b : UInt64) : Guarded UInt64 :=
  if b ≤ a then .ok (a - b) else .error .wrapped

/-- The bytes from `start` up to `stop`. -/
def piece (bytes : Bytes) (start stop : Nat) : Guarded Bytes :=
  if start ≤ stop ∧ stop ≤ bytes.length then .ok (Bytes.slice bytes start (stop - start))
  else .error .outOfRange

def item {α : Type} (items : List α) (position : Nat) : Guarded α :=
  match items[position]? with
  | some found => .ok found
  | none => .error .outOfRange

/-- The first bytes, and those behind them. -/
def next (count : Nat) (bytes : Bytes) : Guarded (Bytes × Bytes) :=
  if count ≤ bytes.length then .ok (bytes.take count, bytes.drop count)
  else .error .outOfRange

theorem sum_eq {a b : UInt64} (fits : a.toNat + b.toNat < UInt64.size) :
    sum a b = .ok (a + b) := by
  rw [sum, Word.add?, if_pos fits, exact]

theorem product_eq {a b : UInt64} (fits : a.toNat * b.toNat < UInt64.size) :
    product a b = .ok (a * b) := by
  rw [product, Word.mul?, if_pos fits, exact]

theorem difference_eq {a b : UInt64} (h : b ≤ a) : difference a b = .ok (a - b) :=
  if_pos h

theorem sum_one_of_lt {a b : UInt64} (h : a < b) : sum a 1 = .ok (a + 1) :=
  sum_eq (Nat.lt_of_le_of_lt (UInt64.lt_iff_toNat_lt.mp h) b.toNat_lt_size)

theorem piece_eq {bytes : Bytes} {start stop : Nat} (order : start ≤ stop)
    (inside : stop ≤ bytes.length) :
    piece bytes start stop = .ok (Bytes.slice bytes start (stop - start)) :=
  if_pos ⟨order, inside⟩

theorem next_eq {count : Nat} {bytes : Bytes} (h : count ≤ bytes.length) :
    next count bytes = .ok (bytes.take count, bytes.drop count) :=
  if_pos h

def nextUInt32 (bytes : Bytes) : Guarded (UInt32 × Bytes) := do
  let (first, rest) ← next 4 bytes
  return (UInt32.ofNat (Bytes.toNat first), rest)

def nextUInt64 (bytes : Bytes) : Guarded (UInt64 × Bytes) := do
  let (first, rest) ← next 8 bytes
  return (UInt64.ofNat (Bytes.toNat first), rest)

/-! Fields that are taken off the front lie one behind the other. -/

theorem nextUInt32_drop {bytes : Bytes} {start : Nat} (h : start + 4 ≤ bytes.length) :
    nextUInt32 (bytes.drop start) =
      .ok (Bytes.uint32At bytes start, bytes.drop (start + 4)) := by
  have long : 4 ≤ (bytes.drop start).length := by
    rw [List.length_drop]
    omega
  rw [nextUInt32, next_eq long, List.drop_drop]
  rfl

theorem nextUInt64_drop {bytes : Bytes} {start : Nat} (h : start + 8 ≤ bytes.length) :
    nextUInt64 (bytes.drop start) =
      .ok (Bytes.uint64At bytes start, bytes.drop (start + 8)) := by
  have long : 8 ≤ (bytes.drop start).length := by
    rw [List.length_drop]
    omega
  rw [nextUInt64, next_eq long, List.drop_drop]
  rfl

end Guarded

open Guarded

namespace Plan

variable {α β : Type}

def guarded (guard : Guarded α) (next : α → Plan (Guarded β)) : Plan (Guarded β) :=
  match guard with
  | .ok result => next result
  | .error fault => done (.error fault)

@[simp] theorem guarded_ok (result : α) (next : α → Plan (Guarded β)) :
    guarded (.ok result) next = next result := rfl

/-- A read of the index, of which only a complete range is kept. -/
def guardedRead (span : Span) (next : Bytes → Plan (Guarded β)) : Plan (Guarded β) :=
  read .index span fun bytes => guarded (difference span.stop span.start) fun _ =>
    next bytes

end Plan

namespace Trailer

def guardedRecordSize (t : Trailer) : Guarded UInt64 :=
  sum t.keySize.toUInt64 recordSuffixSize

def guardedRecordsSpan (t : Trailer) (low high : UInt64) : Guarded Span := do
  let recordSize ← t.guardedRecordSize
  let first ← product low recordSize
  let start ← sum t.indexOffset first
  let last ← product high recordSize
  let stop ← sum t.indexOffset last
  return ⟨start, stop⟩

def guardedRecordSpan (t : Trailer) (position : UInt64) : Guarded Span := do
  let next ← sum position 1
  t.guardedRecordsSpan position next

/-- Takes the fields off the front, one after the other. -/
def guardedDecode (bytes : Bytes) (verifyChecksum : Bool) :
    Guarded (Except FormatError Trailer) :=
  if bytes.length ≠ size.toNat then .ok (.error (.truncatedTrailer size.toNat bytes.length))
  else do
    let (found, rest) ← next 8 bytes
    if found ≠ magic then return .error (.badMagic found)
    else
      let (version, rest) ← nextUInt32 rest
      if version = 0 ∨ currentVersion < version then
        return .error (.unsupportedVersion version currentVersion)
      else
        let (keySize, rest) ← nextUInt32 rest
        let (entryCount, rest) ← nextUInt64 rest
        let (indexOffset, rest) ← nextUInt64 rest
        let (stored, _) ← nextUInt32 rest
        let covered ← piece bytes 0 coveredSize
        let computed := Crc32.checksum covered
        if verifyChecksum ∧
          stored ≠ computed then return .error (.trailerChecksum stored computed)
        else return .ok ⟨version, keySize, entryCount, indexOffset⟩

/-- The size of a record is the one thing that is computed without a check. -/
def guardedValidate (t : Trailer) (blobLength : UInt64) (config : Config) :
    Guarded (Except FormatError Unit) := do
  let _ ← t.guardedRecordSize
  return t.validate blobLength config

def guardedLoad (config : Config) : Plan (Guarded (Except FormatError Trailer)) :=
  .length fun blobLength =>
    if blobLength < size then
      .done (.ok (.error (.truncatedTrailer size.toNat blobLength.toNat)))
    else
      Plan.guarded (difference blobLength size) fun start =>
        .read .trailer ⟨start, blobLength⟩ fun bytes =>
          .done do
            match ← guardedDecode bytes config.verifyTrailerChecksum with
            | .error error => return .error error
            | .ok t =>
                match ← t.guardedValidate blobLength config with
                | .error error => return .error error
                | .ok () => return .ok t

end Trailer

def Record.guardedDecode (bytes : Bytes) (keySize : UInt32) (position : UInt64) :
    Guarded (Except FormatError Record) := do
  let expected ← sum keySize.toUInt64 Trailer.recordSuffixSize
  if bytes.length ≠ expected.toNat then
    return .error (.truncatedRecord position expected.toNat bytes.length)
  else
    let key ← piece bytes 0 keySize.toNat
    let suffix ← piece bytes keySize.toNat bytes.length
    let (valueOffset, rest) ← nextUInt64 suffix
    let (valueLength, _) ← nextUInt32 rest
    return .ok ⟨key, valueOffset, valueLength⟩

namespace Window

def guardedMiddle (w : Window) : Guarded UInt64 := do
  let width ← difference w.high w.low
  sum w.low (width / 2)

/-- The bytes of the record that `taken` others come before. -/
def guardedChunk (t : Trailer) (bytes : Bytes) (taken : UInt64) : Guarded Bytes := do
  let recordSize ← t.guardedRecordSize
  let next ← sum taken 1
  let start ← product taken recordSize
  let stop ← product next recordSize
  piece bytes start.toNat stop.toNat

/-- Records behind `taken` others, each decoded from its own bytes and
checked before the next. -/
def guardedRecords (t : Trailer) (above : Option Bytes) (bytes : Bytes) :
    (left : Nat) → (taken position : UInt64) → (previous : Option Bytes) →
      Guarded (Except FormatError (List Record))
  | 0, _, _, _ => .ok (.ok [])
  | left + 1, taken, position, previous => do
      let chunk ← guardedChunk t bytes taken
      match ← Record.guardedDecode chunk t.keySize position with
      | .error error => return .error error
      | .ok r =>
          if between previous above r.key then
            let taken' ← sum taken 1
            let position' ← sum position 1
            match ← guardedRecords t above bytes left taken' position' (some r.key) with
            | .error error => return .error error
            | .ok rest => return .ok (r :: rest)
          else return .error (.unsortedIndex position)

def guardedScan (w : Window) (t : Trailer) (key : Bytes) (bytes : Bytes) :
    Guarded (Except FormatError (Option Record)) := do
  let span ← t.guardedRecordsSpan w.low w.high
  let expected ← difference span.stop span.start
  if bytes.length ≠ expected.toNat then
    return .error (.truncatedRecord w.low expected.toNat bytes.length)
  else
    let count ← difference w.high w.low
    match ← guardedRecords t w.above bytes count.toNat 0 w.low w.below with
    | .error error => return .error error
    | .ok records =>
        match Index.place? records key with
        | none => return .ok none
        | some place =>
            let r ← item records place
            return .ok (some r)

theorem guardedMiddle_eq {w : Window} (h : w.low < w.high) :
    w.guardedMiddle = .ok w.middle := by
  have ordered := UInt64.lt_iff_toNat_lt.mp h
  have bound := w.high.toNat_lt_size
  have exact := toNat_width h
  have half : (w.width / 2).toNat = w.width.toNat / 2 := UInt64.toNat_div ..
  have width : difference w.high w.low = .ok w.width := difference_eq (UInt64.le_of_lt h)
  have fits : w.low.toNat + (w.width / 2).toNat < UInt64.size := by omega
  rw [guardedMiddle, width]
  exact sum_eq fits

def guardedSearch (t : Trailer) (scanThreshold : UInt64) (key : Bytes) (w : Window) :
    Plan (Guarded (Except FormatError (Option Record))) :=
  if _h : w.low < w.high then
    Plan.guarded (difference w.high w.low) fun width =>
      if 1 < scanThreshold ∧ width ≤ scanThreshold then
        Plan.guarded (t.guardedRecordsSpan w.low w.high) fun span =>
          Plan.guardedRead span fun bytes => .done (w.guardedScan t key bytes)
      else
        match _hmiddle : w.guardedMiddle with
        | .error fault => .done (.error fault)
        | .ok middle =>
            Plan.guarded (t.guardedRecordSpan middle) fun span =>
              Plan.guardedRead span fun bytes =>
                match Record.guardedDecode bytes t.keySize middle with
                | .error fault => .done (.error fault)
                | .ok (.error error) => .done (.ok (.error error))
                | .ok (.ok r) =>
                    if between w.below w.above r.key = false then
                      .done (.ok (.error (.unsortedIndex middle)))
                    else if r.key = key then .done (.ok (.ok (some r)))
                    else if r.key < key then
                      match _hnext : sum middle 1 with
                      | .error fault => .done (.error fault)
                      | .ok low =>
                          guardedSearch t scanThreshold key
                            { w with low, below := some r.key }
                    else
                      guardedSearch t scanThreshold key
                        { w with high := middle, above := some r.key }
  else .done (.ok (.ok none))
termination_by w.high.toNat - w.low.toNat
decreasing_by
  · obtain rfl := Except.ok.inj (_hmiddle.symm.trans (guardedMiddle_eq _h))
    obtain rfl := Except.ok.inj (_hnext.symm.trans (sum_one_of_lt (middle_lt _h)))
    exact upperHalf_narrower _h key
  · obtain rfl := Except.ok.inj (_hmiddle.symm.trans (guardedMiddle_eq _h))
    exact lowerHalf_narrower _h key

end Window

/-! The value of a record is fetched by checked sums only. -/

namespace Trailer

def guardedFind (t : Trailer) (config : Config) (key : Bytes) :
    Plan (Guarded (Except LookupError (Option Record))) :=
  if key.length ≠ t.keySize.toNat then
    .done (.ok (.error (.invalidKey t.keySize key.length)))
  else
    (Window.guardedSearch t config.scanThreshold key (Window.whole t.entryCount)).map
      (Except.map (Except.mapError LookupError.format))

def guardedLookup (t : Trailer) (config : Config) (key : Bytes) :
    Plan (Guarded (Except LookupError (Option Bytes))) :=
  (t.guardedFind config key).bind fun
    | .error fault => .done (.error fault)
    | .ok (.error error) => .done (.ok (.error error))
    | .ok (.ok none) => .done (.ok (.ok none))
    | .ok (.ok (some r)) =>
        (r.fetch t).map fun
          | .error error => .ok (.error (.format error))
          | .ok value => .ok (.ok (some value))

end Trailer

def Query.guardedPlan (query : Query) (config : Config) :
    Except FormatError Trailer → Plan (Guarded Verdict)
  | .error error => .done (.ok (.error (.format error)))
  | .ok t =>
      match query with
      | .trailer => .done (.ok (.ok (.trailer t)))
      | .find key => (t.guardedFind config key).map (Except.map (Except.map .record))
      | .lookup key => (t.guardedLookup config key).map (Except.map (Except.map .value))

namespace Session

variable {σ : Type}

def guardedLoadTrailer (source : Source σ) (s : Session) (state : σ) :
    Reply (Guarded (Except FormatError Trailer)) × Session × σ :=
  match s.trailer with
  | some loaded => (.ok (.ok loaded), s, state)
  | none =>
      match (Trailer.guardedLoad s.config).run source s state with
      | (.error interruption, s, state) => (.error interruption, s, state)
      | (.ok (.error fault), s, state) => (.ok (.error fault), s, state)
      | (.ok (.ok loaded), s, state) => (.ok (.ok loaded), s.settle loaded, state)

def guardedAsk (source : Source σ) (query : Query) (s : Session) (state : σ) :
    Reply (Guarded Verdict) × Session × σ :=
  match guardedLoadTrailer source (s.countStart query) state with
  | (.error interruption, s, state) => (.error interruption, s, state)
  | (.ok (.error fault), s, state) => (.ok (.error fault), s, state)
  | (.ok (.ok loaded), s, state) =>
      match (query.guardedPlan s.config loaded).run source s state with
      | (.error interruption, s, state) => (.error interruption, s, state)
      | (.ok (.error fault), s, state) => (.ok (.error fault), s, state)
      | (.ok (.ok verdict), s, state) => (.ok (.ok verdict), s.countEnd verdict, state)

/-- A fault ends its query only. -/
def guardedAskAll (source : Source σ) :
    List Query → Session → σ → List (Reply (Guarded Verdict)) × Session × σ
  | [], s, state => ([], s, state)
  | query :: rest, s, state =>
      let (reply, s, state) := s.guardedAsk source query state
      let (replies, s, state) := guardedAskAll source rest s state
      (reply :: replies, s, state)

end Session

end SortedBlob
