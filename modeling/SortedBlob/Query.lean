import SortedBlob.Search

/-!
The questions a reader can put to a blob, as plans.
-/

namespace SortedBlob

inductive LookupError where
  | format (error : FormatError)
  | invalidKey (expected : UInt32) (actual : Nat)
  deriving DecidableEq, Repr

def LookupError.message : LookupError → String
  | .format error => "Format error: " ++ error.message
  | .invalidKey expected actual => s!"Invalid key: expected {expected} bytes, got {actual}"

/-- The trailer of a blob, from its length and its last bytes. -/
def Trailer.load (config : Config) : Plan (Except FormatError Trailer) :=
  .length fun blobLength =>
    if blobLength < size then
      .done (.error (.truncatedTrailer size.toNat blobLength.toNat))
    else
      .read .trailer ⟨blobLength - size, blobLength⟩ fun bytes =>
        .done do
          let t ← decode bytes config.verifyTrailerChecksum
          t.validate blobLength config
          return t

namespace Record

/-- Where the value lies, if that is before the index. -/
def locate (r : Record) (t : Trailer) : Except FormatError Span :=
  match r.valueSpan?.filter fun span => span.stop ≤ t.indexOffset with
  | some span => .ok span
  | none => .error (.valueOutOfBounds r.valueOffset r.valueLength t.indexOffset)

/-- The value of a record; an empty one is not asked for. -/
def fetch (r : Record) (t : Trailer) : Plan (Except FormatError Bytes) :=
  match r.locate t with
  | .error error => .done (.error error)
  | .ok span =>
      if r.valueLength = 0 then .done (.ok [])
      else
        .read .value span fun bytes =>
          .done <|
            if bytes.length = r.valueLength.toNat then .ok bytes
            else .error (.truncatedValue r.valueLength bytes.length)

end Record

namespace Trailer

def find (t : Trailer) (config : Config) (key : Bytes) :
    Plan (Except LookupError (Option Record)) :=
  if key.length ≠ t.keySize.toNat then .done (.error (.invalidKey t.keySize key.length))
  else
    (Window.search t config.scanThreshold key (Window.whole t.entryCount)).map
      (Except.mapError LookupError.format)

def lookup (t : Trailer) (config : Config) (key : Bytes) :
    Plan (Except LookupError (Option Bytes)) :=
  (t.find config key).bind fun
    | .error error => .done (.error error)
    | .ok none => .done (.ok none)
    | .ok (some r) =>
        (r.fetch t).map fun
          | .error error => .error (.format error)
          | .ok value => .ok (some value)

end Trailer

inductive Query where
  | trailer
  | find (key : Bytes)
  | lookup (key : Bytes)
  deriving DecidableEq, Repr

inductive Answer where
  | trailer (t : Trailer)
  | record (r : Option Record)
  | value (v : Option Bytes)
  deriving DecidableEq, Repr

abbrev Verdict := Except LookupError Answer

namespace Query

/-- What a query asks once the trailer is known, or known to be bad. -/
def plan (query : Query) (config : Config) : Except FormatError Trailer → Plan Verdict
  | .error error => .done (.error (.format error))
  | .ok t =>
      match query with
      | .trailer => .done (.ok (.trailer t))
      | .find key => (t.find config key).map (Except.map .record)
      | .lookup key => (t.lookup config key).map (Except.map .value)

def isLookup : Query → Bool
  | .lookup _ => true
  | _ => false

end Query

def Verdict.isFound : Verdict → Bool
  | .ok (.value (some _)) => true
  | _ => false

end SortedBlob
