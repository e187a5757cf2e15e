import SortedBlob.Hex
import SortedBlob.Text.Utf8

/-!
Which text reads as which bytes: the one that spells them out in hexadecimal digits, in any
letter case, and no other. Main statements: `Hex.decode_eq_ok_iff` and, for text that is
refused, `Hex.decode_eq_error_iff`.
-/

namespace SortedBlob

namespace Hex

/-- The text is the digits of the bytes, but for the case of its letters. -/
def Spells (text : List Char) (bytes : Bytes) : Prop :=
  text.map Char.toLower = bytes.flatMap pair

instance (text : List Char) (bytes : Bytes) : Decidable (Spells text bytes) :=
  inferInstanceAs (Decidable (_ = _))

theorem spells_toList_iff {text : String} {bytes : Bytes} :
    Spells text.toList bytes ↔ text.toLower = encode bytes := by
  have lower : text.toLower.toList = text.toList.map Char.toLower := String.toList_map ..
  rw [Spells, encode, ← String.toList_inj, lower, String.toList_ofList]

/-- The two halves of a byte. -/
def halves (byte : UInt8) : List UInt8 := [byte / 16, byte % 16]

theorem pair_eq (byte : UInt8) :
    pair byte = (halves byte).map fun half => Nat.digitChar half.toNat := by
  simp [pair, halves]

theorem half_lt {byte half : UInt8} (h : half ∈ halves byte) : half.toNat < 16 := by
  have bound : byte.toNat < 256 := byte.toNat_lt_size
  simp only [halves, List.mem_cons, List.not_mem_nil, or_false] at h
  rcases h with rfl | rfl <;> simp only [UInt8.toNat_div, UInt8.toNat_mod,
    UInt8.reduceToNat] <;> omega

theorem halves_of_digits {high low : UInt8} (hhigh : high.toNat < 16)
    (hlow : low.toNat < 16) :
    halves (high * 16 + low) = [high, low] := by
  have sum : (high * 16 + low).toNat = high.toNat * 16 + low.toNat := by
    simp only [UInt8.toNat_add, UInt8.toNat_mul, UInt8.reduceToNat]
    omega
  simp only [halves, List.cons.injEq, and_true, ← UInt8.toNat_inj, UInt8.toNat_div,
    UInt8.toNat_mod, UInt8.reduceToNat, sum]
  omega

theorem digits_of_halves (byte : UInt8) : byte / 16 * 16 + byte % 16 = byte := by
  have bound : byte.toNat < 256 := byte.toNat_lt_size
  rw [← UInt8.toNat_inj]
  simp only [UInt8.toNat_add, UInt8.toNat_mul, UInt8.toNat_div, UInt8.toNat_mod,
    UInt8.reduceToNat]
  omega

theorem digit?_lt {byte value : UInt8} (h : digit? byte = some value) :
    value.toNat < 16 := by
  have all : ∀ n < 256, ∀ value ∈ digit? (UInt8.ofNat n), value.toNat < 16 := by
    decide +kernel
  have here := all byte.toNat byte.toNat_lt_size value
  rw [UInt8.ofNat_toNat] at here
  exact here h

theorem decodePairs_cons_eq_ok_iff {high low : UInt8} {rest bytes : Bytes}
    {position : Nat} :
    decodePairs position (high :: low :: rest) = .ok bytes ↔
      ∃ h l more, digit? high = some h ∧ digit? low = some l ∧
        decodePairs (position + 2) rest = .ok more ∧ bytes = (h * 16 + l) :: more := by
  rw [decodePairs]
  cases hhigh : digit? high with
  | none => simp [digitAt, hhigh, bind, Except.bind]
  | some h =>
      cases hlow : digit? low with
      | none => simp [digitAt, hhigh, hlow, bind, Except.bind]
      | some l =>
          cases hrest : decodePairs (position + 2) rest with
          | error error => simp [digitAt, hhigh, hlow, bind, Except.bind]
          | ok more =>
              simp [digitAt, hhigh, hlow, bind, Except.bind, pure, Except.pure, eq_comm]

theorem decodePairs_eq_ok_iff {text bytes : Bytes} {position : Nat} :
    decodePairs position text = .ok bytes ↔
    text.map digit? = (bytes.flatMap halves).map some := by
  induction position, text using decodePairs.induct generalizing bytes with
  | case1 position => cases bytes <;> simp [decodePairs, halves]
  | case2 position last => cases bytes <;> simp [decodePairs, halves]
  | case3 position high low rest ih =>
      rw [decodePairs_cons_eq_ok_iff]
      constructor
      · rintro ⟨h, l, more, hhigh, hlow, hrest, rfl⟩
        simp only [List.map_cons, List.flatMap_cons, List.map_append, hhigh, hlow,
          ih.mp hrest, halves_of_digits (digit?_lt hhigh) (digit?_lt hlow)]
        rfl
      · intro h
        cases bytes with
        | nil => cases h
        | cons byte more =>
            simp only [List.map_cons, List.flatMap_cons, halves, List.cons_append,
              List.nil_append, List.cons.injEq] at h
            obtain ⟨hhigh, hlow, hrest⟩ := h
            exact ⟨_, _, more, hhigh, hlow, ih.mpr hrest, by rw [digits_of_halves]⟩

theorem length_halves (bytes : Bytes) :
    (bytes.flatMap halves).length = 2 * bytes.length := by
  induction bytes with
  | nil => rfl
  | cons byte rest ih =>
      rw [List.flatMap_cons, List.length_append, ih, List.length_cons]
      simp only [halves, List.length_cons, List.length_nil]
      omega

theorem decode_bytes_eq_ok_iff {text bytes : Bytes} :
    decode text = .ok bytes ↔ text.map digit? = (bytes.flatMap halves).map some := by
  unfold decode
  split
  · rename_i odd
    refine ⟨nofun, fun same => ?_⟩
    have lengths := congrArg List.length same
    rw [List.length_map, List.length_map, length_halves] at lengths
    omega
  · exact decodePairs_eq_ok_iff

theorem digit?_ascii {c : Char} {value : UInt8} (ascii : c.toNat < 128)
    (small : value.toNat < 16) :
    digit? (UInt8.ofNat c.toNat) = some value ↔ c.toLower = Nat.digitChar value.toNat := by
  have all : ∀ n < 128, ∀ v < 16, digit? (UInt8.ofNat n) = some (UInt8.ofNat v) ↔
      (Char.ofNat n).toLower = Nat.digitChar v := by
    decide +kernel
  have here := all c.toNat ascii value.toNat small
  rwa [UInt8.ofNat_toNat, Char.ofNat_toNat] at here

theorem digit?_not_ascii {n : Nat} (high : 128 ≤ n) (byte : n < 256) :
    digit? (UInt8.ofNat n) = none := by
  have all : ∀ n < 256, 128 ≤ n → digit? (UInt8.ofNat n) = none := by decide +kernel
  exact all n byte high

theorem encode_not_ascii {c : Char} (h : 128 ≤ c.toNat) :
    ∃ first rest, String.utf8EncodeChar c = first :: rest ∧ digit? first = none := by
  unfold String.utf8EncodeChar
  dsimp only
  rw [if_neg (show ¬ c.val.toNat ≤ 127 from Nat.not_le.mpr h)]
  split
  · exact ⟨_, _, rfl, digit?_not_ascii (by omega) (by omega)⟩
  · split
    · exact ⟨_, _, rfl, digit?_not_ascii (by omega) (by omega)⟩
    · exact ⟨_, _, rfl, digit?_not_ascii (by omega) (by omega)⟩

theorem toLower_ne_digitChar {c : Char} (h : 128 ≤ c.toNat) {value : Nat}
    (small : value < 16) :
    c.toLower ≠ Nat.digitChar value := by
  have ascii : ∀ value < 16, (Nat.digitChar value).toNat < 128 := by decide
  have same : c.toLower = c := by
    refine dif_neg ?_
    rintro ⟨_, below⟩
    have below : c.toNat ≤ 90 := UInt32.le_iff_toNat_le.mp below
    omega
  rintro equal
  have below := ascii value small
  rw [← equal, same] at below
  omega

theorem decode_chars_iff {text : List Char} {digits : Bytes}
    (small : ∀ digit ∈ digits, digit.toNat < 16) :
    (Utf8.encode text).map digit? = digits.map some ↔
      text.map Char.toLower = digits.map fun digit => Nat.digitChar digit.toNat := by
  induction text generalizing digits with
  | nil => cases digits <;> simp [Utf8.encode]
  | cons c rest ih =>
      rw [Utf8.encode, List.flatMap_cons, List.map_append]
      rcases Nat.lt_or_ge c.toNat 128 with ascii | high
      · have single : String.utf8EncodeChar c = [UInt8.ofNat c.toNat] := by
          unfold String.utf8EncodeChar
          exact if_pos (Nat.le_of_lt_succ ascii)
        rw [single]
        cases digits with
        | nil => simp
        | cons digit more =>
            have first := digit?_ascii ascii (small digit (List.mem_cons_self ..))
            have later := ih fun digit member => small digit (List.mem_cons_of_mem _ member)
            simp only [List.map_cons, List.map_nil, List.singleton_append, List.cons.injEq]
            exact and_congr first later
      · obtain ⟨byte, tail, same, none⟩ := encode_not_ascii high
        rw [same]
        cases digits with
        | nil => simp
        | cons digit more =>
            have other := toLower_ne_digitChar high (small digit (List.mem_cons_self ..))
            simp [none, other]

/-- Text reads as the bytes that it spells out. -/
theorem decode_eq_ok_iff {text : List Char} {bytes : Bytes} :
    decode (Utf8.encode text) = .ok bytes ↔ Spells text bytes := by
  have small : ∀ digit ∈ bytes.flatMap halves, digit.toNat < 16 := by
    intro digit member
    obtain ⟨byte, _, inside⟩ := List.mem_flatMap.mp member
    exact half_lt inside
  rw [decode_bytes_eq_ok_iff, decode_chars_iff small, Spells, List.map_flatMap]
  exact iff_of_eq
    (congrArg _ (congrArg (bytes.flatMap ·) (funext fun byte => (pair_eq byte).symm)))

theorem Spells.unique {text : List Char} {first second : Bytes} (h : Spells text first)
    (h' : Spells text second) : first = second :=
  Except.ok.inj ((decode_eq_ok_iff.mpr h).symm.trans (decode_eq_ok_iff.mpr h'))

/-- What is written in hexadecimal is read back. -/
theorem decode_encode (bytes : Bytes) :
    decode (Utf8.encode (encode bytes).toList) = .ok bytes := by
  have lower : ∀ value < 16, (Nat.digitChar value).toLower = Nat.digitChar value := by
    decide
  rw [decode_eq_ok_iff, Spells, encode, String.toList_ofList, List.map_flatMap]
  refine congrArg (bytes.flatMap ·) (funext fun byte => ?_)
  rw [pair_eq, List.map_map]
  exact List.map_congr_left fun half member => lower half.toNat (half_lt member)

/-! Text that is refused. -/

/-- The first byte that is no digit, with its position when the first one of the
text has the given one. -/
def StopsAt (position : Nat) (text : Bytes) (error : HexError) : Prop :=
  ∃ before byte after, text = before ++ byte :: after ∧
    (∀ other ∈ before, digit? other ≠ none) ∧
    digit? byte = none ∧ error = .invalidDigit byte (position + before.length)

section

variable {position : Nat} {byte : UInt8} {rest text : Bytes} {error : HexError}

theorem not_stopsAt_nil : ¬ StopsAt position [] error := by
  rintro ⟨before, byte, after, parts, _⟩
  cases before <;> cases parts

theorem stopsAt_of_none (h : digit? byte = none) :
    StopsAt position (byte :: rest) error ↔ error = .invalidDigit byte position := by
  constructor
  · rintro ⟨_ | ⟨first, before⟩, other, after, parts, digits, _, rfl⟩
    · cases parts
      rfl
    · cases parts
      exact absurd h (digits _ (List.mem_cons_self ..))
  · rintro rfl
    exact ⟨[], byte, rest, rfl, nofun, h, rfl⟩

theorem stopsAt_of_some {value : UInt8} (h : digit? byte = some value) :
    StopsAt position (byte :: rest) error ↔ StopsAt (position + 1) rest error := by
  constructor
  · rintro ⟨_ | ⟨first, before⟩, other, after, parts, digits, none, rfl⟩
    · cases parts
      cases h.symm.trans none
    · cases parts
      refine ⟨before, other, after, rfl,
        fun digit member => digits digit (List.mem_cons_of_mem _ member), none, ?_⟩
      rw [List.length_cons, Nat.add_assoc, Nat.add_comm 1]
  · rintro ⟨before, other, after, rfl, digits, none, rfl⟩
    refine ⟨byte :: before, other, after, rfl, fun digit member => ?_, none, ?_⟩
    · rcases List.mem_cons.mp member with rfl | later
      · rw [h]
        exact nofun
      · exact digits digit later
    · rw [List.length_cons, Nat.add_assoc, Nat.add_comm 1]

theorem decodePairs_eq_error_iff (even : text.length % 2 = 0) :
    decodePairs position text = .error error ↔ StopsAt position text error := by
  induction position, text using decodePairs.induct with
  | case1 position => exact iff_of_false nofun not_stopsAt_nil
  | case2 position last => simp at even
  | case3 position high low rest ih =>
      simp only [List.length_cons] at even
      have later := ih (by omega)
      rw [decodePairs]
      cases hhigh : digit? high with
      | none => simp [stopsAt_of_none hhigh, digitAt, hhigh, bind, Except.bind, eq_comm]
      | some h =>
          rw [stopsAt_of_some hhigh]
          cases hlow : digit? low with
          | none =>
            simp [stopsAt_of_none hlow, digitAt, hhigh, hlow, bind, Except.bind, eq_comm]
          | some l =>
              rw [stopsAt_of_some hlow, ← later]
              cases hrest : decodePairs (position + 2) rest <;>
                simp [digitAt, hhigh, hlow, bind, Except.bind, pure, Except.pure]

/-- What is wrong with bytes that are no digits in pairs. -/
inductive Flaw (text : Bytes) : HexError → Prop
  | oddLength : text.length % 2 = 1 → Flaw text .oddLength
  | invalidDigit {before after : Bytes} {byte : UInt8} : text.length % 2 = 0 →
      text = before ++ byte :: after → (∀ other ∈ before, digit? other ≠ none) →
        digit? byte = none → Flaw text (.invalidDigit byte before.length)

theorem decode_eq_error_iff : decode text = .error error ↔ Flaw text error := by
  unfold decode
  split
  · rename_i odd
    constructor
    · intro h
      cases h
      exact .oddLength odd
    · rintro (_ | ⟨even, _, _, _⟩)
      · rfl
      · omega
  · rename_i notOdd
    have even : text.length % 2 = 0 := by omega
    rw [decodePairs_eq_error_iff even]
    constructor
    · rintro ⟨before, byte, after, parts, digits, none, rfl⟩
      rw [Nat.zero_add]
      exact .invalidDigit even parts digits none
    · rintro (odd | ⟨_, parts, digits, none⟩)
      · exact absurd odd notOdd
      · exact ⟨_, _, _, parts, digits, none, by rw [Nat.zero_add]⟩

end

theorem Spells.length_eq {text : List Char} {bytes : Bytes} (h : Spells text bytes) :
    text.length = 2 * bytes.length := by
  have lengths := congrArg List.length h
  rwa [funext pair_eq, ← List.map_flatMap, List.length_map, List.length_map, length_halves]
    at lengths

end Hex

end SortedBlob
