import Mathlib.Data.List.DropRight
import Mathlib.Data.List.Forall2
import SortedBlob.Table

/-!
What white space and line ends do to text: how it is trimmed, how a table falls into lines,
and what an ASCII byte at the end of a line adds to it. Main statements: `Text.trim_around`,
`Utf8.decode?_append` and `Table.lines_withReturns`.
-/

namespace SortedBlob

namespace Text

variable {before after left right text : List Char}

theorem trim_eq (text : List Char) :
    trim text = (text.dropWhile isBlank).rdropWhile isBlank := rfl

theorem rdropWhile_around {c : Char} (h : isBlank c = false) (left right : List Char) :
    (left ++ c :: right).rdropWhile isBlank = left ++ c :: right.rdropWhile isBlank := by
  have stops (rest : List Char) : (c :: rest).dropWhile isBlank = c :: rest :=
    List.dropWhile_cons_of_neg (by simp [h])
  rw [List.rdropWhile, List.rdropWhile, List.reverse_append, List.reverse_cons,
    List.append_assoc, List.dropWhile_append]
  split
  · rename_i blank
    simp [stops, List.isEmpty_iff.mp blank]
  · simp

/-- Around a character that is not blank, each side is trimmed by itself. -/
theorem trim_around {c : Char} (h : isBlank c = false) (left right : List Char) :
    trim (left ++ c :: right) =
      left.dropWhile isBlank ++ c :: right.rdropWhile isBlank := by
  have stops : (c :: right).dropWhile isBlank = c :: right :=
    List.dropWhile_cons_of_neg (by simp [h])
  rw [trim_eq, List.dropWhile_append]
  split
  · rename_i blank
    rw [stops, List.isEmpty_iff.mp blank]
    exact rdropWhile_around h [] right
  · exact rdropWhile_around h _ right

theorem trim_blank_append (blank : ∀ c ∈ before, isBlank c = true) (text : List Char) :
    trim (before ++ text) = trim text := by
  rw [trim_eq, List.dropWhile_append_of_pos blank, trim_eq]

theorem trim_append_blank (blank : ∀ c ∈ after, isBlank c = true) (text : List Char) :
    trim (text ++ after) = trim text := by
  have reversed : ∀ c ∈ after.reverse, isBlank c = true := fun c member =>
    blank c (List.mem_reverse.mp member)
  rw [trim_eq, trim_eq, List.dropWhile_append]
  split
  · rename_i empty
    rw [List.dropWhile_eq_nil_iff.mpr blank, List.isEmpty_iff.mp empty]
  · rw [List.rdropWhile, List.reverse_append, List.dropWhile_append_of_pos reversed]
    rfl

theorem trim_of_solid (solid : ∀ c ∈ text, isBlank c = false) : trim text = text := by
  have stops (text : List Char) (solid : ∀ c ∈ text, isBlank c = false) :
      text.dropWhile isBlank = text := by
    cases text with
    | nil => rfl
    | cons c rest =>
      exact List.dropWhile_cons_of_neg (by simp [solid c (List.mem_cons_self ..)])
  have reversed : ∀ c ∈ text.reverse, isBlank c = false := fun c member =>
    solid c (List.mem_reverse.mp member)
  rw [trim, stops text solid, stops _ reversed, List.reverse_reverse]

theorem trim_dropWhile (text : List Char) : trim (text.dropWhile isBlank) = trim text := by
  rw [trim_eq, trim_eq, List.dropWhile_idempotent]

theorem trim_rdropWhile (text : List Char) :
    trim (text.rdropWhile isBlank) = trim text := by
  have parts : text.rdropWhile isBlank ++ text.rtakeWhile isBlank = text :=
    List.rdropWhile_append_rtakeWhile
  conv => rhs; rw [← parts]
  exact (trim_append_blank (fun c member => List.mem_rtakeWhile_imp member) _).symm

theorem length_trim_le (text : List Char) : (trim text).length ≤ text.length :=
  (List.rdropWhile_prefix isBlank _).length_le.trans
    (List.dropWhile_suffix isBlank).length_le

theorem trim_map {f : Char → Char} (h : ∀ c, isBlank (f c) = isBlank c) (text : List Char) :
    trim (text.map f) = (trim text).map f := by
  have same : isBlank ∘ f = isBlank := funext h
  simp only [trim, List.dropWhile_map, ← List.map_reverse, same]

/-- What text starts with is not changed by what is cut off its end. -/
theorem head?_trim (text : List Char) :
    (trim text).head? = (text.dropWhile isBlank).head? := by
  rw [trim_eq]
  have stops := List.head?_dropWhile_not isBlank text
  cases hrest : text.dropWhile isBlank with
  | nil => rfl
  | cons c rest =>
      rw [hrest] at stops
      have solid : isBlank c = false := by simpa using stops
      have kept := rdropWhile_around solid [] rest
      rw [List.nil_append, List.nil_append] at kept
      rw [kept]
      rfl

/-! Letters of either case. -/

theorem toLower_of_not_upper {c : Char} (h : c.toNat < 0x41 ∨ 0x5A < c.toNat) :
    c.toLower = c := by
  refine dif_neg ?_
  rintro ⟨least, most⟩
  have least : 0x41 ≤ c.toNat := UInt32.le_iff_toNat_le.mp least
  have most : c.toNat ≤ 0x5A := UInt32.le_iff_toNat_le.mp most
  omega

/-- No letter is a blank or one of these signs, in either case. -/
theorem toLower_facts (c : Char) :
    isBlank c.toLower = isBlank c ∧ (c.toLower = ',' ↔ c = ',') ∧
    (c.toLower = '#' ↔ c = '#') := by
  by_cases upper : c.toNat < 0x41 ∨ 0x5A < c.toNat
  · rw [toLower_of_not_upper upper]
    exact ⟨rfl, .rfl, .rfl⟩
  · have all : ∀ n < 26, let c := Char.ofNat (0x41 + n)
        isBlank c.toLower = isBlank c ∧ (c.toLower = ',' ↔ c = ',') ∧
          (c.toLower = '#' ↔ c = '#') := by
      decide +kernel
    have here := all (c.toNat - 0x41) (by omega)
    rwa [Nat.add_sub_cancel' (by omega), Char.ofNat_toNat] at here

end Text

namespace Utf8

variable {bytes rest : Bytes} {text : List Char} {ascii : UInt8}

/-- The bytes that follow a first byte are none of ASCII. -/
theorem low_le_of_lead? {byte : UInt8} {lead : Lead} (h : lead? byte = some lead) :
    0x80 ≤ lead.low := by
  unfold lead? at h
  repeat' split at h
  all_goals simp only [Option.some.injEq, reduceCtorEq] at h
  all_goals
    subst h
    dsimp only
    decide

theorem tails_append {low : UInt8} (small : ascii < 0x80) (least : 0x80 ≤ low)
    (high : UInt8) (count code : Nat) (bytes : Bytes) :
    (tails count low high code (bytes ++ [ascii])).1 = (tails count low high code bytes).1 ∧
      ((tails count low high code bytes).1.isSome = true →
        (tails count low high code (bytes ++ [ascii])).2 =
          (tails count low high code bytes).2 ++ [ascii]) := by
  have outside {low : UInt8} (least : 0x80 ≤ low) : ¬ low ≤ ascii := fun le =>
    absurd (UInt8.le_trans least le) (UInt8.not_le.mpr small)
  induction count generalizing low high code bytes with
  | zero => simp [tails]
  | succ count ih =>
      cases bytes with
      | nil => simp [tails, outside least]
      | cons byte rest =>
          simp only [List.cons_append, tails]
          split
          · exact ih (by decide) _ _ rest
          · simp

theorem next_append (small : ascii < 0x80) (byte : UInt8) (rest : Bytes) :
    (next byte (rest ++ [ascii])).1 = (next byte rest).1 ∧
      ((next byte rest).1.isSome = true →
        (next byte (rest ++ [ascii])).2 = (next byte rest).2 ++ [ascii]) := by
  unfold next
  cases hlead : lead? byte with
  | none => simp
  | some lead =>
      obtain ⟨code, later⟩ := tails_append small (low_le_of_lead? hlead) lead.high
        lead.tails lead.bits rest
      simp only [code, Option.isSome_map]
      exact ⟨trivial, later⟩

theorem decode?_nil : decode? [] = some [] := by simp [decode?, pieces]

theorem decode?_cons (byte : UInt8) (rest : Bytes) :
    decode? (byte :: rest) =
      (next byte rest).1.bind fun c => (decode? (next byte rest).2).map (c :: ·) := by
  rw [decode?, pieces, List.mapM_cons]
  cases (next byte rest).1 with
  | none => rfl
  | some c => cases hrest : decode? (next byte rest).2 <;> simp_all [decode?]

theorem decode?_cons_ascii (small : ascii < 0x80) (rest : Bytes) :
    decode? (ascii :: rest) = (decode? rest).map (Char.ofNat ascii.toNat :: ·) := by
  have lead : lead? ascii = some ⟨ascii.toNat, 0, 0x80, 0xBF⟩ := if_pos small
  rw [decode?_cons]
  simp [next, lead, tails]

/-- An ASCII byte is a character by itself wherever it stands. -/
theorem decode?_append (small : ascii < 0x80) (bytes : Bytes) :
    decode? (bytes ++ [ascii]) = (decode? bytes).map (· ++ [Char.ofNat ascii.toNat]) := by
  induction bytes using pieces.induct with
  | case1 =>
      rw [List.nil_append, decode?_cons_ascii small, decode?_nil]
      rfl
  | case2 byte rest ih =>
      obtain ⟨first, later⟩ := next_append small byte rest
      rw [List.cons_append, decode?_cons, decode?_cons, first]
      cases hnext : (next byte rest).1 with
      | none => rfl
      | some c =>
          rw [later (by rw [hnext]; rfl), Option.bind_some, Option.bind_some, ih]
          cases decode? (next byte rest).2 <;> rfl

theorem encode_ascii (ascii : ∀ c ∈ text, c.toNat < 0x80) :
    encode text = text.map fun c => UInt8.ofNat c.toNat := by
  induction text with
  | nil => rfl
  | cons c rest ih =>
      obtain ⟨first, later⟩ := List.forall_mem_cons.mp ascii
      have byte : String.utf8EncodeChar c = [UInt8.ofNat c.toNat] :=
        if_pos (Nat.le_of_lt_succ first)
      rw [encode, List.flatMap_cons, byte, List.map_cons, ← ih later]
      rfl

theorem toNat_ofNat_ascii {c : Char} (h : c.toNat < 0x80) :
    (UInt8.ofNat c.toNat).toNat = c.toNat := by
  simp only [UInt8.toNat_ofNat']
  omega

theorem decode?_encode_ascii (ascii : ∀ c ∈ text, c.toNat < 0x80) :
    decode? (encode text) = some text := by
  rw [encode_ascii ascii]
  induction text with
  | nil => exact decode?_nil
  | cons c rest ih =>
      obtain ⟨first, later⟩ := List.forall_mem_cons.mp ascii
      have small : UInt8.ofNat c.toNat < 0x80 := by
        rw [UInt8.lt_iff_toNat_lt, toNat_ofNat_ascii first]
        exact first
      rw [List.map_cons, decode?_cons_ascii small, ih later, toNat_ofNat_ascii first,
        Char.ofNat_toNat]
      rfl

/-- Each character takes at least one byte. -/
theorem length_le_of_decode? (h : decode? bytes = some text) :
    text.length ≤ bytes.length := by
  induction bytes using pieces.induct generalizing text with
  | case1 =>
      cases decode?_nil.symm.trans h
      exact Nat.le_refl _
  | case2 byte rest ih =>
      rw [decode?_cons] at h
      obtain ⟨c, _, later⟩ := Option.bind_eq_some_iff.mp h
      obtain ⟨more, hmore, rfl⟩ := Option.map_eq_some_iff.mp later
      exact Nat.succ_le_succ ((ih hmore).trans (next_length_le byte rest))

end Utf8

namespace Table

theorem lines_feed (rest : Bytes) : lines (0x0A :: rest) = [] :: lines rest := if_pos rfl

theorem lines_cons {byte : UInt8} (other : byte ≠ 0x0A) (rest : Bytes) :
    lines (byte :: rest) =
      match lines rest with
      | [] => [[byte]]
      | line :: more => (byte :: line) :: more := if_neg other

theorem lines_of_no_feed {line : Bytes} (some : line ≠ []) (whole : 0x0A ∉ line) :
    lines line = [line] := by
  induction line with
  | nil => exact absurd rfl some
  | cons byte rest ih =>
      rw [lines_cons (List.ne_of_not_mem_cons whole).symm]
      cases rest with
      | nil => rfl
      | cons next more => rw [ih nofun (List.not_mem_of_not_mem_cons whole)]

/-- The table with a carriage return before each line feed. -/
def withReturns (table : Bytes) : Bytes :=
  table.flatMap fun byte => if byte = 0x0A then [0x0D, 0x0A] else [byte]

/-- The carriage return before a line feed belongs to the line. -/
theorem lines_withReturns (table : Bytes) :
    List.Forall₂ (fun line line' => line' = line ∨ line' = line ++ [0x0D]) (lines table)
      (lines (withReturns table)) := by
  induction table with
  | nil => exact .nil
  | cons byte rest ih =>
      by_cases feed : byte = 0x0A
      · subst feed
        have ending : lines (withReturns (0x0A :: rest)) =
            [0x0D] :: lines (withReturns rest) := by
          change lines (0x0D :: 0x0A :: withReturns rest) = _
          rw [lines_cons (by decide), lines_feed]
        rw [lines_feed, ending]
        exact .cons (.inr rfl) ih
      · have same : withReturns (byte :: rest) = byte :: withReturns rest := by
          simp [withReturns, feed]
        rw [same, lines_cons feed, lines_cons feed]
        revert ih
        generalize lines rest = before
        generalize lines (withReturns rest) = after
        rintro (_ | ⟨rfl | rfl, later⟩)
        · exact .cons (.inl rfl) .nil
        · exact .cons (.inl rfl) later
        · exact .cons (.inr rfl) later

/-- A line feed at the end ends the last line, or else makes one with nothing in it. -/
theorem lines_append_feed (table : Bytes) :
    lines (table ++ [0x0A]) = lines table ∨
    lines (table ++ [0x0A]) = lines table ++ [[]] := by
  induction table with
  | nil => exact .inr rfl
  | cons byte rest ih =>
      rw [List.cons_append]
      by_cases feed : byte = 0x0A
      · subst feed
        rw [lines_feed, lines_feed]
        exact ih.imp (congrArg _) (congrArg _)
      · rw [lines_cons feed, lines_cons feed]
        rcases ih with same | more
        · rw [same]
          exact .inl rfl
        · rw [more]
          cases lines rest with
          | nil => exact .inl rfl
          | cons line later => exact .inr rfl

theorem length_line_le {table line : Bytes} (member : line ∈ lines table) :
    line.length ≤ table.length := by
  induction table generalizing line with
  | nil => cases member
  | cons byte rest ih =>
      by_cases feed : byte = 0x0A
      · subst feed
        rw [lines_feed] at member
        rcases List.mem_cons.mp member with rfl | later
        · exact Nat.zero_le _
        · exact Nat.le_succ_of_le (ih later)
      · rw [lines_cons feed] at member
        cases hrest : lines rest with
        | nil =>
            rw [hrest] at member
            obtain rfl := List.mem_singleton.mp member
            exact Nat.succ_le_succ (Nat.zero_le _)
        | cons first more =>
            simp only [hrest] at member ih
            rcases List.mem_cons.mp member with rfl | later
            · exact Nat.succ_le_succ (ih (List.mem_cons_self ..))
            · exact Nat.le_succ_of_le (ih (List.mem_cons_of_mem _ later))

end Table

end SortedBlob
