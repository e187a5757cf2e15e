import Mathlib.Data.List.Perm.Basic
import Mathlib.Logic.Relation
import SortedBlob.Proofs.TableContents
import SortedBlob.Proofs.TextLines

/-!
What the layout of a table does not matter for: the order of its lines, blank lines and
comments between them, white space around lines and fields, the case of letters and how
lines end (`Reformats`). Main statement: `Table.Lists.reformat`.
-/

namespace SortedBlob.Table

/-- One change to a line: blanks around it or around its first comma, or
letters in another case. -/
inductive Restyles : List Char → List Char → Prop
  | around {before after : List Char} (text : List Char) :
      (∀ c ∈ before, Text.isBlank c = true) → (∀ c ∈ after, Text.isBlank c = true) →
        Restyles text (before ++ (text ++ after))
  | comma {key value before after : List Char} : ',' ∉ key →
      (∀ c ∈ before, Text.isBlank c = true) → (∀ c ∈ after, Text.isBlank c = true) →
        Restyles (key ++ ',' :: value) (key ++ before ++ ',' :: (after ++ value))
  | letters {text text' : List Char} : text.map Char.toLower = text'.map Char.toLower →
      Restyles text text'

/-- One change to a table: its lines in another order, one more line that is
blank or a comment, one line restyled, a carriage return before each line feed,
or a line feed at the end. -/
inductive Reformats (table table' : Bytes) : Prop
  | reorder : (lines table).Perm (lines table') → Reformats table table'
  | insert {before after : List Bytes} {line : Bytes} : Holds line none →
      lines table = before ++ after → lines table' = before ++ line :: after →
        Reformats table table'
  | restyle {before after : List Bytes} {line line' : Bytes} {text text' : List Char} :
      Utf8.decode? line = some text → Utf8.decode? line' = some text' →
        Restyles text text' →
        lines table = before ++ line :: after → lines table' = before ++ line' :: after →
          Reformats table table'
  | returns : table' = withReturns table → Reformats table table'
  | lastFeed : table' = table ++ [0x0A] → Reformats table table'

/-! Lines one by one. -/

theorem isData_iff {text : List Char} :
    isData text = true ↔ ∃ c, (text.dropWhile Text.isBlank).head? = some c ∧ c ≠ '#' := by
  rw [← Text.head?_trim, isData]
  cases Text.trim text <;> simp

/-- The blanks around a line make no difference to the pair in it. -/
theorem spells_iff_untrimmed {text : List Char} {entry : Bytes × Bytes} :
    Spells text entry ↔ ∃ key value, text = key ++ ',' :: value ∧ ',' ∉ key ∧
      Hex.Spells (Text.trim key) entry.1 ∧ Hex.Spells (Text.trim value) entry.2 := by
  constructor
  · rintro ⟨key, value, parts, first, hkey, hvalue⟩
    let before := text.takeWhile Text.isBlank
    let after := (text.dropWhile Text.isBlank).rtakeWhile Text.isBlank
    have blankBefore : ∀ c ∈ before, Text.isBlank c = true :=
      fun c => List.mem_takeWhile_imp
    have blankAfter : ∀ c ∈ after, Text.isBlank c = true := fun c => List.mem_rtakeWhile_imp
    have whole : text = before ++ (Text.trim text ++ after) := by
      rw [Text.trim_eq, List.rdropWhile_append_rtakeWhile, List.takeWhile_append_dropWhile]
    refine ⟨before ++ key, value ++ after, ?_, fun inside => ?_, ?_, ?_⟩
    · conv => lhs; rw [whole, parts]
      simp
    · rcases List.mem_append.mp inside with early | late
      · exact absurd (blankBefore _ early) (by decide)
      · exact first late
    · rwa [Text.trim_blank_append blankBefore]
    · rwa [Text.trim_append_blank blankAfter]
  · rintro ⟨key, value, rfl, first, hkey, hvalue⟩
    refine ⟨key.dropWhile Text.isBlank, value.rdropWhile Text.isBlank,
      Text.trim_around (by decide) key value,
      fun inside => first ((List.dropWhile_suffix Text.isBlank).mem inside), ?_, ?_⟩
    · rwa [Text.trim_dropWhile]
    · rwa [Text.trim_rdropWhile]

theorem spells_around_comma {key : List Char} (first : ',' ∉ key) {value : List Char}
    {entry : Bytes × Bytes} :
    Spells (key ++ ',' :: value) entry ↔
      Hex.Spells (Text.trim key) entry.1 ∧ Hex.Spells (Text.trim value) entry.2 := by
  rw [spells_iff_untrimmed]
  constructor
  · rintro ⟨key', value', parts, first', hkey, hvalue⟩
    obtain ⟨left, right⟩ := split_at_comma first value
    obtain ⟨left', right'⟩ := split_at_comma first' value'
    rw [← parts] at left' right'
    obtain rfl := left.symm.trans left'
    obtain rfl := List.tail_eq_of_cons_eq (right.symm.trans right')
    exact ⟨hkey, hvalue⟩
  · rintro ⟨hkey, hvalue⟩
    exact ⟨key, value, rfl, first, hkey, hvalue⟩

/-- Text that reads as the same, whatever it is. -/
structure Alike (text text' : List Char) : Prop where
  data : isData text = isData text'
  spells (entry : Bytes × Bytes) : Spells text entry ↔ Spells text' entry

variable {text text' : List Char}

theorem Alike.symm (h : Alike text text') : Alike text' text :=
  ⟨h.data.symm, fun entry => (h.spells entry).symm⟩

theorem alike_of_trim_eq (same : Text.trim text = Text.trim text') : Alike text text' := by
  constructor
  · rw [isData, isData, same]
  · intro entry
    rw [Spells, Spells, same]

theorem alike_around_comma {key key' value value' : List Char} (first : ',' ∉ key)
    (first' : ',' ∉ key') (left : Text.trim key = Text.trim key')
    (right : Text.trim value = Text.trim value') :
    Alike (key ++ ',' :: value) (key' ++ ',' :: value') := by
  constructor
  · have start (key value : List Char) :
        ((key ++ ',' :: value).dropWhile Text.isBlank).head? =
          (Text.trim key).head?.or (some ',') := by
      rw [← Text.head?_trim, Text.trim_around (by decide), List.head?_append,
        Text.head?_trim]
      rfl
    rw [Bool.eq_iff_iff, isData_iff, isData_iff, start, start, left]
  · intro entry
    rw [spells_around_comma first, spells_around_comma first', left, right]

theorem comma_mem_of_map_eq {key key' : List Char}
    (same : key.map Char.toLower = key'.map Char.toLower) (inside : ',' ∈ key) :
    ',' ∈ key' := by
  have lowered : ',' ∈ key'.map Char.toLower := same ▸ List.mem_map.mpr ⟨',', inside, rfl⟩
  obtain ⟨c, member, lower⟩ := List.mem_map.mp lowered
  rwa [← (Text.toLower_facts c).2.1.mp lower]

theorem hexSpells_of_map_eq {part part' : List Char}
    (same : part.map Char.toLower = part'.map Char.toLower) {bytes : Bytes}
    (h : Hex.Spells (Text.trim part) bytes) : Hex.Spells (Text.trim part') bytes := by
  have blanks (c : Char) := (Text.toLower_facts c).1
  rw [Hex.Spells, ← Text.trim_map blanks] at h ⊢
  rwa [← same]

theorem Spells.of_map_eq (same : text.map Char.toLower = text'.map Char.toLower)
    {entry : Bytes × Bytes} (h : Spells text entry) : Spells text' entry := by
  obtain ⟨key, value, rfl, first, hkey, hvalue⟩ := spells_iff_untrimmed.mp h
  rw [List.map_append, List.map_cons] at same
  obtain ⟨key', rest', rfl, left, right⟩ := List.map_eq_append_iff.mp same.symm
  obtain ⟨c, value', rfl, comma, later⟩ := List.map_eq_cons_iff.mp right
  obtain rfl := (Text.toLower_facts c).2.1.mp comma
  exact spells_iff_untrimmed.mpr
    ⟨key', value', rfl, fun inside => first (comma_mem_of_map_eq left inside),
      hexSpells_of_map_eq left.symm hkey, hexSpells_of_map_eq later.symm hvalue⟩

theorem alike_of_map_eq (same : text.map Char.toLower = text'.map Char.toLower) :
    Alike text text' := by
  have blanks (c : Char) := (Text.toLower_facts c).1
  constructor
  · have lowered (text : List Char) : isData (text.map Char.toLower) = isData text := by
      rw [isData, isData, Text.trim_map blanks]
      cases Text.trim text with
      | nil => rfl
      | cons c rest => simp [(Text.toLower_facts c).2.2]
    rw [← lowered text, ← lowered text', same]
  · exact fun entry => ⟨Spells.of_map_eq same, Spells.of_map_eq same.symm⟩

theorem Restyles.alike (h : Restyles text text') : Alike text text' := by
  cases h with
  | around _ before after =>
      refine alike_of_trim_eq ?_
      rw [Text.trim_blank_append before, Text.trim_append_blank after]
  | @comma key value _ _ first before after =>
      refine alike_around_comma first (fun inside => ?_) ?_ ?_
      · rcases List.mem_append.mp inside with early | late
        · exact first early
        · exact absurd (before _ late) (by decide)
      · exact (Text.trim_append_blank before key).symm
      · exact (Text.trim_blank_append after value).symm
  | letters same => exact alike_of_map_eq same

theorem Alike.holds (h : Alike text text') {line line' : Bytes}
    (decoded : Utf8.decode? line = some text) (decoded' : Utf8.decode? line' = some text')
    {found : Option (Bytes × Bytes)} (holds : Holds line found) : Holds line' found := by
  rcases holds with ⟨same, none⟩ | ⟨same, data, spells⟩
  · cases decoded.symm.trans same
    exact .nothing decoded' (h.data ▸ none)
  · cases decoded.symm.trans same
    exact .pair decoded' (h.data ▸ data) ((h.spells _).mp spells)

/-- A carriage return at the end of a line is a blank like others. -/
theorem holds_append_return {line : Bytes} {found : Option (Bytes × Bytes)} :
    Holds (line ++ [0x0D]) found ↔ Holds line found := by
  have decoded := Utf8.decode?_append (show (0x0D : UInt8) < 0x80 by decide) line
  have blank : ∀ c ∈ ['\r'], Text.isBlank c = true := List.forall_mem_singleton.mpr rfl
  have alike (text : List Char) : Alike text (text ++ ['\r']) :=
    alike_of_trim_eq (Text.trim_append_blank blank text).symm
  constructor
  · intro holds
    have same : ∃ text', Utf8.decode? (line ++ [0x0D]) = some text' := by
      cases holds <;> exact ⟨_, ‹_›⟩
    obtain ⟨text', htext'⟩ := same
    obtain ⟨text, htext, rfl⟩ := Option.map_eq_some_iff.mp (decoded.symm.trans htext')
    exact (alike text).symm.holds htext' htext holds
  · intro holds
    have same : ∃ text, Utf8.decode? line = some text := by
      cases holds <;> exact ⟨_, ‹_›⟩
    obtain ⟨text, htext⟩ := same
    exact (alike text).holds htext (decoded.trans (congrArg _ htext)) holds

/-! Lines together. -/

/-- The lines hold these pairs, in whatever order. -/
def Yields (read : List Bytes) (entries : Entries) : Prop :=
  ∃ found, List.Forall₂ Holds read found ∧ found.reduceOption.Perm entries

variable {read read' : List Bytes} {entries : Entries}

theorem Yields.of_perm (same : read.Perm read') (h : Yields read entries) :
    Yields read' entries := by
  obtain ⟨found, held, perm⟩ := h
  obtain ⟨found', held', same'⟩ := List.perm_comp_forall₂ same.symm held
  exact ⟨found', held', (same'.symm.filterMap id).symm.trans perm⟩

theorem yields_perm (same : read.Perm read') : Yields read entries ↔ Yields read' entries :=
  ⟨Yields.of_perm same, Yields.of_perm same.symm⟩

theorem yields_congr
    (same : List.Forall₂ (fun line line' => ∀ found, Holds line found ↔ Holds line' found)
      read read') :
    Yields read entries ↔ Yields read' entries := by
  have held (found : List (Option (Bytes × Bytes))) :
      List.Forall₂ Holds read found ↔ List.Forall₂ Holds read' found := by
    induction same generalizing found with
    | nil => exact .rfl
    | cons first _ ih => cases found <;> simp [first, ih]
  simp only [Yields, held]

theorem yields_cons_of_nothing {line : Bytes} (nothing : Holds line none) :
    Yields (line :: read) entries ↔ Yields read entries := by
  constructor
  · rintro ⟨_, _ | ⟨holds, held⟩, perm⟩
    cases holds.unique nothing
    exact ⟨_, held, perm⟩
  · rintro ⟨found, held, perm⟩
    exact ⟨none :: found, .cons nothing held, perm⟩

theorem yields_insert {before after : List Bytes} {line : Bytes}
    (nothing : Holds line none) :
    Yields (before ++ line :: after) entries ↔ Yields (before ++ after) entries :=
  (yields_perm List.perm_middle).trans (yields_cons_of_nothing nothing)

theorem holds_nil : Holds [] none := .nothing Utf8.decode?_nil rfl

theorem Reformats.yields_iff {table table' : Bytes} (h : Reformats table table') :
    Yields (lines table) entries ↔ Yields (lines table') entries := by
  cases h with
  | reorder perm => exact yields_perm perm
  | insert nothing parts parts' =>
      rw [parts, parts']
      exact (yields_insert nothing).symm
  | restyle decoded decoded' restyles parts parts' =>
      rw [parts, parts']
      refine yields_congr (List.rel_append (List.forall₂_same.mpr fun _ _ _ => .rfl)
        (.cons (fun found => ?_) (List.forall₂_same.mpr fun _ _ _ => .rfl)))
      have alike := restyles.alike
      exact ⟨alike.holds decoded decoded', alike.symm.holds decoded' decoded⟩
  | returns same =>
      rw [same]
      refine yields_congr ((lines_withReturns table).imp ?_)
      rintro line line' (rfl | rfl) found
      · exact .rfl
      · exact holds_append_return.symm
  | lastFeed same =>
      rw [same]
      rcases lines_append_feed table with ended | more
      · rw [ended]
      · rw [more]
        have inserted : Yields (lines table ++ [[]]) entries ↔
            Yields (lines table ++ []) entries :=
          yields_insert holds_nil
        rw [inserted, List.append_nil]

theorem Lists.exists_iff {keySize : UInt32} :
    (∃ held : Entries, held.Perm entries ∧ Lists keySize read held) ↔
      Yields read entries ∧ (∀ entry ∈ entries, entry.1.length = keySize.toNat) ∧
        (entries.map Prod.fst).Nodup := by
  constructor
  · rintro ⟨_, perm, ⟨found, held, rfl⟩, keys, distinct⟩
    exact ⟨⟨found, held, perm⟩, fun entry member => keys entry (perm.mem_iff.mpr member),
      (perm.map Prod.fst).nodup_iff.mp distinct⟩
  · rintro ⟨⟨found, held, perm⟩, keys, distinct⟩
    exact ⟨_, perm, ⟨found, held, rfl⟩, fun entry member =>
      keys entry (perm.mem_iff.mp member), (perm.map Prod.fst).nodup_iff.mpr distinct⟩

theorem yields_iff_of_eqvGen {table table' : Bytes}
    (h : Relation.EqvGen Reformats table table') :
    Yields (lines table) entries ↔ Yields (lines table') entries := by
  induction h with
  | rel _ _ step => exact step.yields_iff
  | refl _ => exact .rfl
  | symm _ _ _ ih => exact ih.symm
  | trans _ _ _ _ _ first second => exact first.trans second

/-- A table that is written in another layout holds the same pairs. -/
theorem Lists.reformat {keySize : UInt32} {table table' : Bytes}
    (h : Relation.EqvGen Reformats table table')
    (lists : Lists keySize (lines table) entries) :
    ∃ held : Entries, held.Perm entries ∧ Lists keySize (lines table') held := by
  obtain ⟨yields, keys⟩ := Lists.exists_iff.mp ⟨entries, .refl _, lists⟩
  exact Lists.exists_iff.mpr ⟨(yields_iff_of_eqvGen h).mp yields, keys⟩

/-! A pair as a line of its own, without blanks. -/

def row (key value : Bytes) : Bytes :=
  Utf8.encode ((Hex.encode key).toList ++ ',' :: (Hex.encode value).toList)

theorem digit_facts {bytes : Bytes} {c : Char} (h : c ∈ (Hex.encode bytes).toList) :
    c.toNat < 0x80 ∧ Text.isBlank c = false ∧ c ≠ ',' ∧ c ≠ '#' ∧ c.toNat ≠ 0x0A := by
  have all : ∀ value < 16, let c := Nat.digitChar value
      c.toNat < 0x80 ∧ Text.isBlank c = false ∧ c ≠ ',' ∧ c ≠ '#' ∧ c.toNat ≠ 0x0A := by
    decide +kernel
  rw [Hex.encode, String.toList_ofList] at h
  obtain ⟨byte, _, member⟩ := List.mem_flatMap.mp h
  rw [Hex.pair_eq] at member
  obtain ⟨half, inside, rfl⟩ := List.mem_map.mp member
  exact all _ (Hex.half_lt inside)

theorem row_facts {key value : Bytes} {c : Char}
    (h : c ∈ (Hex.encode key).toList ++ ',' :: (Hex.encode value).toList) :
    c.toNat < 0x80 ∧ Text.isBlank c = false ∧ c ≠ '#' ∧ c.toNat ≠ 0x0A := by
  rcases List.mem_append.mp h with digit | rest
  · obtain ⟨ascii, solid, _, others⟩ := digit_facts digit
    exact ⟨ascii, solid, others⟩
  · rcases List.mem_cons.mp rest with rfl | digit
    · decide
    · obtain ⟨ascii, solid, _, others⟩ := digit_facts digit
      exact ⟨ascii, solid, others⟩

theorem holds_row (key value : Bytes) : Holds (row key value) (some (key, value)) := by
  have trimmed (bytes : Bytes) :
      Text.trim (Hex.encode bytes).toList = (Hex.encode bytes).toList :=
    Text.trim_of_solid fun c member => (digit_facts member).2.1
  have spelled (bytes : Bytes) :
      Hex.Spells (Text.trim (Hex.encode bytes).toList) bytes := by
    rw [trimmed]
    exact Hex.decode_eq_ok_iff.mp (Hex.decode_encode bytes)
  have whole := Text.trim_of_solid fun c member => (@row_facts key value c member).2.1
  refine .pair (Utf8.decode?_encode_ascii fun c member => (row_facts member).1) ?_
    ⟨_, _, whole, fun comma => (digit_facts comma).2.2.1 rfl, spelled key, spelled value⟩
  refine eq_true_of_ne_false fun blank => ?_
  rw [not_isData_iff, whole] at blank
  rcases blank with empty | comment
  · simp at empty
  · exact (row_facts (List.mem_of_mem_head? comment)).2.2.1 rfl

theorem lines_row (key value : Bytes) : lines (row key value) = [row key value] := by
  refine lines_of_no_feed ?_ ?_
  · simp [row, Utf8.encode]
  · rw [row, Utf8.encode_ascii fun c member => (row_facts member).1]
    intro feed
    obtain ⟨c, member, same⟩ := List.mem_map.mp feed
    obtain ⟨ascii, _, _, other⟩ := row_facts member
    rw [← Utf8.toNat_ofNat_ascii ascii, same] at other
    exact other rfl

/-- Any pair can be listed, however long its value. -/
theorem lists_row {keySize : UInt32} {key : Bytes} (right : key.length = keySize.toNat)
    (value : Bytes) : Lists keySize (lines (row key value)) [(key, value)] where
  held :=
    ⟨[some (key, value)], by rw [lines_row]; exact .cons (holds_row key value) .nil, rfl⟩
  keys := List.forall_mem_singleton.mpr right
  distinct := List.pairwise_singleton _ key

/-- In another order, in lower case, with blanks around the comma and a
line feed at the end. -/
example : Relation.EqvGen Reformats (Utf8.encode "0A,ff\n0b,".toList)
    (Utf8.encode "0b,\n0a , ff\n".toList) := by
  have reordered : Reformats (Utf8.encode "0A,ff\n0b,".toList)
      (Utf8.encode "0b,\n0A,ff".toList) :=
    .reorder (by decide +kernel)
  have lowered : Reformats (Utf8.encode "0b,\n0A,ff".toList)
      (Utf8.encode "0b,\n0a,ff".toList) :=
    @Reformats.restyle _ _ [Utf8.encode "0b,".toList] [] (Utf8.encode "0A,ff".toList)
      (Utf8.encode "0a,ff".toList) "0A,ff".toList "0a,ff".toList (by decide +kernel)
      (by decide +kernel) (.letters (by decide)) (by decide +kernel) (by decide +kernel)
  have spaced : Reformats (Utf8.encode "0b,\n0a,ff".toList)
      (Utf8.encode "0b,\n0a , ff".toList) :=
    @Reformats.restyle _ _ [Utf8.encode "0b,".toList] [] (Utf8.encode "0a,ff".toList)
      (Utf8.encode "0a , ff".toList) "0a,ff".toList "0a , ff".toList (by decide +kernel)
      (by decide +kernel) (@Restyles.comma ['0', 'a'] ['f', 'f'] [' '] [' '] (by decide)
        (List.forall_mem_singleton.mpr rfl) (List.forall_mem_singleton.mpr rfl))
      (by decide +kernel) (by decide +kernel)
  have ended : Reformats (Utf8.encode "0b,\n0a , ff".toList)
      (Utf8.encode "0b,\n0a , ff\n".toList) :=
    .lastFeed (by decide +kernel)
  exact .trans _ _ _ (.rel _ _ reordered) (.trans _ _ _ (.rel _ _ lowered)
    (.trans _ _ _ (.rel _ _ spaced) (.rel _ _ ended)))

end SortedBlob.Table
