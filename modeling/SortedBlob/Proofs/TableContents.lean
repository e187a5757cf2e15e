import Mathlib.Data.List.Forall2
import Mathlib.Data.List.ReduceOption
import SortedBlob.Proofs.BlobLayout
import SortedBlob.Proofs.HexText
import SortedBlob.Table

/-!
Which tables are read to their end, and what these hold: the pairs that their data lines
spell, each accepted, in their order. Main statements: `Table.build_eq_ok_iff` and
`Table.exists_entries`.
-/

namespace SortedBlob.Table

/-- Neither blank nor a comment. -/
def isData (text : List Char) : Bool :=
  Text.trim text ≠ [] && (Text.trim text).head? ≠ some '#'

/-- The lines of a table that hold pairs, as text. -/
def dataLines (table : Bytes) : List (List Char) :=
  ((lines table).filterMap Utf8.decode?).filter isData

/-- The line is the pair in hexadecimal digits, with a comma between and blanks around. -/
def Spells (text : List Char) (entry : Bytes × Bytes) : Prop :=
  ∃ key value, Text.trim text = key ++ ',' :: value ∧ ',' ∉ key ∧
    Hex.Spells (Text.trim key) entry.1 ∧ Hex.Spells (Text.trim value) entry.2

/-- What there is in a line: one pair, or nothing if it is blank or a comment. -/
inductive Holds (line : Bytes) : Option (Bytes × Bytes) → Prop
  | nothing {text : List Char} :
      Utf8.decode? line = some text → isData text = false → Holds line none
  | pair {text : List Char} {entry : Bytes × Bytes} : Utf8.decode? line = some text →
      isData text = true → Spells text entry → Holds line (some entry)

/-- The lines hold these pairs and no other, with keys of the right
length and no two the same. -/
structure Lists (keySize : UInt32) (read : List Bytes) (entries : Entries) : Prop where
  held : ∃ found, List.Forall₂ Holds read found ∧ found.reduceOption = entries
  keys : ∀ entry ∈ entries, entry.1.length = keySize.toNat
  distinct : (entries.map Prod.fst).Nodup

theorem not_isData_iff {text : List Char} :
    isData text = false ↔ Text.trim text = [] ∨ (Text.trim text).head? = some '#' := by
  simp only [isData, Bool.and_eq_false_iff, decide_eq_false_iff_not, not_not]

/-- A line is split at its first comma. -/
theorem split_at_comma {key : List Char} (first : ',' ∉ key) (value : List Char) :
    (key ++ ',' :: value).takeWhile (· ≠ ',') = key ∧
      (key ++ ',' :: value).dropWhile (· ≠ ',') = ',' :: value := by
  have others : ∀ c ∈ key, decide (c ≠ ',') = true := by
    intro c member
    exact decide_eq_true fun same => first (same ▸ member)
  rw [List.takeWhile_append_of_pos others, List.dropWhile_append_of_pos others]
  simp

theorem spells_iff {text : List Char} {entry : Bytes × Bytes} :
    Spells text entry ↔ ∃ c right, (Text.trim text).dropWhile (· ≠ ',') = c :: right ∧
      Hex.Spells (Text.trim ((Text.trim text).takeWhile (· ≠ ','))) entry.1 ∧
      Hex.Spells (Text.trim right) entry.2 := by
  constructor
  · rintro ⟨key, value, parts, first, hkey, hvalue⟩
    obtain ⟨left, right⟩ := split_at_comma first value
    exact ⟨',', value, by rw [parts, right], by rwa [parts, left], hvalue⟩
  · rintro ⟨c, right, rest, hkey, hvalue⟩
    have comma : c = ',' := by
      have stops := List.head?_dropWhile_not (· ≠ ',') (Text.trim text)
      rw [rest] at stops
      simpa using stops
    subst comma
    refine ⟨_, right, ?_, fun inside => ?_, hkey, hvalue⟩
    · rw [← rest, List.takeWhile_append_dropWhile]
    · simpa using List.mem_takeWhile_imp inside

theorem field_eq_ok_iff {text : List Char} {bytes : Bytes} :
    field text = .ok bytes ↔ Hex.Spells (Text.trim text) bytes := Hex.decode_eq_ok_iff

theorem pair?_of_not_isData {text : List Char} (h : isData text = false) :
    pair? text = .ok none :=
  if_pos (not_isData_iff.mp h)

theorem pair?_eq_ok_iff {text : List Char} {found : Option (Bytes × Bytes)} :
    pair? text = .ok found ↔
      (isData text = false ∧ found = none) ∨
        isData text = true ∧ ∃ entry, Spells text entry ∧ found = some entry := by
  cases data : isData text with
  | false => simp [pair?_of_not_isData data, eq_comm]
  | true =>
      have line : ¬ (Text.trim text = [] ∨ (Text.trim text).head? = some '#') := by
        rw [← not_isData_iff, data]
        exact nofun
      simp only [pair?, if_neg line, spells_iff, ← field_eq_ok_iff]
      cases (Text.trim text).dropWhile (· ≠ ',') with
      | nil => simp
      | cons c right =>
          dsimp only
          cases field ((Text.trim text).takeWhile (· ≠ ',')) with
          | error error => simp [bind, Except.bind, Except.mapError]
          | ok key =>
              cases hvalue : field right with
              | error error => simp [hvalue, bind, Except.bind, Except.mapError]
              | ok value =>
                  simp [hvalue, bind, Except.bind, Except.mapError, pure, Except.pure,
                    eq_comm]

variable {b b' : Builder} {keySize : UInt32} {read : List Bytes} {entries : Entries}

/-- What there is in a line is what is read from it. -/
theorem holds_iff {line : Bytes} {found : Option (Bytes × Bytes)} :
    Holds line found ↔ ∃ text, Utf8.decode? line = some text ∧ pair? text = .ok found := by
  simp only [pair?_eq_ok_iff]
  constructor
  · rintro (⟨decoded, none⟩ | ⟨decoded, data, spells⟩)
    · exact ⟨_, decoded, .inl ⟨none, rfl⟩⟩
    · exact ⟨_, decoded, .inr ⟨data, _, spells, rfl⟩⟩
  · rintro ⟨text, decoded, ⟨none, rfl⟩ | ⟨data, entry, spells, rfl⟩⟩
    · exact .nothing decoded none
    · exact .pair decoded data spells

instance (line : Bytes) (found : Option (Bytes × Bytes)) : Decidable (Holds line found) :=
  decidable_of_iff ((Utf8.decode? line).map pair? = some (.ok found)) <| by
    rw [holds_iff, Option.map_eq_some_iff]

theorem addLine_eq_ok_iff {number : Nat} {line : Bytes} :
    addLine b number line = .ok b' ↔
      ∃ found, Holds line found ∧ b.accepted found.toList = found.toList ∧
        b' = b.addAll found.toList := by
  simp only [holds_iff, addLine]
  cases Utf8.decode? line with
  | none => simp
  | some text =>
      rcases hpair : pair? text with error | _ | ⟨key, value⟩
      · simp [hpair]
      · simp [hpair, Builder.accepted, Builder.addAll, eq_comm]
      · simp only [hpair, Option.some.injEq, exists_eq_left', Except.ok.injEq,
          Option.toList_some, Builder.accepted_singleton_eq_iff]
        cases b.add key value <;> simp [Except.mapError]

theorem addLines_eq_ok_iff {number : Nat} :
    addLines b number read = .ok b' ↔
      ∃ found, List.Forall₂ Holds read found ∧
        b.accepted found.reduceOption = found.reduceOption ∧
          b' = b.addAll found.reduceOption := by
  induction read generalizing b number with
  | nil => simp [addLines, Builder.accepted, Builder.addAll, eq_comm]
  | cons line rest ih =>
      have parts (first : Option (Bytes × Bytes)) (later : List (Option (Bytes × Bytes))) :
          (first :: later).reduceOption = first.toList ++ later.reduceOption := by
        cases first with
        | none => exact List.reduceOption_cons_of_none later
        | some entry => exact List.reduceOption_cons_of_some entry later
      have step : addLines b number (line :: rest) = .ok b' ↔
          ∃ next, addLine b number line = .ok next ∧ addLines next (number + 1) rest =
              .ok b' := by
        rw [addLines]
        cases addLine b number line <;> simp [bind, Except.bind]
      simp only [step, addLine_eq_ok_iff, ih, List.forall₂_cons_left_iff]
      constructor
      · rintro ⟨_, ⟨first, holds, taken, rfl⟩, later, held, accepted, rfl⟩
        refine ⟨first :: later, ⟨first, later, holds, held, rfl⟩, ?_, ?_⟩
        · rw [parts]
          exact Builder.accepted_append_eq_iff.mpr ⟨taken, accepted⟩
        · rw [parts, Builder.addAll_append]
      · rintro ⟨_, ⟨first, later, holds, held, rfl⟩, accepted, rfl⟩
        rw [parts] at accepted ⊢
        obtain ⟨taken, accepted⟩ := Builder.accepted_append_eq_iff.mp accepted
        exact ⟨_, ⟨first, holds, taken, rfl⟩, later, held, accepted,
          Builder.addAll_append ..⟩

theorem Lists.accepted_eq (h : Lists keySize read entries)
    (short : ∀ entry ∈ entries, entry.2.length < UInt32.size) :
    (Builder.mk keySize []).accepted entries = entries :=
  Builder.accepted_empty_eq_self_iff.mpr ⟨h.keys, h.distinct, short⟩

/-- Lines are read to their end if they hold pairs whose values are not too long, and these
are added in their order. -/
theorem addLines_empty_eq_ok_iff {number : Nat} :
    addLines ⟨keySize, []⟩ number read = .ok b ↔
      ∃ entries : Entries, Lists keySize read entries ∧
        (∀ entry ∈ entries, entry.2.length < UInt32.size) ∧
          b = (Builder.mk keySize []).addAll entries := by
  rw [addLines_eq_ok_iff]
  simp only [Builder.accepted_empty_eq_self_iff]
  constructor
  · rintro ⟨found, held, ⟨keys, distinct, short⟩, rfl⟩
    exact ⟨_, ⟨⟨found, held, rfl⟩, keys, distinct⟩, short, rfl⟩
  · rintro ⟨_, ⟨⟨found, held, rfl⟩, keys, distinct⟩, short, rfl⟩
    exact ⟨found, held, ⟨keys, distinct, short⟩, rfl⟩

theorem build_eq_addLines (positive : keySize ≠ 0) (table : Bytes) :
    build keySize table = addLines ⟨keySize, []⟩ 1 (lines table) := by
  have made : Builder.new keySize = .ok ⟨keySize, []⟩ := if_neg positive
  simp only [build, made, Except.mapError, bind, Except.bind]

/-- A table is read to its end if it lists pairs whose values are not too long. -/
theorem build_eq_ok_iff (positive : keySize ≠ 0) {table : Bytes} :
    build keySize table = .ok b ↔
      ∃ entries : Entries, Lists keySize (lines table) entries ∧
        (∀ entry ∈ entries, entry.2.length < UInt32.size) ∧
          b = (Builder.mk keySize []).addAll entries := by
  rw [build_eq_addLines positive, addLines_empty_eq_ok_iff]

theorem forall₂_spells_of_holds {read : List Bytes} {found : List (Option (Bytes × Bytes))}
    (held : List.Forall₂ Holds read found) :
    List.Forall₂ Spells ((read.filterMap Utf8.decode?).filter isData)
      found.reduceOption := by
  induction held with
  | nil => exact .nil
  | cons holds _ ih =>
      rcases holds with ⟨decoded, none⟩ | ⟨decoded, data, spells⟩
      · simpa [decoded, none] using ih
      · simpa [decoded, data] using ⟨spells, ih⟩

/-- A line is one pair at most. -/
theorem Spells.unique {text : List Char} {first second : Bytes × Bytes}
    (h : Spells text first) (h' : Spells text second) : first = second := by
  obtain ⟨c, right, rest, hkey, hvalue⟩ := spells_iff.mp h
  obtain ⟨c', right', rest', hkey', hvalue'⟩ := spells_iff.mp h'
  cases rest.symm.trans rest'
  exact Prod.ext (hkey.unique hkey') (hvalue.unique hvalue')

theorem Holds.unique {line : Bytes} {first second : Option (Bytes × Bytes)}
    (h : Holds line first) (h' : Holds line second) : first = second := by
  obtain ⟨text, decoded, read⟩ := holds_iff.mp h
  obtain ⟨text', decoded', read'⟩ := holds_iff.mp h'
  cases decoded.symm.trans decoded'
  exact Except.ok.inj (read.symm.trans read')

theorem Lists.unique {entries' : Entries} (h : Lists keySize read entries)
    (h' : Lists keySize read entries') : entries = entries' := by
  obtain ⟨found, held, rfl⟩ := h.held
  obtain ⟨found', held', rfl⟩ := h'.held
  have same : found = found' :=
    List.right_unique_forall₂' (R := Holds) (fun _ _ _ => Holds.unique) held held'
  rw [same]

theorem mem_entries_iff {read : List (List Char)} {entries : Entries}
    (spelled : List.Forall₂ Spells read entries) {entry : Bytes × Bytes} :
    entry ∈ entries ↔ ∃ line ∈ read, Spells line entry := by
  induction spelled with
  | nil => simp
  | @cons line first _ _ spells _ ih =>
      rw [List.mem_cons, ih]
      constructor
      · rintro (rfl | ⟨other, member, later⟩)
        · exact ⟨line, List.mem_cons_self .., spells⟩
        · exact ⟨other, List.mem_cons_of_mem _ member, later⟩
      · rintro ⟨other, member, later⟩
        rcases List.mem_cons.mp member with rfl | inside
        · exact .inl (later.unique spells)
        · exact .inr ⟨other, inside, later⟩

/-- A table that was read to its end holds the pairs that its data lines
spell, no two with one key. -/
theorem exists_entries {table : Bytes} (h : build keySize table = .ok b) :
    keySize ≠ 0 ∧ b.WellFormed ∧ b.keySize = keySize ∧
      ∃ entries : Entries, List.Forall₂ Spells (dataLines table) entries ∧
        (entries.map Prod.fst).Nodup ∧ b.entries.Perm entries ∧
        ∀ key, b.entries.lookup key = entries.lookup key := by
  have positive : keySize ≠ 0 := by
    rintro rfl
    cases h
  obtain ⟨entries, lists, short, rfl⟩ := (build_eq_ok_iff positive).mp h
  have accepted := lists.accepted_eq short
  have fresh := Builder.wellFormed_empty keySize
  obtain ⟨found, held, rfl⟩ := lists.held
  refine ⟨positive, fresh.addAll _, Builder.keySize_addAll .., _,
    forall₂_spells_of_holds held, lists.distinct, ?_, fun key => ?_⟩
  · have perm := (Builder.mk keySize []).perm_addAll found.reduceOption
    rwa [accepted, List.append_nil] at perm
  · rw [fresh.lookup_addAll, accepted]
    rfl

end SortedBlob.Table
