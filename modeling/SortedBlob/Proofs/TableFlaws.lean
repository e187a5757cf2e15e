import SortedBlob.Proofs.TableContents

/-!
Which tables are refused, and what is reported of them: what is wrong with the first line
that has something wrong. Main statement: `Table.build_eq_error_iff`.
-/

namespace SortedBlob

/-- Why a pair is refused that comes after these. -/
inductive Builder.Refuses (keySize : UInt32) (seen : Entries) (entry : Bytes × Bytes) :
    BuildError → Prop
  | keySize : entry.1.length ≠ keySize.toNat →
      Refuses keySize seen entry (.keySize keySize entry.1.length)
  | valueTooLong : entry.1.length = keySize.toNat → UInt32.size ≤ entry.2.length →
      Refuses keySize seen entry (.valueTooLong entry.2.length)
  | duplicateKey : entry.1.length = keySize.toNat → entry.2.length < UInt32.size →
      entry.1 ∈ seen.map Prod.fst → Refuses keySize seen entry (.duplicateKey entry.1)

namespace Table

/-- What is wrong with the text of a line that is neither blank nor a comment, nor
spells a pair: its first comma is missing, or else the key before it is no hexadecimal,
or else the value behind it. -/
inductive Garbled (text : List Char) : LineError → Prop
  | missingComma : ',' ∉ Text.trim text → Garbled text .missingComma
  | key {key value : List Char} {error : HexError} : Text.trim text = key ++ ',' :: value →
      ',' ∉ key → Hex.Flaw (Utf8.encode (Text.trim key)) error → Garbled text (.key error)
  | value {key value : List Char} {bytes : Bytes} {error : HexError} :
      Text.trim text = key ++ ',' :: value → ',' ∉ key → Hex.Spells (Text.trim key) bytes →
        Hex.Flaw (Utf8.encode (Text.trim value)) error → Garbled text (.value error)

/-- What is wrong with a line of this number, when the lines before it hold these pairs. -/
inductive Flaw (keySize : UInt32) (seen : Entries) (number : Nat) (line : Bytes) :
    TableError → Prop
  | notUtf8 : Utf8.decode? line = none → Flaw keySize seen number line .notUtf8
  | garbled {text : List Char} {error : LineError} : Utf8.decode? line = some text →
      isData text = true → Garbled text error →
        Flaw keySize seen number line (.line number error)
  | refused {entry : Bytes × Bytes} {error : BuildError} : Holds line (some entry) →
      Builder.Refuses keySize seen entry error →
        Flaw keySize seen number line (.rejected error)

/-- What is wrong with the first line that has something wrong. Lines are counted from one,
and all of them count. -/
def FirstFlaw (keySize : UInt32) (read : List Bytes) (error : TableError) : Prop :=
  ∃ before line after entries, read = before ++ line :: after ∧
    Lists keySize before entries ∧
    (∀ entry ∈ entries, entry.2.length < UInt32.size) ∧
      Flaw keySize entries (before.length + 1) line error

end Table

theorem Builder.WellFormed.add_eq_error_iff {b : Builder} (h : b.WellFormed)
    {key value : Bytes} {error : BuildError} :
    b.add key value = .error error ↔ Refuses b.keySize b.entries (key, value) error := by
  have refusal : b.entries.insert? key value = none ↔ key ∈ b.entries.map Prod.fst :=
    h.insert?_eq_none_iff
  constructor
  · intro failed
    rw [Builder.add] at failed
    split at failed
    · rename_i wrong
      cases failed
      exact .keySize wrong
    · rename_i right
      split at failed
      · rename_i long
        cases failed
        exact .valueTooLong (not_not.mp right) long
      · rename_i short
        cases hentries : b.entries.insert? key value with
        | some entries => simp [hentries] at failed
        | none =>
            rw [hentries] at failed
            cases failed
            exact .duplicateKey (not_not.mp right) (Nat.not_le.mp short)
              (refusal.mp hentries)
  · rintro (wrong | ⟨right, long⟩ | ⟨right, short, held⟩)
    · exact if_pos wrong
    · rw [Builder.add, if_neg (not_not.mpr right), if_pos long]
    · rw [Builder.add, if_neg (not_not.mpr right), if_neg (Nat.not_le.mpr short),
        refusal.mpr held]

theorem Builder.Refuses.mono {keySize : UInt32} {seen seen' : Entries}
    {entry : Bytes × Bytes} {error : BuildError}
    (keys : ∀ key ∈ seen.map Prod.fst, key ∈ seen'.map Prod.fst)
    (h : Refuses keySize seen entry error) : Refuses keySize seen' entry error := by
  cases h with
  | keySize wrong => exact .keySize wrong
  | valueTooLong right long => exact .valueTooLong right long
  | duplicateKey right short held => exact .duplicateKey right short (keys _ held)

namespace Table

theorem field_eq_error_iff {text : List Char} {error : HexError} :
    field text = .error error ↔ Hex.Flaw (Utf8.encode (Text.trim text)) error :=
  Hex.decode_eq_error_iff

theorem garbled_iff {text key value : List Char}
    (parts : Text.trim text = key ++ ',' :: value) (first : ',' ∉ key) {error : LineError} :
    Garbled text error ↔
      (∃ flaw, field key = .error flaw ∧ error = .key flaw) ∨
        ∃ bytes flaw, field key = .ok bytes ∧ field value = .error flaw ∧
          error = .value flaw := by
  have unique {key' value' : List Char} (parts' : Text.trim text = key' ++ ',' :: value')
      (first' : ',' ∉ key') : key = key' ∧ value = value' := by
    obtain ⟨left, right⟩ := split_at_comma first value
    obtain ⟨left', right'⟩ := split_at_comma first' value'
    rw [← parts] at left right
    rw [← parts'] at left' right'
    exact ⟨left.symm.trans left', List.tail_eq_of_cons_eq (right.symm.trans right')⟩
  simp only [field_eq_error_iff, field_eq_ok_iff]
  constructor
  · rintro (missing | ⟨parts', first', flaw⟩ | ⟨parts', first', spells, flaw⟩)
    · exact absurd (parts ▸ List.mem_append_right key (List.mem_cons_self ..)) missing
    · obtain ⟨rfl, rfl⟩ := unique parts' first'
      exact .inl ⟨_, flaw, rfl⟩
    · obtain ⟨rfl, rfl⟩ := unique parts' first'
      exact .inr ⟨_, _, spells, flaw, rfl⟩
  · rintro (⟨_, flaw, rfl⟩ | ⟨_, _, spells, flaw, rfl⟩)
    · exact .key parts first flaw
    · exact .value parts first spells flaw

theorem garbled_of_no_comma {text : List Char} (missing : ',' ∉ Text.trim text)
    {error : LineError} : Garbled text error ↔ error = .missingComma := by
  have absent {key value : List Char} (parts : Text.trim text = key ++ ',' :: value) :
      False :=
    missing (parts ▸ List.mem_append_right key (List.mem_cons_self ..))
  constructor
  · rintro (_ | ⟨parts, _⟩ | ⟨parts, _⟩)
    · rfl
    · exact (absent parts).elim
    · exact (absent parts).elim
  · rintro rfl
    exact .missingComma missing

theorem exists_split {text : List Char} (comma : ',' ∈ text) :
    ∃ key value, text = key ++ ',' :: value ∧ ',' ∉ key :=
  ⟨_, _, (List.eq_append_cons_of_mem comma).choose_spec.choose_spec⟩

theorem pair?_eq_error_iff {text : List Char} {error : LineError} :
    pair? text = .error error ↔ isData text = true ∧ Garbled text error := by
  cases data : isData text with
  | false => simp [pair?_of_not_isData data]
  | true =>
      have line : ¬ (Text.trim text = [] ∨ (Text.trim text).head? = some '#') := by
        rw [← not_isData_iff, data]
        exact nofun
      rw [pair?, if_neg line, and_iff_right rfl]
      by_cases comma : ',' ∈ Text.trim text
      · obtain ⟨key, value, parts, first⟩ := exists_split comma
        obtain ⟨left, right⟩ := split_at_comma first value
        rw [garbled_iff parts first, parts, left, right]
        cases hkey : field key with
        | error flaw => simp [Except.mapError, bind, Except.bind, eq_comm]
        | ok bytes =>
            cases hvalue : field value <;>
              simp [Except.mapError, bind, Except.bind, pure, Except.pure, eq_comm, hvalue]
      · have none : (Text.trim text).dropWhile (· ≠ ',') = [] := by
          refine List.dropWhile_eq_nil_iff.mpr fun c member => decide_eq_true ?_
          rintro rfl
          exact comma member
        rw [garbled_of_no_comma comma, none]
        simp [eq_comm]

variable {b : Builder}

theorem Flaw.mono {keySize : UInt32} {seen seen' : Entries} {number : Nat} {line : Bytes}
    {error : TableError} (keys : ∀ key ∈ seen.map Prod.fst, key ∈ seen'.map Prod.fst)
    (h : Flaw keySize seen number line error) : Flaw keySize seen' number line error := by
  cases h with
  | notUtf8 undecoded => exact .notUtf8 undecoded
  | garbled decoded data garbled => exact .garbled decoded data garbled
  | refused holds refuses => exact .refused holds (refuses.mono keys)

theorem addLine_eq_error_iff (h : b.WellFormed) {number : Nat} {line : Bytes}
    {error : TableError} :
    addLine b number line = .error error ↔ Flaw b.keySize b.entries number line error := by
  rw [addLine]
  constructor
  · intro failed
    cases decoded : Utf8.decode? line with
    | none =>
        rw [decoded] at failed
        cases failed
        exact .notUtf8 decoded
    | some text =>
        rcases hpair : pair? text with error | _ | ⟨key, value⟩
        · obtain ⟨data, garbled⟩ := pair?_eq_error_iff.mp hpair
          simp only [decoded, hpair] at failed
          cases failed
          exact .garbled decoded data garbled
        · simp [decoded, hpair] at failed
        · obtain ⟨_, _, _⟩ | ⟨data, _, spells, same⟩ := pair?_eq_ok_iff.mp hpair
          cases same
          cases hadd : b.add key value with
          | ok added => simp [decoded, hpair, hadd, Except.mapError] at failed
          | error refusal =>
              simp only [decoded, hpair, hadd, Except.mapError] at failed
              cases failed
              exact .refused (.pair decoded data spells) (h.add_eq_error_iff.mp hadd)
  · rintro (undecoded | ⟨decoded, data, garbled⟩ | ⟨⟨_, _⟩ | ⟨decoded, data, spells⟩, refuses⟩)
    · rw [undecoded]
    · simp only [decoded, pair?_eq_error_iff.mpr ⟨data, garbled⟩]
    · simp only [decoded, pair?_eq_ok_iff.mpr (.inr ⟨data, _, spells, rfl⟩),
        h.add_eq_error_iff.mpr refuses, Except.mapError]

/-- Lines fail with the first that does. -/
theorem addLines_eq_error_iff {number : Nat} {read : List Bytes} {error : TableError} :
    addLines b number read = .error error ↔
      ∃ before line after mid, read = before ++ line :: after ∧
        addLines b number before = .ok mid ∧
          addLine mid (number + before.length) line = .error error := by
  induction read generalizing b number with
  | nil =>
      refine iff_of_false nofun ?_
      rintro ⟨before, line, after, _, parts, _⟩
      cases before <;> cases parts
  | cons first rest ih =>
      rw [addLines]
      cases hfirst : addLine b number first with
      | error failure =>
          constructor
          · intro failed
            cases failed
            exact ⟨[], first, rest, b, rfl, rfl, hfirst⟩
          · rintro ⟨_ | ⟨other, before⟩, line, after, mid, parts, passed, failed⟩
            · cases parts
              cases passed
              exact hfirst.symm.trans failed
            · cases parts
              simp [addLines, hfirst, bind, Except.bind] at passed
      | ok next =>
          have past (before : List Bytes) :
              addLines b number (first :: before) = addLines next (number + 1) before := by
            simp only [addLines, hfirst, bind, Except.bind]
          refine (ih : addLines next (number + 1) rest = .error error ↔ _).trans ?_
          constructor
          · rintro ⟨before, line, after, mid, rfl, passed, failed⟩
            refine ⟨first :: before, line, after, mid, rfl, (past before).trans passed, ?_⟩
            rwa [List.length_cons, Nat.add_comm before.length, ← Nat.add_assoc]
          · rintro ⟨_ | ⟨other, before⟩, line, after, mid, parts, passed, failed⟩
            · cases parts
              cases passed
              cases hfirst.symm.trans failed
            · cases parts
              refine ⟨before, line, after, mid, rfl, (past before).symm.trans passed, ?_⟩
              rwa [List.length_cons, Nat.add_comm before.length, ← Nat.add_assoc] at failed

/-- A table is refused for what is wrong with the first line that has something wrong. -/
theorem build_eq_error_iff {keySize : UInt32} (positive : keySize ≠ 0) {table : Bytes}
    {error : TableError} :
    build keySize table = .error error ↔ FirstFlaw keySize (lines table) error := by
  have fresh := Builder.wellFormed_empty keySize
  have flaw_iff {entries : Entries}
      (accepted : (Builder.mk keySize []).accepted entries = entries)
      {number : Nat} {line : Bytes} :
      addLine ((Builder.mk keySize []).addAll entries) number line = .error error ↔
        Flaw keySize entries number line error := by
    have keys (key : Bytes) :
      key ∈ ((Builder.mk keySize []).addAll entries).entries.map Prod.fst ↔
        key ∈ entries.map Prod.fst := by
      rw [Builder.mem_keys_addAll rfl, accepted]
    rw [addLine_eq_error_iff (fresh.addAll entries), Builder.keySize_addAll]
    exact ⟨Flaw.mono fun key => (keys key).mp, Flaw.mono fun key => (keys key).mpr⟩
  rw [build_eq_addLines positive, addLines_eq_error_iff]
  constructor
  · rintro ⟨before, line, after, mid, parts, passed, failed⟩
    obtain ⟨entries, lists, short, rfl⟩ := addLines_empty_eq_ok_iff.mp passed
    rw [Nat.add_comm, flaw_iff (lists.accepted_eq short)] at failed
    exact ⟨before, line, after, entries, parts, lists, short, failed⟩
  · rintro ⟨before, line, after, entries, parts, lists, short, flaw⟩
    refine ⟨before, line, after, _, parts,
      addLines_empty_eq_ok_iff.mpr ⟨_, lists, short, rfl⟩, ?_⟩
    rw [Nat.add_comm, flaw_iff (lists.accepted_eq short)]
    exact flaw

end Table

end SortedBlob
