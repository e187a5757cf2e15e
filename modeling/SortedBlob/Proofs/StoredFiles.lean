import Mathlib.Data.List.Basic
import SortedBlob.Directory

/-!
A file that was written is found under its name, and nothing else has changed. Main
statements: `Directory.get_of_write`, `Directory.contents?_of_write` and
`Builder.writeFile_of_write`.
-/

namespace SortedBlob

/-- One step after the other succeeds if both do. -/
theorem bind_eq_ok_iff {ε α β : Type} {first : Except ε α} {second : α → Except ε β}
    {result : β} :
    (first >>= second) = .ok result ↔
    ∃ found, first = .ok found ∧ second found = .ok result := by
  cases first <;> simp [bind, Except.bind]

namespace Path

theorem parse_eq_ok {name : String} {p : Path} (h : parse name = .ok p) :
    p = ofName name := by
  unfold parse at h
  split at h
  · cases h
  · split at h
    · cases h
    · exact (Except.ok.inj h).symm

/-- A slash at the end leads nowhere else. -/
theorem foldl_steps (p : Path) : p.steps.foldl Place.step p.start = p.place := by
  unfold steps
  split
  · rw [List.foldl_append, List.foldl_cons, List.foldl_nil, Place.step, if_pos rfl, place]
  · rfl

end Path

namespace Directory

variable {d d' : Directory} {place : Place} {content : Bytes}

theorem any_put (P : Place → Bool) (files : List (Place × Bytes)) :
    (put place content files).any (fun file => P file.1) =
      (P place || files.any fun file => P file.1) := by
  induction files with
  | nil => rfl
  | cons file rest ih =>
      rw [put]
      split
      · rename_i same
        simp [same]
      · rw [List.any_cons, List.any_cons, ih, Bool.or_left_comm]

theorem node?_eq_folder_iff :
    d.node? place = some .folder ↔
    d.files.lookup place = none ∧ d.hasFolder place = true := by
  unfold node?
  cases d.files.lookup place <;> simp

/-- What lies above a folder is a folder. -/
theorem hasFolder_of_prefix {folder above : Place} (h : d.hasFolder folder = true)
    (leads : above <+: folder) : d.hasFolder above = true := by
  simp only [hasFolder, Bool.or_eq_true, beq_iff_eq, List.all_eq_true,
    List.any_eq_true] at h ⊢
  rcases h with (rfl | ups) | ⟨file, member, inside⟩
  · rcases List.prefix_cons_iff.mp leads with rfl | ⟨rest, rfl, last⟩
    · exact .inl (.inr nofun)
    · rw [List.prefix_nil.mp last]
      exact .inl (.inl rfl)
  · exact .inl (.inr fun part member => ups part (leads.subset member))
  · exact .inr ⟨file, member,
      List.isPrefixOf_iff_prefix.mpr (leads.trans (List.isPrefixOf_iff_prefix.mp inside))⟩

section

variable {folder : Place} {part : Path.Part} (isFolder : d.node? folder = some .folder)

include isFolder

/-- A file in a folder makes a difference where it lies and nowhere else. -/
theorem node?_put_of_ne {other : Place} (apart : other ≠ folder ++ [part]) :
    (Directory.mk (put (folder ++ [part]) content d.files)).node? other =
      d.node? other := by
  have same : hasFolder ⟨put (folder ++ [part]) content d.files⟩ other =
      d.hasFolder other := by
    have found :
      ((put (folder ++ [part]) content d.files).any fun file => other.isPrefixOf file.1) =
        (other.isPrefixOf (folder ++ [part]) || d.files.any fun file =>
            other.isPrefixOf file.1) :=
      any_put other.isPrefixOf d.files
    rw [hasFolder, hasFolder, found]
    cases above : other.isPrefixOf (folder ++ [part]) with
    | false => rw [Bool.false_or]
    | true =>
        have leads : other <+: folder := by
          rcases List.prefix_concat_iff.mp
            (List.isPrefixOf_iff_prefix.mp above) with same | leads
          · exact absurd same apart
          · exact leads
        have already := hasFolder_of_prefix (node?_eq_folder_iff.mp isFolder).2 leads
        rw [hasFolder] at already
        rw [already, Bool.true_or, Bool.or_true]
  rw [node?, node?, lookup_put, if_neg apart, same]

theorem node?_put_eq_folder_iff (free : d.node? (folder ++ [part]) ≠ some .folder)
    {other : Place} :
    (Directory.mk (put (folder ++ [part]) content d.files)).node? other = some .folder ↔
      d.node? other = some .folder := by
  by_cases same : other = folder ++ [part]
  · subst same
    refine iff_of_false ?_ free
    simp [node?, lookup_put]
  · rw [node?_put_of_ne isFolder same]

end

theorem requireFolder_eq_ok_iff :
    d.requireFolder place = .ok () ↔ d.node? place = some .folder := by
  unfold requireFolder
  split <;> simp [*]

theorem walk_cons_eq_ok_iff {part : Path.Part} {rest : List Path.Part} {target : Place} :
    d.walk place (part :: rest) = .ok target ↔
      d.node? place = some .folder ∧ Path.isTooLong Path.partLimit part = false ∧
        d.walk (place.step part) rest = .ok target := by
  rw [walk, bind_eq_ok_iff, ← requireFolder_eq_ok_iff]
  cases Path.isTooLong Path.partLimit part <;> simp [Unique.exists_iff]

/-- Where the parts lead is a matter of the folders. -/
theorem walk_congr {parts : List Path.Part} {target : Place}
    (same : ∀ folder, d.node? folder = some .folder ↔ d'.node? folder = some .folder) :
    d.walk place parts = .ok target ↔ d'.walk place parts = .ok target := by
  induction parts generalizing place with
  | nil => exact .rfl
  | cons part rest ih => rw [walk_cons_eq_ok_iff, walk_cons_eq_ok_iff, same, ih]

theorem walk_eq_ok {parts : List Path.Part} {target : Place}
    (h : d.walk place parts = .ok target) :
    target = parts.foldl Place.step place := by
  induction parts generalizing place with
  | nil =>
      cases h
      rfl
  | cons part rest ih => exact ih (walk_cons_eq_ok_iff.mp h).2.2

theorem walk_append_singleton {parts : List Path.Part} {part : Path.Part} {folder : Place}
    (h : d.walk place parts = .ok folder) (isFolder : d.node? folder = some .folder)
    (short : Path.isTooLong Path.partLimit part = false) :
    d.walk place (parts ++ [part]) = .ok (folder.step part) := by
  induction parts generalizing place with
  | nil =>
      cases h
      exact walk_cons_eq_ok_iff.mpr ⟨isFolder, short, rfl⟩
  | cons first rest ih =>
      obtain ⟨here, fine, later⟩ := walk_cons_eq_ok_iff.mp h
      exact walk_cons_eq_ok_iff.mpr ⟨here, fine, ih later⟩

/-- A file can be written in a folder, where its name leads, unless there
is a folder of that name. -/
theorem target_eq_ok {p : Path} (h : d.target p = .ok place) :
    ∃ folder part, place = folder ++ [part] ∧ d.node? folder = some .folder ∧
      d.node? place ≠ some .folder ∧ d.walk p.start p.steps = .ok place := by
  unfold target at h
  split at h
  · cases h
  · rename_i part last
    obtain ⟨folder, walked, h⟩ := bind_eq_ok_iff.mp h
    obtain ⟨_, required, h⟩ := bind_eq_ok_iff.mp h
    have isFolder := requireFolder_eq_ok_iff.mp required
    dsimp only at h
    split at h
    · cases h
    · rename_i named
      split at h
      · cases h
      · rename_i short
        split at h
        · cases h
        · rename_i free
          cases h
          have unslashed : p.slashed ≠ true := fun slashed => named (.inr (.inr slashed))
          have below : folder.step part = folder ++ [part] := by
            rw [Place.step, if_neg fun same => named (.inl same),
              if_neg fun same => named (.inr (.inl same))]
          refine ⟨folder, part, below, isFolder, free, ?_⟩
          rw [Path.steps, if_neg unslashed, ← List.dropLast_append_getLast? part last]
          exact walk_append_singleton walked isFolder (by simpa using short)

theorem write_eq_ok {name : String} (h : d.write name content = .ok d') :
    ∃ p place, Path.parse name = .ok p ∧ d.target p = .ok place ∧
      d' = ⟨put place content d.files⟩ := by
  obtain ⟨p, parsed, h⟩ := bind_eq_ok_iff.mp h
  obtain ⟨place, target, h⟩ := bind_eq_ok_iff.mp h
  cases h
  exact ⟨p, place, parsed, target, rfl⟩

/-! Whether a file can be written is a matter of its name. -/

theorem write_of_write {name : String} (h : d.write name content = .ok d') (other : Bytes) :
    d.write name other = .ok ⟨put (Path.ofName name).place other d.files⟩ := by
  obtain ⟨p, place, parsed, target, _⟩ := write_eq_ok h
  obtain ⟨_, _, _, _, _, walked⟩ := target_eq_ok target
  have leads : place = (Path.ofName name).place := by
    rw [walk_eq_ok walked, Path.foldl_steps, Path.parse_eq_ok parsed]
  rw [← leads]
  exact bind_eq_ok_iff.mpr ⟨p, parsed, bind_eq_ok_iff.mpr ⟨place, target, rfl⟩⟩

theorem write_eq_error {name : String} {error : IoError}
    (h : d.write name content = .error error) (other : Bytes) :
    d.write name other = .error error := by
  cases hparse : Path.parse name with
  | error first => simpa [write, hparse, bind, Except.bind] using h
  | ok p =>
      cases htarget : d.target p with
      | error first => simpa [write, hparse, htarget, bind, Except.bind] using h
      | ok place => simp [write, hparse, htarget, bind, Except.bind, pure, Except.pure] at h

theorem get_eq_ok_iff {name : String} {node : Node} :
    d.get name = .ok node ↔
      ∃ p, Path.parse name = .ok p ∧ d.walk p.start p.steps = .ok p.place ∧
        d.node? p.place = some node := by
  rw [get, bind_eq_ok_iff]
  refine exists_congr fun p => and_congr_right fun _ => ?_
  rw [bind_eq_ok_iff]
  constructor
  · rintro ⟨place, walked, found⟩
    obtain rfl := (walk_eq_ok walked).trans p.foldl_steps
    refine ⟨walked, ?_⟩
    split at found
    · rename_i node there
      rw [there, Except.ok.inj found]
    · cases found
  · rintro ⟨walked, found⟩
    exact ⟨_, walked, by rw [found]⟩

theorem get_of_write {name : String} (h : d.write name content = .ok d') :
    d'.get name = .ok (.file content) := by
  obtain ⟨p, place, hparse, htarget, rfl⟩ := write_eq_ok h
  obtain ⟨folder, part, below, isFolder, free, walked⟩ := target_eq_ok htarget
  obtain rfl := (walk_eq_ok walked).trans p.foldl_steps
  rw [below] at free
  refine get_eq_ok_iff.mpr ⟨p, hparse, ?_, ?_⟩
  · rw [below] at walked ⊢
    exact (walk_congr fun _ => node?_put_eq_folder_iff isFolder free).mpr walked
  · rw [node?, lookup_put, if_pos rfl]

theorem contents?_eq_some_iff {name : String} {held : Bytes} :
    d.contents? name = some held ↔ d.get name = .ok (.file held) := by
  unfold contents?
  split
  · rename_i found
    simp [found]
  · rename_i other
    exact iff_of_false nofun (other held)

/-- No file has changed but the one that was written. -/
theorem lookup_of_write {name : String} (h : d.write name content = .ok d')
    (other : Place) :
    d'.files.lookup other =
      if other = (Path.ofName name).place then some content else d.files.lookup other := by
  obtain rfl := Except.ok.inj (h.symm.trans (write_of_write h content))
  exact lookup_put _ content d.files other

/-- What is found under a name that leads elsewhere is what was found there before. -/
theorem contents?_of_write {name : String} (h : d.write name content = .ok d')
    {other : String} (apart : (Path.ofName other).place ≠ (Path.ofName name).place) :
    d'.contents? other = d.contents? other := by
  obtain ⟨p, place, hparse, htarget, rfl⟩ := write_eq_ok h
  obtain ⟨folder, part, below, isFolder, free, walked⟩ := target_eq_ok htarget
  obtain rfl := (walk_eq_ok walked).trans p.foldl_steps
  rw [← Path.parse_eq_ok hparse, below] at apart
  rw [below] at free ⊢
  apply Option.ext
  intro held
  simp only [contents?_eq_some_iff, get_eq_ok_iff,
    walk_congr fun _ => node?_put_eq_folder_iff isFolder free]
  refine exists_congr fun q => and_congr_right fun hq => and_congr_right fun _ => ?_
  rw [← Path.parse_eq_ok hq] at apart
  rw [node?_put_of_ne isFolder apart]

end Directory

namespace Builder

variable {b : Builder} {d d' : Directory} {name : String}

/-- What was written piece by piece is what would be written in one go. -/
theorem writeFile_of_write (h : d.write name b.blob = .ok d') :
    b.writeFile name d = (.ok b.trailer, d') := by
  have opened := Directory.write_of_write h []
  have written := Directory.write_of_write h b.blob
  rw [writeFile, opened, Except.ok.inj (h.symm.trans written)]
  exact (Directory.collects_file _ d.files).writeTo_eq b

theorem writeFile_of_error {content : Bytes} {error : IoError}
    (h : d.write name content = .error error) :
    b.writeFile name d = (.error (.io error), d) := by
  rw [writeFile, Directory.write_eq_error h []]

end Builder

end SortedBlob
