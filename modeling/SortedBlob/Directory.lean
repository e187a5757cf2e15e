import SortedBlob.Path
import SortedBlob.Sink
import SortedBlob.Store

/-!
Named files. A folder is there as long as some file lies in it; the directory itself and all
that is above it are always there. Main statement: `lookup_put`.
-/

namespace SortedBlob

/-- What a name can stand for. -/
inductive Node where
  | file (content : Bytes)
  | folder
  deriving DecidableEq, Repr

namespace Node

def folderLength : UInt64 := 4096

/-- A folder has a length as well, but no bytes that could be read. -/
def store : Node → Store
  | .file content => Store.ofBytes content
  | .folder => ⟨folderLength, fun _ => .error .isDirectory⟩

end Node

structure Directory where
  files : List (Place × Bytes)
  deriving DecidableEq, Repr

namespace Directory

def hasFolder (d : Directory) (place : Place) : Bool :=
  place == Place.root || place.all (· = Path.up) || d.files.any fun (file, _) =>
    place.isPrefixOf file

def node? (d : Directory) (place : Place) : Option Node :=
  match d.files.lookup place with
  | some content => some (.file content)
  | none => if d.hasFolder place then some .folder else none

def requireFolder (d : Directory) (place : Place) : Except IoError Unit :=
  match d.node? place with
  | some .folder => .ok ()
  | some (.file _) => .error .notDirectory
  | none => .error .noSuchFile

/-- Follows the parts one by one. Whatever they start from has to be a folder. -/
def walk (d : Directory) : Place → List Path.Part → Except IoError Place
  | place, [] => .ok place
  | place, part :: rest => do
      d.requireFolder place
      if Path.isTooLong Path.partLimit part then .error .nameTooLong
      else d.walk (place.step part) rest

def get (d : Directory) (name : String) : Except IoError Node := do
  let p ← Path.parse name
  let place ← d.walk p.start p.steps
  match d.node? place with
  | some node => .ok node
  | none => .error .noSuchFile

def contents? (d : Directory) (name : String) : Option Bytes :=
  match d.get name with
  | .ok (.file content) => some content
  | _ => none

/-- Where a file of this name is to be written. A name that can only be a folder's is
refused before it is looked up. -/
def target (d : Directory) (p : Path) : Except IoError Place :=
  match p.parts.getLast? with
  | none => .error .isDirectory
  | some part => do
      let folder ← d.walk p.start p.parts.dropLast
      d.requireFolder folder
      let place := folder.step part
      if part = Path.here ∨ part = Path.up ∨ p.slashed then .error .isDirectory
      else if Path.isTooLong Path.partLimit part then .error .nameTooLong
      else if d.node? place = some .folder then .error .isDirectory
      else .ok place

def put (place : Place) (content : Bytes) : List (Place × Bytes) → List (Place × Bytes)
  | [] => [(place, content)]
  | file :: rest =>
      if file.1 = place then (place, content) :: rest else file :: put place content rest

/-- Puts each file where its name leads, and takes the folders on the way to be there. -/
def ofFiles (files : List (String × Bytes)) : Directory :=
  ⟨files.foldl (fun placed (name, content) => put (Path.ofName name).place content placed) []⟩

/-- Makes the file, or replaces all of its content. -/
def write (d : Directory) (name : String) (content : Bytes) : Except IoError Directory := do
  let p ← Path.parse name
  let place ← d.target p
  return ⟨put place content d.files⟩

theorem lookup_put (place : Place) (content : Bytes) (files : List (Place × Bytes))
    (other : Place) :
    (put place content files).lookup other =
      if other = place then some content else files.lookup other := by
  induction files with
  | nil =>
      by_cases h : other = place
      · simp [put, h]
      · simp [put, List.lookup_cons, h, beq_eq_false_iff_ne.mpr h]
  | cons file rest ih =>
      obtain ⟨first, bytes⟩ := file
      by_cases taken : first = place
      · subst taken
        by_cases h : other = first
        · simp [put, h]
        · simp [put, List.lookup_cons, h, beq_eq_false_iff_ne.mpr h]
      · by_cases h : other = first
        · subst h
          simp [put, taken]
        · simp [put, taken, List.lookup_cons, beq_eq_false_iff_ne.mpr h, ih]

/-- A file that was opened: what is written goes behind what it holds. -/
def file (place : Place) : Sink Directory where
  write bytes d :=
    (.ok bytes.length, ⟨put place ((d.files.lookup place).getD [] ++ bytes) d.files⟩)
  flush d := (.ok (), d)

theorem put_put (place : Place) (content other : Bytes) (files : List (Place × Bytes)) :
    put place content (put place other files) = put place content files := by
  induction files with
  | nil => simp only [put, if_true]
  | cons file rest ih =>
      by_cases taken : file.1 = place
      · simp only [put, taken, if_true]
      · simp only [put, taken, if_false, ih]

theorem collects_file (place : Place) (files : List (Place × Bytes)) :
    (file place).Collects fun held => ⟨put place held files⟩ where
  write bytes held := by simp only [file, lookup_put, if_true, Option.getD_some, put_put]
  flush _ := rfl

end Directory

/-- The file is opened, made or emptied, and the blob is written to it. -/
def Builder.writeFile (b : Builder) (name : String) (d : Directory) :
    Except BuildError Trailer × Directory :=
  match d.write name [] with
  | .error error => (.error (.io error), d)
  | .ok opened => b.writeTo (Directory.file (Path.ofName name).place) opened

end SortedBlob
