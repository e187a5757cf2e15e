import SortedBlob.IoError
import SortedBlob.Text.Split
import SortedBlob.Text.Utf8

/-!
Names of files as paths: parts between slashes, of which one dot stands for the folder
reached so far and two dots for the one above it.
-/

namespace SortedBlob

namespace Path

abbrev Part := List Char

def here : Part := ['.']

def up : Part := ['.', '.']

/-- How many bytes a part may have. -/
def partLimit : Nat := 255

/-- How many bytes a name may have. -/
def nameLimit : Nat := 4095

def isTooLong (limit : Nat) (text : List Char) : Bool := limit < (Utf8.encode text).length

end Path

/-- Where something lies: the parts that lead there from a given folder. Those that lead up
come first. What lies below the root has a slash as its first part. -/
abbrev Place := List Path.Part

namespace Place

def root : Place := [['/']]

/-- Nothing is above the root. -/
def parent (place : Place) : Place :=
  if place = root then root
  else if place.all (· = Path.up) then place ++ [Path.up]
  else place.dropLast

def step (place : Place) (part : Path.Part) : Place :=
  if part = Path.here then place
  else if part = Path.up then place.parent
  else place ++ [part]

end Place

structure Path where
  /-- Whether it starts at the root. -/
  rooted : Bool
  /-- None of them is empty. -/
  parts : List Path.Part
  /-- Whether a slash at its end says that it is a folder. -/
  slashed : Bool
  deriving DecidableEq, Repr

namespace Path

def ofName (name : String) : Path where
  rooted := name.toList.head? = some '/'
  parts := (Text.split '/' name.toList).filter (· ≠ [])
  slashed := name.toList.getLast? = some '/'

/-- The path that a name stands for, if it can stand for one. -/
def parse (name : String) : Except IoError Path :=
  if name.toList.contains '\x00' then .error .nulInName
  else if isTooLong nameLimit name.toList then .error .nameTooLong
  else .ok (ofName name)

def start (p : Path) : Place := if p.rooted then Place.root else []

/-- Where it leads if all folders on the way are there. -/
def place (p : Path) : Place := p.parts.foldl Place.step p.start

/-- The parts that have to lead to something there. -/
def steps (p : Path) : List Part := if p.slashed then p.parts ++ [here] else p.parts

end Path

end SortedBlob
