import SortedBlob.Command

/-!
Commands as they are written on a command line, and what is said of arguments that are none.
-/

namespace SortedBlob

namespace Command

def usage : String :=
  "usage: build --input FILE --output FILE [--key-size N] | get BLOB KEY [--hex] | info BLOB"

def defaultKeySize : UInt32 := 32

/-- A number as it stands among arguments. A plus sign may come before the digits. -/
def number? (text : String) : Option Nat :=
  let digits :=
    match text.toList with
    | '+' :: digits => digits
    | digits => digits
  if digits ≠ [] ∧ digits.all Char.isDigit then
    some (digits.foldl (fun n digit => 10 * n + (digit.toNat - 0x30)) 0)
  else none

def word? (text : String) : Option UInt32 :=
  match number? text with
  | some n => if n < UInt32.size then some (UInt32.ofNat n) else none
  | none => none

def ofBuildOptions? (input output : Option String) (keySize : Option UInt32) :
    List String → Option Command
  | [] => do return .build (← input) (← output) (keySize.getD defaultKeySize)
  | [_] => none
  | option :: value :: rest =>
      if option = "--input" ∨ option = "-i" then
        ofBuildOptions? (some value) output keySize rest
      else if option = "--output" ∨ option = "-o" then
        ofBuildOptions? input (some value) keySize rest
      else if option = "--key-size" ∨ option = "-k" then
        match word? value with
        | none => none
        | some keySize => ofBuildOptions? input output (some keySize) rest
      else none

def ofGetArguments? (arguments : List String) : Option Command :=
  match arguments.filter (· ≠ "--hex") with
  | [blob, key] => some (.get blob key (arguments.contains "--hex"))
  | _ => none

def ofArguments? : List String → Option Command
  | "build" :: options => ofBuildOptions? none none none options
  | "get" :: arguments => ofGetArguments? arguments
  | ["info", blob] => some (.info blob)
  | _ => none

/-- What is said of a number that is no key size because it is too large. -/
def oversized (text : String) (n : Nat) : Report :=
  let reason :=
    if n < UInt64.size / 2 then toString n ++ " is not in 0..=4294967295"
    else "number too large to fit in target type"
  let complaint := "error: invalid value '" ++ text ++
    "' for '--key-size <KEY_SIZE>': " ++ reason
  ⟨2, "", [.plain complaint, .plain "", .plain "For more information, try '--help'."]⟩

def refuseBuildOptions : List String → Report
  | option :: value :: rest =>
      if option = "--key-size" ∨ option = "-k" then
        match number? value with
        | some n => if n < UInt32.size then refuseBuildOptions rest else oversized value n
        | none => refuseBuildOptions rest
      else refuseBuildOptions rest
  | _ => ⟨2, "", [.plain usage]⟩

/-- What is said of arguments that stand for no command. -/
def refuse : List String → Report
  | "build" :: options => refuseBuildOptions options
  | _ => ⟨2, "", [.plain usage]⟩

end Command

/-- Runs the command that the arguments stand for. -/
def Directory.runArguments (d : Directory) (arguments : List String) : Report × Directory :=
  match Command.ofArguments? arguments with
  | some command => d.run command
  | none => (Command.refuse arguments, d)

end SortedBlob
