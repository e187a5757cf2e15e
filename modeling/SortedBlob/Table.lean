import SortedBlob.Builder
import SortedBlob.Text.Blank
import SortedBlob.Text.Utf8

/-!
Tables of pairs as text: a line `hexkey,hexvalue` for each, among blank lines and comments
behind `#`. The first line with something wrong decides what is reported.
-/

namespace SortedBlob

inductive LineError where
  | missingComma
  | key (error : HexError)
  | value (error : HexError)
  deriving DecidableEq, Repr

def LineError.message : LineError → String
  | .missingComma => "expected `hexkey,hexvalue`"
  | .key error => "key: " ++ error.message
  | .value error => "value: " ++ error.message

inductive TableError where
  | notUtf8
  | line (number : Nat) (error : LineError)
  | rejected (error : BuildError)
  | unreadable (error : IoError)
  deriving DecidableEq, Repr

def TableError.message : TableError → String
  | .notUtf8 => "stream did not contain valid UTF-8"
  | .line number error => s!"line {number}: " ++ error.message
  | .rejected error => error.message
  | .unreadable error => error.message

namespace Table

/-- What stands between line feeds; what follows the last one counts if
there is anything. -/
def lines : Bytes → List Bytes
  | [] => []
  | byte :: rest =>
      if byte = 0x0A then [] :: lines rest
      else
        match lines rest with
        | [] => [[byte]]
        | line :: more => (byte :: line) :: more

def field (text : List Char) : Except HexError Bytes :=
  Hex.decode (Utf8.encode (Text.trim text))

/-- The pair in a line, which is split at its first comma; none if it
is blank or a comment. -/
def pair? (text : List Char) : Except LineError (Option (Bytes × Bytes)) :=
  let line := Text.trim text
  if line = [] ∨ line.head? = some '#' then .ok none
  else
    match line.dropWhile (· ≠ ',') with
    | [] => .error .missingComma
    | _ :: right => do
        let key ← (field (line.takeWhile (· ≠ ','))).mapError .key
        let value ← (field right).mapError .value
        return some (key, value)

def addLine (b : Builder) (number : Nat) (line : Bytes) : Except TableError Builder :=
  match Utf8.decode? line with
  | none => .error .notUtf8
  | some text =>
      match pair? text with
      | .error error => .error (.line number error)
      | .ok none => .ok b
      | .ok (some (key, value)) => (b.add key value).mapError .rejected

def addLines (b : Builder) (number : Nat) : List Bytes → Except TableError Builder
  | [] => .ok b
  | line :: rest => do
      let b ← addLine b number line
      addLines b (number + 1) rest

def build (keySize : UInt32) (table : Bytes) : Except TableError Builder := do
  let b ← (Builder.new keySize).mapError .rejected
  addLines b 1 (lines table)

end Table

end SortedBlob
