import SortedBlob.Directory
import SortedBlob.Session
import SortedBlob.Table
import SortedBlob.Text.Control

/-!
The commands of the tool: making a blob from a table, looking up a key, showing a trailer.
-/

namespace SortedBlob

inductive Command where
  | build (input output : String) (keySize : UInt32)
  | get (blob key : String) (asHex : Bool)
  | info (blob : String)
  deriving DecidableEq, Repr

inductive LogLine where
  | error (text : String)
  | info (text : String)
  | debug (text : String)
  | plain (text : String)
  deriving DecidableEq, Repr

/-- Only text of the log proper is made safe for terminals. -/
def LogLine.render : LogLine → String
  | .error text => "ERROR: " ++ Text.inert text
  | .info text => "INFO: " ++ Text.inert text
  | .debug text => "DEBUG: " ++ Text.inert text
  | .plain text => text

structure Report where
  exitCode : UInt32
  output : String
  log : List LogLine
  deriving DecidableEq, Repr

namespace Report

def success (output : String) (log : List LogLine) : Report := ⟨0, output, log⟩

def notFound (log : List LogLine) : Report := ⟨1, "", log ++ [.plain "not found"]⟩

def failure (message : String) : Report := ⟨2, "", [.error message]⟩

end Report

/-- What a command does once its input is known. -/
inductive Action where
  | report (report : Report)
  | store (name : String) (b : Builder) (stored : Report)
  deriving DecidableEq, Repr

def Trailer.describe (t : Trailer) : String :=
  let ⟨version, keySize, entryCount, indexOffset⟩ := t
  let recordSize := t.recordSize
  s!"version:      {version}\nkey_size:     {keySize}\nentry_count:  {entryCount}\n" ++
    s!"index_offset: {indexOffset}\nrecord_size:  {recordSize}\n"

def Stats.describe (stats : Stats) : String :=
  let reads := stats.rangeReads
  let bytes := stats.bytesRead
  s!"{reads} range reads, {bytes} bytes read"

def Builder.describe (b : Builder) (output : String) : String :=
  let count := b.entries.length
  let keySize := b.keySize
  let indexOffset := b.trailer.indexOffset
  s!"Wrote {count} entries of {keySize}-byte keys to {output} (index at {indexOffset})"

def Interruption.message : Interruption → String
  | .failed error => "IO error: " ++ error.message
  | .dropped => "dropped"

def Answer.value? : Answer → Option Bytes
  | .value v => v
  | _ => none

namespace Command

/-- The one file that a command reads. -/
def input : Command → String
  | .build input _ _ => input
  | .get blob _ _ => blob
  | .info blob => blob

/-- A value as one line. -/
def shown (asHex : Bool) (value : Bytes) : String :=
  (if asHex then Hex.encode value else String.ofList (Utf8.decodeLossy value)) ++ "\n"

/-- A folder can be opened as a table, and is found to be none when its
first line is read. -/
def tableOf (keySize : UInt32) : Node → Except TableError Builder
  | .file table => Table.build keySize table
  | .folder =>
      match Builder.new keySize with
      | .error error => .error (.rejected error)
      | .ok _ => .error (.unreadable .isDirectory)

def buildFrom (table : Node) (output : String) (keySize : UInt32) : Action :=
  match tableOf keySize table with
  | .error error => .report (.failure error.message)
  | .ok b => .store output b (.success "" [.info (b.describe output)])

def getFrom (blob : Node) (key : Bytes) (asHex : Bool) : Report :=
  match (Session.new {}).ask blob.store.source (.lookup key) () with
  | (.error interruption, _) => .failure interruption.message
  | (.ok (.error error), _) => .failure error.message
  | (.ok (.ok answer), s, _) =>
      let log := [.debug s.stats.describe]
      match answer.value? with
      | some value => .success (shown asHex value) log
      | none => .notFound log

def infoFrom (blob : Node) : Report :=
  match (Session.new {}).loadTrailer blob.store.source () with
  | (.error interruption, _) => .failure interruption.message
  | (.ok (.error error), _) => .failure (LookupError.format error).message
  | (.ok (.ok t), _) => .success t.describe []

/-- A key that is not hexadecimal is reported before a file that is not there. -/
def respond (command : Command) (opened : Except IoError Node) : Action :=
  match command, opened with
  | .build _ _ _, .error error => .report (.failure error.message)
  | .build _ output keySize, .ok table => buildFrom table output keySize
  | .get _ key asHex, opened =>
      match Hex.decode (Utf8.encode key.toList), opened with
      | .error error, _ => .report (.failure error.message)
      | .ok _, .error error => .report (.failure error.message)
      | .ok key, .ok blob => .report (getFrom blob key asHex)
  | .info _, .error error => .report (.failure error.message)
  | .info _, .ok blob => .report (infoFrom blob)

end Command

namespace Directory

def run (d : Directory) (command : Command) : Report × Directory :=
  match command.respond (d.get command.input) with
  | .report report => (report, d)
  | .store name b stored =>
      match b.writeFile name d with
      | (.ok _, d) => (stored, d)
      | (.error error, d) => (.failure error.message, d)

end Directory

end SortedBlob
