import SortedBlob.Command.Arguments

/-!
The tool on real files.
-/

namespace SortedBlob.Tool

def directoryCode : UInt32 := 21

def invalidCode : UInt32 := 22

def ioError : IO.Error → IoError
  | .noFileOrDirectory _ _ _ => .noSuchFile
  | .permissionDenied _ _ _ => .permissionDenied
  | .inappropriateType _ code _ =>
    if code = directoryCode then .isDirectory else .notDirectory
  | .invalidArgument _ code _ => if code = invalidCode then .nulInName else .nameTooLong
  | error => ⟨.other, toString error⟩

def readFile (name : String) : IO (Except IoError Node) := do
  match ← (IO.FS.readBinFile name).toBaseIO with
  | .ok content => return .ok (.file content.toList)
  | .error error =>
      let error := ioError error
      return if error = .isDirectory then .ok .folder else .error error

def writeFile (name : String) (content : Bytes) : IO (Except IoError Unit) := do
  match ← (IO.FS.writeBinFile name (ByteArray.mk content.toArray)).toBaseIO with
  | .ok () => return .ok ()
  | .error error => return .error (ioError error)

def emit (report : Report) : IO UInt32 := do
  for line in report.log do
    IO.eprintln line.render
  IO.print report.output
  return report.exitCode

def run (command : Command) : IO UInt32 := do
  match command.respond (← readFile command.input) with
  | .report report => emit report
  | .store name b stored =>
      match b.finish with
      | .error error => emit (.failure error.message)
      | .ok blob =>
          match ← writeFile name blob with
          | .ok () => emit stored
          | .error error => emit (.failure (BuildError.io error).message)

end SortedBlob.Tool

def main (arguments : List String) : IO UInt32 :=
  match SortedBlob.Command.ofArguments? arguments with
  | some command => SortedBlob.Tool.run command
  | none => SortedBlob.Tool.emit (SortedBlob.Command.refuse arguments)
