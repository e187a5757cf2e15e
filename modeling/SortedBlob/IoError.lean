/-!
Failures of the outside world, by kind and with the text they came with.
-/

namespace SortedBlob

inductive IoError.Kind where
  | connectionReset
  | interrupted
  | invalidData
  | invalidInput
  | notFound
  | permissionDenied
  | timedOut
  | unexpectedEof
  | writeZero
  | other
  deriving DecidableEq, Repr

structure IoError where
  kind : IoError.Kind
  message : String
  deriving DecidableEq, Repr

namespace IoError

/-! What a file system says, with the number under which it is known. -/

def noSuchFile : IoError := ⟨.notFound, "No such file or directory (os error 2)"⟩

def permissionDenied : IoError := ⟨.permissionDenied, "Permission denied (os error 13)"⟩

def notDirectory : IoError := ⟨.other, "Not a directory (os error 20)"⟩

def isDirectory : IoError := ⟨.other, "Is a directory (os error 21)"⟩

def nameTooLong : IoError := ⟨.other, "File name too long (os error 36)"⟩

def nulInName : IoError := ⟨.invalidInput, "file name contained an unexpected NUL byte"⟩

end IoError

end SortedBlob
