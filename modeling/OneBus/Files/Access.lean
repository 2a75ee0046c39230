/-!
What a program needs of files: reading a whole one and writing one, either of which can fail. The
texts are those of the usual error numbers.
-/

namespace OneBus.Files

inductive FileError
  | missing
  | directory
  | notDirectory
  | tooLong
  | nulByte
  | notText
  /-- any other refusal, in the words of the system -/
  | refused (text : String)
  deriving DecidableEq

def FileError.message : FileError → String
  | missing => "No such file or directory (os error 2)"
  | directory => "Is a directory (os error 21)"
  | notDirectory => "Not a directory (os error 20)"
  | tooLong => "File name too long (os error 36)"
  | nulByte => "file name contained an unexpected NUL byte"
  | notText => "stream did not contain valid UTF-8"
  | refused text => text

class FileAccess (m : Type → Type) where
  readBytes : String → m (Except FileError (List UInt8))
  writeBytes : String → List UInt8 → m (Except FileError Unit)

export FileAccess (readBytes writeBytes)

def decodeText (bytes : List UInt8) : Except FileError String :=
  match String.fromUTF8? (ByteArray.mk bytes.toArray) with
  | some text => .ok text
  | none => .error .notText

def readText {m : Type → Type} [Monad m] [FileAccess m] (path : String) :
    m (Except FileError String) := do
  return (← readBytes path) >>= decodeText

end OneBus.Files
