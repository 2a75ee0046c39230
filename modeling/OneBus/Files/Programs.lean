import OneBus.Configuration
import OneBus.Files.Access
import OneBus.Machine.Basic

/-!
Images in files, and machines that are set up from a configuration.
-/

namespace OneBus

open Files

inductive ImageFileError
  | file (cause : FileError)
  | content (cause : ImageError)
  deriving DecidableEq

def ImageFileError.message : ImageFileError → String
  | file e => "I/O error: " ++ e.message
  | content e => e.message

section

variable {m : Type → Type} [Monad m] [FileAccess m]

def Image.ofFile (path : String) : m (Except ImageFileError Image) := do
  return ((← readBytes path).mapError .file) >>= fun bytes => (ofBytes bytes).mapError .content

/-- with a size, filled up with zeros or cut to it -/
def Image.toFile (image : Image) (path : String) (size : Option Nat) :
    m (Except FileError Unit) :=
  writeBytes path (match size with | some n => image.sizedBytes n | none => image.bytes)

inductive SetupError
  | configuration (cause : ConfigurationError)
  | image (cause : ImageFileError)
  deriving DecidableEq

/-- the settings are looked at before the image is -/
def Machine.ofConfiguration {δ : Type} (c : Configuration) :
    m (Except SetupError (Machine δ)) := do
  match c.validate with
  | .error e => return .error (.configuration e)
  | .ok () =>
    match c.image with
    | none => return .ok (.new c.memorySize)
    | some path =>
      match ← Image.ofFile path with
      | .ok image => return .ok (.ofImage image c.memorySize)
      | .error e => return .error (.image e)

end

end OneBus
