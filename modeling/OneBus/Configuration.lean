import OneBus.Clock
import OneBus.Files.Access
import OneBus.Json.Codec

/-!
Settings of a machine, with defaults, and their JSON form. Every field may be left out, but none may
be unknown. A memory has to hold whole words and at least the header of an image; an odd size is
refused before a small one.
-/

namespace OneBus

open Json Files

structure Configuration where
  /-- in bytes -/
  memorySize : Nat := 256
  clockRate : Nat := Clock.defaultRate
  /-- where the program is -/
  image : Option String := none
  deriving DecidableEq

inductive ConfigurationError
  | unreadable (cause : FileError)
  | malformed
  | oddMemorySize (size : Nat)
  | memoryTooSmall (size : Nat)
  deriving DecidableEq

def ConfigurationError.message : ConfigurationError → String
  | unreadable e => "I/O error: " ++ e.message
  | malformed => "invalid configuration"
  | oddMemorySize n =>
    "memory size " ++ Text.decimal n ++ " is not a whole number of 16-bit cells"
  | memoryTooSmall n =>
    "memory size " ++ Text.decimal n ++ " cannot hold the 4-byte image header"

namespace Configuration

def clock (c : Configuration) : Clock := .ofRate c.clockRate

def validate (c : Configuration) : Except ConfigurationError Unit :=
  if c.memorySize % 2 ≠ 0 then .error (.oddMemorySize c.memorySize)
  else if c.memorySize < 4 then .error (.memoryTooSmall c.memorySize)
  else .ok ()

/-- null, or the text of a path -/
def path? : Value → Option (Option String)
  | .null => some none
  | .string (some path) => some (some path)
  | _ => none

/-- the settings that a file states, with `none` for one that it leaves out -/
structure Stated where
  memorySize : Option Nat := none
  clockRate : Option Nat := none
  image : Option String := none
  deriving DecidableEq

def Stated.ofValue? (v : Value) : Option Stated := do
  match ← v.fields? true ["memory_size", "clock_rate", "image"] with
  | [memorySize, clockRate, image] =>
    return {
      memorySize := ← memorySize.mapM (Value.natural? UInt64.size)
      clockRate := ← clockRate.mapM (Value.natural? UInt32.size)
      image := (← image.mapM path?).join }
  | _ => none

/-- defaults for what is left out -/
def Stated.configuration (f : Stated) : Configuration where
  memorySize := f.memorySize.getD ({} : Configuration).memorySize
  clockRate := f.clockRate.getD ({} : Configuration).clockRate
  image := f.image

instance : Codec Configuration where
  encode c := record
    [("memory_size", ofNat c.memorySize), ("clock_rate", ofNat c.clockRate),
     ("image", match c.image with | some path => text path | none => .null)]
  decode? v := (Stated.ofValue? v).map Stated.configuration

/-- how the text of a configuration is read -/
class Decoder where
  stated? : String → Option Stated

instance : Decoder := ⟨fun text => parse text >>= Stated.ofValue?⟩

def ofText [Decoder] (text : String) : Except ConfigurationError Configuration :=
  match Decoder.stated? text with
  | some f => do
    let c := f.configuration
    c.validate
    return c
  | none => .error .malformed

def ofFile {m : Type → Type} [Monad m] [FileAccess m] [Decoder] (path : String) :
    m (Except ConfigurationError Configuration) := do
  match ← readText path with
  | .ok text => return ofText text
  | .error e => return .error (.unreadable e)

end Configuration
end OneBus
