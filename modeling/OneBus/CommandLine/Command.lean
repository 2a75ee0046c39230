import OneBus.CommandLine.Flag
import OneBus.Device
import OneBus.Text.Digits

/-!
The commands and their settings. A setting may be given once, except for devices, which are attached
in the order given. A word that is no flag is a path; no path is empty. The words count from left to
right, and the first that is wrong, or that asks for help, decides.
-/

namespace OneBus.CommandLine

open Text

/-- a device that writes to the console -/
inductive Printer
  | display | typewriter
  deriving DecidableEq

namespace Printer

def all : List Printer := [display, typewriter]

/-- what stands for it among the words -/
def word : Printer → String
  | display => "display"
  | typewriter => "typewriter"

def name : Printer → String
  | display => "Display"
  | typewriter => "Typewriter"

def device : Printer → Device
  | display => .display {}
  | typewriter => .typewriter {}

end Printer

structure RunSettings where
  program : Option String := none
  memorySize : Option Nat := none
  clockRate : Option Nat := none
  maxTicks : Option Nat := none
  /-- path of a configuration -/
  configuration : Option String := none
  /-- none given stands for a display -/
  printers : List Printer := []
  dump : Bool := false
  deriving DecidableEq

structure DebugSettings where
  program : String
  memorySize : Nat
  deriving DecidableEq

structure AssembleSettings where
  source : String
  output : Option String
  /-- the size of the file, with 0 for that of the image -/
  size : Nat
  deriving DecidableEq

inductive Command
  | run (settings : RunSettings)
  | debug (settings : DebugSettings)
  | assemble (settings : AssembleSettings)
  | disassemble (image : String)
  deriving DecidableEq

/-- the commands by name -/
inductive Topic
  | run | debug | assemble | disassemble | help
  deriving DecidableEq

/-- why there is no command to execute -/
inductive Refusal
  | usage (cause : UsageError)
  /-- `none` for all commands -/
  | help (topic : Option Topic)
  | version
  deriving DecidableEq

namespace Topic

def all : List Topic := [run, debug, assemble, disassemble, help]

def word : Topic → String
  | run => "run"
  | debug => "debug"
  | assemble => "asm"
  | disassemble => "disasm"
  | help => "help"

def ofWord? (s : String) : Option Topic := all.find? (·.word == s)

end Topic

def helpFlag : Flag := { name := "help", letter := some 'h', help := "Print help" }

def versionFlag : Flag := { name := "version", letter := some 'V', help := "Print version" }

def memoryFlag : Flag :=
  { name := "ram-size", value := some "RAM_SIZE", help := "Memory size in bytes" }

/-- the flags that stand before a command -/
def generalFlags : List Flag := [helpFlag, versionFlag]

def Topic.flags : Topic → List Flag
  | .run =>
    [memoryFlag,
     { name := "clock-rate", value := some "CLOCK_RATE",
       help := "Clock rate in ticks per second (0 = unthrottled)" },
     { name := "max-ticks", value := some "MAX_TICKS", help := "Stop after this many ticks" },
     { name := "config", letter := some 'c', value := some "CONFIG",
       help := "JSON configuration file" },
     { name := "device", value := some "DEVICE",
       help := "Peripherals to attach, in port order: display (default) or typewriter" },
     { name := "dump", help := "Print the final machine state as JSON" },
     helpFlag]
  | .debug => [memoryFlag, helpFlag]
  | .assemble =>
    [{ name := "output", letter := some 'o', value := some "OUTPUT", help := "Output image file" },
     { name := "output-size", value := some "OUTPUT_SIZE",
       help := "Pad or truncate the image to this many bytes (0 = exact size)" },
     helpFlag]
  | .disassemble => [helpFlag]
  | .help => []

/-- a natural number of 64 bits -/
def size? (value : String) : Option Nat := (natural? 10 value.toList).filter (· < UInt64.size)

/-- a natural number of 32 bits; a zero may have a minus sign -/
def rate? (value : String) : Option Nat :=
  ((integer? 10 value.toList).filter (0 ≤ ·)).map Int.toNat |>.filter (· < UInt32.size)

def path? (value : String) : Option String := if value.isEmpty then none else some value

def printer? (value : String) : Option Printer := Printer.all.find? (·.word == value)

/-- the meaning of a value, and a mistake when it has none -/
def read {α : Type} (subject : String) (meaning? : String → Option α) (value : String) :
    Except Refusal α :=
  match meaning? value with
  | some x => .ok x
  | none => .error (.usage (.badValue subject value))

/-- a setting that must not be there yet -/
def once {α : Type} (flag : String) (old : Option α) (meaning? : String → Option α)
    (value : String) : Except Refusal (Option α) :=
  if old.isSome then .error (.usage (.repeated flag)) else some <$> read flag meaning? value

/-- the one path of a command -/
def onlyPath (subject : String) (old : Option String) (word : String) :
    Except Refusal (Option String) :=
  if old.isSome then .error (.usage (.surplus word)) else some <$> read subject path? word

/-- what an item means that is no setting of the command -/
def refuse (topic : Topic) : Item → Refusal
  | .switch "help" => .help (some topic)
  | .switch name => .usage (.unknownFlag name)
  | .valued name _ => .usage (.unknownFlag name)
  | .plain word => .usage (.surplus word)
  | .wrong cause => .usage cause

def required {α : Type} (subject : String) : Option α → Except Refusal α
  | some x => .ok x
  | none => .error (.usage (.missingArgument subject))

def RunSettings.take (s : RunSettings) : Item → Except Refusal RunSettings
  | .plain word => return { s with program := ← onlyPath "PROGRAM" s.program word }
  | .valued "ram-size" v => return { s with memorySize := ← once "ram-size" s.memorySize size? v }
  | .valued "clock-rate" v => return { s with clockRate := ← once "clock-rate" s.clockRate rate? v }
  | .valued "max-ticks" v => return { s with maxTicks := ← once "max-ticks" s.maxTicks size? v }
  | .valued "config" v =>
    return { s with configuration := ← once "config" s.configuration path? v }
  | .valued "device" v => return { s with printers := s.printers ++ [← read "device" printer? v] }
  | .switch "dump" =>
    if s.dump then .error (.usage (.repeated "dump")) else .ok { s with dump := true }
  | other => .error (refuse .run other)

/-- what is known of a `debug` command so far: its program and its memory size -/
def takeDebug : Option String × Option Nat → Item → Except Refusal (Option String × Option Nat)
  | (program, size), .plain word => return (← onlyPath "PROGRAM" program word, size)
  | (program, size), .valued "ram-size" v => return (program, ← once "ram-size" size size? v)
  | _, other => .error (refuse .debug other)

/-- what is known of an `asm` command so far: its source, its output and the output's size -/
def takeAssemble : Option String × Option String × Option Nat → Item →
    Except Refusal (Option String × Option String × Option Nat)
  | (source, output, size), .plain word => return (← onlyPath "SOURCE" source word, output, size)
  | (source, output, size), .valued "output" v =>
    return (source, ← once "output" output path? v, size)
  | (source, output, size), .valued "output-size" v =>
    return (source, output, ← once "output-size" size size? v)
  | _, other => .error (refuse .assemble other)

def takeDisassemble : Option String → Item → Except Refusal (Option String)
  | image, .plain word => onlyPath "IMAGE" image word
  | _, other => .error (refuse .disassemble other)

/-- the default both of a memory and of an assembled file -/
def defaultSize : Nat := 256

/-- help on a command, or on help itself; none of them has commands of its own -/
def helpOn : List String → Refusal
  | [] => .help none
  | word :: rest =>
    match Topic.ofWord? word, rest with
    | some topic, [] => .help (some topic)
    | some _, next :: _ => .usage (.unknownCommand next)
    | none, _ => .usage (.unknownCommand word)

def Topic.command (topic : Topic) (words : List String) : Except Refusal Command := do
  let items := scan topic.flags words
  match topic with
  | .run => return .run (← items.foldlM RunSettings.take {})
  | .debug =>
    let (program, size) ← items.foldlM takeDebug (none, none)
    return .debug ⟨← required "PROGRAM" program, size.getD defaultSize⟩
  | .assemble =>
    let (source, output, size) ← items.foldlM takeAssemble (none, none, none)
    return .assemble ⟨← required "SOURCE" source, output, size.getD defaultSize⟩
  | .disassemble =>
    let image ← items.foldlM takeDisassemble none
    return .disassemble (← required "IMAGE" image)
  | .help => throw (helpOn words)

/-- the command that the words of a command line make -/
def Command.ofWords : List String → Except Refusal Command
  | [] => .error (.usage .missingCommand)
  | word :: rest =>
    match readWord generalFlags word with
    | .whole (.plain word) =>
      match Topic.ofWord? word with
      | some topic => topic.command rest
      | none => .error (.usage (.unknownCommand word))
    | .whole (.switch "help") => .error (.help none)
    | .whole (.switch "version") => .error .version
    | _ => .error (.usage (.unknownFlag word))

end OneBus.CommandLine
