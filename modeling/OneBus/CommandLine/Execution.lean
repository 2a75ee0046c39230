import OneBus.Assembly.Encoding
import OneBus.CommandLine.Console
import OneBus.CommandLine.Help
import OneBus.Files.Programs
import OneBus.Machine.Snapshot

/-!
The commands at work. A command says what it does as it goes on, and its first failure ends it. A run
shows the state of its machine before it fails with the machine's error.
-/

namespace OneBus

/-- the machine without its past: its journal, its traffic and what its devices have printed -/
def Machine.forget (m : Machine Device) : Machine Device :=
  { m with journal := #[], ports := { m.ports.erase with traffic := #[] } }

namespace CommandLine

open Files Text

inductive Failure
  | file (cause : FileError)
  | noProgram
  | image (cause : ImageFileError)
  | assembly (cause : Assembly.AssemblyError)
  | configuration (cause : ConfigurationError)
  | machine (cause : MachineError)
  deriving DecidableEq

def Failure.message : Failure → String
  | file e => "I/O error: " ++ e.message
  | noProgram => "I/O error: no program given"
  | image e => e.message
  | assembly e => e.message
  | configuration e => e.message
  | machine e => e.message

/-- the settings of a command line win over those of a configuration -/
def RunSettings.override (s : RunSettings) (c : Configuration) : Configuration where
  memorySize := s.memorySize.getD c.memorySize
  clockRate := s.clockRate.getD c.clockRate
  image := s.program <|> c.image

def RunSettings.devices (s : RunSettings) : List Printer :=
  if s.printers.isEmpty then [.display] else s.printers

/-- the registers that a report shows -/
def reported : List Register := Register.all.filter (· ≠ .addressBackup)

def registerLine (bank : RegisterBank) (r : Register) : String :=
  let w := bank.get r
  padLeft 4 r.shortName ++ ": " ++ padLeft 6 (decimal w.toInt) ++ "  (0x" ++ zeros 4 (hex w.toNat)
    ++ ")"

def limitLines (ticks : Nat) : List String :=
  ["", "⚠️  Reached max ticks limit (" ++ decimal ticks ++ "). Use --max-ticks to increase."]

def report {δ : Type} (m : Machine δ) : List String :=
  ["", "━━━ Result ━━━", "Ticks: " ++ decimal m.ticks, "Instructions: " ++ decimal m.instructions,
    "State: " ++ m.condition.name] ++ reported.map (registerLine m.registers)
    ++ if m.isRunning then limitLines m.ticks else []

/-- without an output given, a file beside the source -/
def AssembleSettings.target (s : AssembleSettings) : String :=
  s.output.getD (withExtension s.source "bin")

/-- a command at work, which may fail -/
abbrev Action (m : Type → Type) := ExceptT Failure m

section

variable {m : Type → Type} [Monad m] [Console m]

def sayAll (lines : List String) : Action m Unit := ExceptT.lift (print (unlines lines))

def say (line : String) : Action m Unit := sayAll [line]

/-- goes on with a result, or fails in the words of the command line -/
def attempt {ε α : Type} (wrap : ε → Failure) (x : m (Except ε α)) : Action m α :=
  ExceptT.mk do return (← x).mapError wrap

def assembleText (source : String) : Action m Image :=
  attempt .assembly (pure (Assembly.assemble source))

/-- an image, or an assembled source if the path ends in `.asm` -/
def loadProgram (path : String) : Action m Image := do
  if extension? path = some "asm" then
    let image ← assembleText (← attempt .file (readText path))
    say ("📝 Assembled " ++ decimal image.body.length ++ " words")
    return image
  else
    let image ← attempt .image (Image.ofFile path)
    say ("📂 Loaded " ++ decimal image.trimmed.length ++ " words")
    return image

/-- the configuration has to be sound by itself, and also with the command line's settings -/
def RunSettings.configured [Configuration.Decoder] (s : RunSettings) : Action m Configuration := do
  let given ← match s.configuration with
    | some path => attempt .configuration (Configuration.ofFile path)
    | none => pure {}
  let settled := s.override given
  attempt .configuration (pure settled.validate)
  return settled

def attachPrinter (machine : Machine Device) (p : Printer) : Action m (Machine Device) := do
  say ("🔌 " ++ p.name ++ " on port " ++ decimal machine.ports.nextId)
  return machine.attach p.device

/-- waits until so many nanoseconds have passed from `start` on -/
def waitSince (start due : Nat) : m Unit := do
  let elapsed := (← now) - start
  if elapsed < due then sleep (due - elapsed)

/-- a tick, and at once what the devices print in it -/
@[specialize]
def shownBeat : StateT (Machine Device) m (Except MachineError Bool) := fun machine => do
  let (outcome, machine) := machine.beat
  let shown := machine.ports.printed
  unless shown.isEmpty do print shown
  return (outcome, machine.forget)

/-- a run on a clock that is waited for -/
@[specialize]
def watch (clock : Clock) (limit : Option Nat) (machine : Machine Device) :
    m (Option (Except MachineError Nat) × Machine Device) := do
  let start ← now
  (clock.run limit (fun due => StateT.lift (waitSince start due)) shownBeat).run machine

@[specialize]
def RunSettings.execute [Configuration.Decoder] (s : RunSettings) : Action m Unit := do
  let c ← s.configured
  let path ← match c.image with
    | some path => pure path
    | none => throw .noProgram
  say ("🔧 Running: " ++ path)
  let image ← loadProgram path
  let machine ← s.devices.foldlM attachPrinter (.ofImage image c.memorySize)
  sayAll ["", "━━━ Execution ━━━"]
  let (outcome, machine) ← ExceptT.lift (watch c.clock s.maxTicks machine)
  -- without an outcome the run is still going on
  if let some outcome := outcome then
    sayAll (report machine)
    if s.dump then say (Json.pretty 0 (Json.encode machine.snapshot))
    let _ ← attempt .machine (pure outcome)

def DebugSettings.execute (s : DebugSettings) : Action m Unit := do
  say ("🔍 Loading: " ++ s.program)
  let image ← loadProgram s.program
  let c : Configuration := { memorySize := s.memorySize }
  attempt .configuration (pure c.validate)
  say "🚀 Launching debugger..."
  ExceptT.lift (converse (.new image s.memorySize))

def AssembleSettings.execute (s : AssembleSettings) : Action m Unit := do
  say ("📝 Assembling: " ++ s.source ++ " → " ++ s.target)
  let image ← assembleText (← attempt .file (readText s.source))
  say ("✓ Assembled " ++ decimal image.body.length ++ " words, starting at "
    ++ decimal image.start.toNat)
  attempt .file (image.toFile s.target (if s.size = 0 then none else some s.size))
  say ("✓ Saved to " ++ s.target)

def listImage (path : String) : Action m Unit := do
  say (← attempt .image (Image.ofFile path)).listing

@[specialize]
def Command.execute : Command → Action m Unit
  | .run s => s.execute
  | .debug s => s.execute
  | .assemble s => s.execute
  | .disassemble path => listImage path

/-- gives the exit code: 1 for a failure, 2 for words that make no command -/
@[specialize]
def perform (words : List String) : m UInt32 := do
  match Command.ofWords words with
  | .ok command =>
    match ← command.execute.run with
    | .ok () => return 0
    | .error e => complain ("❌ " ++ e.message ++ "\n"); return 1
  | .error (.usage cause) => complain cause.text; return 2
  | .error (.help topic) => print (helpText topic); return 0
  | .error .version => print versionText; return 0

end

end CommandLine
end OneBus
