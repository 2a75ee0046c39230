import OneBus.PortTable

/-!
What can stop a machine, and the journal it keeps: one event for each tick, decoded opcode, load,
attachment and stop, and the remarks of its devices. Every event has a level, the part of the
machine it comes from, and a text.
-/

namespace OneBus

inductive Condition
  | running | halted | faulted
  deriving DecidableEq

def Condition.name : Condition → String
  | running => "Running"
  | halted => "Halted"
  | faulted => "Faulted"

inductive MachineError
  | notRunning (condition : Condition)
  | invalidOpcode (opcode address : Word)
  | memory (cause : MemoryError)
  | port (cause : PortError)
  deriving DecidableEq

def MachineError.message : MachineError → String
  | notRunning c => "machine not running: " ++ c.name
  | invalidOpcode op a =>
    "invalid opcode " ++ Text.decimal op.toInt ++ " at address " ++ Text.decimal a.toInt
  | memory e => "memory error: " ++ e.message
  | port e => "port error: " ++ e.message

inductive Event
  | assembled (words labels : Nat) (entry : Word)
  | imageCut (length available : Nat)
  | imageLoaded (words : Nat) (start : Word)
  | attached (port : Nat)
  | tick (number : Nat) (word : ControlWord)
  | decoded (address : Word) (op : Opcode)
  | halted (ticks : Nat)
  | faulted (ticks : Nat) (error : MachineError)
  | remark (note : Note)
  deriving DecidableEq

namespace Event

open Text

def level : Event → Level
  | tick .. => .trace
  | assembled .. | attached .. | decoded .. => .debug
  | imageLoaded .. | halted .. => .info
  | imageCut .. | faulted .. => .warn
  | remark note => note.level

def origin : Event → String
  | assembled .. => "asm"
  | tick .. => "tick"
  | decoded .. => "decode"
  | _ => "machine"

def message : Event → String
  | assembled words labels entry =>
    decimal words ++ " words, " ++ decimal labels ++ " labels, entry " ++ decimal entry.toNat
  | imageCut length available =>
    "image of " ++ decimal length ++ " bytes truncated to " ++ decimal available ++ " bytes"
  | imageLoaded words start =>
    "loaded " ++ decimal words ++ " words, starting at " ++ decimal start.toNat
  | attached port => "attached peripheral on port " ++ decimal port
  | tick number word => "T" ++ decimal number ++ " " ++ word.text
  | decoded address op =>
    zeroDecimal 4 address.toInt ++ ": " ++ op.name ++ " (" ++ decimal op.microprogram.words.length
      ++ " words)"
  | halted ticks => "halted after " ++ decimal ticks ++ " ticks"
  | faulted ticks error => "fault at tick " ++ decimal ticks ++ ": " ++ error.message
  | remark note => note.text

/-- the line of a journal -/
def text (e : Event) : String := e.level.name ++ " " ++ e.origin ++ " " ++ e.message

end Event
end OneBus
