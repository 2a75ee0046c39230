import OneBus.PortTable
import OneBus.Text.Quoted

/-!
The devices of this library. Display and typewriter print what they are sent to a sink, the display
as a decimal number to a line, the typewriter as a character; they answer an input with 0, and what
their sink does to a text never comes back to the machine. The others serve to watch the ports: a
probe answers with one value, an echo with what it was last sent, and a mute one with -1.
-/

namespace OneBus

/-- where a device prints: with a room set, a text that would go beyond so many bytes is refused as a
whole -/
structure Sink where
  room : Option Nat := none
  /-- the texts that were taken, latest first -/
  prints : List String := []
  flushes : Nat := 0
  deriving DecidableEq

namespace Sink

def text (s : Sink) : String := String.join s.prints.reverse

def fits (s : Sink) (more : String) : Bool :=
  s.room.all (s.text.utf8ByteSize + more.utf8ByteSize ≤ ·)

def print? (s : Sink) (more : String) : Option Sink :=
  if s.fits more then some { s with prints := more :: s.prints } else none

def flush (s : Sink) : Sink := { s with flushes := s.flushes + 1 }

def erase (s : Sink) : Sink := { s with prints := [] }

end Sink

/-- what a watching device was asked to do -/
structure Calls where
  writes : Array Word := #[]
  drives : Nat := 0
  disconnects : Nat := 0
  deriving DecidableEq

inductive Device
  | probe (input : Word) (calls : Calls)
  | echo (calls : Calls)
  | mute
  | display (sink : Sink)
  | typewriter (sink : Sink)
  deriving DecidableEq

namespace Device

/-- the character a typewriter prints; half of a surrogate pair prints as the replacement character -/
def typed (value : Word) : Char :=
  if h : value.toNat.isValidChar then Char.ofNatAux value.toNat h else '\ufffd'

def displayed (value : Word) : String := Text.decimal value.toInt

def write : Device → Word → Device × List Note
  | probe input calls, value => (probe input { calls with writes := calls.writes.push value }, [])
  | echo calls, value => (echo { calls with writes := calls.writes.push value }, [])
  | mute, _ => (mute, [])
  | display sink, value =>
    let note : Note := ⟨.info, "display: " ++ displayed value⟩
    match sink.print? (displayed value ++ "\n") with
    | some sink => (display sink, [note])
    | none => (display sink, [note, ⟨.warn, "display output failed: sink full"⟩])
  | typewriter sink, value =>
    let note : Note := ⟨.debug, "typewriter: " ++ Text.quoted (typed value)⟩
    match sink.print? (typed value).toString with
    | some sink => (typewriter sink.flush, [note])
    | none => (typewriter sink, [note, ⟨.warn, "typewriter output failed: sink full"⟩])

def drive : Device → Word × Device
  | probe input calls => (input, probe input { calls with drives := calls.drives + 1 })
  | echo calls => (calls.writes.back?.getD 0, echo { calls with drives := calls.drives + 1 })
  | mute => (-1, mute)
  | display sink => (0, display sink)
  | typewriter sink => (0, typewriter sink)

def disconnect : Device → Device
  | probe input calls => probe input { calls with disconnects := calls.disconnects + 1 }
  | echo calls => echo { calls with disconnects := calls.disconnects + 1 }
  | mute => mute
  | display sink => display sink.flush
  | typewriter sink => typewriter sink.flush

instance : Peripheral Device := ⟨write, drive, disconnect⟩

/-- the texts that the device has printed, latest first -/
def prints : Device → List String
  | display sink | typewriter sink => sink.prints
  | _ => []

/-- what the device has printed -/
def printed : Device → String
  | display sink | typewriter sink => sink.text
  | _ => ""

/-- forgets what it has printed -/
def erase : Device → Device
  | display sink => display sink.erase
  | typewriter sink => typewriter sink.erase
  | other => other

end Device

namespace PortTable

def printed (t : PortTable Device) : String := String.join (t.devices.map Device.printed)

def erase (t : PortTable Device) : PortTable Device := t.map Device.erase

end PortTable
end OneBus
