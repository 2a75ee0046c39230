import OneBus.Exchange
import OneBus.Machine.Basic

/-!
A snapshot: what a machine shows of itself at one moment, without memory and devices. Counters and
port numbers have 64 bits in it.
-/

namespace OneBus

open Json Value

structure Snapshot where
  condition : Condition
  phase : Phase
  ticks : UInt64
  instructions : UInt64
  registers : RegisterBank
  lastBus : Word
  pending : List ControlWord
  ports : List (UInt64 × Word)
  deriving DecidableEq

def Machine.snapshot {δ : Type} (m : Machine δ) : Snapshot where
  condition := m.condition
  phase := m.phase
  ticks := .ofNat m.ticks
  instructions := .ofNat m.instructions
  registers := m.registers
  lastBus := m.lastBus
  pending := m.queue
  ports := m.ports.values.map fun (port, value) => (.ofNat port, value)

def Condition.all : List Condition := [running, halted, faulted]

def Phase.all : List Phase := [idle, executing]

instance : Codec Condition where
  encode c := text c.name
  decode? v := v.named? Condition.name Condition.all

instance : LawfulCodec Condition where
  decode?_encode c := by cases c <;> rfl

instance : Codec Phase where
  encode p := text p.name
  decode? v := v.named? Phase.name Phase.all

instance : LawfulCodec Phase where
  decode?_encode p := by cases p <;> rfl

instance : Codec UInt64 where
  encode n := .integer n.toNat
  decode? v := (v.natural? UInt64.size).map UInt64.ofNat

instance : LawfulCodec UInt64 where
  decode?_encode n := by
    change ((Value.integer n.toNat).natural? UInt64.size).map _ = _
    rw [natural?_integer n.toNat_lt]
    simp

/-- a port as a pair -/
instance : Codec (UInt64 × Word) where
  encode p := .array [encode p.1, ofSignedWord p.2]
  decode?
    | .array [port, value] => do return (← decode? port, ← value.signedWord?)
    | _ => none

instance : LawfulCodec (UInt64 × Word) where
  decode?_encode p := by
    change (do return (← decode? (encode p.1), ← (ofSignedWord p.2).signedWord?)) = some p
    simp [LawfulCodec.decode?_encode, signedWord?_ofSignedWord]

instance : Codec Snapshot where
  encode s := record
    [("state", encode s.condition), ("sequencer", encode s.phase), ("ticks", encode s.ticks),
     ("instructions", encode s.instructions), ("registers", encode s.registers),
     ("last_bus", ofSignedWord s.lastBus), ("pending", .array (s.pending.map encode)),
     ("ports", .array (s.ports.map encode))]
  decode? := recordOf?
    ["state", "sequencer", "ticks", "instructions", "registers", "last_bus", "pending", "ports"] fun
    | [condition, phase, ticks, instructions, registers, lastBus, pending, ports] => do
      return {
        condition := ← decode? condition
        phase := ← decode? phase
        ticks := ← decode? ticks
        instructions := ← decode? instructions
        registers := ← decode? registers
        lastBus := ← lastBus.signedWord?
        pending := ← pending.list? decode?
        ports := ← ports.list? decode? }
    | _ => none

instance : LawfulCodec Snapshot where
  decode?_encode s := by
    refine (recordOf?_record _
      [("state", _), ("sequencer", _), ("ticks", _), ("instructions", _), ("registers", _),
       ("last_bus", _), ("pending", _), ("ports", _)] (by simp)).trans ?_
    simp [LawfulCodec.decode?_encode, signedWord?_ofSignedWord, list?_encode]

end OneBus
