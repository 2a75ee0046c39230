import OneBus.Json.Codec
import OneBus.Memory

/-!
The JSON forms of the parts of a machine and of its programs. Words are signed, operands and
addresses of images unsigned, control words raw bits. Every form can be read back.
-/

namespace OneBus

open Json Value

instance : Codec ControlWord where
  encode w := .integer w.bits.toNat
  decode? v := (v.natural? UInt32.size).map fun n => ⟨BitVec.ofNat 32 n⟩

instance : LawfulCodec ControlWord where
  decode?_encode w := by
    change ((Value.integer w.bits.toNat).natural? UInt32.size).map _ = _
    rw [natural?_integer w.bits.isLt]
    simp

instance : Codec Opcode where
  encode op := text op.name
  decode? v := v.named? Opcode.name Opcode.all

instance : LawfulCodec Opcode where
  decode?_encode op := named?_text <|
    (by decide : ∀ op ∈ Opcode.all, Opcode.all.find? (Opcode.name · == op.name) = some op)
      op op.mem_all

instance : Codec Instruction where
  encode i := record [("opcode", ofSignedWord i.opcode), ("operand", ofUnsignedWord i.operand)]
  decode? := recordOf? ["opcode", "operand"] fun
    | [opcode, operand] => do return ⟨← opcode.signedWord?, ← operand.unsignedWord?⟩
    | _ => none

instance : LawfulCodec Instruction where
  decode?_encode i := by
    refine (recordOf?_record _ [("opcode", _), ("operand", _)] (by simp)).trans ?_
    simp [signedWord?_ofSignedWord, unsignedWord?_ofUnsignedWord]

instance : Codec Image where
  encode i := record
    [("entry_point", ofUnsignedWord i.entry), ("words", .array (i.body.map encode))]
  decode? := recordOf? ["entry_point", "words"] fun
    | [entry, body] => do return ⟨← entry.unsignedWord?, ← body.list? decode?⟩
    | _ => none

instance : LawfulCodec Image where
  decode?_encode i := by
    refine (recordOf?_record _ [("entry_point", _), ("words", _)] (by simp)).trans ?_
    simp [unsignedWord?_ofUnsignedWord, list?_encode]

instance : Codec Memory where
  encode m := record [("cells", .array (m.cells.toList.map ofSignedWord))]
  decode? := recordOf? ["cells"] fun
    | [cells] => do return ⟨(← cells.list? signedWord?).toArray⟩
    | _ => none

instance : LawfulCodec Memory where
  decode?_encode m := by
    refine (recordOf?_record _ [("cells", _)] (by simp)).trans ?_
    simp [list?_map signedWord?_ofSignedWord]

def RegisterBank.ofList? : List Word → Option RegisterBank
  | [ins, pc, acc, adr, abk, a, b, io, flg] => some ⟨ins, pc, acc, adr, abk, a, b, io, flg⟩
  | _ => none

theorem RegisterBank.ofList?_toList (bank : RegisterBank) : ofList? bank.toList = some bank := rfl

instance : Codec RegisterBank where
  encode bank := record [("cells", .array (bank.toList.map ofSignedWord))]
  decode? := recordOf? ["cells"] fun
    | [cells] => cells.list? signedWord? >>= RegisterBank.ofList?
    | _ => none

instance : LawfulCodec RegisterBank where
  decode?_encode bank := by
    refine (recordOf?_record _ [("cells", _)] (by simp)).trans ?_
    simp [list?_map signedWord?_ofSignedWord, RegisterBank.ofList?_toList]

def Microprogram.ofSlots? : List ControlWord → Option Microprogram
  | [first, second, third] => some ⟨first, second, third⟩
  | _ => none

theorem Microprogram.ofSlots?_slots (p : Microprogram) : ofSlots? p.slots = some p := rfl

instance : Codec Microprogram where
  encode p := record [("words", .array (p.slots.map encode))]
  decode? := recordOf? ["words"] fun
    | [words] => words.list? decode? >>= Microprogram.ofSlots?
    | _ => none

instance : LawfulCodec Microprogram where
  decode?_encode p := by
    refine (recordOf?_record _ [("words", _)] (by simp)).trans ?_
    simp [list?_encode, Microprogram.ofSlots?_slots]

instance : Codec Alu where
  encode alu := record [("a", ofSignedWord alu.a), ("b", ofSignedWord alu.b)]
  decode? := recordOf? ["a", "b"] fun
    | [a, b] => do return ⟨← a.signedWord?, ← b.signedWord?⟩
    | _ => none

instance : LawfulCodec Alu where
  decode?_encode alu := by
    refine (recordOf?_record _ [("a", _), ("b", _)] (by simp)).trans ?_
    simp [signedWord?_ofSignedWord]

end OneBus
