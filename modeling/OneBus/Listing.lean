import OneBus.Image

/-!
The listing of an image: its instructions in the syntax of the assembler, each with its address and
raw fields in a comment. It can be assembled again, unless it has an instruction that no source can
name: one without an opcode, a bare immediate store, or a comparison.
-/

namespace OneBus

open Text

def GeneralRegister.operand : GeneralRegister → String
  | a => "$a"
  | b => "$b"
  | accumulator => "$acc"
  | address => "$adr"
  | io => "$io"

def Opcode.text (op : Opcode) (operand : Word) : String :=
  let address := "%" ++ hex operand.toNat
  let immediate := decimal operand.toInt
  match op with
  | move m => "mov " ++ m.source.operand ++ ", " ++ m.target.operand
  | load r => "lod " ++ r.operand ++ ", " ++ address
  | loadImmediate r => "ldi " ++ r.operand ++ ", " ++ immediate
  | store r => "sto " ++ r.operand ++ ", " ++ address
  | storeImmediate => "store_immediate " ++ immediate
  | add => "add " ++ address
  | sum => "sum"
  | subtract => "sub " ++ address
  | difference => "dif"
  | compare => "compare " ++ address
  | jump => "jmp " ++ address
  | jumpZero => "jz " ++ address
  | jumpCarry => "jc " ++ address
  | input => "in $io"
  | output => "out"
  | halt => "hlt"

def Instruction.text (i : Instruction) : String :=
  match i.decode? with
  | some op => op.text i.operand
  | none => "??? " ++ decimal i.opcode.toInt ++ ", " ++ decimal i.operand.toNat

namespace Image

/-- the lines for one instruction, the entry label first if the entry point is here -/
def listed (image : Image) (i : Instruction) (index : Nat) : List String :=
  let address := addressOf index
  let line := "    " ++ padRight 20 i.text ++ " # " ++ zeroDecimal 4 address.toNat ++ ": "
    ++ decimal i.opcode.toInt ++ " " ++ decimal i.operand.toNat
  if address = image.entry then ["::main", line] else [line]

def listingLines (image : Image) : List String :=
  ["# microbus disassembly", "# entry point " ++ decimal image.entry.toNat, ""]
    ++ image.trimmed.zipIdx.flatMap fun (i, index) => image.listed i index

def listing (image : Image) : String :=
  String.join (image.listingLines.map (· ++ "\n"))

end Image
end OneBus
