import OneBus.Assembly.Layout

/-!
The second pass: each statement becomes its instructions, with every label known. A register that the
opcode does not exist for is refused before the address behind it is looked at.
-/

namespace OneBus

namespace Opcode

def moveOf? (source target : Register) : Option Opcode := do
  move? (← GeneralRegister.ofRegister? source) (← GeneralRegister.ofRegister? target)

def loadOf? (r : Register) : Option Opcode := (GeneralRegister.ofRegister? r).map load

def loadImmediateOf? (r : Register) : Option Opcode :=
  (GeneralRegister.ofRegister? r).map loadImmediate

def storeOf? (r : Register) : Option Opcode := (GeneralRegister.ofRegister? r).map store

end Opcode

namespace Assembly

def resolve (symbols : Symbols) : Operand → Except Cause Word
  | .address a => .ok a
  | .label name =>
    match symbols.lookup name with
    | some a => .ok a
    | none => .error (.undefinedLabel name)
  | other => .error (.notAnAddress other.kind)

/-- an immediate is either reading of a word -/
def immediate (n : Int) : Except Cause Word :=
  if -0x8000 ≤ n ∧ n < 0x10000 then .ok (.ofInt 16 n) else .error (.outOfRange n)

/-- the opcode for a register, if it exists for that one -/
def select (opcode? : Register → Option Opcode) (r : Register) : Except Cause Opcode :=
  match opcode? r with
  | some op => .ok op
  | none => .error (.registerRefused r)

def addressed (symbols : Symbols) (op : Opcode) (target : Operand) :
    Except Cause (List Instruction) := do
  return [.of op (← resolve symbols target)]

/-- what a mnemonic makes of its operands -/
abbrev Form := List Operand → Except Cause (List Instruction)

namespace Form

variable (symbols : Symbols) (name : String)

def mismatch (expected : String) : Form := fun operands =>
  .error (.badOperands name expected (operands.map Operand.kind))

def move : Form
  | [.register source, .register target] =>
    match Opcode.moveOf? source target with
    | some op => .ok [.of op]
    | none => .error (.noMove source target)
  | other => mismatch name "register, register" other

/-- a load or a store of a register -/
def transfer (opcode? : Register → Option Opcode) : Form
  | [.register r, target] => do addressed symbols (← select opcode? r) target
  | other => mismatch name "register, address" other

def loadImmediate : Form
  | [.register r, .numeral n] => do
    let op ← select Opcode.loadImmediateOf? r
    return [.of op (← immediate n)]
  | other => mismatch name "register, numeral" other

/-- the one form with two instructions -/
def storeImmediate : Form
  | [target, .numeral n] => do
    let a ← resolve symbols target
    return [.of (.loadImmediate .address) a, .of .storeImmediate (← immediate n)]
  | other => mismatch name "address, numeral" other

/-- an address and nothing else, by what it is called -/
def single (op : Opcode) (expected : String) : Form
  | [target] => addressed symbols op target
  | other => mismatch name expected other

def bare (op : Opcode) : Form
  | [] => .ok [.of op]
  | other => mismatch name "" other

/-- a register only says where the value ends up, which it does without -/
def input : Form
  | [] | [.register _] => .ok [.of .input]
  | other => mismatch name "register" other

end Form

/-- the code of a statement, with the second pass's own table of mnemonics -/
def encode (symbols : Symbols) (name : String) : Form :=
  match name with
  | "mov" | "move" => .move name
  | "lod" | "load" => .transfer symbols name Opcode.loadOf?
  | "ldi" | "load_i" => .loadImmediate name
  | "sto" | "store" => .transfer symbols name Opcode.storeOf?
  | "sti" | "store_i" => .storeImmediate symbols name
  | "add" => .single symbols name .add "address"
  | "sub" => .single symbols name .subtract "address"
  | "sum" => .bare name .sum
  | "dif" | "difference" => .bare name .difference
  | "in" | "input" => .input name
  | "out" | "output" => .bare name .output
  | "hlt" | "halt" => .bare name .halt
  | "jmp" | "jump" => .single symbols name .jump "label"
  | "jz" | "jump_z" => .single symbols name .jumpZero "label"
  | "jc" | "jump_c" => .single symbols name .jumpCarry "label"
  | _ => fun _ => .error (.unknownMnemonic name)

def Statement.encode (symbols : Symbols) (s : Statement) : Except Cause (List Instruction) :=
  Assembly.encode symbols s.spelling s.operands

/-- an assembled source: its labels and its instructions -/
structure Program where
  symbols : Symbols
  body : List Instruction

namespace Program

/-- the label that sets the entry point -/
def entryLabel : String := "main"

/-- 0, which sets none, without the entry label -/
def entry (p : Program) : Word := (p.symbols.lookup entryLabel).getD 0

def image (p : Program) : Image := ⟨p.entry, p.body⟩

def ofLayout (l : Layout) : Except AssemblyError Program := do
  let parts ← l.statements.toList.mapM fun s =>
    (s.encode l.symbols).mapError (AssemblyError.mk s.line)
  return ⟨l.symbols, parts.flatten⟩

def ofSource [Build] (source : String) : Except AssemblyError Program := do
  ofLayout (← Layout.ofLines (linesOf source))

end Program

def assemble [Build] (source : String) : Except AssemblyError Image :=
  (Program.ofSource source).map Program.image

end Assembly
end OneBus
