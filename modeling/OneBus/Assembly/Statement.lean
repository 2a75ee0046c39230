import OneBus.Assembly.Operand

/-!
What a line says: nothing, a label, or a statement. The operands of a statement are read before its
mnemonic is looked up, so of two faults in a line the one in an operand is reported. The case of
letters does not count in a mnemonic.
-/

namespace OneBus.Assembly

/-- how many instructions a mnemonic comes to, if it is one: the table of the first pass -/
def wordCount? : String → Option Nat
  | "sti" | "store_i" => some 2
  | "mov" | "move" | "lod" | "load" | "ldi" | "load_i" | "sto" | "store" | "add" | "sub"
  | "sum" | "dif" | "difference" | "in" | "input" | "out" | "output" | "jmp" | "jump"
  | "jz" | "jump_z" | "jc" | "jump_c" | "hlt" | "halt" => some 1
  | _ => none

structure Statement where
  line : Nat
  /-- the mnemonic in lower case -/
  spelling : String
  operands : List Operand
  known : (wordCount? spelling).isSome
  deriving DecidableEq

/-- how many instructions the first pass counts -/
def Statement.words (s : Statement) : Nat := (wordCount? s.spelling).get s.known

inductive Item
  | blank
  | label (name : String)
  | statement (s : Statement)
  deriving DecidableEq

def Line.item [Build] (line : Line) : Except Cause Item :=
  match line.tokens with
  | [] => .ok .blank
  | [':' :: ':' :: name] => (labelName name).map .label
  | (':' :: ':' :: _) :: _ => .error .labelWithCompany
  | first :: rest => do
    let operands ← rest.mapM Operand.ofToken
    if known : (wordCount? (lower first)).isSome then
      .ok (.statement ⟨line.number, lower first, operands, known⟩)
    else .error (.unknownMnemonic (String.ofList first))

end OneBus.Assembly
