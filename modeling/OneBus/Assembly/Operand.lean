import OneBus.Assembly.Numeral
import OneBus.Assembly.Source
import OneBus.Opcode
import OneBus.Text.Number

/-!
Operands, and what can be wrong with a source line. An operand shows by its first characters what it
is: `$` a register, `%` an address, `::` a label; all else has to be a numeral. The case of letters
does not count in a register, and registers have long names too.
-/

namespace OneBus.Assembly

inductive Operand
  | register (r : Register)
  | address (a : Word)
  | label (name : String)
  | numeral (n : Int)
  deriving DecidableEq

inductive Kind
  | register | address | label | numeral
  deriving DecidableEq

def Kind.name : Kind → String
  | register => "register"
  | address => "address"
  | label => "label"
  | numeral => "numeral"

def Operand.kind : Operand → Kind
  | register _ => .register
  | address _ => .address
  | label _ => .label
  | numeral _ => .numeral

inductive Cause
  | labelWithCompany
  | badLabel (name : String)
  | unknownRegister (token : String)
  | badAddress (token : String)
  | badToken (token : String)
  | noMove (source target : Register)
  | registerRefused (r : Register)
  | notAnAddress (kind : Kind)
  | badOperands (name expected : String) (found : List Kind)
  | unknownMnemonic (name : String)
  | undefinedLabel (name : String)
  | duplicateLabel (name : String)
  | outOfRange (value : Int)
  /-- no error that is given back: the program stops at such a numeral -/
  | overflow
  deriving DecidableEq

structure AssemblyError where
  line : Nat
  cause : Cause
  deriving DecidableEq

/-- what kind of fault it is, and what is said about the line -/
def Cause.parts : Cause → String × String
  | labelWithCompany => ("syntax error", "a label must stand on its own line")
  | badLabel name => ("syntax error", "invalid label '::" ++ name ++ "'")
  | unknownRegister token => ("syntax error", "unknown register '" ++ token ++ "'")
  | badAddress token => ("syntax error", "invalid address '" ++ token ++ "'")
  | badToken token => ("syntax error", "unrecognised token '" ++ token ++ "'")
  | noMove s t => ("syntax error", "no move from " ++ s.shortName ++ " to " ++ t.shortName)
  | registerRefused r => ("syntax error", "register " ++ r.shortName ++ " cannot be used here")
  | notAnAddress k => ("syntax error", "expected an address or label, got a " ++ k.name)
  | badOperands name expected found =>
    ("syntax error", name ++ " expects [" ++ expected ++ "], got ["
      ++ String.intercalate ", " (found.map Kind.name) ++ "]")
  | unknownMnemonic name => ("unknown mnemonic", name)
  | undefinedLabel name => ("undefined label", name)
  | duplicateLabel name => ("label defined twice", name)
  | outOfRange value => ("value out of range", Text.decimal value)
  | overflow => ("panic", "attempt to negate with overflow")

def AssemblyError.message (e : AssemblyError) : String :=
  e.cause.parts.1 ++ " on line " ++ Text.decimal e.line ++ ": " ++ e.cause.parts.2

/-- letters of the basic alphabet to lower case; the one other letter with a lower case among them,
the Kelvin sign, is in no name -/
def lower (cs : List Char) : String := String.ofList (cs.map Char.toLower)

def registerNames : List (String × Register) :=
  [("a", .a), ("b", .b), ("acc", .accumulator), ("accumulator", .accumulator), ("adr", .address),
   ("addr", .address), ("address", .address), ("io", .io), ("buffer", .io),
   ("ins", .instruction), ("instruction", .instruction), ("pc", .programCounter),
   ("program_counter", .programCounter)]

def isLabelCharacter (c : Char) : Bool := c.isAlphanum || c == '_'

/-- the name of a label, given without its colons -/
def labelName (cs : List Char) : Except Cause String :=
  if !cs.isEmpty && cs.all isLabelCharacter then .ok (String.ofList cs)
  else .error (.badLabel (String.ofList cs))

def Operand.ofToken [Build] (token : Token) : Except Cause Operand :=
  let text := String.ofList token
  match token with
  | '$' :: name =>
    match registerNames.lookup (lower name) with
    | some r => .ok (.register r)
    | none => .error (.unknownRegister text)
  | '%' :: digits =>
    match address? digits with
    | some n => if n < UInt16.size then .ok (.address (.ofNat 16 n)) else .error (.outOfRange n)
    | none => .error (.badAddress text)
  | ':' :: ':' :: name => (labelName name).map .label
  | _ =>
    match readNumeral token with
    | .number n => .ok (.numeral n)
    | .refused => .error (.badToken text)
    | .overflow => .error .overflow

end OneBus.Assembly
