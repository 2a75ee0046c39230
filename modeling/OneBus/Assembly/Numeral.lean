import OneBus.Text.Digits

/-!
Numbers in a source text. A numeral is a minus sign if wanted, a radix mark if wanted, and then a
signed number of that radix, so a second sign may follow the mark. That number has to fit into 64
bits, and of the least one the minus sign has no negation there. An address is a hexadecimal number
with an idle plus sign if wanted, and has to fit into 32 bits.
-/

namespace OneBus.Assembly

open Text

/-- the radix that a numeral's mark sets, and what is behind the mark -/
def radix : List Char → Nat × List Char
  | '0' :: mark :: cs =>
    match mark.toLower with
    | 'd' => (10, cs)
    | 'x' => (16, cs)
    | 'b' => (2, cs)
    | 'o' => (8, cs)
    | _ => (10, '0' :: mark :: cs)
  | cs => (10, cs)

def fitsLong (n : Int) : Bool := -0x8000000000000000 ≤ n && n < 0x8000000000000000

def magnitude? (cs : List Char) : Option Int :=
  let (base, digits) := radix cs
  (integer? base digits).filter fitsLong

/-- how the program is built -/
class Build where
  /-- an overflow stops the program; otherwise numbers wrap around -/
  checked : Bool

/-- a release build -/
instance : Build := ⟨false⟩

/-- what a token is as a numeral -/
inductive Reading
  | number (n : Int)
  | refused
  /-- there is no reading, the program has stopped -/
  | overflow
  deriving DecidableEq

/-- in 64 bits -/
def negate [Build] (n : Int) : Reading :=
  if fitsLong (-n) then .number (-n)
  else if Build.checked then .overflow
  else .number ((-n).bmod 0x10000000000000000)

def readNumeral [Build] : List Char → Reading
  | '-' :: cs => (magnitude? cs).elim .refused negate
  | cs => (magnitude? cs).elim .refused .number

def address? (cs : List Char) : Option Nat := (natural? 16 cs).filter (· < UInt32.size)

end OneBus.Assembly
