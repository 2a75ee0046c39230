/-!
Numbers out of text: digits of a radix, with or without a sign in front. At least one digit has to be
there, and nothing else may.
-/

namespace OneBus.Text

/-- the value of a digit, the case of letters ignored -/
def digit? (radix : Nat) (c : Char) : Option Nat :=
  let value :=
    if '0' ≤ c ∧ c ≤ '9' then some (c.toNat - '0'.toNat)
    else if 'a' ≤ c ∧ c ≤ 'z' then some (c.toNat - 'a'.toNat + 10)
    else if 'A' ≤ c ∧ c ≤ 'Z' then some (c.toNat - 'A'.toNat + 10)
    else none
  value.filter (· < radix)

def digits? (radix : Nat) : List Char → Option Nat
  | [] => none
  | cs => (cs.mapM (digit? radix)).map (·.foldl (fun n d => radix * n + d) 0)

/-- a plus sign is taken and means nothing -/
def natural? (radix : Nat) : List Char → Option Nat
  | '+' :: cs => digits? radix cs
  | cs => digits? radix cs

def integer? (radix : Nat) : List Char → Option Int
  | '-' :: cs => (digits? radix cs).map fun n => -(n : Int)
  | cs => (natural? radix cs).map Int.ofNat

end OneBus.Text
