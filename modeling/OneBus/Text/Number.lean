/-!
Numbers as text: decimal with a minus sign, lower-case hexadecimal, and padding to a width. Padding
never cuts, and a sign counts as one place.
-/

namespace OneBus.Text

def decimal : Int → String
  | .ofNat n => n.repr
  | .negSucc n => "-" ++ (n + 1).repr

def hex (n : Nat) : String := String.ofList (Nat.toDigits 16 n)

def fill (c : Char) (missing : Nat) : String := String.ofList (List.replicate missing c)

def padLeft (width : Nat) (s : String) : String := fill ' ' (width - s.length) ++ s

def padRight (width : Nat) (s : String) : String := s ++ fill ' ' (width - s.length)

def zeros (width : Nat) (s : String) : String := fill '0' (width - s.length) ++ s

/-- decimal with zeros between sign and digits -/
def zeroDecimal (width : Nat) : Int → String
  | .ofNat n => zeros width n.repr
  | .negSucc n => "-" ++ zeros (width - 1) (n + 1).repr

theorem toList_decimal (n : Int) :
    (decimal n).toList = (if n < 0 then ['-'] else []) ++ Nat.toDigits 10 n.natAbs := by
  cases n with
  | ofNat n => simp [decimal]
  | negSucc n => simp [decimal, Int.negSucc_lt_zero]

end OneBus.Text
