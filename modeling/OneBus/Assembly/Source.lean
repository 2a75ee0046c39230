import OneBus.Text.Split

/-!
The lines of a source text. A number sign starts a comment, and tokens stand between commas and
blanks, of which any number counts as one. Lines are counted from 1.
-/

namespace OneBus.Assembly

abbrev Token := List Char

structure Line where
  number : Nat
  tokens : List Token
  deriving DecidableEq

def isSeparator (c : Char) : Bool := c == ',' || Text.isBlank c

def withoutComment (cs : List Char) : List Char := cs.takeWhile (· != '#')

def tokensOf (cs : List Char) : List Token := Text.fields isSeparator (withoutComment cs)

def linesOf (source : String) : List Line :=
  ((Text.cut (· == '\n') source.toList).zipIdx 1).map fun (cs, i) => ⟨i, tokensOf cs⟩

end OneBus.Assembly
