/-!
Cutting text: the blanks of Unicode, and the pieces between separators.
-/

namespace OneBus.Text

/-- the White_Space property -/
def isBlank (c : Char) : Bool :=
  let n := c.toNat
  (9 ≤ n && n ≤ 13) || n == 0x20 || n == 0x85 || n == 0xa0 || n == 0x1680
    || (0x2000 ≤ n && n ≤ 0x200a) || n == 0x2028 || n == 0x2029 || n == 0x202f || n == 0x205f
    || n == 0x3000

def cutStep (separates : Char → Bool) (c : Char) (pieces : List (List Char)) : List (List Char) :=
  if separates c then [] :: pieces else
  match pieces with
  | piece :: rest => (c :: piece) :: rest
  | [] => [[c]]

/-- the pieces before, between and behind the separators, empty ones included -/
def cut (separates : Char → Bool) (cs : List Char) : List (List Char) :=
  cs.foldr (cutStep separates) [[]]

/-- the pieces that have a character -/
def fields (separates : Char → Bool) (cs : List Char) : List (List Char) :=
  (cut separates cs).filter (!·.isEmpty)

/-- the lines of a text, a last one without line end included unless it is empty -/
def lines (text : String) : List String :=
  let pieces := (cut (· == '\n') text.toList).map String.ofList
  if pieces.getLast? = some "" then pieces.dropLast else pieces

end OneBus.Text
