import OneBus.Json.Value

/-!
Reading JSON text. The grammar is the strict one: no leading zeros, no raw control characters in
strings, no commas too many, nothing but blanks behind the value. Escapes that name half a surrogate
pair are let through, with a string that has no text.
-/

namespace OneBus.Json

def isSpace (c : Char) : Bool := c == ' ' || c == '\t' || c == '\n' || c == '\r'

def skip (cs : List Char) : List Char := cs.dropWhile isSpace

def hexDigit? (c : Char) : Option Nat :=
  if '0' ≤ c ∧ c ≤ '9' then some (c.toNat - '0'.toNat)
  else if 'a' ≤ c ∧ c ≤ 'f' then some (c.toNat - 'a'.toNat + 10)
  else if 'A' ≤ c ∧ c ≤ 'F' then some (c.toNat - 'A'.toNat + 10)
  else none

def fourHex? (a b c d : Char) : Option Nat := do
  return ((16 * (← hexDigit? a) + (← hexDigit? b)) * 16 + (← hexDigit? c)) * 16 + (← hexDigit? d)

/-- a piece of a string: a character, or a 16-bit unit from an escape -/
inductive Piece
  | char (c : Char)
  | unit (n : Nat)

/-- joins surrogate pairs -/
def joinPieces : List Piece → Option (List Char)
  | [] => some []
  | .char c :: rest => (joinPieces rest).map (c :: ·)
  | .unit n :: rest =>
    if 0xd800 ≤ n ∧ n < 0xdc00 then
      match rest with
      | .unit m :: rest =>
        if 0xdc00 ≤ m ∧ m < 0xe000 then
          (joinPieces rest).map (Char.ofNat (0x10000 + 0x400 * (n - 0xd800) + (m - 0xdc00)) :: ·)
        else none
      | _ => none
    else if 0xdc00 ≤ n ∧ n < 0xe000 then none
    else (joinPieces rest).map (Char.ofNat n :: ·)

/-- the rest of a string behind its opening quote -/
def pieces (done : List Piece) : List Char → Option (List Piece × List Char)
  | [] => none
  | '"' :: rest => some (done.reverse, rest)
  | '\\' :: 'u' :: a :: b :: c :: d :: rest =>
    match fourHex? a b c d with
    | some n => pieces (.unit n :: done) rest
    | none => none
  | '\\' :: mark :: rest =>
    match mark with
    | '"' => pieces (.char '"' :: done) rest
    | '\\' => pieces (.char '\\' :: done) rest
    | '/' => pieces (.char '/' :: done) rest
    | 'b' => pieces (.char '\x08' :: done) rest
    | 'f' => pieces (.char '\x0c' :: done) rest
    | 'n' => pieces (.char '\n' :: done) rest
    | 'r' => pieces (.char '\r' :: done) rest
    | 't' => pieces (.char '\t' :: done) rest
    | _ => none
  | c :: rest => if c.toNat < 0x20 ∨ c = '\\' then none else pieces (.char c :: done) rest

def string? (cs : List Char) : Option (Option String × List Char) := do
  let (ps, rest) ← pieces [] cs
  return ((joinPieces ps).map String.ofList, rest)

/-- digits, of which there has to be one -/
def digits? (cs : List Char) : Option (List Char × List Char) :=
  let digits := cs.takeWhile Char.isDigit
  if digits.isEmpty then none else some (digits, cs.dropWhile Char.isDigit)

/-- a part that is there only behind its mark; gives its literal -/
def fraction? : List Char → Option (List Char × List Char)
  | '.' :: cs => (digits? cs).map fun (ds, rest) => ('.' :: ds, rest)
  | cs => some ([], cs)

def exponent? : List Char → Option (List Char × List Char)
  | mark :: cs =>
    if mark = 'e' ∨ mark = 'E' then
      match cs with
      | sign :: more =>
        if sign = '+' ∨ sign = '-' then
          (digits? more).map fun (ds, rest) => (mark :: sign :: ds, rest)
        else (digits? cs).map fun (ds, rest) => (mark :: ds, rest)
      | [] => none
    else some ([], mark :: cs)
  | [] => some ([], [])

def unsigned? (sign : List Char) (cs : List Char) : Option (Value × List Char) := do
  let (whole, rest) ← digits? cs
  if whole.head? = some '0' ∧ whole.length > 1 then none
  else
    let (part, rest) ← fraction? rest
    let (power, rest) ← exponent? rest
    let negativeZero := !sign.isEmpty && whole == ['0']
    if part.isEmpty && power.isEmpty && !negativeZero then
      let n : Int := Nat.ofDigitChars 10 whole 0
      return (.integer (if sign.isEmpty then n else -n), rest)
    else return (.decimal (String.ofList (sign ++ whole ++ part ++ power)), rest)

def number? : List Char → Option (Value × List Char)
  | '-' :: cs => unsigned? ['-'] cs
  | cs => unsigned? [] cs

mutual

/-- a value and what follows it; every call gets less fuel -/
def value? : Nat → List Char → Option (Value × List Char)
  | 0, _ => none
  | fuel + 1, cs =>
    match skip cs with
    | 'n' :: 'u' :: 'l' :: 'l' :: rest => some (.null, rest)
    | 't' :: 'r' :: 'u' :: 'e' :: rest => some (.bool true, rest)
    | 'f' :: 'a' :: 'l' :: 's' :: 'e' :: rest => some (.bool false, rest)
    | '"' :: rest => (string? rest).map fun (s, rest) => (.string s, rest)
    | '[' :: rest =>
      match skip rest with
      | ']' :: rest => some (.array [], rest)
      | rest => items? fuel [] rest
    | '\x7b' :: rest =>
      match skip rest with
      | '\x7d' :: rest => some (.object [], rest)
      | rest => fields? fuel [] rest
    | rest => number? rest

def items? : Nat → List Value → List Char → Option (Value × List Char)
  | 0, _, _ => none
  | fuel + 1, done, cs =>
    match value? fuel cs with
    | some (v, rest) =>
      match skip rest with
      | ',' :: rest => items? fuel (v :: done) rest
      | ']' :: rest => some (.array (v :: done).reverse, rest)
      | _ => none
    | none => none

def fields? : Nat → List (Option String × Value) → List Char → Option (Value × List Char)
  | 0, _, _ => none
  | fuel + 1, done, cs =>
    match skip cs with
    | '"' :: rest =>
      match string? rest with
      | some (name, rest) =>
        match skip rest with
        | ':' :: rest =>
          match value? fuel rest with
          | some (v, rest) =>
            match skip rest with
            | ',' :: rest => fields? fuel ((name, v) :: done) rest
            | '\x7d' :: rest => some (.object ((name, v) :: done).reverse, rest)
            | _ => none
          | none => none
        | _ => none
      | none => none
    | _ => none

end

/-- no value takes more than two calls for each of its characters -/
def parse (text : String) : Option Value :=
  let cs := text.toList
  match value? (2 * cs.length + 2) cs with
  | some (v, rest) => if (skip rest).isEmpty then some v else none
  | none => none

end OneBus.Json
