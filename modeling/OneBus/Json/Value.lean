import OneBus.Text.Number

/-!
JSON values and how they are written: compactly, or over several lines with two blanks to a level.
-/

namespace OneBus.Json

inductive Value
  | null
  | bool (b : Bool)
  | integer (n : Int)
  /-- a number written with a fraction, an exponent or as a negative zero -/
  | decimal (literal : String)
  /-- `none` when the escapes name half a surrogate pair, which is no text -/
  | string (text : Option String)
  | array (items : List Value)
  | object (fields : List (Option String × Value))

def text (s : String) : Value := .string (some s)

/-- a field of an object under a name that is a text -/
def field (f : String × Value) : Option String × Value := (some f.1, f.2)

def record (fields : List (String × Value)) : Value := .object (fields.map field)

def escape (c : Char) : List Char :=
  match c with
  | '"' => ['\\', '"']
  | '\\' => ['\\', '\\']
  | '\x08' => ['\\', 'b']
  | '\x0c' => ['\\', 'f']
  | '\n' => ['\\', 'n']
  | '\r' => ['\\', 'r']
  | '\t' => ['\\', 't']
  | _ =>
    if c.toNat < 0x20 then
      ['\\', 'u', '0', '0', Nat.digitChar (c.toNat / 16), Nat.digitChar (c.toNat % 16)]
    else [c]

def quote (s : String) : String := "\"" ++ String.ofList (s.toList.flatMap escape) ++ "\""

/-- a string that is no text has no form of its own and is written as an empty one -/
def quoteText (s : Option String) : String := quote (s.getD "")

mutual

def compact : Value → String
  | .null => "null"
  | .bool b => if b then "true" else "false"
  | .integer n => Text.decimal n
  | .decimal literal => literal
  | .string s => quoteText s
  | .array items => "[" ++ String.intercalate "," (compactItems items) ++ "]"
  | .object fields => "\x7b" ++ String.intercalate "," (compactFields fields) ++ "\x7d"

def compactItems : List Value → List String
  | [] => []
  | v :: rest => compact v :: compactItems rest

def compactFields : List (Option String × Value) → List String
  | [] => []
  | (name, v) :: rest => (quoteText name ++ ":" ++ compact v) :: compactFields rest

end

/-- brackets around parts that stand on lines of their own, one level further in -/
def block (depth : Nat) (first last : String) (parts : List String) : String :=
  if parts.isEmpty then first ++ last
  else
    let inner := "\n" ++ Text.fill ' ' (2 * (depth + 1))
    let outer := "\n" ++ Text.fill ' ' (2 * depth)
    first ++ String.intercalate "," (parts.map (inner ++ ·)) ++ outer ++ last

mutual

def pretty (depth : Nat) : Value → String
  | .array items => block depth "[" "]" (prettyItems (depth + 1) items)
  | .object fields => block depth "\x7b" "\x7d" (prettyFields (depth + 1) fields)
  | .null => compact .null
  | .bool b => compact (.bool b)
  | .integer n => compact (.integer n)
  | .decimal literal => compact (.decimal literal)
  | .string s => compact (.string s)

def prettyItems (depth : Nat) : List Value → List String
  | [] => []
  | v :: rest => pretty depth v :: prettyItems depth rest

def prettyFields (depth : Nat) : List (Option String × Value) → List String
  | [] => []
  | (name, v) :: rest => (quoteText name ++ ": " ++ pretty depth v) :: prettyFields depth rest

end

end OneBus.Json
