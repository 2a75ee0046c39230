import OneBus.Text.Number
import OneBus.Text.Hidden

/-!
A character between single quotes, in a form that shows every character: what has a short escape
takes it, what has no glyph of its own is written by its number, and all else stands for itself.
-/

namespace OneBus.Text

def escape (c : Char) : String :=
  match c with
  | '\x00' => "\\0"
  | '\t' => "\\t"
  | '\r' => "\\r"
  | '\n' => "\\n"
  | '\'' => "\\'"
  | '\\' => "\\\\"
  | _ => if isHidden c then "\\u\x7b" ++ hex c.toNat ++ "\x7d" else c.toString

def quoted (c : Char) : String := "'" ++ escape c ++ "'"

end OneBus.Text
