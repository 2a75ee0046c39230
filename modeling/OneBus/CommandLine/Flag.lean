/-!
The words of a command. A flag with a value takes it from behind an equals sign, or else from the
next word, which must not look like a flag; behind the letter of a flag it may also stand at once. A
lone dash is a word like any other, and behind two dashes every word is. `scan` never fails: what is
wrong with a word stands in its place, so that the first mistake is the one that counts.
-/

namespace OneBus.CommandLine

structure Flag where
  name : String
  letter : Option Char := none
  /-- what the value stands for; a switch has none -/
  value : Option String := none
  help : String

inductive UsageError
  | unknownFlag (word : String)
  | missingValue (flag : String)
  | needlessValue (flag : String)
  | badValue (subject value : String)
  | repeated (flag : String)
  | surplus (word : String)
  | missingArgument (subject : String)
  | missingCommand
  | unknownCommand (word : String)
  deriving DecidableEq

inductive Item
  | switch (name : String)
  | valued (name value : String)
  | plain (word : String)
  | wrong (cause : UsageError)
  deriving DecidableEq

/-- a word by itself -/
inductive Reading
  | whole (item : Item)
  /-- the value is in the next word -/
  | awaiting (name : String)
  deriving DecidableEq

def looksLikeFlag (word : String) : Bool := word.startsWith "-" && word ≠ "-"

/-- a flag called by its name -/
def Flag.named (f : Flag) : Option String → Reading
  | none => if f.value.isSome then .awaiting f.name else .whole (.switch f.name)
  | some value =>
    .whole (if f.value.isSome then .valued f.name value else .wrong (.needlessValue f.name))

/-- a flag called by its letter; nothing is read behind the letter of a switch -/
def Flag.lettered (f : Flag) (rest : List Char) : Reading :=
  if f.value.isNone then .whole (.switch f.name)
  else
    match rest with
    | [] => .awaiting f.name
    | '=' :: value => .whole (.valued f.name (String.ofList value))
    | value => .whole (.valued f.name (String.ofList value))

def readWord (flags : List Flag) (word : String) : Reading :=
  match word.toList with
  | '-' :: '-' :: cs =>
    let (name, attached) := cs.span (· ≠ '=')
    match flags.find? (·.name == String.ofList name) with
    | some f => f.named (attached.tail?.map String.ofList)
    | none => .whole (.wrong (.unknownFlag word))
  | '-' :: letter :: cs =>
    match flags.find? (·.letter == some letter) with
    | some f => f.lettered cs
    | none => .whole (.wrong (.unknownFlag word))
  | _ => .whole (.plain word)

def scan (flags : List Flag) : List String → List Item
  | [] => []
  | "--" :: rest => rest.map .plain
  | word :: rest =>
    match readWord flags word with
    | .whole item => item :: scan flags rest
    | .awaiting name =>
      match rest with
      | [] => [.wrong (.missingValue name)]
      | value :: rest =>
        if looksLikeFlag value then [.wrong (.missingValue name)]
        else .valued name value :: scan flags rest

end OneBus.CommandLine
