import OneBus.CommandLine.Command

/-!
What the command line says of itself. The flags of a command are listed in two columns, with room for
a letter in front of each name.
-/

namespace OneBus.CommandLine

open Text

def programName : String := "microbus-emu"

def versionText : String := programName ++ " 0.1.0\n"

def Flag.call (f : Flag) : String :=
  let letter := match f.letter with
    | some c => "-" ++ c.toString ++ ", "
    | none => "    "
  let value := match f.value with
    | some subject => " <" ++ subject ++ ">"
    | none => ""
  letter ++ "--" ++ f.name ++ value

def columns (rows : List (String × String)) : List String :=
  let width := (rows.map (·.1.length)).foldl max 0
  rows.map fun (left, right) => "  " ++ padRight width left ++ "  " ++ right

def flagLines (flags : List Flag) : List String :=
  "Options:" :: columns (flags.map fun f => (f.call, f.help))

namespace Topic

def about : Topic → String
  | run => "Run a program until it halts"
  | debug => "Interactive debugger"
  | assemble => "Assemble source to an image"
  | disassemble => "Disassemble an image to assembler text"
  | help => "Print this message or the help of the given subcommand(s)"

/-- what its path is called, and what the path leads to -/
def argument : Topic → String × String
  | run => ("[PROGRAM]", "Image or .asm file to execute (defaults to the configured image)")
  | debug => ("<PROGRAM>", "Image or .asm file to debug")
  | assemble => ("<SOURCE>", "Path to the source file")
  | disassemble => ("<IMAGE>", "Path to the image")
  | help => ("[COMMAND]...", "Print help for the subcommand(s)")

def helpLines (t : Topic) : List String :=
  let flags := if t.flags.isEmpty then [] else "" :: flagLines t.flags
  let options := if t.flags.isEmpty then "" else " [OPTIONS]"
  [t.about, "", "Usage: " ++ programName ++ " " ++ t.word ++ options ++ " " ++ t.argument.1, "",
    "Arguments:"] ++ columns [t.argument] ++ flags

end Topic

def generalHelp : List String :=
  ["Emulator of a microcoded 16-bit bus computer", "", "Usage: " ++ programName ++ " <COMMAND>", "",
    "Commands:"] ++ columns (Topic.all.map fun t => (t.word, t.about)) ++ [""]
    ++ flagLines generalFlags

def unlines (lines : List String) : String := String.join (lines.map (· ++ "\n"))

def helpText : Option Topic → String
  | some t => unlines t.helpLines
  | none => unlines generalHelp

def UsageError.message : UsageError → String
  | unknownFlag word => "unexpected argument '" ++ word ++ "' found"
  | missingValue flag => "a value is required for '--" ++ flag ++ "' but none was supplied"
  | needlessValue flag => "unexpected value for '--" ++ flag ++ "' found; no more were expected"
  | badValue subject value => "invalid value '" ++ value ++ "' for '" ++ subject ++ "'"
  | repeated flag => "the argument '--" ++ flag ++ "' cannot be used multiple times"
  | surplus word => "unexpected argument '" ++ word ++ "' found"
  | missingArgument subject => "the required argument <" ++ subject ++ "> was not provided"
  | missingCommand => "no subcommand was given"
  | unknownCommand word => "unrecognized subcommand '" ++ word ++ "'"

def UsageError.text (e : UsageError) : String :=
  unlines ["error: " ++ e.message, "", "Usage: " ++ programName ++ " <COMMAND>", "",
    "For more information, try '--help'."]

end OneBus.CommandLine
