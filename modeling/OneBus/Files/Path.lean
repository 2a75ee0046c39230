import OneBus.Text.Split

/-!
Paths as texts. The name of a path is its last part that is not a lone dot, unless that is two dots; an
extension is what follows the last dot of a name, unless that dot is the first character.
-/

namespace OneBus.Files

/-- what stands between slashes -/
def parts (path : String) : List String :=
  (Text.fields (· == '/') path.toList).map String.ofList

def isAbsolute (path : String) : Bool := path.startsWith "/"

def endsInSlash (path : String) : Bool := path.endsWith "/"

def name? (path : String) : Option String :=
  ((parts path).filter (· ≠ ".")).getLast?.filter (· ≠ "..")

/-- a name without its extension, and the extension -/
def splitName (name : String) : String × Option String :=
  match name.toList.reverse.span (· ≠ '.') with
  | (_, []) => (name, none)
  | (_, [_]) => (name, none)
  | (last, _ :: stem) => (String.ofList stem.reverse, some (String.ofList last.reverse))

def extension? (path : String) : Option String := name? path >>= fun name => (splitName name).2

/-- the text of a path up to the end of its name -/
def untilName (path : String) : String :=
  let rec drop : List Char → List Char
    | '/' :: rest => drop rest
    | '.' :: '/' :: rest => drop rest
    | other => other
  String.ofList (drop path.toList.reverse).reverse

def dropEnd (n : Nat) (s : String) : String := String.ofList (s.toList.take (s.length - n))

/-- another extension, or one put to a name without; a path without a name stays -/
def setExtension (path extension : String) : String :=
  match name? path with
  | none => path
  | some name => dropEnd name.length (untilName path) ++ (splitName name).1 ++ "." ++ extension

/-- the path with another extension. As much as the old one holds is first taken off the end of the
text, slashes included, which matters for a name that begins with two dots: without what follows them
it is no name any more, and stays so. -/
def withExtension (path extension : String) : String :=
  setExtension (dropEnd ((extension? path).getD "").length path) extension

end OneBus.Files
