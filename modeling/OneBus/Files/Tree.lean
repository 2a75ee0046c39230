import OneBus.Files.Access
import OneBus.Files.Path

/-!
A tree of files held in memory, seen from a working directory in it. A place is the list of names
that lead to it from the root; the directories are the places on the way to a file or to the working
directory. A path is walked part by part, and each step has to start from a directory, so that two
dots after a file or after nothing at all lead nowhere.
-/

namespace OneBus.Files

abbrev Place := List String

structure Tree where
  /-- the working directory -/
  here : Place := ["tmp", "work"]
  /-- latest first; the null device is there from the start, with nothing in it -/
  files : List (Place × List UInt8) := [(["dev", "null"], [])]
  deriving DecidableEq

inductive Entry
  | file (bytes : List UInt8)
  | directory
  | nothing

/-- a path is shorter than this, in bytes -/
def pathLimit : Nat := 4096

/-- a name is not longer than this, in bytes -/
def nameLimit : Nat := 255

/-- what is said of a path before anything is looked up -/
def checkPath (path : String) : Except FileError Unit :=
  if path.toList.contains '\x00' then .error .nulByte
  else if pathLimit ≤ path.utf8ByteSize then .error .tooLong
  else if path.isEmpty then .error .missing
  else .ok ()

namespace Tree

def put (t : Tree) (place : Place) (bytes : List UInt8) : Tree :=
  { t with files := (place, bytes) :: t.files.filter (·.1 ≠ place) }

theorem lookup_put (t : Tree) (place other : Place) (bytes : List UInt8) :
    (t.put place bytes).files.lookup other
      = if other = place then some bytes else t.files.lookup other := by
  unfold put
  rw [List.lookup_cons]
  by_cases h : other = place
  · simp [h]
  · have apart : (other == place) = false := by simpa using h
    rw [if_neg h, apart]
    induction t.files with
    | nil => rfl
    | cons f fs ih =>
      obtain ⟨name, content⟩ := f
      by_cases hn : name = place
      · subst hn
        simpa [List.lookup_cons, apart] using ih
      · by_cases ho : other = name <;> simp_all [List.lookup_cons]

/-- files in the working directory, or below it -/
def ofList (files : List (String × List UInt8)) : Tree :=
  files.foldr (fun (name, bytes) t => t.put (t.here ++ parts name) bytes) {}

def entry (t : Tree) (place : Place) : Entry :=
  match t.files.lookup place with
  | some bytes => .file bytes
  | none =>
    if place.isPrefixOf t.here || t.files.any (place.isPrefixOf ·.1) then .directory else .nothing

/-- from a directory; above the root is the root -/
def step (t : Tree) (place : Place) (part : String) : Except FileError Place :=
  if part = "." then .ok place
  else if part = ".." then .ok place.dropLast
  else if nameLimit < part.utf8ByteSize then .error .tooLong
  else
    match t.entry (place ++ [part]) with
    | .nothing => .error .missing
    | _ => .ok (place ++ [part])

/-- from a directory to a directory -/
def enter (t : Tree) (place : Place) (part : String) : Except FileError Place := do
  let next ← t.step place part
  match t.entry next with
  | .directory => return next
  | _ => throw .notDirectory

/-- the directory that all parts of a path but the last lead to -/
def parent (t : Tree) (path : String) : Except FileError Place :=
  (parts path).dropLast.foldlM t.enter (if isAbsolute path then [] else t.here)

def find (t : Tree) (path : String) : Except FileError Place := do
  let place ← t.parent path
  match (parts path).getLast? with
  | none => return place
  | some last => if endsInSlash path then t.enter place last else t.step place last

def read (t : Tree) (path : String) : Except FileError (List UInt8) := do
  checkPath path
  match t.entry (← t.find path) with
  | .file bytes => return bytes
  | .directory => throw .directory
  | .nothing => throw .missing

/-- replaces a file, or adds one to a directory that is there; a path that ends like that of a
directory is refused as one before its last part is looked up -/
def write (t : Tree) (path : String) (bytes : List UInt8) : Except FileError Tree := do
  checkPath path
  let place ← t.parent path
  match (parts path).getLast? with
  | none => throw .directory
  | some last =>
    if endsInSlash path || last = "." || last = ".." then throw .directory
    else if nameLimit < last.utf8ByteSize then throw .tooLong
    else
      match t.entry (place ++ [last]) with
      | .directory => throw .directory
      | _ => return t.put (place ++ [last]) bytes

end Tree

instance : FileAccess (StateM Tree) where
  readBytes path := do return (← get).read path
  writeBytes path bytes := do
    match (← get).write path bytes with
    | .ok t => set t; return .ok ()
    | .error e => return .error e

end OneBus.Files
