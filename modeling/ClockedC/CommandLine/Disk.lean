/-!
# Files by name

A model of the files a program sees: a tree of directories, a working directory, and paths that lead through it.

* `Disk.read` : the text of a file;
* `Disk.write` : the disk after a file is written;
* `FileFault` : why either fails.

A path is walked name by name, and every name but the last has to lead to a directory.
-/

namespace ClockedC.CommandLine

/-- Why a file cannot be read or written. -/
inductive FileFault where
  | missing
  | notDirectory
  | isDirectory
  /-- A name or a path exceeds what the system takes. -/
  | nameTooLong
  /-- The bytes are not the encoding of a text. -/
  | notText
  | other (message : String)
  deriving DecidableEq, Repr

/-- The wording of a fault. -/
def FileFault.message : FileFault → String
  | missing => "No such file or directory (os error 2)"
  | notDirectory => "Not a directory (os error 20)"
  | isDirectory => "Is a directory (os error 21)"
  | nameTooLong => "File name too long (os error 36)"
  | notText => "stream did not contain valid UTF-8"
  | other message => message

/-! ## Paths -/

/-- A path: names to follow from the working directory or from the root. -/
structure Path where
  names : List String
  /-- A slash in front: the path starts at the root. -/
  absolute : Bool
  /-- A slash at the end: the path can only name a directory. -/
  closed : Bool
  /-- How many bytes the path takes. -/
  size : Nat
  deriving DecidableEq, Repr

/-- Reads a path. Slashes separate names, and several in a row count as one. -/
def Path.ofText (text : String) : Path :=
  { names := (text.splitOn "/").filter (· ≠ "")
    absolute := text.toList.head? = some '/'
    closed := text.toList.getLast? = some '/'
    size := text.utf8ByteSize }

/-- The most bytes of a path. -/
def pathLimit : Nat := 4095

/-- The most bytes of a name. -/
def nameLimit : Nat := 255

/-! ## The tree -/

/-- What stands at a place of the tree. -/
inductive Entry where
  | file (content : ByteArray)
  | directory
  /-- A device that holds nothing and forgets what is written to it. -/
  | sink

/-- The names that lead from the root to an entry. -/
abbrev Place := List String

/-- A tree of files and directories, and the directory that paths start from. -/
structure Disk where
  entries : List (Place × Entry) := []
  working : Place := []

namespace Disk

/-- What stands at a place. All that lies above an entry or above the working directory is a directory. -/
def find? (disk : Disk) (place : Place) : Option Entry :=
  match disk.entries.lookup place with
  | some entry => some entry
  | none =>
    if (disk.working :: disk.entries.map (·.1)).any place.isPrefixOf then some .directory else none

/-- The disk with an entry at a place instead of what stood there. -/
def put (disk : Disk) (place : Place) (entry : Entry) : Disk :=
  { disk with entries := (place, entry) :: disk.entries.filter fun e => e.1 ≠ place }

/-- Fails unless a directory stands at a place. -/
def enter (disk : Disk) (place : Place) : Except FileFault Place :=
  match disk.find? place with
  | none => .error .missing
  | some .directory => .ok place
  | some _ => .error .notDirectory

/-- Follows one name from a directory. -/
def step (disk : Disk) (place : Place) (name : String) : Except FileFault Place := do
  let place ← disk.enter place
  if name = "." then return place
  else if name = ".." then return place.dropLast
  else if nameLimit < name.utf8ByteSize then .error .nameTooLong
  else return place ++ [name]

/-- Follows the names of a path, from where the path starts. -/
def walk (disk : Disk) (path : Path) (names : List String) : Except FileFault Place :=
  if pathLimit < path.size then .error .nameTooLong
  else names.foldlM disk.step (if path.absolute then [] else disk.working)

/-- The text of a file. -/
def read (disk : Disk) (path : Path) : Except FileFault String := do
  let place ← disk.walk path path.names
  let place ← if path.closed then disk.enter place else pure place
  match disk.find? place with
  | none => .error .missing
  | some .directory => .error .isDirectory
  | some .sink => .ok ""
  | some (.file content) =>
    match String.fromUTF8? content with
    | some text => .ok text
    | none => .error .notText

/-- The disk after a text is written to a file, which is made if there is none. A path that can only name a
directory is refused before its last name is looked at. -/
def write (disk : Disk) (path : Path) (text : String) : Except FileFault Disk := do
  let directory ← disk.walk path path.names.dropLast
  match path.names.getLast? with
  | none => .error .isDirectory
  | some name =>
    let directory ← disk.enter directory
    if path.closed then .error .isDirectory
    else
      let place ← disk.step directory name
      match disk.find? place with
      | some .directory => .error .isDirectory
      | some .sink => .ok disk
      | _ => .ok (disk.put place (.file text.toUTF8))

/-- A disk with entries put on it in turn, so that of two at one place the last stays. -/
def putAll (disk : Disk) (entries : List (Place × Entry)) : Disk :=
  entries.foldl (fun disk entry => disk.put entry.1 entry.2) disk

end Disk

end ClockedC.CommandLine
