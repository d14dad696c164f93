/-
  File:      CMinusMinus/Files.lean
  Subject:   Files and directories by path.

  A file tree hangs below the working directory. A path is walked name by name from there: every
  name but the last must lead to a directory, `.` stays, `..` goes up. Nothing is known of what
  lies outside the working directory, so no name is found there. A path that ends in a slash can
  only mean a directory, and no directory can be read or written as a file. Names and paths have
  limits on their bytes.

  A tree is one thing that holds files. What a compiler does with files does not depend on it: a
  machine may refuse a path for causes that no tree knows, and its paths may lead anywhere.

  * `FileProblem` -- why a path is refused, for whatever cause;
  * `Files.read` -- the bytes of a file;
  * `Files.write` -- the tree after a file got new bytes;
  * `FileSystem` -- whatever can be read and written by path.
-/
import CMinusMinus.Text.Quoted

namespace CMinusMinus

/-! ## 1. Refusals -/

/-- Why a path cannot be opened: the number of the cause, and its wording. -/
structure FileProblem where
  number : Nat
  message : String
  deriving DecidableEq, Repr

namespace FileProblem

/-! The causes that a tree of files has. -/

def notFound : FileProblem := ⟨2, "No such file or directory"⟩

def notDirectory : FileProblem := ⟨20, "Not a directory"⟩

def isDirectory : FileProblem := ⟨21, "Is a directory"⟩

def nameTooLong : FileProblem := ⟨36, "File name too long"⟩

/-- Number and wording of a problem, and the path as it was given. -/
def describe (p : FileProblem) (path : String) : String :=
  s!"[Errno {p.number}] {p.message}: {Text.quoted path}"

end FileProblem

/-! ## 2. Paths -/

/-- A path cut at its slashes. -/
structure Path where
  /-- It starts at the root of all directories, not at the working directory. -/
  absolute : Bool
  /-- Its names, `.` and `..` among them. -/
  names : List String
  /-- It ends in a slash. -/
  slashed : Bool
  deriving DecidableEq, Repr

/-- Cuts a path at its slashes. -/
def Path.ofString (path : String) : Path where
  absolute := path.toList.head? = some '/'
  names := ((path.toList.splitOn '/').map String.ofList).filter (· ≠ "")
  slashed := path.toList.getLast? = some '/'

/-- The most bytes that a name may have. -/
def nameLimit : Nat := 255

/-- The most bytes that a path may have. -/
def pathLimit : Nat := 4095

/-- A place that a path leads to. -/
inductive Place where
  /-- Below the working directory, at the end of the names. -/
  | inside (names : List String)
  /-- A directory outside the working directory. -/
  | above
  /-- A name outside the working directory, of which nothing is known. -/
  | unseen
  deriving DecidableEq, Repr

/-- The place that a path starts from. -/
def Path.start (p : Path) : Place := if p.absolute then .above else .inside []

/-- The place that a name leads to. -/
def Place.step (place : Place) (name : String) : Place :=
  if name = "." then place
  else if name = ".." then
    match place with
    | .inside (n :: ns) => .inside (n :: ns).dropLast
    | _ => .above
  else
    match place with
    | .inside names => .inside (names ++ [name])
    | _ => .unseen

/-! ## 3. Trees -/

/-- What stands at a place. -/
inductive Node where
  | file (bytes : List UInt8)
  | directory
  deriving DecidableEq, Repr

/-- The files and directories below the working directory, by the names that lead to them. A
    directory that holds something need not be listed. -/
structure Files where
  entries : List (List String × Node) := []
  deriving DecidableEq, Repr

namespace Files

/-- What stands at a place, if anything does. -/
def node? (files : Files) : Place → Option Node
  | .above => some .directory
  | .unseen => none
  | .inside [] => some .directory
  | .inside names =>
      match files.entries.lookup names with
      | some node => some node
      | none =>
          if files.entries.any fun e => names.isPrefixOf e.1 then some .directory else none

/-- Looks a name up at a place, which must be a directory. -/
def lookUp (files : Files) (place : Place) (name : String) : Except FileProblem Place :=
  match files.node? place with
  | some .directory =>
      if nameLimit < name.utf8ByteSize then .error .nameTooLong else .ok (place.step name)
  | some (.file _) => .error .notDirectory
  | none => .error .notFound

/-- Walks names from a place. -/
def walk (files : Files) (place : Place) : List String → Except FileProblem Place
  | [] => .ok place
  | name :: rest =>
      match files.lookUp place name with
      | .ok next => files.walk next rest
      | .error e => .error e

/-- The bytes of the file that a path means. -/
def read (files : Files) (path : String) : Except FileProblem (List UInt8) :=
  let p := Path.ofString path
  if path = "" then .error .notFound
  else if pathLimit < path.utf8ByteSize then .error .nameTooLong
  else match files.walk p.start p.names with
    | .error e => .error e
    | .ok place =>
        match files.node? place with
        | some (.file bytes) => if p.slashed then .error .notDirectory else .ok bytes
        | some .directory => .error .isDirectory
        | none => .error .notFound

/-- The tree after the file at a place got new bytes. -/
def put (files : Files) (names : List String) (bytes : List UInt8) : Files :=
  if (files.entries.lookup names).isSome then
    ⟨files.entries.map fun e => if e.1 = names then (names, .file bytes) else e⟩
  else ⟨files.entries ++ [(names, .file bytes)]⟩

/-- The place of the file that a path would write; the file need not exist, its directory must. -/
def target (files : Files) (path : String) : Except FileProblem (List String) :=
  let p := Path.ofString path
  if path = "" then .error .notFound
  else if pathLimit < path.utf8ByteSize then .error .nameTooLong
  else match files.walk p.start p.names.dropLast, p.names.getLast? with
    | .error e, _ => .error e
    | .ok _, none => .error .isDirectory
    | .ok place, some last =>
        if files.node? place = some .directory ∧ (last = "." ∨ last = ".." ∨ p.slashed) then
          .error .isDirectory
        else match files.lookUp place last with
          | .error e => .error e
          | .ok named =>
              match named, files.node? named with
              | _, some .directory => .error .isDirectory
              | .inside names, _ => .ok names
              | _, _ => .error .notFound

/-- Writes bytes to the file that a path means, which is made if there is none. -/
def write (files : Files) (path : String) (bytes : List UInt8) : Except FileProblem Files :=
  match files.target path with
  | .error e => .error e
  | .ok names => .ok (files.put names bytes)

end Files

/-! ## 4. File systems -/

/-- **Whatever holds files.** A path is opened for reading or for writing, and either may be refused
    for any cause; a refusal leaves all as it is. Nothing else is assumed. -/
class FileSystem (σ : Type) where
  read : σ → String → Except FileProblem (List UInt8)
  write : σ → String → List UInt8 → Except FileProblem σ

instance : FileSystem Files where
  read := Files.read
  write := Files.write

end CMinusMinus
