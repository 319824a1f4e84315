import Targeting.Files.Access

/-!
# Trees of files

A `FileTree` is a file system as a value. A location is the list of names from the topmost directory
down. A path leads from the current directory, or from the topmost one, to a location: an empty
name and `.` stay where they are, `..` goes up, and every step starts at an existing directory. Paths
and names have a greatest length.

A text is written to a new file beside the target, which then takes the target's place. So the
directory has to exist, and a path that does not end in a name cannot be written to.

## Main definitions

* `FileTree` — files and directories by location, with a current directory
* `FileTree.locate` — the location that a path leads to
* `FileTree.read`, `FileTree.write`, `FileTree.isPresent` — the access to files
-/

namespace Targeting

/-- The names from the topmost directory down to a file or directory. -/
abbrev Location := List String

/-- What a file holds: text, or bytes that are no text. The simplest of these are a single byte that
stands nowhere in a text. -/
inductive FileContent where
  | text (s : String)
  | bytes (data : Array UInt8 := #[0xFF])
      (isNoText : (ByteArray.mk data).validateUTF8 = false := by decide)
  deriving DecidableEq

/-- What stands at a location. -/
inductive FileEntry where
  | directory
  | file (content : FileContent)
  deriving DecidableEq

/-- Files and directories by location. The topmost directory is always there. -/
structure FileTree where
  entries : List (Location × FileEntry) := []
  current : Location := []

namespace FileTree

/-- What stands at a location. -/
def entry? (t : FileTree) : Location → Option FileEntry
  | [] => some .directory
  | location => (t.entries.find? (·.1 = location)).map (·.2)

/-- Puts an entry at a location in an association list. -/
def putEntry (location : Location) (entry : FileEntry) :
    List (Location × FileEntry) → List (Location × FileEntry)
  | [] => [(location, entry)]
  | e :: rest =>
    if e.1 = location then (location, entry) :: rest else e :: putEntry location entry rest

/-- Puts an entry at a location. -/
def put (t : FileTree) (location : Location) (entry : FileEntry) : FileTree :=
  { t with entries := putEntry location entry t.entries }

/-! ### Paths -/

/-- The location at which a path starts. -/
def start (t : FileTree) (path : String) : Location :=
  if Path.isAbsolute path then [] else t.current

/-- The greatest length of a name in bytes. -/
def greatestNameLength : Nat := 255

/-- The greatest length of a path in bytes. -/
def greatestPathLength : Nat := 4095

/-- Fails for a text that is no path. -/
def expectPath (path : String) : Except FileError Unit :=
  if '\x00' ∈ path.toList then .error .notAPath
  else if path.isEmpty then .error .notFound
  else if path.utf8ByteSize > greatestPathLength then .error .nameTooLong
  else .ok ()

/-- The location that a name leads to from an existing directory. -/
def step (t : FileTree) (here : Location) (name : String) : Except FileError Location :=
  match t.entry? here with
  | none => .error .notFound
  | some (.file _) => .error .notADirectory
  | some .directory =>
    if Path.isStill name then .ok here
    else if name = ".." then .ok here.dropLast
    else if name.utf8ByteSize > greatestNameLength then .error .nameTooLong
    else .ok (here ++ [name])

/-- The location that names lead to. -/
def follow (t : FileTree) (here : Location) (names : List String) : Except FileError Location :=
  names.foldlM t.step here

/-- The location that a path leads to; its last name may be free. -/
def locate (t : FileTree) (path : String) : Except FileError Location := do
  expectPath path
  t.follow (t.start path) (Path.names path)

/-! ### Reading and writing -/

/-- Whether a path leads to a file or a directory. -/
def isPresent (t : FileTree) (path : String) : Bool :=
  match t.locate path with
  | .ok location => (t.entry? location).isSome
  | .error _ => false

/-- The text in a file. -/
def read (t : FileTree) (path : String) : Except FileError String := do
  match t.entry? (← t.locate path) with
  | none => .error .notFound
  | some .directory => .error .isADirectory
  | some (.file (.bytes ..)) => .error .notText
  | some (.file (.text s)) => .ok s

/-- The path of the current directory. -/
def currentPath (t : FileTree) : String := "/" ++ "/".intercalate t.current

/-- The path of the new file beside the target at a path, with a name like those of new files. It is
spelt out from the topmost directory. -/
def freshPath (t : FileTree) (path : String) : String :=
  let directory := Path.directory path
  let directory := if Path.isAbsolute directory then directory
    else Path.join t.currentPath directory
  Path.join directory ".tmp000000"

/-- The location where a text for the given path is put. -/
def target (t : FileTree) (path : String) : Except FileError Location := do
  let _ ← t.locate (t.freshPath path)
  expectPath path
  let slashed := (Path.names path).reverse
  match slashed.dropWhile (· = "") with
  | [] => .error .busy
  | last :: above =>
    let here ← t.follow (t.start path) above.reverse
    let location ← t.step here last
    if last = "." ∨ last = ".." then .error .busy
    else if slashed.head? = some "" then .error .notADirectory
    else if t.entry? location = some .directory then .error .isADirectory
    else .ok location

/-- The tree with a text in the file of the given path. -/
def write (t : FileTree) (path text : String) : Except FileError FileTree := do
  let location ← t.target path
  return t.put location (.file (.text text))

instance : FileAccess (StateM FileTree) where
  read path := return (← get).read path
  write path text := do
    match (← get).write path text with
    | .ok t => set t; return .ok ()
    | .error e => return .error e
  isPresent path := return (← get).isPresent path

end FileTree

end Targeting
