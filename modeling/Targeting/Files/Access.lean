import Targeting.Text.Basic

/-!
# Access to files

Programs that read and write settings run in any monad with access to files, so that they can be
studied on a `FileTree` and run on a disk.

## Main definitions

* `FileError` — why reading or writing a file fails
* `FileAccess` — a monad with access to files
* `Path.join` — the path of an entry of a directory
* `Path.names` — the names in a path
* `Path.directory` — the path of the directory that a path goes through last
-/

namespace Targeting

/-- Why reading or writing a file fails. -/
inductive FileError where
  | notFound
  | notADirectory
  | isADirectory
  | busy
  | nameTooLong
  | notText
  | notAPath
  | other (code : Nat) (description : String)
  deriving DecidableEq

namespace FileError

/-- A description with the number by which the system knows it. -/
def numbered (description : String) (code : Nat) : String :=
  description ++ " (os error " ++ toString code ++ ")"

/-- The wording of an error. -/
def message : FileError → String
  | .notFound => numbered "No such file or directory" 2
  | .notADirectory => numbered "Not a directory" 20
  | .isADirectory => numbered "Is a directory" 21
  | .busy => numbered "Device or resource busy" 16
  | .nameTooLong => numbered "File name too long" 36
  | .notText => "stream did not contain valid UTF-8"
  | .notAPath => "file name contained an unexpected NUL byte"
  | .other code description => numbered description code

end FileError

/-- A monad with access to files, which are named by paths. -/
class FileAccess (m : Type → Type) where
  /-- The text in a file. -/
  read : String → m (Except FileError String)
  /-- Replaces the text in a file as a whole, or fails and changes nothing. -/
  write : String → String → m (Except FileError Unit)
  /-- Whether a path leads to a file or a directory. -/
  isPresent : String → m Bool

instance {m n : Type → Type} [MonadLift m n] [FileAccess m] : FileAccess n where
  read path := (monadLift (FileAccess.read path : m _) : n _)
  write path text := (monadLift (FileAccess.write path text : m _) : n _)
  isPresent path := (monadLift (FileAccess.isPresent path : m _) : n _)

namespace Path

/-- The path of an entry of a directory. -/
def join (directory name : String) : String :=
  match directory.toList.getLast? with
  | none | some '/' => directory ++ name
  | some _ => directory ++ "/" ++ name

/-- Whether a path starts at the topmost directory. -/
def isAbsolute (path : String) : Bool := Text.isLedBy '/' path

/-- The names in a path; slashes at the start, at the end and side by side enclose empty names. -/
def names (path : String) : List String := (Text.pieces '/' path.toList).map String.ofList

/-- Whether a name stays where it is. -/
def isStill (name : String) : Bool := name = "" || name = "."

/-- The path of the directory that a path goes through last, which is the current one for a path of
one name. Names that stay where they are do not count, except in front. -/
def directory (path : String) : String :=
  match names path with
  | [] => "."
  | first :: rest =>
    if rest.all isStill then "."
    else
      let above := ((rest.reverse.dropWhile isStill).drop 1).dropWhile isStill
      if first.isEmpty && above.isEmpty then "/" else "/".intercalate (first :: above.reverse)

end Path

end Targeting
