import Targeting.CommandLine.Help
import Targeting.CommandLine.Program

/-!
# The program

Gives the commands access to the files of the system and prints their reports.
-/

namespace Targeting.CommandLine

/-- The error that a number of the system means. -/
def fileErrorOf (code : UInt32) (details : String) : FileError :=
  match code.toNat with
  | 2 => .notFound
  | 16 => .busy
  | 20 => .notADirectory
  | 21 => .isADirectory
  | 36 => .nameTooLong
  | code => .other code details

/-- The error that a failed operation means. -/
def fileError : IO.Error → FileError
  | .alreadyExists _ code details | .interrupted _ code details
  | .noFileOrDirectory _ code details | .invalidArgument _ code details
  | .permissionDenied _ code details | .resourceExhausted _ code details
  | .inappropriateType _ code details | .noSuchThing _ code details
  | .otherError code details | .resourceBusy code details | .resourceVanished code details
  | .unsupportedOperation code details | .hardwareFault code details
  | .unsatisfiedConstraints code details | .illegalOperation code details
  | .protocolError code details | .timeExpired code details => fileErrorOf code details
  | .unexpectedEof => .other 0 "unexpected end of file"
  | .userError details => .other 0 details

/-- The result of an operation that may fail. -/
def attempt {α : Type} (action : IO α) : IO (Except FileError α) := do
  try return .ok (← action)
  catch e => return .error (fileError e)

/-- Writes a text to a new file, which then takes the place of another. -/
def replaceFile (path text : String) : IO Unit := do
  let beside := path ++ ".part"
  try
    IO.FS.writeFile beside text
    IO.FS.rename beside path
  catch e =>
    try IO.FS.removeFile beside catch _ => pure ()
    throw e

instance : FileAccess IO where
  read path := do
    match ← attempt (IO.FS.readBinFile path) with
    | .error e => return .error e
    | .ok bytes =>
      match String.fromUTF8? bytes with
      | some text => return .ok text
      | none => return .error .notText
  write path text := attempt (replaceFile path text)
  isPresent path := do
    match ← attempt (IO.FS.Handle.mk path .read) with
    | .ok _ => return true
    | .error e => return e ≠ .notFound ∧ e ≠ .notADirectory

/-- The variable that an entry of the form `NAME=value` defines. A name may begin with an equals
sign. -/
def definition? (entry : String) : Option (String × String) :=
  match entry.toList with
  | [] => none
  | c :: rest =>
    if '=' ∈ rest then
      some (String.ofList (c :: rest.takeWhile (· ≠ '=')),
        String.ofList ((rest.dropWhile (· ≠ '=')).drop 1))
    else none

/-- The number of the user in the description of a process. -/
def userIn? (status : String) : Option String :=
  (status.splitOn "\n").findSome? fun line =>
    match line.splitOn "\t" with
    | "Uid:" :: user :: _ => some user
    | _ => none

/-- The home directory of a user in a list of accounts. -/
def homeIn? (accounts user : String) : Option String :=
  (accounts.splitOn "\n").findSome? fun line =>
    match line.splitOn ":" with
    | [_, _, number, _, _, home, _] => if number = user then some home else none
    | _ => none

/-- The text of a file, empty if it cannot be read. -/
def textOrEmpty (path : String) : IO String := do
  match ← attempt (IO.FS.readBinFile path) with
  | .error _ => return ""
  | .ok bytes => return (String.fromUTF8? bytes).getD ""

/-- The environment of this process. -/
def currentEnvironment : IO Environment := do
  let entries := (← textOrEmpty "/proc/self/environ").splitOn "\x00"
  let accounts ← textOrEmpty "/etc/passwd"
  return {
    bindings := entries.filterMap definition?
    accountHome := (userIn? (← textOrEmpty "/proc/self/status")).bind (homeIn? accounts) }

/-- Whether reports are printed in colour. -/
def wantsColour (env : Environment) (isTerminal : Bool) : Bool :=
  if (env.value? "CLICOLOR_FORCE").any (· ≠ "0") then true
  else if (env.value? "NO_COLOR").isSome then false
  else isTerminal && (env.value? "CLICOLOR").all (· ≠ "0")

/-- Runs the program on the words behind its name. -/
def runMain (words : List String) : IO UInt32 := do
  match Invocation.read words with
  | .error refusal =>
    if refusal.exitCode = 0 then IO.print refusal.message else IO.eprint refusal.message
    return refusal.exitCode.toUInt32
  | .ok invocation =>
    let env ← currentEnvironment
    let around : Surroundings :=
      { environment := env, directory := (← attempt IO.currentDir).toOption.map (·.toString) }
    let (report, exit) ← Program.run (Program.ofInvocation around invocation : Program IO Unit)
    let coloured := wantsColour env (← (← IO.getStdout).isTty)
    IO.print (report.output coloured)
    IO.eprint (report.complaints coloured)
    return exit.toUInt32

end Targeting.CommandLine

/-- The program `audtarget`. -/
def main (words : List String) : IO UInt32 := Targeting.CommandLine.runMain words
