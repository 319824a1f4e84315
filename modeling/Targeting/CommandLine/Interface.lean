import Targeting.Text.Reader

/-!
# Interfaces of command lines

An interface lists what may follow the name of a program: switches, arguments and commands, which
have interfaces of their own. A switch is given by its name behind two dashes or by its letter
behind one; letters may be run together, and a value may be attached or follow as the next word. A
word behind two dashes alone is never a switch or a command.

Words are read from left to right, and a value is checked only when the next switch or argument, or
the end, shows that it is complete; so an unknown switch is found before the fault of a value in
front of it. A command has to be complete before the words in front of it are.

## Main definitions

* `Interface` — switches, arguments and commands
* `Refusal` — why reading words stops without a result, requests for help included
* `Reading` — the commands and values that words give
* `Interface.read` — reads words
-/

namespace Targeting.CommandLine

/-- Why reading words stops without a result. -/
inductive Refusal where
  | helpRequested
  | versionRequested
  | helpForLackOfCommand
  | commandMissing
  | unknownCommand
  | unknownArgument
  | valueForFlag
  | valueMissingOrUnknown
  | notANumber
  | conflict
  | argumentMissing
  deriving DecidableEq

/-- The number that a program ends with when it stops reading. Help and the version are what was
asked for. -/
def Refusal.exitCode : Refusal → Nat
  | .helpRequested | .versionRequested => 0
  | _ => 2

/-- The texts that a value may have. -/
inductive ValueType where
  | text
  | path
  | number
  | choice (words : List String)

/-- What a switch does. -/
inductive Effect where
  | flag
  | counter
  | value (type : ValueType)
  | help
  | version

/-- A switch with its name and its letter. -/
structure Switch where
  name : String
  letter : Option Char := none
  effect : Effect

/-- An argument, which is told by its place. -/
structure Argument where
  name : String
  type : ValueType

/-- Switches, arguments and commands. The arguments are all required, and two switches that exclude
each other must not both be given. -/
structure Interface where
  switches : List Switch := []
  arguments : List Argument := []
  exclusive : List (String × String) := []
  commandRequired : Bool := false
  commands : List (String × Interface) := []

/-- The commands and values that words give, those of the outer command first. -/
structure Reading where
  commands : List String := []
  values : List (String × String) := []

namespace Reading

/-- The value of a switch or argument; the innermost command comes first. -/
def value? (r : Reading) (name : String) : Option String :=
  (r.values.reverse.find? (·.1 = name)).map (·.2)

/-- Whether a switch is given. -/
def isGiven (r : Reading) (name : String) : Bool := (r.value? name).isSome

end Reading

/-! ### Values -/

/-- The greatest number that a value can be. -/
def greatestNumber : Nat := Nat.pow 2 64 - 1

/-- The number that a text spells: digits behind an optional plus. -/
def number? (text : String) : Option Nat :=
  let digits := match text.toList with
    | '+' :: digits => digits
    | digits => digits
  match Reader.someDecimals? digits with
  | some (digits, []) =>
    let n := Digit.number 10 digits
    if n ≤ greatestNumber then some n else none
  | _ => none

/-- Refuses a value that has not the type. -/
def ValueType.check (type : ValueType) (value : String) : Except Refusal Unit :=
  match type with
  | .text => .ok ()
  | .path => if value.isEmpty then .error .valueMissingOrUnknown else .ok ()
  | .number => if (number? value).isSome then .ok () else .error .notANumber
  | .choice words => if words.contains value then .ok () else .error .valueMissingOrUnknown

/-! ### Levels -/

/-- A value that has been begun: of a switch, which waits for its text, or of an argument. -/
structure Begun where
  name : String
  type : ValueType
  text : Option String

/-- What has been read for one command. -/
structure Level where
  values : List (String × String) := []
  begun : Option Begun := none
  /-- The number of arguments read. -/
  arguments : Nat := 0
  /-- Whether two dashes alone have been read. -/
  literal : Bool := false

namespace Level

/-- Whether a name has a value. -/
def has (l : Level) (name : String) : Bool := l.values.any (·.1 = name)

/-- Whether a switch waits for its value. -/
def isWaiting (l : Level) : Bool := l.begun.any (·.text.isNone)

/-- Gives a name a value; it must not have one already. -/
def give (l : Level) (name value : String) : Except Refusal Level :=
  if l.has name then .error .conflict
  else .ok { l with values := l.values ++ [(name, value)] }

/-- Completes the value that has been begun, if there is one. -/
def complete (l : Level) : Except Refusal Level :=
  match l.begun with
  | none => .ok l
  | some begun =>
    match begun.text with
    | none => .error .valueMissingOrUnknown
    | some text => do
      let l ← ({ l with begun := none } : Level).give begun.name text
      begun.type.check text
      return l

/-- Takes a switch without a text for its value. -/
def takeFlag (l : Level) (s : Switch) : Except Refusal Level := do
  let l ← l.complete
  match s.effect with
  | .flag => l.give s.name ""
  | .counter => return { l with values := l.values ++ [(s.name, "")] }
  | .value type => return { l with begun := some ⟨s.name, type, none⟩ }
  | .help => .error .helpRequested
  | .version => .error .versionRequested

/-- Takes a switch with an attached text. -/
def takeAttached (l : Level) (s : Switch) (text : String) : Except Refusal Level :=
  match s.effect with
  | .value type => do
    let l ← l.complete
    ({ l with begun := some ⟨s.name, type, some text⟩ } : Level).complete
  | _ => .error .valueForFlag

/-- Takes a text as the next argument. -/
def takeArgument (l : Level) (a : Argument) (text : String) : Except Refusal Level := do
  let l ← l.complete
  return { l with begun := some ⟨a.name, a.type, some text⟩, arguments := l.arguments + 1 }

end Level

namespace Interface

/-! ### Switches -/

/-- Cuts a text at its first equals sign. -/
def cutEquals : List Char → List Char × Option (List Char)
  | [] => ([], none)
  | '=' :: value => ([], some value)
  | c :: rest => let (name, value) := cutEquals rest; (c :: name, value)

/-- Takes a switch given by its name. -/
def takeNamed (i : Interface) (l : Level) (text : List Char) : Except Refusal Level :=
  let (name, value) := cutEquals text
  match i.switches.find? (·.name = String.ofList name), value with
  | none, _ => .error .unknownArgument
  | some s, some value => l.takeAttached s (String.ofList value)
  | some s, none => l.takeFlag s

/-- Takes switches given by letters run together. The letter of a switch with a value ends them, and
the rest is its value, with or without an equals sign in front. -/
def takeLetters (i : Interface) (l : Level) : List Char → Except Refusal Level
  | [] => .ok l
  | c :: rest =>
    match i.switches.find? (·.letter = some c) with
    | none => .error .unknownArgument
    | some s =>
      match s.effect, rest with
      | .value _, '=' :: value => l.takeAttached s (String.ofList value)
      | .value _, d :: value => l.takeAttached s (String.ofList (d :: value))
      | _, rest => do i.takeLetters (← l.takeFlag s) rest

/-! ### Words -/

/-- The interface of a command. -/
def command? (i : Interface) (name : String) : Option Interface :=
  (i.commands.find? (·.1 = name)).map (·.2)

/-- Whether a word asks for help on commands; an interface with commands has such a word. -/
def asksForHelp (i : Interface) (word : String) : Bool := !i.commands.isEmpty && word = "help"

/-- The outcome of asking for help on the command that words name. -/
def helpOn : Interface → List String → Refusal
  | _, [] => .helpRequested
  | i, word :: words =>
    match i.command? word with
    | some command => helpOn command words
    | none => if i.asksForHelp word ∧ words.isEmpty then .helpRequested else .unknownCommand

/-- Takes a text that is neither a switch nor a command. -/
def takeText (i : Interface) (l : Level) (word : String) : Except Refusal Level :=
  match i.arguments[l.arguments]? with
  | some a => l.takeArgument a word
  | none =>
    if l.literal ∧ ((i.command? word).isSome ∨ i.asksForHelp word) then .error .unknownArgument
    else if !i.commands.isEmpty ∧ i.arguments.isEmpty then .error .unknownCommand
    else .error .unknownArgument

/-- Takes a word that is no command. -/
def takeWord (i : Interface) (l : Level) (word : String) : Except Refusal Level :=
  if l.literal then i.takeText l word
  else
    match word.toList with
    | ['-', '-'] => .ok { l with literal := true }
    | '-' :: '-' :: text => i.takeNamed l text
    | '-' :: c :: text => i.takeLetters l (c :: text)
    | _ =>
      match l.begun with
      | some ⟨name, type, none⟩ => .ok { l with begun := some ⟨name, type, some word⟩ }
      | _ => i.takeText l word

/-- Checks a level at the end of its words. -/
def check (i : Interface) (l : Level) (hasCommand : Bool) : Except Refusal Unit :=
  if i.commandRequired ∧ !hasCommand then
    .error (if l.values.isEmpty then .helpForLackOfCommand else .commandMissing)
  else if i.exclusive.any fun (a, b) => l.has a && l.has b then .error .conflict
  else if !i.arguments.all fun a => l.has a.name then .error .argumentMissing
  else .ok ()

/-- Ends a level behind which a command may have been read. -/
def finish (i : Interface) (l : Level) (command : Option Reading) : Except Refusal Reading := do
  let l ← l.complete
  i.check l command.isSome
  let inner := command.getD {}
  return { inner with values := l.values ++ inner.values }

/-- Reads words into a level. -/
def readLevel (i : Interface) (l : Level) : List String → Except Refusal Reading
  | [] => i.finish l none
  | word :: words =>
    if l.literal ∨ l.isWaiting then do (i.readLevel (← i.takeWord l word) words)
    else
      match i.command? word with
      | some command => do
        let inner ← command.readLevel {} words
        i.finish l (some { inner with commands := word :: inner.commands })
      | none =>
        if i.asksForHelp word then .error (i.helpOn words)
        else do (i.readLevel (← i.takeWord l word) words)

/-- Reads the words behind the name of a program. -/
def read (i : Interface) (words : List String) : Except Refusal Reading := i.readLevel {} words

end Interface

end Targeting.CommandLine
