import ZScript.Session

/-!
# Command-line options

`Request.ofArguments?` reads the arguments of the program from left to right. Each command has a
list of option rules; an argument that fits none of them, an option given twice or with a value
that is refused, and a missing command make the whole line unusable. Asking for help or for the
version ends the reading at once.
-/

namespace ZScript

/-- The options that say which project is meant and how its faults are shown. -/
structure ProjectOptions where
  dir : String := "."
  entry : String := "main.z"
  /-- Show faults as records. -/
  records : Bool := false
deriving DecidableEq, Repr

/-- What the program is asked to do. -/
inductive Command
  | build (project : ProjectOptions) (config : Config) (output : Option String)
  | watch (project : ProjectOptions) (config : Config) (output : Option String)
  | printBundle (project : ProjectOptions)
  | printMacros (project : ProjectOptions)
  | printExpanded (project : ProjectOptions) (maxPasses : Nat)
deriving DecidableEq, Repr

/-- A usable command line. -/
inductive Request
  | help
  | version
  | run (command : Command) (verbose : Bool)
deriving DecidableEq, Repr

/-- Why the reading of arguments ends early. -/
inductive ArgumentStop
  | unusable
  | help
  | version
deriving DecidableEq, Repr

/-- An option of a command. -/
structure OptionRule where
  long : String
  short : Option Char := none
  /-- Which values are accepted. An option without a test takes no value. -/
  accepts : Option (String → Bool) := none
  /-- How the option ends the reading, if it does. -/
  stops : Option ArgumentStop := none

/-- A number of at most 64 bits, in decimal digits, with or without a plus sign. -/
def count? (text : String) : Option Nat :=
  let digits := match text.toList with
    | '+' :: digits => digits
    | digits => digits
  if digits.isEmpty || !digits.all Char.isDigit then none
  else
    let n := digits.foldl (fun n c => 10 * n + (c.toNat - '0'.toNat)) 0
    if n ≤ 18446744073709551615 then some n else none

namespace OptionRule

/-- A switch, without a value. -/
def switch (long : String) : OptionRule :=
  { long }

/-- An option with a number. -/
def number (long : String) : OptionRule :=
  { long, accepts := some fun value => (count? value).isSome }

/-- Asks for help. -/
def help : OptionRule :=
  { long := "help", short := some 'h', stops := some .help }

/-- Asks for the version. -/
def version : OptionRule :=
  { long := "version", short := some 'V', stops := some .version }

/-- Asks for all events in the log. -/
def verbose : OptionRule :=
  { long := "verbose", short := some 'v' }

/-- Names the entry unit. -/
def entry : OptionRule :=
  { long := "entry", accepts := some fun _ => true }

/-- Names the file that the code is written to. -/
def output : OptionRule :=
  { long := "output", short := some 'o', accepts := some (!·.isEmpty) }

end OptionRule

/-- The arguments read so far. -/
structure Arguments where
  /-- Each option that was given, with its value. A switch has the empty value. -/
  options : List (String × String) := []
  dir : Option String := none
deriving DecidableEq, Repr

namespace Arguments

/-- Whether a switch was given. -/
def has (a : Arguments) (long : String) : Bool :=
  (a.options.lookup long).isSome

/-- The value of an option. -/
def value? (a : Arguments) (long : String) : Option String :=
  a.options.lookup long

/-- Notes an option. It may be given once, and only with a value it accepts. -/
def give (a : Arguments) (rule : OptionRule) (value : String) : Except ArgumentStop Arguments :=
  match rule.stops with
  | some stop => .error stop
  | none =>
    if a.has rule.long || (rule.accepts.any fun accepts => !accepts value) then .error .unusable
    else .ok { a with options := (rule.long, value) :: a.options }

/-- Notes the directory. It may be given once and is not empty. -/
def giveDir (a : Arguments) (dir : String) : Except ArgumentStop Arguments :=
  if a.dir.isSome || dir.isEmpty then .error .unusable else .ok { a with dir := some dir }

end Arguments

/-- Whether an argument is an option and not a value: it starts with a hyphen and is more than
that. -/
def isOption (argument : String) : Bool :=
  match argument.toList with
  | '-' :: _ :: _ => true
  | _ => false

/-- Reads single-letter options that stand together. The last may take a value, from the letters
behind it or else from the next argument; the flag says whether it waits for that. -/
def readLetters (rules : List OptionRule) (a : Arguments) :
    List Char → Except ArgumentStop (Arguments × Option OptionRule)
  | [] => .ok (a, none)
  | c :: cs =>
    match rules.find? (·.short == some c) with
    | none => .error .unusable
    | some rule =>
      if rule.accepts.isSome then
        match cs with
        | [] => .ok (a, some rule)
        | '=' :: value => (a.give rule (String.ofList value)).map (·, none)
        | value => (a.give rule (String.ofList value)).map (·, none)
      else
        match a.give rule "" with
        | .error stop => .error stop
        | .ok a => readLetters rules a cs

/-- Reads a long option without its hyphens, in the same way. -/
def readLong (rules : List OptionRule) (a : Arguments) (text : List Char) :
    Except ArgumentStop (Arguments × Option OptionRule) :=
  let name := String.ofList (text.takeWhile (· != '='))
  match rules.find? (·.long == name), text.dropWhile (· != '=') with
  | none, _ => .error .unusable
  | some rule, [] =>
    if rule.accepts.isSome then .ok (a, some rule) else (a.give rule "").map (·, none)
  | some rule, _ :: value =>
    if rule.accepts.isSome then (a.give rule (String.ofList value)).map (·, none)
    else .error .unusable

/-- Reads one option, as far as its own argument goes. -/
def readOption (rules : List OptionRule) (a : Arguments) (argument : String) :
    Except ArgumentStop (Arguments × Option OptionRule) :=
  match argument.toList with
  | '-' :: '-' :: text => readLong rules a text
  | '-' :: letters => readLetters rules a letters
  | _ => .error .unusable

/-- Reads all the arguments of a command. Behind `--` there are no options. `waiting` is the option
that the next argument is the value of. -/
def readArguments (rules : List OptionRule) :
    (waiting : Option OptionRule) → Arguments → List String → Except ArgumentStop Arguments
  | some _, _, [] => .error .unusable
  | none, a, [] => .ok a
  | some rule, a, value :: rest =>
    if isOption value then .error .unusable
    else
      match a.give rule value with
      | .error stop => .error stop
      | .ok a => readArguments rules none a rest
  | none, a, argument :: rest =>
    if argument == "--" then rest.foldlM Arguments.giveDir a
    else if isOption argument then
      match readOption rules a argument with
      | .error stop => .error stop
      | .ok (a, waiting) => readArguments rules waiting a rest
    else
      match a.giveDir argument with
      | .error stop => .error stop
      | .ok a => readArguments rules none a rest

/-- Reads options up to the name of a command, and gives what follows them. -/
def readUpToCommand (rules : List OptionRule) :
    Arguments → List String → Except ArgumentStop (Arguments × String × List String)
  | _, [] => .error .unusable
  | a, argument :: rest =>
    if isOption argument then
      match readOption rules a argument with
      | .error stop => .error stop
      | .ok (_, some _) => .error .unusable
      | .ok (a, none) => readUpToCommand rules a rest
    else .ok (a, argument, rest)

/-- The options of every command. -/
def commonRules : List OptionRule :=
  [.help, .verbose]

/-- The options of commands on a project. -/
def projectRules : List OptionRule :=
  commonRules ++ [.entry, .switch "print-debug"]

/-- The options of commands that compile. -/
def compileRules : List OptionRule :=
  projectRules ++
    [.switch "lenient", .switch "no-wrap", .number "max-passes", .number "max-lines", .output]

namespace Arguments

/-- The value of an option with a number. -/
def count (a : Arguments) (long : String) (default : Nat) : Nat :=
  ((a.value? long).bind count?).getD default

/-- The project that is meant. -/
def project (a : Arguments) : ProjectOptions where
  dir := a.dir.getD "."
  entry := (a.value? "entry").getD "main.z"
  records := a.has "print-debug"

/-- How the project is compiled. -/
def config (a : Arguments) : Config where
  policy := if a.has "lenient" then .lenient else .strict
  wrap := !a.has "no-wrap"
  limits :=
    { passes := a.count "max-passes" ({} : Limits).passes
      lines := a.count "max-lines" ({} : Limits).lines }

end Arguments

/-- A command by its name: its options, and what it is when they are read. -/
structure CommandRule where
  name : String
  options : List OptionRule
  command : Arguments → Command

/-- The commands under `dev`. -/
def devCommands : List CommandRule :=
  [ ⟨"print-bundle", projectRules, fun a => .printBundle a.project⟩,
    ⟨"print-macros", projectRules, fun a => .printMacros a.project⟩,
    ⟨"print-expanded", projectRules ++ [.number "max-passes"], fun a =>
      .printExpanded a.project (a.count "max-passes" ({} : Limits).passes)⟩ ]

/-- The commands by themselves. -/
def mainCommands : List CommandRule :=
  [ ⟨"build", compileRules, fun a => .build a.project a.config (a.value? "output")⟩,
    ⟨"watch", compileRules, fun a => .watch a.project a.config (a.value? "output")⟩ ]

/-- Reads the arguments behind the name of one of the given commands. -/
def readCommand (commands : List CommandRule) (verbose : Bool) (name : String)
    (rest : List String) : Except ArgumentStop Request :=
  match commands.find? (·.name == name) with
  | none => .error .unusable
  | some rule => do
    let a ← readArguments rule.options none {} rest
    return .run (rule.command a) (verbose || a.has "verbose")

/-- Reads the arguments behind `help`: the name of a command, if any. -/
def readHelp : List String → Except ArgumentStop Request
  | [] | ["help"] | ["dev"] | ["dev", "help"] => .error .help
  | [name] =>
    .error (if (mainCommands.find? (·.name == name)).isSome then .help else .unusable)
  | ["dev", name] =>
    .error (if (devCommands.find? (·.name == name)).isSome then .help else .unusable)
  | _ => .error .unusable

/-- Reads the arguments of the program. -/
def readRequest (arguments : List String) : Except ArgumentStop Request := do
  let (a, name, rest) ← readUpToCommand [.help, .version, .verbose] {} arguments
  match name with
  | "help" => readHelp rest
  | "dev" =>
    let (b, name, rest) ← readUpToCommand commonRules {} rest
    if name == "help" then readHelp ("dev" :: rest)
    else readCommand devCommands (a.has "verbose" || b.has "verbose") name rest
  | _ => readCommand mainCommands (a.has "verbose") name rest

/-- What the arguments ask for, if they are usable. -/
def Request.ofArguments? (arguments : List String) : Option Request :=
  match readRequest arguments with
  | .ok request => some request
  | .error .help => some .help
  | .error .version => some .version
  | .error .unusable => none

end ZScript
