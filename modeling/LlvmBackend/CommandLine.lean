import LlvmBackend.Build.Settings
import LlvmBackend.Build.Verbosity

/-!
# The command line

What the user asks for: a command with its options, and options that every command takes, before or
after its name. An option given after the name of the command counts in the place of the same option
before it.
-/

namespace LlvmBackend

/-- Why there is nothing to be done. -/
inductive Usage where
  | misuse
  | help
  | version (program : String)
  deriving DecidableEq, Repr

/-- What was given at one level, before or after the name of a command. -/
structure Given where
  dumps : List DumpKind := []
  verbosity : Verbosity := {}
  request : BuildRequest := {}

/-- A command. -/
inductive Command where
  | build (request : BuildRequest)
  | types (file : Option String)
  deriving DecidableEq, Repr

/-- A whole command line. -/
structure CommandLine where
  dumps : List DumpKind
  verbosity : Verbosity
  command : Command
  deriving DecidableEq, Repr

namespace CommandLine

/-! ## Options -/

/-- What an option does to what was given so far; it may refuse. -/
inductive Action where
  | flag (set : Given → Option Given)
  | value (set : String → Given → Option Given)
  | stop (usage : Usage)

/-- An option and its names. -/
structure Opt where
  long : String
  short : Option Char := none
  action : Action

/-- A flag that may be given once. -/
def onceFlag (get : Given → Bool) (set : Given → Given) : Action :=
  .flag fun given => if get given then none else some (set given)

/-- A value that may be given once. -/
def onceValue (get : BuildRequest → Option String) (set : String → BuildRequest → BuildRequest) :
    Action :=
  .value fun text given =>
    if (get given.request).isSome then none
    else some { given with request := set text given.request }

/-- A value out of a few that may be given again and again. -/
def choice {α : Type} (named : List (String × α)) (add : α → Given → Given) : Action :=
  .value fun text given => (named.lookup text).map fun value => add value given

/-- The options of every command. -/
def commonOptions (program : String) : List Opt :=
  [{ long := "dump",
     action := choice DumpKind.named fun kind given =>
      { given with dumps := given.dumps ++ [kind] } },
   { long := "debug",
     action := onceFlag (·.verbosity.debug) fun given =>
      { given with verbosity := { given.verbosity with debug := true } } },
   { long := "debug-trace",
     action := choice Topic.named fun topic given =>
      let topics := given.verbosity.topics ++ [topic]
      { given with verbosity := { given.verbosity with topics } } },
   { long := "quiet", short := some 'q',
     action := onceFlag (·.verbosity.quiet) fun given =>
      { given with verbosity := { given.verbosity with quiet := true } } },
   { long := "verbose", short := some 'v',
     action := .flag fun given =>
      let level := min 255 (given.verbosity.level + 1)
      some { given with verbosity := { given.verbosity with level } } },
   { long := "help", short := some 'h', action := .stop .help },
   { long := "version", short := some 'V', action := .stop (.version program) }]

/-- The option for a file of types. -/
def typesOption : Opt where
  long := "types"
  action := onceValue (·.types) fun text request => { request with types := some text }

/-- Adds the kinds of output that a text names, with commas between them. -/
def addEmit (text : String) (given : Given) : Option Given := do
  let kinds ← (text.splitOn ",").mapM fun word => EmitKind.named.lookup word
  return { given with request := { given.request with emit := given.request.emit ++ kinds } }

/-- The options of a build. -/
def buildOptions : List Opt :=
  [typesOption,
   { long := "include",
     action := onceValue (·.preamble) fun text request =>
      { request with preamble := some text } },
   { long := "platform",
     action := onceValue (·.platform) fun text request =>
      { request with platform := some text } },
   { long := "entry",
     action := onceValue (·.entry) fun text request => { request with entry := some text } },
   { long := "output-dir", short := some 'o',
     action := onceValue (·.outputDir) fun text request =>
      { request with outputDir := some text } },
   { long := "emit-ll",
     action := onceValue (·.emitLl) fun text request => { request with emitLl := some text } },
   { long := "emit", action := .value addEmit },
   { long := "cc",
     action := onceValue (·.cc) fun text request => { request with cc := some text } },
   { long := "runtime",
     action := .value fun text given =>
      let runtime := given.request.runtime ++ [text]
      some { given with request := { given.request with runtime } } }]

/-- What may stand at one level. -/
structure Level where
  options : List Opt
  /-- The names that lead to the next level. -/
  commands : List String := []
  /-- What is done with an argument that is no option. -/
  argument : String → Given → Option Given := fun _ _ => none

/-! ## Arguments -/

/-- What an argument leaves: what was given, and the option that waits for its value. -/
abbrev Reached := Given × Option (String → Given → Option Given)

/-- Refuses a command line where there is nothing to go on with. -/
def orMisuse {α : Type} : Option α → Except Usage α
  | some value => .ok value
  | none => .error .misuse

/-- An option by its long name, with the value after an equals sign. -/
def longOption (level : Level) (given : Given) (name : String) (attached : Option String) :
    Except Usage Reached := do
  let option ← orMisuse (level.options.find? (·.long = name))
  match option.action, attached with
  | .flag set, none => return (← orMisuse (set given), none)
  | .flag _, some _ => throw .misuse
  | .value set, some text => return (← orMisuse (set text given), none)
  | .value set, none => return (given, some set)
  | .stop usage, none => throw usage
  | .stop _, some _ => throw .misuse

/-- A value right after the letter of its option. -/
def attachedValue : List Char → String
  | '=' :: rest => String.ofList rest
  | rest => String.ofList rest

/-- Options by their letters; one that takes a value takes the rest. -/
def shortOptions (level : Level) (given : Given) : List Char → Except Usage Reached
  | [] => .ok (given, none)
  | letter :: rest => do
    let option ← orMisuse (level.options.find? (·.short = some letter))
    match option.action with
    | .flag set => shortOptions level (← orMisuse (set given)) rest
    | .value set =>
      if rest.isEmpty then return (given, some set)
      else return (← orMisuse (set (attachedValue rest) given), none)
    | .stop usage => throw usage

/-- The name of a long option and the value after an equals sign. -/
def splitAtEquals (text : List Char) : String × Option String :=
  let name := text.takeWhile (· ≠ '=')
  (String.ofList name,
    (text.drop name.length).tail?.map String.ofList)

/-- Arguments that are no options, whatever they look like. -/
def plainArguments (level : Level) : Given → List String → Except Usage Given
  | given, [] => .ok given
  | given, arg :: rest => do plainArguments level (← orMisuse (level.argument arg given)) rest

/-- Reads arguments up to the end or to the name of a command, which comes back with what follows
    it. A waiting option takes the next argument, which must not look like an option. -/
def readLevel (level : Level) : Reached → List String →
    Except Usage (Given × Option (String × List String))
  | (given, none), [] => .ok (given, none)
  | (_, some _), [] => .error .misuse
  | (given, waiting), arg :: rest =>
    match arg.toList, waiting with
    | ['-', '-'], none => do return (← plainArguments level given rest, none)
    | '-' :: '-' :: text, none => do
      let (name, attached) := splitAtEquals text
      readLevel level (← longOption level given name attached) rest
    | '-' :: letter :: text, none => do
      readLevel level (← shortOptions level given (letter :: text)) rest
    | '-' :: _ :: _, some _ => .error .misuse
    | _, some set => do readLevel level (← orMisuse (set arg given), none) rest
    | _, none =>
      if arg ∈ level.commands then .ok (given, some (arg, rest))
      else do readLevel level (← orMisuse (level.argument arg given), none) rest

/-- Reads the arguments of a command up to the end. -/
def readAll (level : Level) (args : List String) : Except Usage Given := do
  return (← readLevel level ({}, none) args).1

/-! ## Commands -/

/-- The name of the program. -/
def program : String := "runa"

/-- The level before the name of a command. -/
def outerLevel : Level where
  options := commonOptions program
  commands := ["build", "types", "help"]

/-- The level of a build, which takes one file. -/
def buildLevel : Level where
  options := commonOptions (program ++ "-build") ++ buildOptions
  argument := fun file given =>
    if given.request.file.isSome then none
    else some { given with request := { given.request with file := some file } }

/-- The level of the command that shows types. -/
def typesLevel : Level where
  options := commonOptions (program ++ "-types") ++ [typesOption]

/-- The later of two levels counts. -/
def laterList {α : Type} (early late : List α) : List α := if late.isEmpty then early else late

/-- The options of every command, from the levels before and after its name. -/
def joined (early late : Given) (command : Command) : CommandLine where
  dumps := laterList early.dumps late.dumps
  verbosity :=
    { debug := early.verbosity.debug || late.verbosity.debug
      quiet := early.verbosity.quiet || late.verbosity.quiet
      level := if late.verbosity.level = 0 then early.verbosity.level else late.verbosity.level
      topics := laterList early.verbosity.topics late.verbosity.topics }
  command

/-- What the command for help makes of the names after it: it knows about one command at a time. -/
def helpAbout : List String → Usage
  | [] => .help
  | [topic] => if topic ∈ outerLevel.commands then .help else .misuse
  | _ => .misuse

/-- Reads a command line. -/
def parse (args : List String) : Except Usage CommandLine := do
  let (early, command) ← readLevel outerLevel ({}, none) args
  match command with
  | some ("build", rest) =>
    let late ← readAll buildLevel rest
    return joined early late (.build late.request)
  | some ("types", rest) =>
    let late ← readAll typesLevel rest
    return joined early late (.types late.request.types)
  | some (_, topics) => throw (helpAbout topics)
  | none => throw .misuse

end CommandLine

end LlvmBackend
