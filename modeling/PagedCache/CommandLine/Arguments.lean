import PagedCache.Settings

/-!
# Command line arguments

A command line names a command by a path of words.  Options may stand after any
word of the path, each at most once at each place; an option that is given at
several places counts where it is given last.  Environment variables stand in for
options that are not given.

The value of an option that is an argument of its own is read when the next argument
is; so a fault in it is found after the faults of a subcommand that comes next.
-/

namespace PagedCache.CommandLine

/-- Options with a value, accepted by every command. -/
inductive ValueOption where
  | directory
  | settingsFile
  | maxSnapshots
  | maxWindowEnd
  | logLevel
  | logFormat
  deriving DecidableEq, Repr

namespace ValueOption

def all : List ValueOption :=
  [directory, settingsFile, maxSnapshots, maxWindowEnd, logLevel, logFormat]

def long : ValueOption → String
  | directory => "dir"
  | settingsFile => "config"
  | maxSnapshots => "max-snapshots"
  | maxWindowEnd => "max-window-end"
  | logLevel => "log-level"
  | logFormat => "log-format"

def short? : ValueOption → Option Char
  | directory => some 'd'
  | settingsFile => some 'c'
  | _ => none

/-- The environment variable that stands in for the option. -/
def environmentName? : ValueOption → Option String
  | directory => some "MONOID_CACHE_DIR"
  | settingsFile => some "MONOID_CACHE_CONFIG"
  | maxSnapshots => some "MONOID_CACHE_MAX_SNAPSHOTS"
  | maxWindowEnd => some "MONOID_CACHE_MAX_WINDOW_END"
  | logLevel => some "MONOID_CACHE_LOG"
  | logFormat => none

end ValueOption

/-- Options without a value. -/
inductive FlagOption where
  | verbose
  | quiet
  | json
  | pretty
  | stats
  | global
  deriving DecidableEq, Repr

namespace FlagOption

def long : FlagOption → String
  | verbose => "verbose"
  | quiet => "quiet"
  | json => "json"
  | pretty => "pretty"
  | stats => "stats"
  | global => "global"

def short? : FlagOption → Option Char
  | verbose => some 'v'
  | quiet => some 'q'
  | _ => none

end FlagOption

/-- A word of a command path. -/
inductive Place where
  | program
  | policies
  | replay
  | config
  | configPath
  | configShow
  | configInit
  deriving DecidableEq, Repr

namespace Place

/-- The places that follow, by their words. -/
def children : Place → List (String × Place)
  | program => [("policies", policies), ("replay", replay), ("config", config)]
  | config => [("path", configPath), ("show", configShow), ("init", configInit)]
  | _ => []

/-- The flags of a place. -/
def flags : Place → List FlagOption
  | policies => [.json, .verbose, .quiet]
  | replay => [.pretty, .stats, .verbose, .quiet]
  | configPath => [.json, .verbose, .quiet]
  | configShow => [.json, .verbose, .quiet]
  | configInit => [.global, .verbose, .quiet]
  | _ => [.verbose, .quiet]

/-- The name of the program at a place. -/
def title : Place → String
  | program => "monoid-cache"
  | policies => "monoid-cache-policies"
  | replay => "monoid-cache-replay"
  | config => "monoid-cache-config"
  | configPath => "monoid-cache-config-path"
  | configShow => "monoid-cache-config-show"
  | configInit => "monoid-cache-config-init"

/-- Whether a file name may stand at the place. -/
def takesFile : Place → Bool
  | replay => true
  | _ => false

end Place

/-- The version of the program. -/
def version : String := "0.1.0"

/-- A natural number of 64 bits; a plus sign may stand before it. -/
def readWord? (text : String) : Option Nat :=
  let digits :=
    match text.toList with
    | '+' :: rest => rest
    | chars => chars
  (Decimal.ofText? digits).bind fun value =>
    if value < Json.Literal.wordBound then some value else none

/-- Whether a text is a value of the option. -/
def ValueOption.accepts (option : ValueOption) (text : String) : Bool :=
  match option with
  | directory => !text.isEmpty
  | settingsFile => !text.isEmpty
  | maxSnapshots => (readWord? text).isSome
  | maxWindowEnd => (readWord? text).isSome
  | logLevel => true
  | logFormat =>
    match LogFormat.parse text with
    | .ok _ => true
    | .error _ => false

/-- An argument that waits for the next one. -/
inductive Waiting where
  | nothing
  /-- An option without its value. -/
  | option (option : ValueOption)
  /-- An option with its value. -/
  | value (option : ValueOption) (text : String)
  /-- A file name. -/
  | file (name : String)
  deriving DecidableEq, Repr

/-- What was given at one place. -/
structure Given where
  values : List (ValueOption × String)
  flags : List FlagOption
  file : Option String
  waiting : Waiting
  deriving Repr

namespace Given

def nothing : Given :=
  ⟨[], [], none, .nothing⟩

/-- Take a value that the option accepts and that was not given before. -/
def take (given : Given) (option : ValueOption) (text : String) : Option Given :=
  if (given.values.lookup option).isSome || !option.accepts text then none
  else some { given with values := given.values ++ [(option, text)] }

/-- Read what waits. -/
def settle (given : Given) : Option Given :=
  let idle := { given with waiting := .nothing }
  match given.waiting with
  | .nothing => some idle
  | .option _ => none
  | .value option text => idle.take option text
  | .file name =>
    if name.isEmpty || given.file.isSome then none else some { idle with file := some name }

/-- Set a flag that was not set before. -/
def raise (given : Given) (flag : FlagOption) : Option Given :=
  if given.flags.contains flag then none
  else some { given with flags := flag :: given.flags }

end Given

/-- What reading an argument leads to. -/
inductive Progress where
  | going (given : Given)
  | version
  | help
  | refused
  deriving Repr

namespace Progress

def ofGiven : Option Given → Progress
  | some given => going given
  | none => refused

end Progress

/-- Split an option at its first equals sign. -/
def splitEquals (body : List Char) : String × Option String :=
  let name := String.ofList (body.takeWhile (· ≠ '='))
  match body.dropWhile (· ≠ '=') with
  | '=' :: value => (name, some (String.ofList value))
  | _ => (name, none)

/-- Read an option by its long name. -/
def readLong (place : Place) (given : Given) (body : List Char) : Progress :=
  let (name, attached) := splitEquals body
  match given.settle with
  | none => .refused
  | some given =>
    match ValueOption.all.find? (·.long == name), attached with
    | some option, some text => .ofGiven (given.take option text)
    | some option, none => .going { given with waiting := .option option }
    | none, some _ => .refused
    | none, none =>
      if name = "version" then .version
      else if name = "help" then .help
      else
        match place.flags.find? (·.long == name) with
        | some flag => .ofGiven (given.raise flag)
        | none => .refused

/-- Read options by their letters; what follows the letter of an option with a value
is the value, without an equals sign between them. -/
def readShort (place : Place) (given : Given) : List Char → Progress
  | [] => .going given
  | letter :: rest =>
    match given.settle with
    | none => .refused
    | some given =>
      match ValueOption.all.find? (·.short? == some letter) with
      | some option =>
        match rest with
        | [] => .going { given with waiting := .option option }
        | '=' :: value => .ofGiven (given.take option (String.ofList value))
        | value => .ofGiven (given.take option (String.ofList value))
      | none =>
        if letter = 'V' then .version
        else if letter = 'h' then .help
        else
          match place.flags.find? (·.short? == some letter) with
          | some flag =>
            match given.raise flag with
            | some given => readShort place given rest
            | none => .refused
          | none => .refused

/-- Read a file name. -/
def readFileName (place : Place) (given : Given) (name : String) : Progress :=
  match given.settle with
  | none => .refused
  | some given =>
    if place.takesFile && given.file.isNone then .going { given with waiting := .file name }
    else .refused

/-- Read an argument that is no word of the command path. -/
def readArgument (place : Place) (given : Given) (argument : String) : Progress :=
  match argument.toList with
  | '-' :: '-' :: body => readLong place given body
  | '-' :: first :: rest => readShort place given (first :: rest)
  | _ =>
    match given.waiting with
    | .option option => .going { given with waiting := .value option argument }
    | _ => readFileName place given argument

/-- What a command line says. -/
inductive Interpretation where
  /-- The places along the command path and what was given at each. -/
  | command (path : List (Place × Given))
  | version (title : String)
  | help
  | refused
  deriving Repr

namespace Interpretation

/-- Add what was given at a place further up, which is complete now. -/
def below (place : Place) (given : Given) : Interpretation → Interpretation
  | command path =>
    match given.settle with
    | some given => command ((place, given) :: path)
    | none => refused
  | other => other

end Interpretation

/-- The end of the arguments, where a place with children is no command. -/
def finish (place : Place) (given : Given) : Interpretation :=
  if place.children.isEmpty then (Interpretation.command []).below place given else .refused

/-- Read the arguments after a double hyphen, which are file names. -/
def readNames (place : Place) (given : Given) : List String → Interpretation
  | [] => finish place given
  | argument :: rest =>
    match readFileName place given argument with
    | .going given => readNames place given rest
    | _ => .refused

/-- Whether an argument may name a command: none that waits takes it as its value. -/
def Given.isOpen (given : Given) : Bool :=
  match given.waiting with
  | .option _ => false
  | _ => true

/-- The word that asks for help where commands may follow. -/
def helpWord : String := "help"

/-- Whether words after `helpWord` name something that there is help for: a place below, or
`helpWord` itself, below which there is nothing. -/
def namesHelp (place : Place) : List String → Bool
  | [] => true
  | word :: rest =>
    match place.children.lookup word with
    | some child => namesHelp child rest
    | none => word = helpWord && !place.children.isEmpty && rest.isEmpty

/-- Read the arguments at a place. -/
def readFrom (place : Place) (given : Given) : List String → Interpretation
  | [] => finish place given
  | argument :: rest =>
    if argument = "--" then readNames place given rest
    else
      match if given.isOpen then place.children.lookup argument else none with
      | some child => (readFrom child .nothing rest).below place given
      | none =>
        if given.isOpen && argument = helpWord && !place.children.isEmpty then
          if namesHelp place rest then .help else .refused
        else
          match readArgument place given argument with
          | .going given => readFrom place given rest
          | .version => .version place.title
          | .help => .help
          | .refused => .refused

/-- Whether the environment variables that stand in at a place have values that the
options accept. -/
def environmentFits (environment : String → Option String) (given : Given) : Bool :=
  ValueOption.all.all fun option =>
    (given.values.lookup option).isSome ||
      match option.environmentName?.bind environment with
      | some text => option.accepts text
      | none => true

/-- Read a command line together with the environment. -/
def read (environment : String → Option String) (arguments : List String) : Interpretation :=
  match readFrom .program .nothing arguments with
  | .command path =>
    if path.all fun step => environmentFits environment step.2 then .command path else .refused
  | other => other

/-- The value of an option: the last one given along the path, or that of its
variable. -/
def value? (environment : String → Option String) (path : List (Place × Given))
    (option : ValueOption) : Option String :=
  match path.reverse.findSome? fun step => step.2.values.lookup option with
  | some text => some text
  | none => option.environmentName?.bind environment

/-- Whether a flag is set anywhere along the path. -/
def isSet (path : List (Place × Given)) (flag : FlagOption) : Bool :=
  path.any fun step => step.2.flags.contains flag

/-- The options of every command. -/
structure Options where
  directory : Option String
  settingsFile : Option String
  verbose : Bool
  quiet : Bool
  overrides : Overrides
  deriving Repr

/-- The options that a command line and the environment give. -/
def optionsOf (environment : String → Option String) (path : List (Place × Given)) :
    Options where
  directory := value? environment path .directory
  settingsFile := value? environment path .settingsFile
  verbose := isSet path .verbose
  quiet := isSet path .quiet
  overrides :=
    ⟨(value? environment path .maxSnapshots).bind readWord?,
     (value? environment path .maxWindowEnd).bind readWord?,
     value? environment path .logLevel,
     (value? environment path .logFormat).bind fun text => (LogFormat.parse text).toOption⟩

/-- What to do. -/
inductive Command where
  | policies (json : Bool)
  | replay (script : String) (pretty stats : Bool)
  | configPath (json : Bool)
  | configShow (json : Bool)
  | configInit (global : Bool)
  deriving DecidableEq, Repr

/-- The command at the end of a path. -/
def commandOf? (path : List (Place × Given)) : Option Command :=
  match path.getLast? with
  | some (.policies, _) => some (.policies (isSet path .json))
  | some (.replay, given) =>
    given.file.map fun script => .replay script (isSet path .pretty) (isSet path .stats)
  | some (.configPath, _) => some (.configPath (isSet path .json))
  | some (.configShow, _) => some (.configShow (isSet path .json))
  | some (.configInit, _) => some (.configInit (isSet path .global))
  | _ => none

end PagedCache.CommandLine
