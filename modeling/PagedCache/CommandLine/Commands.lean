import PagedCache.CommandLine.Arguments
import PagedCache.Decimal.Fixed
import PagedCache.Replay.Log
import PagedCache.Settings.Files

/-!
# Commands

What the program prints and how it ends.  A command fails with a chain of causes, of
which the first is what was tried; a command line that cannot be read ends the
program with another exit code.
-/

namespace PagedCache.CommandLine

/-- What the program leaves behind besides files. -/
structure Report where
  exitCode : Nat
  output : String
  errors : String
  deriving DecidableEq, Repr

/-- What a command prints, or why it failed, outermost cause first. -/
abbrev CommandResult := Except (List String) Report

namespace Report

/-- The end of a command that prints to the standard output. -/
def printed (output : String) : Report :=
  ⟨0, output, ""⟩

/-- Indent the lines after the first one. -/
def indentLines (indent : List Char) (text : List Char) : List Char :=
  text.flatMap fun char => if char = '\n' then '\n' :: indent else [char]

/-- One of several causes. -/
def numberedCause (number : Nat) (cause : String) : String :=
  let digits := Decimal.digits number
  String.ofList (List.replicate (5 - digits.length) ' ' ++ digits ++ [':', ' '] ++
    indentLines (List.replicate 7 ' ') cause.toList ++ ['\n'])

/-- A cause without a number. -/
def onlyCause (cause : String) : String :=
  String.ofList (List.replicate 4 ' ' ++
    indentLines (List.replicate 4 ' ') cause.toList ++ ['\n'])

def causeLines : List String → String
  | [] => ""
  | [cause] => "\nCaused by:\n" ++ onlyCause cause
  | causes =>
    "\nCaused by:\n" ++
      String.join (causes.zipIdx.map fun (cause, number) => numberedCause number cause)

/-- The end of a command that failed. -/
def failed : List String → Report
  | [] => ⟨1, "", "Error\n"⟩
  | first :: causes => ⟨1, "", s!"Error: {first}\n" ++ causeLines causes⟩

/-- The end of a program whose arguments cannot be read. -/
def misused : Report :=
  ⟨2, "", "error: invalid command line\n"⟩

def ofResult : CommandResult → Report
  | .ok report => report
  | .error chain => failed chain

/-- The report with a log before everything else on the error output. -/
def withLog (log : String) (report : Report) : Report :=
  { report with errors := log ++ report.errors }

end Report

/-- What a program finds when it starts. -/
structure Surroundings where
  workingDirectory : String
  home : Option String
  environment : String → Option String
  /-- The time that log records carry. -/
  time : String

/-- The directory whose settings count. -/
def projectDirectory (surroundings : Surroundings) (options : Options) : String :=
  options.directory.getD surroundings.workingDirectory

section

variable {m : Type → Type} [Monad m] [FileAccess m]

/-- The settings that a command works with. -/
def loadSettings (surroundings : Surroundings) (options : Options) :
    m (Except (List String) Settings) := do
  match options.settingsFile with
  | some path =>
    return (← SettingsFiles.loadFile path options.overrides).mapError fun error =>
      "Failed to load config file" :: error.chain
  | none =>
    let files := SettingsFiles.ofHome surroundings.home
    let (result, _) ←
      files.load (projectDirectory surroundings options) options.overrides
    return result.mapError fun error => "Failed to load configuration" :: error.chain

end

/-- The console's registry with the configured policies. -/
def registryFor (settings : Settings) : Except (List String) Registry := do
  let console ← Console.registry.mapError fun error => [error.message]
  (Settings.registerEntries console settings.policies).mapError fun error =>
    [s!"Failed to register policy for {error.entry.typeName}.{error.entry.field}",
      error.cause.message]

/-- A fresh cache as configured. -/
def cacheFor (settings : Settings) : Except (List String) (Cache EntityKey) :=
  (registryFor settings).map fun registry =>
    Cache.fresh registry settings.limits.maxSnapshots settings.limits.maxWindowEnd

/-- The text with blanks up to a width. -/
def padded (width : Nat) (text : String) : String :=
  text ++ String.ofList (List.replicate (width - text.length) ' ')

/-- A row of the policy table. -/
def tableRow (typeName field list count keys : String) : String :=
  s!"{padded 18 typeName} {padded 18 field} {padded 20 list} {padded 16 count} {keys}\n"

/-- The key arguments of a policy in the table. -/
def keyColumn (policy : ListPolicy) : String :=
  if policy.keyArguments.isEmpty then "-" else ",".intercalate policy.keyArguments

def policyTable (registry : Registry) : String :=
  tableRow "TYPE" "FIELD" "LIST" "COUNT" "KEY ARGS" ++
    String.join (registry.policies.map fun (target, policy) =>
      tableRow target.typeName target.field policy.listProperty policy.countProperty
        (keyColumn policy))

/-- A registered policy as a settings entry. -/
def policyEntry (target : TypeField) (policy : ListPolicy) : PolicyEntry :=
  ⟨target.typeName, target.field, policy.listProperty, policy.countProperty,
    policy.keyArguments⟩

/-- Print the effective policies. -/
def runPolicies (json : Bool) (settings : Settings) : CommandResult := do
  let registry ← registryFor settings
  if json then
    let rows := registry.policies.map fun (target, policy) => (policyEntry target policy).encode
    return .printed ((Json.Value.array rows).indented ++ "\n")
  else return .printed (policyTable registry)

/-- The line about a cache after a replay. -/
def statistics (cache : Cache EntityKey) : String :=
  let tally := cache.tally
  let rate := Binary64.ratio tally.hitRate
  let rateText := String.ofList (Decimal.fixed 2 rate.1 rate.2)
  s!"snapshots: {cache.size}  merges: {tally.merges}  noop merges: {tally.noops}  " ++
    s!"hits: {tally.hits}  partial: {tally.partialHits}  misses: {tally.misses}  " ++
    s!"evictions: {tally.evictions}  hit rate: {rateText}\n"

/-- The line of a read. -/
def resultLine (pretty : Bool) (result : Replay.ReadResult) : String :=
  (if pretty then result.toJson.indented else result.toJson.compact) ++ "\n"

/-- The level of the log.  `quiet` counts more than `verbose`, and both more than the
settings. -/
def logLevel (options : Options) (logging : Logging) : LogLevel :=
  if options.quiet then .error
  else if options.verbose then .debug
  else (LogLevel.ofName? logging.level).getD .info

/-- How a replay is reported. -/
structure ReplayStyle where
  /-- Print each result on several lines. -/
  pretty : Bool
  /-- Print a line about the cache at the end. -/
  stats : Bool
  deriving DecidableEq, Repr

/-- Run a script on a cache. -/
def replayScript (script : Replay.Script) (cache : Cache EntityKey) (style : ReplayStyle)
    (quiet : Bool) : CommandResult := do
  let (outcome, final) := script.run cache
  let results ← outcome.mapError Replay.StepError.chain
  return ⟨0, String.join (results.map (resultLine style.pretty)),
    if style.stats && !quiet then statistics final else ""⟩

/-- Run a script from a file on a fresh cache, with the log. -/
def reportReplay (surroundings : Surroundings) (options : Options) (settings : Settings)
    (path : String) (script : Replay.Script) (style : ReplayStyle) : Report :=
  match cacheFor settings with
  | .error chain => .failed chain
  | .ok cache =>
    let records := script.log path cache (logLevel options settings.logging)
    let written := records.map (LogRecord.write settings.logging.format surroundings.time)
    (Report.ofResult (replayScript script cache style options.quiet)).withLog
      (String.join written)

/-- A settings path and whether a file is there. -/
def presence (present : Bool) : String :=
  if present then "exists" else "not found"

section

variable {m : Type → Type} [Monad m] [FileAccess m]

/-- Read a script and run it. -/
def runReplay (surroundings : Surroundings) (options : Options) (path : String)
    (style : ReplayStyle) (settings : Settings) : m Report := do
  match ← FileAccess.readText path with
  | .error cause => return .failed [s!"Failed to read script {path}", cause.message]
  | .ok text =>
    match Replay.Script.parse? text with
    | none => return .failed [s!"Failed to parse script {path}", "malformed script"]
    | some script => return reportReplay surroundings options settings path script style

/-- Print where settings are kept. -/
def runConfigPath (surroundings : Surroundings) (options : Options) (json : Bool) :
    m CommandResult := do
  let globalPath := (SettingsFiles.ofHome surroundings.home).globalPath?
  let localPath := SettingsFiles.localPath (projectDirectory surroundings options)
  let globalPresent ←
    match globalPath with
    | some path => FileAccess.isPresent path
    | none => pure false
  let localPresent ← FileAccess.isPresent localPath
  if json then
    let paths := Json.Value.object
      [("global", (globalPath.map .string).getD .null),
       ("local", .string localPath),
       ("global_exists", .bool globalPresent),
       ("local_exists", .bool localPresent)]
    return .ok (.printed (paths.indented ++ "\n"))
  else
    let globalLine :=
      match globalPath with
      | some path => s!"Global: {path} ({presence globalPresent})\n"
      | none => "Global: not available (no home directory)\n"
    return .ok (.printed
      (globalLine ++ s!"Local:  {localPath} ({presence localPresent})\n"))

/-- Print the effective settings. -/
def runConfigShow (json : Bool) (settings : Settings) : CommandResult :=
  if json then .ok (.printed (settings.encode.indented ++ "\n"))
  else
    match settings.toText? with
    | some text => .ok (.printed text)
    | none => .error ["Failed to render config", "out of range"]

/-- Write the default settings. -/
def runConfigInit (surroundings : Surroundings) (options : Options) (global : Bool) :
    m CommandResult := do
  let result ←
    if global then (SettingsFiles.ofHome surroundings.home).initializeGlobal
    else SettingsFiles.initializeLocal (projectDirectory surroundings options)
  match result with
  | .error error => return .error error.chain
  | .ok path => return .ok ⟨0, "", if options.quiet then "" else s!"Config: {path}\n"⟩

/-- Run a command that needs settings. -/
def withSettings (surroundings : Surroundings) (options : Options)
    (body : Settings → m Report) : m Report := do
  match ← loadSettings surroundings options with
  | .error chain => return .failed chain
  | .ok settings => body settings

/-- Run a command. -/
def runCommand (surroundings : Surroundings) (options : Options) : Command → m Report
  | .policies json =>
    withSettings surroundings options fun settings =>
      return .ofResult (runPolicies json settings)
  | .replay script pretty stats =>
    withSettings surroundings options
      (runReplay surroundings options script ⟨pretty, stats⟩)
  | .configPath json => return .ofResult (← runConfigPath surroundings options json)
  | .configShow json =>
    withSettings surroundings options fun settings =>
      return .ofResult (runConfigShow json settings)
  | .configInit global => return .ofResult (← runConfigInit surroundings options global)

/-- The text about how to call the program. -/
def usage : String :=
  "Usage: monoid-cache [OPTIONS] <policies|replay|config>\n"

/-- Run the program with its arguments. -/
def runProgram (surroundings : Surroundings) (arguments : List String) : m Report := do
  match read surroundings.environment arguments with
  | .version title => return .printed s!"{title} {version}\n"
  | .help => return .printed usage
  | .refused => return .misused
  | .command path =>
    match commandOf? path with
    | none => return .misused
    | some command =>
      runCommand surroundings (optionsOf surroundings.environment path) command

end

end PagedCache.CommandLine
