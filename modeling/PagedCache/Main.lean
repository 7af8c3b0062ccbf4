import PagedCache.CommandLine.Commands
import Std.Time

/-!
# The program

Runs the command line on the file system of the machine.
-/

namespace PagedCache.Program

/-- The failure of a file operation in the terms of the library. -/
def fileError : IO.Error → FileError
  | .noFileOrDirectory .. => .missing
  | .alreadyExists .. => .alreadyExists
  | .inappropriateType _ code details => ofCode code details
  | .invalidArgument _ code details => ofCode code details
  | .permissionDenied _ code details => ofCode code details
  | .resourceExhausted _ code details => ofCode code details
  | .otherError code details => ofCode code details
  | error => .other (toString error)
where
  /-- Codes may be given negated. -/
  ofCode (code : UInt32) (details : String) : FileError :=
    let number := min code.toNat (0 - code).toNat
    if number = 20 then .notDirectory
    else if number = 21 then .isDirectory
    else if number = 36 then .nameTooLong
    else .other s!"{details} (os error {number})"

/-- Run a file operation on a path and keep its failure as a value. -/
def attempt {β : Type} (path : String) (action : IO β) : IO (Except FileError β) := do
  if path.contains '\x00' then return .error .unexpectedNul
  else
    match ← action.toBaseIO with
    | .ok value => return .ok value
    | .error error => return .error (fileError error)

/-- Whether a path leads anywhere. -/
def isPresent (path : String) : IO Bool :=
  return (← attempt path (IO.FS.realPath path)).isOk

instance : FileAccess IO where
  readText path := attempt path (IO.FS.readFile path)
  isPresent path := isPresent path
  isDirectory path := isPresent (path ++ "/.")
  makeDirectory path := attempt path (IO.FS.createDir path)
  writeText path text := attempt path (IO.FS.writeFile path text)

/-- The environment that the command line reads. -/
def readEnvironment : IO (List (String × String)) :=
  (CommandLine.ValueOption.all.filterMap CommandLine.ValueOption.environmentName?).filterMapM
    fun name => do
      return (← IO.getEnv name).map fun value => (name, value)

/-- The time of day in UTC. -/
def currentTime : IO String := do
  let now ← Std.Time.Timestamp.now
  let date := Std.Time.DateTime.ofTimestamp now Std.Time.TimeZone.ZoneRules.UTC
  return date.format "uuuu-MM-dd'T'HH:mm:ss.SSSSSS'Z'"

/-- What the program finds when it starts. -/
def surroundings : IO CommandLine.Surroundings := do
  let workingDirectory ← IO.currentDir
  let home := (← IO.getEnv "HOME").filter fun directory => !directory.isEmpty
  let environment ← readEnvironment
  return ⟨workingDirectory.toString, home, fun name => environment.lookup name, ← currentTime⟩

end PagedCache.Program

def main (arguments : List String) : IO UInt32 := do
  let surroundings ← PagedCache.Program.surroundings
  let report ← PagedCache.CommandLine.runProgram surroundings arguments
  (← IO.getStdout).putStr report.output
  (← IO.getStderr).putStr report.errors
  return UInt32.ofNat report.exitCode
