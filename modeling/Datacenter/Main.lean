import Datacenter.Experiment

/-!
# Command line

Runs an experiment with the configuration in a file. The log goes to the standard error, as far as
the variable `RUST_LOG` of the environment lets it through.
-/

open Datacenter

/-- The level in the environment. Only errors are shown if there is none, and nothing at all if what
is there names no level. -/
def levelFromEnvironment : IO (Option Level) := do
  let name := ((← IO.getEnv "RUST_LOG").getD "").toLower
  return if name.isEmpty then some .error else Level.all.find? (·.name.toLower == name)

def fileError (error : IO.Error) : FileError :=
  let named (details : String) : FileError :=
    match details.toLower with
    | "is a directory" => .isFolder
    | "not a directory" => .notFolder
    | "file name too long" | "name too long" => .nameTooLong
    | _ => .other (toString error)
  match error with
  | .noFileOrDirectory .. => .notFound
  | .inappropriateType _ _ details => named details
  | .invalidArgument _ _ details => named details
  | _ => .other (toString error)

/-- The result of an action on a file. -/
def settle {β : Type} (action : IO β) : IO (Except FileError β) := do
  match ← action.toBaseIO with
  | .ok value => return .ok value
  | .error e => return .error (fileError e)

/-- Saves the outputs in order, up to the first failure. -/
def save (text : Experiment.Output → String) :
    List (Experiment.Output × String) → IO (Option Experiment.Failure)
  | [] => return none
  | (output, path) :: rest => do
    match ← settle (IO.FS.writeFile path (text output)) with
    | .ok () => save text rest
    | .error e => return some (.unsaved output path e)

def main (arguments : List String) : IO UInt32 := do
  match CommandLine.Request.ofList? arguments with
  | none =>
    IO.eprintln ("usage: [--config FILE] [--duration SECONDS] [--simulation-id ID] "
      ++ "[--migrations-csv FILE] [--summary FILE]")
    return 2
  | some (.print text) =>
    IO.print text
    return 0
  | some (.run arguments) =>
    let contents ← settle (IO.FS.readBinFile arguments.config)
    let config := Config.ofFile arguments.config contents
    let run := Experiment.run config arguments.simulationId arguments.duration
    for message in run.messages (← levelFromEnvironment) do
      IO.eprintln message
    match run.result with
    | .error failure =>
      IO.eprintln failure.message
      return 101
    | .ok summary =>
      IO.println summary.line
      match ← save (run.text summary) (Experiment.outputs arguments) with
      | none => return 0
      | some failure =>
        IO.eprintln failure.message
        return 101
