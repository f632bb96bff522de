import Datacenter.CommandLine
import Datacenter.Config.Reader
import Datacenter.FileTree
import Datacenter.Log.Text
import Datacenter.Report
import Datacenter.Simulation.Start
import Datacenter.Simulation.SummaryText
import Datacenter.Workload

/-!
# Experiments

An experiment reads a configuration, checks it with the built-in power models and policies, and runs
the workload on it. What it leaves is a summary, a migration report and a log. The report and the
summary can be saved in files.
-/

namespace Datacenter.Experiment

/-- What an experiment can save in a file. -/
inductive Output where
  | report
  | summary

def Output.name : Output → String
  | report => "migrations"
  | summary => "summary"

/-- Why an experiment fails. -/
inductive Failure where
  | config (error : ConfigError Float)
  | fault (fault : Fault)
  | unsaved (output : Output) (path : String) (error : FileError)

def Failure.message : Failure → String
  | .config e => e.message
  | .fault e => e.message
  | .unsaved output path e => "Can't save " ++ output.name ++ " to " ++ path ++ ": " ++ e.message

/-- Runs the workload on the datacenter of a configuration. -/
def simulate (config : Config Float) (simulationId : Nat) (duration : Float) :
    Logged Float (Except (ConfigError Float) (Summary Float)) := do
  match config.validate .builtIn .builtIn with
  | .error e => return .error e
  | .ok () =>
    match ← Simulation.ofConfig config simulationId .builtIn .builtIn with
    | .error e => return .error e
    | .ok sim => return .ok (← sim.runWorkload duration).summary

/-- Log and result of an experiment. -/
structure Run where
  log : List (LogEntry Float)
  result : Except Failure (Summary Float)

/-- The experiment with a configuration that was read, or could not be. -/
def run (config : Except (ConfigError Float) (Config Float)) (simulationId : Nat)
    (duration : Float) : Run :=
  match config with
  | .error e => ⟨[], .error (.config e)⟩
  | .ok config =>
    let logged := simulate config simulationId duration
    match logged.result with
    | .error e => ⟨logged.events, .error (.fault e)⟩
    | .ok (.error e) => ⟨logged.events, .error (.config e)⟩
    | .ok (.ok summary) => ⟨logged.events, .ok summary⟩

/-- The migrations that the experiment started, as comma-separated values. -/
def Run.report (run : Run) : String := Report.csv (Report.ofLog run.log)

/-- The text of an output. -/
def Run.text (run : Run) (summary : Summary Float) : Output → String
  | .report => run.report
  | .summary => summary.object

/-- What is to be saved, in order, with the paths. -/
def outputs (arguments : CommandLine.Arguments) : List (Output × String) :=
  (arguments.migrationsCsv.map (Output.report, ·)).toList
    ++ (arguments.summary.map (Output.summary, ·)).toList

/-- The first output that cannot be saved among the given folders and files. -/
def unsaved? (tree : FileTree) : List (Output × String) → Option Failure
  | [] => none
  | (output, path) :: rest =>
    match tree.write path with
    | .ok tree => unsaved? tree rest
    | .error e => some (.unsaved output path e)

/-- The messages of the log that a limit lets through. -/
def Run.messages (run : Run) (limit : Option Level) : List String :=
  (shownEntries limit run.log).map LogEntry.text

/-- The lines that these messages take up. -/
def Run.logLines (run : Run) (limit : Option Level) : List String :=
  (run.messages limit).flatMap linesOf

end Datacenter.Experiment
