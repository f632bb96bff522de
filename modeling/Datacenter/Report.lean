import Datacenter.Decimal.Layout
import Datacenter.Log.Event

/-!
# The migration report

The report has a record for each started migration. Its text is comma-separated: a header line and
one line per record, and without records no header either. A field with a comma, a quote or a line
break is quoted, and quotes in it are doubled.
-/

namespace Datacenter.Report

/-! ### Records -/

/-- The record of an event in which a simulation starts a migration. -/
def recordOf? {α : Type} [Scalar α] (entry : LogEntry α) : Option (MigrationRecord α) :=
  match entry.stamp, entry.event with
  | some stamp, .migrationStarted m _ => some (m.toRecord stamp.name)
  | _, _ => none

/-- The records of all migrations that a run started, in order. -/
def ofLog {α : Type} [Scalar α] (entries : List (LogEntry α)) : List (MigrationRecord α) :=
  entries.filterMap recordOf?

/-! ### Text -/

/-- A double quote. -/
def quote : Char := '\x22'

def needsQuotes (c : Char) : Bool := c == ',' || c == quote || c == '\r' || c == '\n'

/-- Writes each quote twice. -/
def doubleQuotes : List Char → List Char
  | [] => []
  | c :: cs => if c = quote then quote :: quote :: doubleQuotes cs else c :: doubleQuotes cs

def field (text : String) : String :=
  if text.toList.any needsQuotes then
    String.ofList (quote :: doubleQuotes text.toList ++ [quote])
  else text

def line (fields : List String) : String := ",".intercalate (fields.map field) ++ "\n"

def header : List String :=
  ["time", "simulation_id", "datacenter", "vm_id", "source_host", "target_host", "reason",
    "source_cpu_utilization", "source_ram_utilization", "source_power",
    "target_cpu_utilization", "target_ram_utilization", "target_power"]

def stateFields (state : HostState Float) : List String :=
  [Decimal.tabular state.cpuUtilization, Decimal.tabular state.ramUtilization,
    Decimal.tabular state.power]

def recordFields (r : MigrationRecord Float) : List String :=
  [Decimal.tabular r.time, toString r.simulationId, r.datacenter, toString r.vm,
    toString r.source, toString r.target, r.reason]
    ++ stateFields r.sourceState ++ stateFields r.targetState

/-- The text of the whole report. -/
def csv (records : List (MigrationRecord Float)) : String :=
  if records.isEmpty then ""
  else String.join (line header :: records.map fun r => line (recordFields r))

/-- Hands the report to a writer. Nothing is written if there are no records. -/
def writeTo {m : Type → Type} [Monad m] (write : String → m Unit)
    (records : List (MigrationRecord Float)) : m Unit :=
  if records.isEmpty then pure () else write (csv records)

end Datacenter.Report
