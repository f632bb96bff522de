import Datacenter.Decimal.Reader
import Datacenter.OptionText

/-!
# Arguments of the command line

Every option takes a value, which stands in the next argument or is attached to the option. No
option may be given twice, and there are no other arguments, apart from those that ask for help or
for the version.
-/

namespace Datacenter.CommandLine

inductive Flag where
  | config
  | duration
  | simulationId
  | migrationsCsv
  | summary
  deriving DecidableEq

namespace Flag

def ofLongName? : String → Option Flag
  | "config" => some config
  | "duration" => some duration
  | "simulation-id" => some simulationId
  | "migrations-csv" => some migrationsCsv
  | "summary" => some summary
  | _ => none

def ofShortName? : Char → Option Flag
  | 'c' => some config
  | 'd' => some duration
  | _ => none

/-- The option of an argument, and the value that is attached to it: after an equals sign, or right
after a short name. -/
def ofArgument? (argument : String) : Option (Flag × Option String) :=
  match argument.toList with
  | '-' :: '-' :: long =>
    match Text.splitFirst '=' long with
    | some (name, value) => (ofLongName? (String.ofList name)).map (·, some (String.ofList value))
    | none => (ofLongName? (String.ofList long)).map (·, none)
  | '-' :: c :: attached =>
    let value? := match attached with
      | [] => none
      | '=' :: value => some (String.ofList value)
      | value => some (String.ofList value)
    (ofShortName? c).map (·, value?)
  | _ => none

end Flag

/-- An argument with a hyphen in front names an option, unless it is nothing but the hyphen. -/
def looksLikeOption (argument : String) : Bool := argument.startsWith "-" && argument ≠ "-"

/-- Options with their values. Two hyphens may end the arguments. -/
def readOptions : List String → Option (List (Flag × String))
  | [] => some []
  | ["--"] => some []
  | argument :: rest => do
    match ← Flag.ofArgument? argument, rest with
    | (flag, some value), rest => return (flag, value) :: (← readOptions rest)
    | (flag, none), value :: rest =>
      if looksLikeOption value then none else return (flag, value) :: (← readOptions rest)
    | (_, none), [] => none

structure Arguments where
  /-- Path of the configuration. -/
  config : String
  /-- Seconds that each phase of the workload takes. -/
  duration : Float
  simulationId : Nat
  /-- Path of the migration report, if it is to be saved. -/
  migrationsCsv : Option String
  /-- Path of the summary, if it is to be saved. -/
  summary : Option String

/-- The value of an option, or a default without it. -/
def valueOr {β : Type} (options : List (Flag × String)) (flag : Flag) (default : β)
    (read : String → Option β) : Option β :=
  match options.lookup flag with
  | none => some default
  | some value => read value

def Arguments.ofList? (arguments : List String) : Option Arguments := do
  let options ← readOptions arguments
  if ¬(options.map Prod.fst).Nodup then none
  else
    let config ← valueOr options .config "config.yaml" some
    let duration ← valueOr options .duration 1800 Decimal.readFloat?
    let simulationId ← valueOr options .simulationId 1 (Decimal.readNat? 32)
    return {
      config, duration, simulationId
      migrationsCsv := options.lookup .migrationsCsv
      summary := options.lookup .summary }

/-! ### Help -/

def versionText : String := "consolidation-demo 0.1.0\n"

def helpText : String :=
  versionText ++ "\n" ++ "\n".intercalate [
    "USAGE:",
    "    consolidation-demo [OPTIONS]",
    "",
    "OPTIONS:",
    "    -c, --config <CONFIG>",
    "            Path to datacenter config in YAML format [default: config.yaml]",
    "",
    "    -d, --duration <DURATION>",
    "            Simulated time in seconds of each workload phase [default: 1800]",
    "",
    "    -h, --help",
    "            Print help information",
    "",
    "        --migrations-csv <MIGRATIONS_CSV>",
    "            Path to save started migrations as CSV",
    "",
    "        --simulation-id <SIMULATION_ID>",
    "            ID stamped into migration records [default: 1]",
    "",
    "        --summary <SUMMARY>",
    "            Path to save simulation summary as JSON",
    "",
    "    -V, --version",
    "            Print version information"] ++ "\n"

/-- The text that the arguments ask for, if they do so before the first one that is unknown. Options
in front of that need not have the right values. -/
def textAskedFor? : List String → Option String
  | [] => none
  | argument :: rest =>
    if argument = "--help" ∨ argument.startsWith "-h" then some helpText
    else if argument = "--version" ∨ argument.startsWith "-V" then some versionText
    else match Flag.ofArgument? argument with
      | none => none
      | some (_, some _) => textAskedFor? rest
      | some (_, none) =>
        match rest with
        | [] => none
        | value :: rest =>
          if looksLikeOption value then textAskedFor? (value :: rest) else textAskedFor? rest

/-- What arguments ask for. -/
inductive Request where
  | run (arguments : Arguments)
  | print (text : String)

def Request.ofList? (arguments : List String) : Option Request :=
  match textAskedFor? arguments with
  | some text => some (.print text)
  | none => (Arguments.ofList? arguments).map .run

end Datacenter.CommandLine
