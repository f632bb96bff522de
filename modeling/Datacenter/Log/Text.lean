import Datacenter.Decimal.Layout
import Datacenter.Log.Event

/-!
# Texts of events

Times and utilizations have three decimals. A stamp puts time, level and name in front.
-/

namespace Datacenter

def Reading.text (r : Reading Float) : String :=
  Decimal.fixed 3 r.instantaneous ++ " (smoothed " ++ Decimal.fixed 3 r.smoothed ++ ")"

def Event.text : Event Float → String
  | restoreFailed failure => (Fault.restoreFailed failure).message
  | hostClassified c =>
    "host #" ++ toString c.host ++ " is " ++ c.status.name ++ ": cpu = " ++ c.cpu.text
      ++ ", ram = " ++ c.ram.text
  | hostNotRelieved host => "no VM can be moved from overloaded host #" ++ toString host
  | hostNotConsolidated host => "host #" ++ toString host ++ " can't be consolidated"
  | hostAdded host name => "added host #" ++ toString host ++ " (" ++ name ++ ")"
  | vmPlaced vm host => "vm #" ++ toString vm ++ " placed on host #" ++ toString host
  | vmNotPlaced vm error => "vm #" ++ toString vm ++ " is not placed: " ++ error.message
  | vmReleased vm host => "vm #" ++ toString vm ++ " released from host #" ++ toString host
  | vmResized vm mips =>
    "vm #" ++ toString vm ++ " now requests " ++ Decimal.plain mips ++ " MIPS per core"
  | vmNotResized vm reason => "vm #" ++ toString vm ++ " can't grow: " ++ reason.message
  | planMade size => "optimization pass planned " ++ toString size ++ " migrations"
  | planRejected rejection => rejection.message ++ ", restoring allocation"
  | migrationStarted m duration =>
    m.reason.name ++ " migration of vm #" ++ toString m.vm ++ " from host #" ++ toString m.source
      ++ " to host #" ++ toString m.target ++ " started, duration " ++ Decimal.fixed 3 duration
  | migrationCancelled vm => "migration of vm #" ++ toString vm ++ " was cancelled"
  | migrationCompleted vm source target =>
    "vm #" ++ toString vm ++ " migrated from host #" ++ toString source ++ " to host #"
      ++ toString target
  | migrationFailed vm reason =>
    "migration of vm #" ++ toString vm ++ " can't be completed: " ++ reason.message
  | stepMade => "step"

/-- Level names take five columns in stamps; the shorter ones are filled up. -/
def Level.column (level : Level) : String :=
  level.name.pushn ' ' (5 - level.name.length)

namespace LogEntry

def level {α : Type} (entry : LogEntry α) : Level := entry.event.level

def text (entry : LogEntry Float) : String :=
  match entry.stamp with
  | none => entry.event.text
  | some stamp =>
    "[" ++ Decimal.fixed 3 stamp.time ++ " " ++ entry.level.column ++ " " ++ stamp.name ++ "] "
      ++ entry.event.text

end LogEntry

/-- The lines that a text takes up. A carriage return in front of a line break belongs to it. -/
def linesOf (text : String) : List String :=
  (text.splitOn "\n").map fun line => (line.dropSuffix "\r").toString

/-- The entries that a limit lets through. -/
def shownEntries {α : Type} (limit : Option Level) (entries : List (LogEntry α)) :
    List (LogEntry α) :=
  entries.filter (·.level.within limit)

end Datacenter
