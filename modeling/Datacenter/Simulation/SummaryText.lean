import Datacenter.Decimal.Layout
import Datacenter.Simulation.Summary
import Datacenter.Text.Quoted

/-!
# Texts of results

A line for readers, and an object with one field per line for programs.
-/

namespace Datacenter.Summary

/-- Joules in a kilowatt-hour. -/
def joulesPerKilowattHour : Float := 3.6e6

def line (s : Summary Float) : String :=
  "time: " ++ Decimal.fixed 1 s.time ++ " s, active hosts: " ++ toString s.activeHosts ++ "/"
    ++ toString s.hosts ++ ", placed vms: " ++ toString s.placedVms ++ "/" ++ toString s.vms
    ++ ", migrations: " ++ toString s.migrationsStarted ++ " started, "
    ++ toString s.migrationsCompleted ++ " completed, energy: "
    ++ Decimal.fixed 3 (s.energy / joulesPerKilowattHour) ++ " kWh"

/-- A finite number; there is no other. -/
def number (x : Float) : String := if x.isFinite then Decimal.tabular x else "null"

/-- Names and values of the fields. -/
def fields (s : Summary Float) : List (String × String) :=
  [("datacenter", Text.quoted s.datacenter), ("simulation_id", toString s.simulationId),
    ("time", number s.time), ("hosts", toString s.hosts), ("active_hosts", toString s.activeHosts),
    ("vms", toString s.vms), ("placed_vms", toString s.placedVms),
    ("pending_vms", toString s.pendingVms), ("migrations_started", toString s.migrationsStarted),
    ("migrations_completed", toString s.migrationsCompleted),
    ("migrations_in_flight", toString s.migrationsInFlight), ("power", number s.power),
    ("energy_consumed", number s.energy)]

def object (s : Summary Float) : String :=
  let lines := s.fields.map fun (name, value) => "  " ++ Text.quoted name ++ ": " ++ value
  "\x7b\n" ++ ",\n".intercalate lines ++ "\n\x7d"

end Datacenter.Summary
