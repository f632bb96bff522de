import Datacenter.Config.Error
import Datacenter.Yaml.Value

/-!
# Configurations from YAML

A configuration file is a record. Fields of the configuration may be left out or null, as some
fields of groups may; fields that the configuration does not know do not count.
-/

namespace Datacenter

open Yaml

def HostGroup.ofNode (node : Node) : Decoding (HostGroup Float) := do
  let fields ← node.fields ["name_prefix", "count", "cores", "mips_per_core", "ram", "bandwidth",
    "storage", "max_power", "static_power_fraction", "power_model"]
  let name? ← fields.optional "name_prefix" Node.text
  let count? ← fields.optional "count" (Node.nat 32)
  let cores ← fields.required "cores" (Node.nat 32)
  let mipsPerCore ← fields.required "mips_per_core" Node.float
  let ram ← fields.required "ram" Node.word
  let bandwidth ← fields.required "bandwidth" Node.word
  let storage ← fields.required "storage" Node.word
  let maxPower ← fields.required "max_power" Node.float
  let staticFraction? ← fields.optional "static_power_fraction" Node.float
  let powerModel? ← fields.optional "power_model" Node.text
  return {
    name? := name?
    count?, cores, mipsPerCore, ram, bandwidth, storage, maxPower, staticFraction?, powerModel? }

def VmGroup.ofNode (node : Node) : Decoding (VmGroup Float) := do
  let fields ← node.fields ["tenant", "count", "cores", "mips", "ram", "bandwidth", "image_size"]
  let tenant? ← fields.optional "tenant" Node.text
  let count? ← fields.optional "count" (Node.nat 32)
  let cores? ← fields.optional "cores" (Node.nat 32)
  let mips ← fields.required "mips" Node.float
  let ram ← fields.required "ram" Node.word
  let bandwidth? ← fields.optional "bandwidth" Node.word
  let imageSize? ← fields.optional "image_size" Node.word
  return { tenant? := tenant?, count?, cores?, mips, ram, bandwidth?, imageSize? }

namespace Config

/-- A configuration with defaults for the fields that are left out. -/
def ofNode (node : Node) : Decoding (Config Float) := do
  let fields ← node.fields ["name", "allocation_policy", "upper_utilization_threshold",
    "lower_utilization_threshold", "scheduling_interval", "monitoring_interval", "history_length",
    "vm_migration", "migration_overhead", "hosts", "vms"]
  let name? ← fields.optional "name" Node.text
  let policy? ← fields.optional "allocation_policy" Node.text
  let upper? ← fields.optional "upper_utilization_threshold" Node.float
  let lower? ← fields.optional "lower_utilization_threshold" Node.float
  let stepInterval? ← fields.optional "scheduling_interval" Node.float
  let monitoringInterval? ← fields.optional "monitoring_interval" Node.float
  let historyLength? ← fields.optional "history_length" (Node.nat 64)
  let migrates? ← fields.optional "vm_migration" Node.bool
  let migrationOverhead? ← fields.optional "migration_overhead" Node.float
  let hosts? ← fields.optional "hosts" (Node.items HostGroup.ofNode)
  let vms? ← fields.optional "vms" (Node.items VmGroup.ofNode)
  return {
    name := name?.getD "datacenter"
    policy := policy?.getD "SingleThreshold"
    thresholds := ⟨upper?.getD 0.8, lower?.getD 0.2⟩
    stepInterval := stepInterval?.getD 30
    monitoringInterval := monitoringInterval?.getD 180
    historyLength := historyLength?.getD 2
    migrates := migrates?.getD true
    migrationOverhead := migrationOverhead?.getD 10
    hosts := hosts?.getD []
    vms := vms?.getD [] }

/-- The configuration that a text describes, whether it is valid or not. -/
def read? (text : String) : Option (Config Float) := (Document.ofText? text).bind (·.read? ofNode)

/-- The configuration that a text describes, if it is valid. -/
def ofText (text : String) : Except (ConfigError Float) (Config Float) :=
  match read? text with
  | none => .error .malformed
  | some config =>
    match config.violation? with
    | none => .ok config
    | some reason => .error (.invalid reason)

/-- The configuration in a file with the given contents, or one that cannot be opened. -/
def ofFile (path : String) (contents : Except FileError ByteArray) :
    Except (ConfigError Float) (Config Float) :=
  match contents with
  | .error e => .error (.unreadable path e)
  | .ok bytes =>
    match String.fromUTF8? bytes with
    | none => .error (.unreadable path .notText)
    | some text => ofText text

end Config

end Datacenter
