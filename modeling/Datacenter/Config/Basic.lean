import Datacenter.Classification
import Datacenter.Migration

/-!
# Configurations

A configuration describes a datacenter: groups of identical hosts and of identical VMs, and how the
simulation proceeds. It is valid if its numbers make sense; whether the named power models and the
policy exist is another question.
-/

namespace Datacenter

/-- A set of identical hosts. Rates are per core. -/
structure HostGroup (α : Type) where
  name? : Option String
  count? : Option Nat
  cores : Nat
  mipsPerCore : α
  ram : UInt64
  bandwidth : UInt64
  storage : UInt64
  maxPower : α
  staticFraction? : Option α
  powerModel? : Option String

/-- A set of identical VMs. Rates are per core. -/
structure VmGroup (α : Type) where
  tenant? : Option String
  count? : Option Nat
  cores? : Option Nat
  mips : α
  ram : UInt64
  bandwidth? : Option UInt64
  imageSize? : Option UInt64

structure Config (α : Type) where
  name : String
  /-- Name of the allocation policy, possibly with options. -/
  policy : String
  thresholds : Thresholds α
  /-- Seconds that a step takes. -/
  stepInterval : α
  /-- Seconds between samples of the utilization, and between optimization passes. -/
  monitoringInterval : α
  historyLength : Nat
  /-- Optimization passes are run. -/
  migrates : Bool
  /-- Seconds that are added to each migration. -/
  migrationOverhead : α
  hosts : List (HostGroup α)
  vms : List (VmGroup α)

/-! ### What is left out -/

namespace HostGroup

variable {α : Type}

/-- Start of the names of the hosts. A number from one on follows it. -/
def name (group : HostGroup α) : String := group.name?.getD "host"

def count (group : HostGroup α) : Nat := group.count?.getD 1

def powerModel (group : HostGroup α) : String := group.powerModel?.getD "Linear"

def staticFraction [Scalar α] (group : HostGroup α) : α := group.staticFraction?.getD 0.7

/-- Name of a host of the group, which are numbered from zero on. -/
def hostName (group : HostGroup α) (index : Nat) : String := group.name ++ toString (index + 1)

end HostGroup

namespace VmGroup

variable {α : Type}

def tenant (group : VmGroup α) : String := group.tenant?.getD "default"

def count (group : VmGroup α) : Nat := group.count?.getD 1

def cores (group : VmGroup α) : Nat := group.cores?.getD 1

def spec (group : VmGroup α) : VmSpec α where
  tenant := group.tenant
  cores := group.cores
  mips := group.mips
  ram := group.ram
  bandwidth := group.bandwidth?.getD 0
  imageSize := group.imageSize?.getD 0

end VmGroup

/-! ### Validity -/

/-- What is wrong with a configuration. -/
inductive InvalidConfig (α : Type) where
  | thresholds (thresholds : Thresholds α)
  | interval
  | historyLength
  | migrationOverhead
  | hostGroup (name : String)
  | vmGroup (tenant : String)

variable {α : Type} [Scalar α]

/-- Hosts have cores that compute, and memory. -/
def HostGroup.isValid (group : HostGroup α) : Bool :=
  group.cores ≠ 0 && 0 < group.mipsPerCore && group.ram ≠ 0

/-- VMs have cores, and their rate is not negative. -/
def VmGroup.isValid (group : VmGroup α) : Bool := group.cores ≠ 0 && !(group.mips < 0)

/-- The first thing that is wrong, if anything is. -/
def Config.violation? (config : Config α) : Option (InvalidConfig α) :=
  if !config.thresholds.valid then some (.thresholds config.thresholds)
  else if ¬(0 < config.stepInterval ∧ 0 < config.monitoringInterval) then some .interval
  else if config.historyLength = 0 then some .historyLength
  else if config.migrationOverhead < 0 then some .migrationOverhead
  else match config.hosts.find? (!·.isValid), config.vms.find? (!·.isValid) with
    | some group, _ => some (.hostGroup group.name)
    | none, some group => some (.vmGroup group.tenant)
    | none, none => none

end Datacenter
