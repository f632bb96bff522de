import Datacenter.Classification
import Datacenter.CommandLine
import Datacenter.Config.Basic
import Datacenter.Config.Error
import Datacenter.Config.Reader
import Datacenter.Decimal.Binary
import Datacenter.Decimal.Layout
import Datacenter.Decimal.Reader
import Datacenter.Decimal.Shortest
import Datacenter.Energy
import Datacenter.Experiment
import Datacenter.FileError
import Datacenter.FileTree
import Datacenter.Host
import Datacenter.Ledger
import Datacenter.Log.Event
import Datacenter.Log.Text
import Datacenter.Main
import Datacenter.Migration
import Datacenter.Monitoring
import Datacenter.OptionText
import Datacenter.Outcome
import Datacenter.Planner
import Datacenter.Policy.Basic
import Datacenter.Policy.Registry
import Datacenter.Policy.Scripted
import Datacenter.Policy.SingleThreshold
import Datacenter.Pool.Basic
import Datacenter.Pool.Consistency
import Datacenter.Pool.Load
import Datacenter.Power.Model
import Datacenter.Power.Registry
import Datacenter.Proofs.Admissions
import Datacenter.Proofs.Amounts
import Datacenter.Proofs.Arrivals
import Datacenter.Proofs.Burdens
import Datacenter.Proofs.Capacity
import Datacenter.Proofs.Charges
import Datacenter.Proofs.CheckedConfigs
import Datacenter.Proofs.Clock
import Datacenter.Proofs.Commands
import Datacenter.Proofs.Consistency
import Datacenter.Proofs.Consolidation
import Datacenter.Proofs.Course
import Datacenter.Proofs.Destinations
import Datacenter.Proofs.DestinedLoads
import Datacenter.Proofs.Distribution
import Datacenter.Proofs.DueLandings
import Datacenter.Proofs.Edits
import Datacenter.Proofs.Effects
import Datacenter.Proofs.Evictions
import Datacenter.Proofs.ExactScalar
import Datacenter.Proofs.ExactTotals
import Datacenter.Proofs.FloatNumbers
import Datacenter.Proofs.FloatOrder
import Datacenter.Proofs.FloatRounding
import Datacenter.Proofs.FloatSums
import Datacenter.Proofs.HostBalance
import Datacenter.Proofs.HostSteps
import Datacenter.Proofs.Independence
import Datacenter.Proofs.Itineraries
import Datacenter.Proofs.LandingOrder
import Datacenter.Proofs.Landings
import Datacenter.Proofs.Launches
import Datacenter.Proofs.Metering
import Datacenter.Proofs.Moves
import Datacenter.Proofs.Offers
import Datacenter.Proofs.Ownership
import Datacenter.Proofs.PartialRestore
import Datacenter.Proofs.PassFaults
import Datacenter.Proofs.Passes
import Datacenter.Proofs.Patches
import Datacenter.Proofs.Placements
import Datacenter.Proofs.PlanAtomicity
import Datacenter.Proofs.PlanStart
import Datacenter.Proofs.PlanTracking
import Datacenter.Proofs.PlannerFaults
import Datacenter.Proofs.PlannerSteps
import Datacenter.Proofs.PlanningLoad
import Datacenter.Proofs.PolicyTexts
import Datacenter.Proofs.PoolEdits
import Datacenter.Proofs.PoolSteps
import Datacenter.Proofs.PowerCurves
import Datacenter.Proofs.Recalling
import Datacenter.Proofs.RecentSamples
import Datacenter.Proofs.Releases
import Datacenter.Proofs.Relief
import Datacenter.Proofs.Replacement
import Datacenter.Proofs.Replies
import Datacenter.Proofs.Reports
import Datacenter.Proofs.RestoreSafety
import Datacenter.Proofs.Restoring
import Datacenter.Proofs.Retries
import Datacenter.Proofs.RoundTrip
import Datacenter.Proofs.Selection
import Datacenter.Proofs.Shares
import Datacenter.Proofs.Starts
import Datacenter.Proofs.Stock
import Datacenter.Proofs.TargetLoads
import Datacenter.Proofs.Totals
import Datacenter.Proofs.Waiting
import Datacenter.Queue
import Datacenter.Refusal
import Datacenter.Report
import Datacenter.Resources
import Datacenter.Scalar
import Datacenter.Selector
import Datacenter.Simulation.Basic
import Datacenter.Simulation.Plan
import Datacenter.Simulation.Start
import Datacenter.Simulation.Step
import Datacenter.Simulation.Summary
import Datacenter.Simulation.SummaryText
import Datacenter.Sort
import Datacenter.Sort.Insertion
import Datacenter.Sort.Merge
import Datacenter.Sort.Partition
import Datacenter.Sort.Run
import Datacenter.Sort.Short
import Datacenter.Table
import Datacenter.Table.Entries
import Datacenter.Table.Index
import Datacenter.Tally
import Datacenter.Text.Blank
import Datacenter.Text.Quoted
import Datacenter.Vm
import Datacenter.Workload
import Datacenter.Yaml.Lexeme
import Datacenter.Yaml.Node
import Datacenter.Yaml.Spot
import Datacenter.Yaml.Token
import Datacenter.Yaml.Value
