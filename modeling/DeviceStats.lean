import DeviceStats.Main
import DeviceStats.Queue.Script
import DeviceStats.Proofs.Queue.Step
import DeviceStats.Proofs.Queue.Ledger
import DeviceStats.Proofs.Queue.Waiting
import DeviceStats.Proofs.Queue.Passes
import DeviceStats.Proofs.Cycle.Step
import DeviceStats.Proofs.Cycle.Queue
import DeviceStats.Proofs.Cycle.Progress
import DeviceStats.Proofs.Cycle.Outcomes
import DeviceStats.Proofs.Cycle.Sharing
import DeviceStats.Proofs.Cycle.Accounting
import DeviceStats.Proofs.Match.Children
import DeviceStats.Proofs.Match.Pointwise
import DeviceStats.Proofs.Match.Paths
import DeviceStats.Proofs.Outline.Marks
import DeviceStats.Proofs.Outline.Layout
import DeviceStats.Proofs.Outline.Agreement
import DeviceStats.Proofs.Outline.Conditions
import DeviceStats.Proofs.Match.Addressed
import DeviceStats.Proofs.Outline.Tagging
import DeviceStats.Proofs.Outline.Replay
import DeviceStats.Proofs.Outline.Beginning
import DeviceStats.Proofs.Cycle.Unstopped
import DeviceStats.Proofs.Outline.Pruning
import DeviceStats.Proofs.Cycle.Liveness
import DeviceStats.Proofs.Cycle.Independence
import DeviceStats.Proofs.Queue.Order
import DeviceStats.Proofs.Queue.Stopping
import DeviceStats.Proofs.Cycle.Assembly
import DeviceStats.Proofs.Decimal.Shortest
import DeviceStats.Proofs.Json.Number
import DeviceStats.Proofs.Json.Printer
import DeviceStats.Proofs.Json.Decoders
import DeviceStats.Proofs.Json.Records
import DeviceStats.Proofs.Property.Finite
import DeviceStats.Proofs.Property.Requests
import DeviceStats.Proofs.Property.Declared
import DeviceStats.Proofs.Action.Grammar
import DeviceStats.Proofs.Action.Written
import DeviceStats.Proofs.Action.Finite
import DeviceStats.Proofs.Outline.Cache
import DeviceStats.Proofs.Decimal.Nearest
import DeviceStats.Proofs.Property.Reading
import DeviceStats.Proofs.Match.Visits
import DeviceStats.Proofs.Outline.Permanence
import DeviceStats.Proofs.Outline.Monotony
import DeviceStats.Proofs.Match.Retention
import DeviceStats.Proofs.Time.Calendar
import DeviceStats.Proofs.Time.Layouts
import DeviceStats.Proofs.Json.Objects
import DeviceStats.Proofs.Step.Timestamps
import DeviceStats.Proofs.Step.KeyFilter
import DeviceStats.Proofs.Step.Tagging
import DeviceStats.Proofs.Text.Split
import DeviceStats.Proofs.Step.Reduction
import DeviceStats.Proofs.Step.Response
import DeviceStats.Proofs.Step.Declared
import DeviceStats.Proofs.Pipeline.Settled
import DeviceStats.Proofs.Pipeline.Reduced
import DeviceStats.Proofs.Pipeline.Idempotence
import DeviceStats.Proofs.Match.Chains
import DeviceStats.Proofs.Match.Removal
import DeviceStats.Proofs.Queue.Completion
import DeviceStats.Proofs.Step.Making
import DeviceStats.Proofs.Step.Fixpoint
import DeviceStats.Proofs.Json.Paths
import DeviceStats.Proofs.Tag.Additions
import DeviceStats.Proofs.Tag.Repetition
import DeviceStats.Proofs.Tag.Targets
import DeviceStats.Proofs.Time.Succession
import DeviceStats.Proofs.Time.Order
import DeviceStats.Proofs.Step.Epoch
import DeviceStats.Proofs.Property.Rendering
import DeviceStats.Proofs.Step.FilteredPaths
import DeviceStats.Proofs.Step.Renaming
import DeviceStats.Proofs.Event.Pairs
import DeviceStats.Proofs.Routine.Table
import DeviceStats.Proofs.Routine.Regroup
import DeviceStats.Proofs.Step.Keyed
import DeviceStats.Proofs.Version.Order
import DeviceStats.Proofs.Path.Below
import DeviceStats.Proofs.Property.Verdicts
import DeviceStats.Proofs.Step.Plain
import DeviceStats.Proofs.Routine.HardwareAddress
import DeviceStats.Proofs.Step.TextSeconds
