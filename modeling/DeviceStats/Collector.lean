import DeviceStats.Cycle.Thread
import DeviceStats.Outline.Selection

/-!
# Collector — collection cycles one after another

A cycle compiles the declaration, selects the properties worth collecting, runs them, and reports.
A collector remembers selections and whether a stop was requested, and nothing else, so no response
outlives its cycle.
-/

namespace DeviceStats

structure Collector where
  tuning : Tuning := {}
  selections : SelectionCache := {}
  stopRequested : Bool := false

/-- What came of a cycle. -/
structure Collection where
  report : Report
  /-- The keys of the requests that were sent, in order. -/
  loads : List String
  /-- How many requests were given up.  The device does not learn of that. -/
  abandoned : Nat
  /-- The most requests that the device had at once. -/
  peak : Nat

namespace Collector

/-- The properties that a cycle runs, in order of declaration. -/
def select (c : Collector) (d : Declaration) (facts : Facts) : List Property × SelectionCache :=
  let properties := d.properties facts
  let (names, selections) := c.selections.select properties d.actions d.disabledFolders
  (properties.filter fun p => names.contains p.name, selections)

/-- Runs a cycle. -/
def collect (c : Collector) (device : Device) (d : Declaration) (facts : Facts) :
    Collection × Collector :=
  let (selected, selections) := c.select d facts
  let r := Cycle.Thread.whole device c.tuning selected c.stopRequested
  let report := (Report.assemble (d.rejections facts) r.cycle.results).act d selected
  (⟨report, r.cycle.loads, r.abandoned, r.peak⟩,
    { c with selections, stopRequested := r.cycle.stopRequested })

end Collector

end DeviceStats
