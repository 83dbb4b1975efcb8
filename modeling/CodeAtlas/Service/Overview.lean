import CodeAtlas.Program

/-!
# The state of a service at a glance
-/

namespace CodeAtlas

/-- How much there is in the graph, among the records and in the queue. -/
structure Overview where
  graph : GraphStats
  records : Props
  queue : QueueStats

namespace Overview

open Program

def find : Program Overview := do
  let graph ← request .graphStats
  let records ← request .recordStats
  let queue ← request .queueStats
  pure ⟨graph, records, queue⟩

def toDatum (o : Overview) : Datum :=
  .map [("graph", o.graph.toDatum), ("records", .map o.records), ("enrichment", o.queue.toDatum)]

instance : ToDatum Overview := ⟨toDatum⟩

end Overview

end CodeAtlas
