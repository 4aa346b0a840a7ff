import Valkeyop.Cluster.Interface

/-!
# The in-memory cluster

`internal/cluster/fake.go`, the `ClusterAdmin` the controller is tested with. A
node is keyed by its host, which is also its ID; slots are counted, not told
apart, once they have moved. Nothing fails, and a Go pointer into the map is a
change of the entry here.
-/

namespace Valkeyop.Cluster

structure Fake where
  nodes : NodeMap

namespace Fake

def empty : Fake := ⟨∅⟩

/-- A node as it is first seen: a primary without slots. -/
def newNode (e : Endpoint) : NodeInfo where
  id := e.host
  host := e.host
  ip := ""
  port := e.port
  flags := ["master"]
  masterID := ""
  slots := []
  connected := true

def ensure (f : Fake) (e : Endpoint) : Fake :=
  if e.host ∈ f.nodes then f else ⟨f.nodes.insert e.host (newNode e)⟩

/-- Change the record of a node, if there is one. -/
def modify (f : Fake) (key : String) (g : NodeInfo → NodeInfo) : Fake :=
  match f.nodes.lookup key with
  | some n => ⟨f.nodes.insert key (g n)⟩
  | none => f

/-- Change the record of every node. -/
def modifyAll (f : Fake) (g : NodeInfo → NodeInfo) : Fake :=
  f.nodes.keys.foldl (fun f key => f.modify key g) f

def assignedSlots (f : Fake) : Int :=
  (f.nodes.entries.map fun e => e.2.slotCount).sum

def state (f : Fake) : ClusterState where
  formed := decide (0 < f.nodes.entries.length) && decide (0 < f.assignedSlots)
  slotsCovered := f.assignedSlots == totalSlots
  openSlots := false
  nodes := (f.nodes.entries.map fun e => e.2).mergeSort fun a b => decide (a.id ≤ b.id)

/-- One synthetic range for a number of slots. -/
def countToRanges (count : Int) : List SlotRange :=
  if count ≤ 0 then [] else [⟨0, count - 1⟩]

def asPrimary (n : NodeInfo) : NodeInfo := { n with masterID := "", flags := ["master"] }

/-! ## Roles -/

def addSlots (f : Fake) (primary : Endpoint) (ranges : List SlotRange) : Fake :=
  (f.ensure primary).modify primary.host fun n =>
    { asPrimary n with slots := n.slots ++ ranges }

def replicate (f : Fake) (replica : Endpoint) (primaryID : String) : Fake :=
  (f.ensure replica).modify replica.host fun n =>
    { n with masterID := primaryID, flags := ["slave"], slots := [] }

def forget (f : Fake) (nodeID : String) : Fake := ⟨f.nodes.erase nodeID⟩

/-- The replica takes its primary's slots, and they swap roles. -/
def failover (f : Fake) (replica : Endpoint) : Fake :=
  match f.nodes.lookup replica.host with
  | none => f
  | some r =>
      if r.masterID = "" then f else
      match f.nodes.lookup r.masterID with
      | none => f
      | some m =>
          (f.modify replica.host fun r => { asPrimary r with slots := m.slots }).modify
            r.masterID fun m => { m with slots := [], masterID := r.id, flags := ["slave"] }

/-! ## Moving slots -/

/-- Move up to `n` slots at once; the number that moved comes with it. -/
def moveSlots (f : Fake) (fromNodeID toNodeID : String) (n : Int) : Int × Fake :=
  match f.nodes.lookup fromNodeID, f.nodes.lookup toNodeID with
  | some source, some _ =>
      let moved := min n source.slotCount
      let drained := f.modify fromNodeID fun s =>
        { s with slots := countToRanges (s.slotCount - moved) }
      (moved, drained.modify toNodeID fun t =>
        { asPrimary t with slots := countToRanges (t.slotCount + moved) })
  | _, _ => (0, f)

/-- Share the slots out evenly among the given nodes. -/
def splitEvenly (f : Fake) (targets : List String) : Fake :=
  targets.zipIdx.foldl (fun f (id, i) => f.modify id fun n =>
    { n with slots := [⟨(i : Int) * totalSlots / targets.length,
      ((i : Int) + 1) * totalSlots / targets.length - 1⟩] }) f

def sortedKeys (f : Fake) (p : String → NodeInfo → Bool) : List String :=
  ((f.nodes.entries.filter fun e => p e.1 e.2).map fun e => e.1).mergeSort
    fun a b => decide (a ≤ b)

def primaries (f : Fake) (excluded : List String) : List String :=
  f.sortedKeys fun id n => n.isPrimary && !excluded.contains id

def rebalance (f : Fake) (opts : RebalanceOpts) : Fake :=
  let targets := f.primaries opts.weightZeroIDs
  if targets.length = 0 then f
  else (f.modifyAll fun n => { n with slots := [] }).splitEvenly targets

/-- Without a source, the slots are shared out among the owners and the target. -/
def reshard (f : Fake) (fromNodeID toNodeID : String) (n : Int) : Fake :=
  match f.nodes.lookup toNodeID with
  | none => f
  | some _ =>
      let f := f.modify toNodeID asPrimary
      if fromNodeID ≠ "" then
        match f.nodes.lookup fromNodeID with
        | none => f
        | some source =>
            let moved := min n source.slotCount
            (f.modify fromNodeID fun s =>
              { s with slots := countToRanges (s.slotCount - moved) }).modify toNodeID
              fun t => { t with slots := countToRanges (t.slotCount + moved) }
      else
        let f := f.modify toNodeID fun t =>
          if t.slotCount = 0 then { t with slots := [⟨0, 0⟩] } else t
        let owners := f.sortedKeys fun _ nd => nd.isPrimary && decide (nd.slotCount > 0)
        (f.modifyAll fun nd =>
          if nd.isPrimary then { nd with slots := [] } else nd).splitEvenly owners

/-! ## The interface -/

def answer : (c : AdminCall) → Fake → c.Reply × Fake
  | .state _, f => (Except.ok f.state, f)
  | .myID ep, f => (Except.ok (NodeMap.get (f.ensure ep).nodes ep.host).id, f.ensure ep)
  | .meet source target, f => (Except.ok (), (f.ensure source).ensure target)
  | .addSlots primary ranges, f => (Except.ok (), f.addSlots primary ranges)
  | .replicate replica primaryID, f => (Except.ok (), f.replicate replica primaryID)
  | .forget _ nodeID, f => (Except.ok (), f.forget nodeID)
  | .failover replica, f => (Except.ok (), f.failover replica)
  | .rebalance _ opts, f => (Except.ok (), f.rebalance opts)
  | .reshard _ fromNodeID toNodeID n, f => (Except.ok (), f.reshard fromNodeID toNodeID n)
  | .moveSlots _ fromNodeID toNodeID n, f =>
      (((f.moveSlots fromNodeID toNodeID n).1, none), (f.moveSlots fromNodeID toNodeID n).2)
  | .fix _, f => (Except.ok (), f.rebalance {})
  | .repairSlots _, f => ((0, none), f)

end Fake

end Valkeyop.Cluster
