import Valkeyop.Cluster.Fake
import Valkeyop.Controller.ApiServer
import Valkeyop.Controller.Reconcile

/-!
# Runs on the fake cluster

The world of the controller's own tests: the in-memory cluster, an API server whose
pods are always ready, and nobody else. The order in which a map is ranged over is
nobody's choice, so it is a parameter, and it may be another one each time.

A run is a list of steps: the spec is edited, or a pass is made.

The in-memory cluster moves slots all at once. `Admin.MoveSlots` moves one after the
other and returns the first error with the slots before it moved, so there is a second
world in which moves break off. They do where the next slot is asked for its keys,
before anything is marked.
-/

namespace Valkeyop.Controller

open Valkeyop.Lib Valkeyop.Lib.Fallible Valkeyop.Cluster Valkeyop.Api

structure World where
  fake : Fake
  kube : ApiServer
  /-- How many maps have been ranged over so far. -/
  ranges : Nat

/-- The order each map in turn is ranged over in. -/
abbrev RangeOrders := Nat → (m : NodeMap) → RangeOrder m

namespace World

def answer (order : RangeOrders) : Handler Call Call.Reply World
  | .admin c, w => ((w.fake.answer c).1, { w with fake := (w.fake.answer c).2 })
  | .kube c, w => ((w.kube.answer c).1, { w with kube := (w.kube.answer c).2 })
  | .rangeOver m, w => (order w.ranges m, { w with ranges := w.ranges + 1 })

def putKube (k : ApiServer) (w : World) : World := { w with kube := k }

/-- No node and no workload, just the resource. -/
def start (cr : ValkeyCluster) : World := ⟨.empty, { cluster := some cr }, 0⟩

/-- The user writes another topology into the spec. -/
def edit (shards replicasPerShard : Nat) (w : World) : World :=
  match w.kube.cluster with
  | none => w
  | some c => w.putKube (w.kube.update
      { c with spec := { c.spec with shards, replicasPerShard } }).2

/-- One pass for the resource of that name. -/
def pass (order : RangeOrders) (cr : ValkeyCluster) (w : World) : World :=
  (exec (answer order) (reconcile cr.name cr.nspace) w).2

inductive Step where
  | edit (shards replicasPerShard : Nat)
  | pass
deriving DecidableEq, Repr

def step (order : RangeOrders) (cr : ValkeyCluster) (w : World) : Step → World
  | .edit shards replicasPerShard => w.edit shards replicasPerShard
  | .pass => w.pass order cr

def run (order : RangeOrders) (cr : ValkeyCluster) (steps : List Step) (w : World) : World :=
  steps.foldl (step order cr) w

end World

/-- The world and the number of moves that have been asked for. -/
structure Flaky where
  world : World
  moves : Nat

/-- The slot at which each move in turn breaks off, if it does. -/
abbrev Fates := Nat → Option Nat

namespace Flaky

/-- Where a move of `n` slots breaks off; it may be through before its fate gets to it. -/
def breaksAt (fates : Fates) (moves : Nat) (n : Int) : Option Nat :=
  (fates moves).filter fun k => (k : Int) < n

def answer (order : RangeOrders) (fates : Fates) : Handler Call Call.Reply Flaky
  | .admin (.moveSlots seed source target n), s =>
      match breaksAt fates s.moves n with
      | some k =>
          let (moved, fake) := s.world.fake.moveSlots source target k
          ((moved, some ⟨.other, "getkeysinslot: i/o timeout"⟩),
            ⟨{ s.world with fake }, s.moves + 1⟩)
      | none =>
          let (reply, world) :=
            World.answer order (.admin (.moveSlots seed source target n)) s.world
          (reply, ⟨world, s.moves + 1⟩)
  | c, s =>
      let (reply, world) := World.answer order c s.world
      (reply, { s with world })

/-- One pass for the resource of that name. -/
def pass (order : RangeOrders) (fates : Fates) (cr : ValkeyCluster) (s : Flaky) : Flaky :=
  (exec (answer order fates) (reconcile cr.name cr.nspace) s).2

end Flaky

end Valkeyop.Controller
