import Valkeyop.Cluster.Ledger
import Valkeyop.Cluster.Printed
import Valkeyop.Controller.FakeWorld

/-!
# Whom the controller talks to

The controller knows a cluster by its `ClusterAdmin` only. Two clusters that can stand behind it,
beside the fake of its tests, are given here for the methods that observe a cluster and move its
slots. One is the production admin with the servers it sends its commands to. The other is a
ledger: it has no servers and no commands, and a move writes slots over to another node. Neither
carries out the commands that change who is a member: those are turned down.

`Site` is a cluster together with an API server.
-/

namespace Valkeyop.Cluster

open Valkeyop.Lib

variable {κ ν : Type} [DecidableEq κ]

/-! ## A ledger -/

namespace Ledger

omit [DecidableEq κ]

/-- The slots of a node, in order. -/
def slotsOf (l : Ledger κ ν) (id : String) : List Int :=
  allSlots.filter fun s => l.owner s = some id

/-- The nodes, with their slots. -/
def listed (nodes : List NodeInfo) (l : Ledger κ ν) : List NodeInfo :=
  nodes.map fun n => n.withSlots (slotRuns (l.slotsOf n.id))

def state (nodes : List NodeInfo) (l : Ledger κ ν) : ClusterState where
  formed := allSlots.any fun s => (l.owner s).isSome
  slotsCovered := allSlots.all fun s => (l.owner s).isSome
  openSlots := false
  nodes := l.listed nodes

/-- The slots a move of `n` takes. -/
def chosen (source : String) (n : Int) (l : Ledger κ ν) : List Int :=
  (l.slotsOf source).take n.toNat

/-- A command the ledger has no entry for. -/
def unknown : Err := ⟨.other, "not in the books"⟩

/-- `idAt` is who answers at an address. -/
def answer (nodes : List NodeInfo) (idAt : String → String) :
    (c : AdminCall) → Ledger κ ν → c.Reply × Ledger κ ν
  | .state _, l => (Except.ok (l.state nodes), l)
  | .myID ep, l => (Except.ok (idAt (dialAddr ep.host ep.port)), l)
  | .moveSlots _ source target n, l =>
      (((l.chosen source n).length, none), l.reassign (l.chosen source n) target)
  | .repairSlots _, l => ((0, none), l)
  | .meet .., l | .addSlots .., l | .replicate .., l | .forget .., l | .failover _, l
  | .rebalance .., l | .reshard .., l | .fix _, l => (Except.error unknown, l)

end Ledger

/-! ## Servers -/

/-- What an error text of the admin is to the controller. -/
def adminErr (text : String) : Err := ⟨.other, text⟩

/-- The production admin over servers that answer every command. A move that runs out of fuel
has not come back. -/
def Net.answer (slotOf : κ → Int) (p : Printer κ ν) (order : List Int → List Int) (fuel : Nat) :
    (c : AdminCall) → Net κ ν → c.Reply × Net κ ν
  | .state seed, net =>
      let (r, net') := (Cluster.state order seed).run (prompt slotOf p.texts) net
      (match r with
        | .ok st => Except.ok st
        | .error e => Except.error (adminErr e), net')
  | .myID ep, net => (Except.ok (net (p.home (dialAddr ep.host ep.port))).id, net)
  | .moveSlots seed source target n, net =>
      let (r, net') := (Cluster.moveSlots fuel seed source target n).run (prompt slotOf p.texts) net
      (match r with
        | some (moved, e) => (moved, e.map adminErr)
        | none => (0, some (adminErr "still moving keys")), net')
  | .repairSlots seed, net =>
      let (r, net') := (Cluster.repairSlots order seed).run (prompt slotOf p.texts) net
      ((r.1, r.2.map adminErr), net')
  | .meet .., net | .addSlots .., net | .replicate .., net | .forget .., net | .failover _, net
  | .rebalance .., net | .reshard .., net | .fix _, net => (Except.error (adminErr "refused"), net)

end Valkeyop.Cluster

namespace Valkeyop.Controller

open Valkeyop.Lib Valkeyop.Cluster

structure Site (S : Type) where
  cluster : S
  kube : ApiServer
  /-- How many maps have been ranged over so far. -/
  ranges : Nat

namespace Site

variable {S : Type}

def answer (admin : (c : AdminCall) → S → c.Reply × S) (orders : RangeOrders) :
    Handler Call Call.Reply (Site S)
  | .admin c, w => ((admin c w.cluster).1, { w with cluster := (admin c w.cluster).2 })
  | .kube c, w => ((w.kube.answer c).1, { w with kube := (w.kube.answer c).2 })
  | .rangeOver m, w => (orders w.ranges m, { w with ranges := w.ranges + 1 })

/-- The same, with another cluster. -/
def swap {T : Type} (w : Site S) (t : T) : Site T := { w with cluster := t }

end Site

end Valkeyop.Controller
