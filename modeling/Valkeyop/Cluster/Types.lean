import Mathlib.Data.Int.Order.Basic
import Mathlib.Algebra.BigOperators.Group.List.Basic
import Mathlib.Algebra.Ring.Int.Defs

/-!
# The cluster as the operator sees it

`internal/cluster/admin.go`: what one node of a Valkey cluster looks like in
`CLUSTER NODES`, and the state the reconciler observes. A Go `int` is an
`Int`; nothing here overflows.
-/

namespace Valkeyop.Cluster

/-- The fixed number of hash slots in a Valkey cluster. -/
def totalSlots : Int := 16384

/-- An inclusive range of hash slots. -/
structure SlotRange where
  start : Int
  stop : Int
deriving DecidableEq, Repr

/-- The slots a range holds; none when it is empty. -/
def SlotRange.size (r : SlotRange) : Int := r.stop - r.start + 1

/-- The slots of a range, in order. -/
def SlotRange.slots (r : SlotRange) : List Int :=
  (List.range r.size.toNat).map fun i : Nat => r.start + (i : Int)

theorem SlotRange.length_slots (r : SlotRange) : r.slots.length = r.size.toNat := by
  rw [SlotRange.slots, List.length_map, List.length_range]

/-- Ranges that run forwards hold as many slots as they count. -/
theorem length_flatMap_slots (ranges : List SlotRange)
    (h : ∀ r ∈ ranges, r.start ≤ r.stop) :
    ((ranges.flatMap SlotRange.slots).length : Int) = (ranges.map SlotRange.size).sum := by
  induction ranges with
  | nil => rfl
  | cons r rest ih =>
      have hr : r.start ≤ r.stop := h r (by simp)
      have hrest := ih fun x hx => h x (by simp [hx])
      rw [List.flatMap_cons, List.length_append, SlotRange.length_slots, List.map_cons,
        List.sum_cons, ← hrest, SlotRange.size]
      omega

structure Endpoint where
  host : String
  port : Int
  podName : String
  nspace : String
deriving DecidableEq, Repr

/-- One node's record as parsed from `CLUSTER NODES`. `masterID` is empty for
a primary; `host` is the announced hostname, or the IP when none is known. -/
structure NodeInfo where
  id : String
  host : String
  ip : String
  port : Int
  flags : List String
  masterID : String
  slots : List SlotRange
  connected : Bool
deriving DecidableEq, Repr

namespace NodeInfo

/-- The zero value, which a Go map answers for a key it does not hold. -/
def zero : NodeInfo := ⟨"", "", "", 0, [], "", [], false⟩

def isPrimary (n : NodeInfo) : Bool := n.flags.contains "master" || n.masterID == ""

def hasFlag (n : NodeInfo) (flag : String) : Bool := n.flags.contains flag

def slotCount (n : NodeInfo) : Int := (n.slots.map SlotRange.size).sum

@[simp] theorem slotCount_zero : zero.slotCount = 0 := rfl

end NodeInfo

structure ClusterState where
  formed : Bool
  slotsCovered : Bool
  openSlots : Bool
  nodes : List NodeInfo
deriving DecidableEq, Repr

end Valkeyop.Cluster
