import Mathlib.Data.Int.Order.Basic

/-!
# The next action

`internal/topology/topology.go`: what a cluster needs next to converge towards
the declared topology. An unformed cluster is formed, an uncovered one is
repaired before anything else is touched, and only then are shards and replicas
counted.
-/

namespace Valkeyop.Topology

structure Desired where
  shards : Nat
  replicasPerShard : Nat
deriving DecidableEq, Repr

/-- The live cluster, summarised. -/
structure Observed where
  formed : Bool
  slotsCovered : Bool
  primaryCount : Nat
  replicaCounts : List Nat
deriving DecidableEq, Repr

inductive ActionKind where
  | form
  | repair
  | scaleOutShards
  | scaleInShards
  | scaleReplicas
  | none
deriving DecidableEq, Repr

structure Plan where
  kind : ActionKind
  addShards : Nat := 0
  removeShards : Nat := 0
  desiredReplicasPerShard : Nat := 0
deriving DecidableEq, Repr

def decide (d : Desired) (o : Observed) : Plan :=
  if !o.formed then { kind := .form }
  else if !o.slotsCovered then { kind := .repair }
  else if d.shards > o.primaryCount then
    { kind := .scaleOutShards, addShards := d.shards - o.primaryCount }
  else if d.shards < o.primaryCount then
    { kind := .scaleInShards, removeShards := o.primaryCount - d.shards }
  else if o.replicaCounts.any (· != d.replicasPerShard) then
    { kind := .scaleReplicas, desiredReplicasPerShard := d.replicasPerShard }
  else { kind := .none }

section

variable {d : Desired} {o : Observed}

/-- An unstable cluster is repaired before any topology change. -/
theorem decide_uncovered (hf : o.formed = true) (hc : o.slotsCovered = false) :
    (decide d o).kind = .repair := by
  simp [decide, hf, hc]

theorem decide_unformed (hf : o.formed = false) : (decide d o).kind = .form := by
  simp [decide, hf]

theorem decide_form_iff : (decide d o).kind = .form ↔ o.formed = false := by
  refine ⟨fun h => ?_, decide_unformed⟩
  by_contra hf
  simp only [decide, Bool.not_eq_false] at h hf
  rw [hf] at h
  grind

theorem decide_repair_iff :
    (decide d o).kind = .repair ↔ o.formed = true ∧ o.slotsCovered = false := by
  refine ⟨fun h => ?_, fun h => decide_uncovered h.1 h.2⟩
  simp only [decide] at h
  grind

theorem decide_few (hf : o.formed = true) (hc : o.slotsCovered = true)
    (hfew : o.primaryCount < d.shards) : (decide d o).kind = .scaleOutShards := by
  simp [decide, hf, hc, hfew]

theorem decide_many (hf : o.formed = true) (hc : o.slotsCovered = true)
    (hmany : d.shards ≤ o.primaryCount) :
    (decide d o).kind ≠ .form ∧ (decide d o).kind ≠ .scaleOutShards := by
  have hfew : ¬ d.shards > o.primaryCount := Nat.not_lt_of_le hmany
  simp only [decide, hf, hc, Bool.not_true, Bool.false_eq_true, if_false, if_neg hfew]
  split
  · simp
  · split <;> simp

/-- With the right number of shards only the replicas are looked at. -/
theorem decide_enough (hf : o.formed = true) (hc : o.slotsCovered = true)
    (heq : d.shards = o.primaryCount) :
    (decide d o).kind = .scaleReplicas ∨ (decide d o).kind = .none := by
  have hfew : ¬ d.shards > o.primaryCount := by omega
  have hmany : ¬ d.shards < o.primaryCount := by omega
  simp only [decide, hf, hc, Bool.not_true, Bool.false_eq_true, if_false, if_neg hfew,
    if_neg hmany]
  split
  · exact Or.inl rfl
  · exact Or.inr rfl

end

end Valkeyop.Topology
