import Valkeyop.Cluster.Routing

/-!
# What a cluster is for

To its clients a cluster is a map from keys to values; which node keeps which slot is an
arrangement of its own. A `Ledger` is that map together with an arrangement, and nothing
else: no servers, no views, no markers. `Settled` says when servers stand for a ledger.
-/

namespace Valkeyop.Cluster

variable {κ ν : Type}

structure Ledger (κ ν : Type) where
  /-- The node that keeps a slot. -/
  owner : Int → Option String
  data : κ → Option ν

/-- Another arrangement of the same data. -/
def Ledger.reassign (sel : List Int) (id : String) (l : Ledger κ ν) : Ledger κ ν :=
  { l with owner := fun s => if s ∈ sel then some id else l.owner s }

variable [DecidableEq κ]

/-- The masters agree with the ledger on every slot, none of them is in the middle of a move,
and a key is on the owner of its slot and nowhere else. -/
structure Settled (slotOf : κ → Int) (masters : List String) (l : Ledger κ ν) (net : Net κ ν) :
    Prop where
  apart : ∀ x ∈ masters, ∀ y ∈ masters, (net x).id = (net y).id → x = y
  owner : ∀ x ∈ masters, ∀ s, (net x).owner s = l.owner s
  migrating : ∀ x ∈ masters, ∀ s, (net x).migrating s = none
  importing : ∀ x ∈ masters, ∀ s, (net x).importing s = none
  data : ∀ x ∈ masters, ∀ k,
    (net x).get k = if l.owner (slotOf k) = some (net x).id then l.data k else none

section

variable {slotOf : κ → Int} {masters : List String} {l : Ledger κ ν} {net : Net κ ν}

/-- The owner answers at once. -/
theorem Settled.reply_owner (h : Settled slotOf masters l net) {y : String} (hy : y ∈ masters)
    {k : κ} (howner : l.owner (slotOf k) = some (net y).id) (asking : Bool) :
    (net y).reply slotOf asking k = (net y).holding k := by
  rw [Server.reply, if_pos ((h.owner y hy _).trans howner), h.migrating y hy]
  cases (net y).get k with
  | none => rfl
  | some v => rfl

/-- A client that asks any master reads what the ledger says, after one redirect at most. -/
theorem Settled.fetch (h : Settled slotOf masters l net) {addrOf : String → String}
    (haddr : ∀ y ∈ masters, addrOf (net y).id = y) {k : κ} {y : String} (hy : y ∈ masters)
    (howner : l.owner (slotOf k) = some (net y).id) {x : String} (hx : x ∈ masters) :
    Cluster.fetch slotOf addrOf net k 2 x false = some (l.data k) := by
  have hat : ∀ hops, Cluster.fetch slotOf addrOf net k (hops + 1) y false = some (l.data k) := by
    intro hops
    rw [Cluster.fetch, h.reply_owner hy howner, Server.holding, h.data y hy, if_pos howner]
    cases l.data k with
    | none => rfl
    | some v => rfl
  by_cases hxy : x = y
  · exact hxy ▸ hat 1
  · have hself : (net x).owner (slotOf k) ≠ some (net x).id := by
      rw [h.owner x hx, howner]
      exact fun heq => hxy (h.apart x hx y hy (Option.some.inj heq).symm)
    rw [Cluster.fetch, Server.reply, if_neg hself, if_neg fun hask => absurd hask.1 (by simp),
      h.owner x hx, howner]
    simp only [haddr y hy]
    exact hat 0

end

/-- What the two servers of the smallest cluster stand for. -/
def pairLedger : Ledger Nat String where
  owner s := if s = 0 then some "a" else if s = 1 then some "b" else none
  data k := if k = 0 then some "x" else none

theorem settled_pair {slotOf : Nat → Int} (h₀ : slotOf 0 = 0) :
    Settled slotOf [clientFor pairA, clientFor pairB] pairLedger
      (pairNet (AList.singleton 0 "x")) where
  apart := by decide
  owner _ _ _ := rfl
  migrating _ _ _ := rfl
  importing _ _ _ := rfl
  data := by
    have hown : ∀ k : Nat, k ≠ 0 → pairLedger.data k = none := fun k hk => if_neg hk
    have ha : (pairNet (AList.singleton 0 "x") (clientFor pairA)).store =
        AList.singleton 0 "x" := by
      have heq : clientFor pairA = "10.0.0.1:6379" := by decide
      simp [pairNet, heq]
    have hb : (pairNet (AList.singleton 0 "x") (clientFor pairB)).store = ∅ := by
      have hne : clientFor pairB ≠ "10.0.0.1:6379" := by decide
      simp [pairNet, hne]
    simp only [List.mem_cons, List.not_mem_nil, or_false, forall_eq_or_imp, forall_eq]
    refine ⟨fun k => ?_, fun k => ?_⟩
    · by_cases hk : k = 0
      · rw [hk, h₀]
        decide
      · rw [Server.get, ha, hown k hk, ite_self]
        exact AList.lookup_eq_none.2 (by simpa [AList.mem_keys] using hk)
    · rw [Server.get, hb]
      by_cases hk : k = 0
      · rw [hk, h₀]
        decide
      · rw [hown k hk, ite_self]
        rfl

end Valkeyop.Cluster
