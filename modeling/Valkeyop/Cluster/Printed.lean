import Valkeyop.Cluster.Admin
import Valkeyop.Proofs.NodeLines

/-!
# What a server prints about itself

The other side of the parsers: the texts of `CLUSTER INFO` and `CLUSTER NODES` as functions
of the server they are asked of. A server lists the nodes it knows, each with the slots it
believes the node to own, in ascending ranges; its own line also shows the slots it is
migrating or importing. What the model has no part of, such as addresses and flags, epochs,
and the other counters, is left open in `Printer`.
-/

namespace Valkeyop.Cluster

open Valkeyop.Lib Valkeyop.Lib.Text

variable {κ ν : Type}

/-! ## Slots as ranges -/

/-- Neighbouring slots, gathered into ranges. -/
def slotRuns : List Int → List SlotRange
  | [] => []
  | s :: rest =>
      match slotRuns rest with
      | r :: rs => if r.start = s + 1 then ⟨s, r.stop⟩ :: rs else ⟨s, s⟩ :: r :: rs
      | [] => [⟨s, s⟩]

theorem SlotRange.mem_slots {r : SlotRange} {s : Int} :
    s ∈ r.slots ↔ r.start ≤ s ∧ s ≤ r.stop := by
  simp only [SlotRange.slots, SlotRange.size, List.mem_map, List.mem_range]
  constructor
  · rintro ⟨k, hk, rfl⟩
    omega
  · rintro ⟨h₁, h₂⟩
    exact ⟨(s - r.start).toNat, by omega, by omega⟩

theorem SlotRange.slots_self (s : Int) : (SlotRange.mk s s).slots = [s] := by
  simp [SlotRange.slots, SlotRange.size]

theorem SlotRange.slots_cons {s stop : Int} (h : s < stop) :
    (SlotRange.mk s stop).slots = s :: (SlotRange.mk (s + 1) stop).slots := by
  have hsize : (SlotRange.mk s stop).size.toNat = (SlotRange.mk (s + 1) stop).size.toNat + 1 := by
    simp only [SlotRange.size]
    omega
  rw [SlotRange.slots, hsize, List.range_succ_eq_map]
  simp [SlotRange.slots, Function.comp_def, add_assoc, add_comm (1 : Int)]

/-- The ends of a run are among the slots it is made of, and in order. -/
theorem mem_slotRuns {l : List Int} {r : SlotRange} (hr : r ∈ slotRuns l) :
    r.start ∈ l ∧ r.stop ∈ l ∧ r.start ≤ r.stop := by
  induction l generalizing r with
  | nil => cases hr
  | cons s l ih =>
      rw [slotRuns] at hr
      cases hruns : slotRuns l with
      | nil =>
          rw [hruns, List.mem_singleton] at hr
          subst hr
          simp
      | cons r' rs =>
          have ih' : ∀ {r}, r ∈ r' :: rs → r.start ∈ l ∧ r.stop ∈ l ∧ r.start ≤ r.stop :=
            fun h => ih (hruns ▸ h)
          have hhead := ih' (List.mem_cons_self ..)
          rw [hruns] at hr
          simp only [] at hr
          split at hr
          · next hnext =>
              rcases List.mem_cons.1 hr with rfl | hr
              · exact ⟨by simp, List.mem_cons_of_mem _ hhead.2.1, by simp only []; omega⟩
              · obtain ⟨h₁, h₂, h₃⟩ := ih' (List.mem_cons_of_mem _ hr)
                exact ⟨List.mem_cons_of_mem _ h₁, List.mem_cons_of_mem _ h₂, h₃⟩
          · rcases List.mem_cons.1 hr with rfl | hr
            · simp
            · obtain ⟨h₁, h₂, h₃⟩ := ih' hr
              exact ⟨List.mem_cons_of_mem _ h₁, List.mem_cons_of_mem _ h₂, h₃⟩

theorem flatMap_slotRuns (l : List Int) : (slotRuns l).flatMap SlotRange.slots = l := by
  induction l with
  | nil => rfl
  | cons s l ih =>
      rw [slotRuns]
      cases hruns : slotRuns l with
      | nil =>
          rw [hruns] at ih
          rw [← ih]
          simp [SlotRange.slots_self]
      | cons r rs =>
          have hle : r.start ≤ r.stop := (mem_slotRuns (hruns ▸ List.mem_cons_self ..)).2.2
          rw [hruns, List.flatMap_cons] at ih
          simp only []
          split
          · next hnext =>
              rw [List.flatMap_cons, SlotRange.slots_cons (by omega), ← hnext, ← ih]
              rfl
          · rw [List.flatMap_cons, SlotRange.slots_self, List.flatMap_cons, ih]
            rfl

/-! ## A node without its slots -/

/-- The same node with other slots. -/
def NodeInfo.withSlots (n : NodeInfo) (slots : List SlotRange) : NodeInfo := { n with slots }

section

variable (n : NodeInfo) (slots : List SlotRange)

@[simp] theorem NodeInfo.slots_withSlots : (n.withSlots slots).slots = slots := rfl

@[simp] theorem NodeInfo.id_withSlots : (n.withSlots slots).id = n.id := rfl

@[simp] theorem NodeInfo.ip_withSlots : (n.withSlots slots).ip = n.ip := rfl

@[simp] theorem NodeInfo.host_withSlots : (n.withSlots slots).host = n.host := rfl

@[simp] theorem NodeInfo.connected_withSlots :
    (n.withSlots slots).connected = n.connected := rfl

@[simp] theorem NodeInfo.hasFlag_withSlots (flag : String) :
    (n.withSlots slots).hasFlag flag = n.hasFlag flag := rfl

@[simp] theorem NodeInfo.isPrimary_withSlots : (n.withSlots slots).isPrimary = n.isPrimary := rfl

@[simp] theorem NodeInfo.withSlots_self : n.withSlots n.slots = n := rfl

@[simp] theorem NodeInfo.withSlots_withSlots (slots' : List SlotRange) :
    (n.withSlots slots).withSlots slots' = n.withSlots slots' := rfl

@[simp] theorem clientFor_withSlots : clientFor (n.withSlots slots) = clientFor n := rfl

end

/-! ## The page of a server -/

/-- Every slot there is. -/
def allSlots : List Int := (List.range 16384).map Int.ofNat

theorem mem_allSlots {s : Int} : s ∈ allSlots ↔ 0 ≤ s ∧ s < totalSlots := by
  simp only [allSlots, List.mem_map, List.mem_range, totalSlots]
  constructor
  · rintro ⟨n, hn, rfl⟩
    exact ⟨Int.natCast_nonneg n, by simp only [Int.ofNat_eq_natCast]; omega⟩
  · rintro ⟨h₀, h₁⟩
    exact ⟨s.toNat, by omega, Int.toNat_of_nonneg h₀⟩

theorem nodup_allSlots : allSlots.Nodup :=
  List.nodup_range.map fun _ _ h => Int.ofNat.inj h

namespace Server

/-- The slots the server believes the node to own. -/
def slotsOf (v : Server κ ν) (id : String) : List Int :=
  allSlots.filter fun s => v.owner s = some id

/-- The slots the server knows an owner of. -/
def assigned (v : Server κ ν) : List Int := allSlots.filter fun s => (v.owner s).isSome

/-- The markers of one slot. -/
def markersAt (v : Server κ ν) (s : Nat) : List SlotItem :=
  (v.migrating s).toList.map (SlotItem.migrating s) ++
    (v.importing s).toList.map (SlotItem.importing s)

def markers (v : Server κ ν) : List SlotItem := (List.range 16384).flatMap v.markersAt

/-- What follows the eight fields of a node's line. -/
def items (v : Server κ ν) (id : String) : List SlotItem :=
  (slotRuns (v.slotsOf id)).map .range ++ if id = v.id then v.markers else []

/-- The lines of `CLUSTER NODES`, for the nodes of `roster`. -/
def table (v : Server κ ν) (roster : List NodeLine) : List NodeLine :=
  roster.map fun n => { n with items := v.items n.id }

/-- The lines of `CLUSTER INFO` the operator reads. -/
def summary (v : Server κ ν) (healthy : Bool) : List (String × String) :=
  [("cluster_state", if healthy then "ok" else "fail"),
    ("cluster_slots_assigned", toString v.assigned.length)]

end Server

/-- `key:value` lines, each with its carriage return and newline. -/
def renderInfo (kv : List (String × String)) : String :=
  "\n".intercalate (kv.map (fun e => e.1 ++ ":" ++ e.2 ++ "\r") ++ [""])

/-- What a page shows beside what the model has. -/
structure Printer (κ ν : Type) where
  /-- The server that answers at an address: a pod is dialled by its name or by its IP. -/
  home : String → String
  /-- The nodes a server knows; their slots are not used. -/
  roster : String → List NodeLine
  healthy : Net κ ν → String → Bool
  more : Net κ ν → String → List (String × String)

def Printer.texts (p : Printer κ ν) : Texts κ ν where
  info net x := renderInfo ((net (p.home x)).summary (p.healthy net x) ++ p.more net x)
  nodes net x := renderNodes ((net (p.home x)).table (p.roster x)) true

end Valkeyop.Cluster
