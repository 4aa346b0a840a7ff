import Mathlib.Data.List.Sort
import Valkeyop.Controller.Membership

/-!
# An API server

What the controller relies on of Kubernetes: objects are found by name and by
label, an update of a stale object is a conflict, the status is a subresource of
its own, and an object under deletion goes away with its last finalizer. Pods are
not objects here: a StatefulSet has as many as it asks for, all of them ready, and
leaves a claim behind for each it ever had.
-/

namespace Valkeyop.Controller

open Valkeyop.Lib Valkeyop.Lib.Text Valkeyop.Cluster Valkeyop.Api Valkeyop.Resources

/-- One `ValkeyCluster` and the objects of its namespace. -/
structure ApiServer where
  cluster : Option ValkeyCluster
  configMap : Option ConfigMap := none
  service : Option HeadlessService := none
  statefulSets : List StatefulSet := []
  pvcs : List PVC := []
  clock : Nat := 0

namespace ApiServer

def notFound : Err := ⟨.notFound, "not found"⟩

def conflict : Err := ⟨.conflict, "the object has been modified"⟩

/-- The volume claims of a StatefulSet's pods. -/
def claims (sts : StatefulSet) : List PVC :=
  (List.range sts.replicas).map fun j =>
    ⟨"data-" ++ sts.name ++ "-" ++ toString j, sts.nspace, sts.labels⟩

def sameSet (name nspace : String) (sts : StatefulSet) : Bool :=
  sts.name == name && sts.nspace == nspace

def putSet (new : StatefulSet) (sets : List StatefulSet) : List StatefulSet :=
  if sets.any (sameSet new.name new.nspace) then
    sets.map fun s => if sameSet new.name new.nspace s then new else s
  else sets ++ [new]

/-- Create the StatefulSet or bring it up to date, and let its pods start. -/
def putStatefulSet (new : StatefulSet) (k : ApiServer) : ApiServer :=
  { k with
    statefulSets := putSet { new with readyReplicas := new.replicas } k.statefulSets
    pvcs := k.pvcs ++ (claims new).filter fun c => !k.pvcs.contains c }

/-- What an update keeps of the stored object: its status, its deletion, and a
generation that counts changes of the spec. -/
def merge (old new : ValkeyCluster) : ValkeyCluster :=
  { new with
    status := old.status
    deletionTimestamp := old.deletionTimestamp
    generation := if new.spec = old.spec then old.generation else old.generation + 1
    resourceVersion := old.resourceVersion + 1 }

/-- The cluster resource, if it goes by that name. -/
def named (name nspace : String) (k : ApiServer) : Option ValkeyCluster :=
  k.cluster.filter fun c => c.name == name && c.nspace == nspace

def update (new : ValkeyCluster) (k : ApiServer) : Except Err ValkeyCluster × ApiServer :=
  match k.named new.name new.nspace with
  | none => (.error notFound, k)
  | some old =>
      if new.resourceVersion ≠ old.resourceVersion then (.error conflict, k)
      else
        let stored := merge old new
        -- the last finalizer of an object under deletion releases it
        let released := stored.deletionTimestamp.isSome ∧ stored.finalizers = []
        (.ok stored, { k with cluster := if released then none else some stored })

def updateStatus (new : ValkeyCluster) (k : ApiServer) :
    Except Err ValkeyCluster × ApiServer :=
  match k.named new.name new.nspace with
  | none => (.error notFound, k)
  | some old =>
      if new.resourceVersion ≠ old.resourceVersion then (.error conflict, k)
      else
        let stored := { old with
          status := new.status
          resourceVersion := old.resourceVersion + 1 }
        (.ok stored, { k with cluster := some stored })

def answer : (c : KubeCall) → ApiServer → c.Reply × ApiServer
  | .getCluster name nspace, k =>
      (match k.named name nspace with
        | some c => Except.ok c
        | none => Except.error notFound, k)
  | .updateCluster cr, k => k.update cr
  | .updateClusterStatus cr, k => k.updateStatus cr
  | .applyConfigMap cm, k => (Except.ok (), { k with configMap := some cm })
  | .applyService svc, k => (Except.ok (), { k with service := some svc })
  | .applyStatefulSet sts, k => (Except.ok (), k.putStatefulSet sts)
  | .getStatefulSet name nspace, k =>
      (match k.statefulSets.find? (sameSet name nspace) with
        | some s => Except.ok s
        | none => Except.error notFound, k)
  | .listStatefulSets nspace selector, k =>
      (Except.ok (k.statefulSets.filter fun s =>
        s.nspace == nspace && Labels.matching selector s.labels), k)
  | .deleteStatefulSet name nspace, k =>
      if k.statefulSets.any (sameSet name nspace) then
        (Except.ok (),
          { k with statefulSets := k.statefulSets.filter fun s => !sameSet name nspace s })
      else (Except.error notFound, k)
  | .listPVCs nspace selector, k =>
      (Except.ok (k.pvcs.filter fun p =>
        p.nspace == nspace && Labels.matching selector p.labels), k)
  | .deletePVC pvc, k =>
      if k.pvcs.contains pvc then
        (Except.ok (), { k with pvcs := k.pvcs.filter (· != pvc) })
      else (Except.error notFound, k)
  | .now, k => (k.clock, { k with clock := k.clock + 1 })

end ApiServer

/-! ## Workloads

The StatefulSets of one cluster: at most one per shard, named and labelled by
its number, which is an `int`. -/

/-- Shard `i` has a StatefulSet. -/
def HasSet (cr : ValkeyCluster) (sets : List StatefulSet) (i : Nat) : Prop :=
  statefulSetName cr i ∈ sets.map StatefulSet.name

structure OwnSets (cr : ValkeyCluster) (sets : List StatefulSet) : Prop where
  shaped : ∀ s ∈ sets, ∃ i, s.name = statefulSetName cr i ∧ s.nspace = cr.nspace ∧
    s.labels = shardLabels cr i
  distinct : (sets.map StatefulSet.name).Nodup
  fits : ∀ i, HasSet cr sets i → (i : Int) ≤ maxInt

theorem statefulSetName_injective {cr : ValkeyCluster} {i j : Nat}
    (h : statefulSetName cr i = statefulSetName cr j) : i = j := by
  have hl := congrArg String.toList h
  simp only [statefulSetName, String.toList_append, List.append_assoc] at hl
  exact toString_injective
    (String.toList_inj.1 (List.append_cancel_left (List.append_cancel_left hl)))

theorem shardIndex_of_labels {cr : ValkeyCluster} {s : StatefulSet} {i : Nat}
    (hi : (i : Int) ≤ maxInt) (h : s.labels = shardLabels cr i) :
    shardIndex s = some (i : Int) := by
  have hl : s.labels.lookup labelShard = some (toString i) := by
    rw [h]
    rfl
  rw [shardIndex, hl]
  exact atoi_toString hi

/-- What the labels say, in ascending order. -/
def labelIndexes (sets : List StatefulSet) : List Int := (sets.filterMap shardIndex).mergeSort

/-- The shards that have one, in ascending order. -/
def setIndexes (sets : List StatefulSet) : List Nat := (labelIndexes sets).filterMap Int.toNat?

section

variable {cr : ValkeyCluster} {k : ApiServer} {sets : List StatefulSet} {i j : Nat}

theorem OwnSets.nil : OwnSets cr [] :=
  ⟨fun _ hs => absurd hs List.not_mem_nil, List.nodup_nil, fun _ hi => absurd hi List.not_mem_nil⟩

/-- One set for each of some shards. -/
theorem OwnSets.map {α : Type} {f : α → StatefulSet} {shard : α → Nat} {l : List α}
    (hname : ∀ a, (f a).name = statefulSetName cr (shard a)) (hns : ∀ a, (f a).nspace = cr.nspace)
    (hlabels : ∀ a, (f a).labels = shardLabels cr (shard a)) (hnodup : (l.map shard).Nodup)
    (hfits : ∀ a ∈ l, (shard a : Int) ≤ maxInt) : OwnSets cr (l.map f) := by
  refine ⟨fun s hs => ?_, ?_, fun i hi => ?_⟩
  · obtain ⟨a, -, rfl⟩ := List.mem_map.1 hs
    exact ⟨shard a, hname a, hns a, hlabels a⟩
  · have hnames : (l.map f).map StatefulSet.name = (l.map shard).map (statefulSetName cr) := by
      rw [List.map_map, List.map_map]
      exact List.map_congr_left fun a _ => hname a
    exact hnames ▸ hnodup.map fun _ _ => statefulSetName_injective
  · obtain ⟨s, hs, hsname⟩ := List.mem_map.1 hi
    obtain ⟨a, ha, rfl⟩ := List.mem_map.1 hs
    obtain rfl := statefulSetName_injective ((hname a).symm.trans hsname)
    exact hfits a ha

theorem OwnSets.filter (h : OwnSets cr sets) (p : StatefulSet → Bool) :
    OwnSets cr (sets.filter p) :=
  ⟨fun s hs => h.shaped s (List.mem_of_mem_filter hs),
    h.distinct.sublist (List.filter_sublist.map _),
    fun i hi => h.fits i ((List.filter_sublist.map _).subset hi)⟩

/-- The label of a set is read as its shard. -/
theorem OwnSets.shardIndex (h : OwnSets cr sets) {s : StatefulSet} (hs : s ∈ sets) :
    ∃ i : Nat, s.name = statefulSetName cr i ∧ shardIndex s = some (i : Int) := by
  obtain ⟨i, hname, -, hlabels⟩ := h.shaped s hs
  have hset : HasSet cr sets i := List.mem_map.2 ⟨s, hs, hname⟩
  exact ⟨i, hname, shardIndex_of_labels (h.fits i hset) hlabels⟩

/-- The labels of a cluster's own sets are all shards. -/
theorem labelIndexes_own (h : OwnSets cr sets) :
    labelIndexes sets = (setIndexes sets).map Nat.cast := by
  have hnat : ∀ n ∈ labelIndexes sets, (n.toNat?).map Nat.cast = some n := by
    intro n hn
    obtain ⟨s, hs, hindex⟩ := List.mem_filterMap.1 (List.mem_mergeSort.1 hn)
    obtain ⟨k, -, hk⟩ := h.shardIndex hs
    rw [hk, Option.some.injEq] at hindex
    subst hindex
    rfl
  rw [setIndexes, List.map_filterMap, List.filterMap_congr hnat, List.filterMap_some]

theorem mem_setIndexes (h : OwnSets cr sets) : i ∈ setIndexes sets ↔ HasSet cr sets i := by
  have hcast : i ∈ setIndexes sets ↔ (i : Int) ∈ labelIndexes sets := by
    rw [labelIndexes_own h, List.mem_map_of_injective Nat.cast_injective]
  rw [hcast, labelIndexes, List.mem_mergeSort, List.mem_filterMap, HasSet, List.mem_map]
  refine exists_congr fun s => and_congr_right fun hs => ?_
  obtain ⟨k, hname, hk⟩ := h.shardIndex hs
  rw [hk, hname, Option.some.injEq, Int.natCast_inj]
  exact ⟨fun hk => hk ▸ rfl, statefulSetName_injective⟩

/-- Ascending, without repetition. -/
theorem setIndexes_pairwise (h : OwnSets cr sets) : (setIndexes sets).Pairwise (· < ·) := by
  have hnodup : (labelIndexes sets).Nodup := by
    rw [labelIndexes, (List.mergeSort_perm _ _).nodup_iff, List.Nodup, List.pairwise_filterMap]
    refine (List.pairwise_map.1 h.distinct).imp_of_mem fun {s t} hs ht hne k hk l hl hkl => ?_
    obtain ⟨i, hsname, hi⟩ := h.shardIndex hs
    obtain ⟨j, htname, hj⟩ := h.shardIndex ht
    rw [hi, Option.some.injEq] at hk
    rw [hj, Option.some.injEq] at hl
    have hij : i = j := by omega
    exact hne (by rw [hsname, htname, hij])
  have hsorted := (List.sortedLE_mergeSort.sortedLT_of_nodup hnodup).pairwise
  change (labelIndexes sets).Pairwise (· < ·) at hsorted
  rw [labelIndexes_own h, List.pairwise_map] at hsorted
  exact hsorted.imp Int.ofNat_lt.1

theorem listStatefulSets_own (h : OwnSets cr sets) :
    (sets.filter fun s => s.nspace == cr.nspace &&
      Labels.matching (instanceSelector cr) s.labels) = sets := by
  refine List.filter_eq_self.2 fun s hs => ?_
  obtain ⟨k, -, hns, hlabels⟩ := h.shaped s hs
  have hlookup : (shardLabels cr k).lookup labelInstance = some cr.name := rfl
  simp [hns, hlabels, Labels.matching, instanceSelector, hlookup]

/-! ### Applying and deleting -/

theorem OwnSets.sameSet_iff (h : OwnSets cr sets) {s : StatefulSet} (hs : s ∈ sets)
    (name : String) : ApiServer.sameSet name cr.nspace s = true ↔ s.name = name := by
  obtain ⟨k, -, hns, -⟩ := h.shaped s hs
  simp [ApiServer.sameSet, hns]

theorem OwnSets.map_name_putSet (h : OwnSets cr sets) {new : StatefulSet}
    (hns : new.nspace = cr.nspace) :
    (ApiServer.putSet new sets).map StatefulSet.name =
      if new.name ∈ sets.map StatefulSet.name then sets.map StatefulSet.name
      else sets.map StatefulSet.name ++ [new.name] := by
  have hany : sets.any (ApiServer.sameSet new.name new.nspace) = true ↔
      new.name ∈ sets.map StatefulSet.name := by
    rw [List.any_eq_true, List.mem_map]
    exact exists_congr fun s => and_congr_right fun hs => by rw [hns, h.sameSet_iff hs]
  rw [ApiServer.putSet]
  by_cases hmem : new.name ∈ sets.map StatefulSet.name
  · rw [if_pos (hany.2 hmem), if_pos hmem, List.map_map]
    refine List.map_congr_left fun s hs => ?_
    by_cases hsame : ApiServer.sameSet new.name new.nspace s = true
    · simp [hsame, (h.sameSet_iff hs _).1 (hns ▸ hsame)]
    · simp [hsame]
  · rw [if_neg (mt hany.1 hmem), if_neg hmem, List.map_append]
    rfl

theorem mem_putSet_cases {new s : StatefulSet} (hs : s ∈ ApiServer.putSet new sets) :
    s = new ∨ s ∈ sets ∧ ¬ (s.name = new.name ∧ s.nspace = new.nspace) := by
  have hsame : ∀ t, ApiServer.sameSet new.name new.nspace t = true ↔
      t.name = new.name ∧ t.nspace = new.nspace := fun t => by simp [ApiServer.sameSet]
  rw [ApiServer.putSet] at hs
  split at hs
  · obtain ⟨t, ht, rfl⟩ := List.mem_map.1 hs
    split
    · exact Or.inl rfl
    · next hne => exact Or.inr ⟨ht, mt (hsame t).2 hne⟩
  · next hnone =>
      rcases List.mem_append.1 hs with hs | hs
      · exact Or.inr ⟨hs, fun h => hnone (List.any_eq_true.2 ⟨s, hs, (hsame s).2 h⟩)⟩
      · exact Or.inl (List.mem_singleton.1 hs)

theorem mem_putSet {new s : StatefulSet} (hs : s ∈ ApiServer.putSet new sets) :
    s = new ∨ s ∈ sets :=
  (mem_putSet_cases hs).imp_right And.left

theorem mem_putSet_self (new : StatefulSet) : new ∈ ApiServer.putSet new sets := by
  unfold ApiServer.putSet
  split
  · next hany =>
      obtain ⟨t, ht, hsame⟩ := List.any_eq_true.1 hany
      exact List.mem_map.2 ⟨t, ht, if_pos hsame⟩
  · simp

theorem mem_putSet_of_ne {new s : StatefulSet} (hs : s ∈ sets) (hne : s.name ≠ new.name) :
    s ∈ ApiServer.putSet new sets := by
  unfold ApiServer.putSet
  split
  · exact List.mem_map.2 ⟨s, hs, if_neg (by simp [ApiServer.sameSet, hne])⟩
  · exact List.mem_append_left _ hs

theorem hasSet_putSet (h : OwnSets cr sets) {new : StatefulSet}
    (hname : new.name = statefulSetName cr i) (hns : new.nspace = cr.nspace) :
    HasSet cr (ApiServer.putSet new sets) j ↔ HasSet cr sets j ∨ j = i := by
  have hij : statefulSetName cr j = statefulSetName cr i ↔ j = i :=
    ⟨statefulSetName_injective, fun h => h ▸ rfl⟩
  rw [HasSet, HasSet, h.map_name_putSet hns, hname]
  split
  · next hmem => grind
  · rw [List.mem_append, List.mem_singleton, hij]

theorem OwnSets.putSet (h : OwnSets cr sets) (hi : (i : Int) ≤ maxInt) {new : StatefulSet}
    (hname : new.name = statefulSetName cr i) (hns : new.nspace = cr.nspace)
    (hlabels : new.labels = shardLabels cr i) : OwnSets cr (ApiServer.putSet new sets) := by
  refine ⟨fun s hs => ?_, ?_, fun j hj => ?_⟩
  · rcases mem_putSet hs with rfl | hs
    · exact ⟨i, hname, hns, hlabels⟩
    · exact h.shaped s hs
  · rw [h.map_name_putSet hns]
    split
    · exact h.distinct
    · next hmem => exact List.nodup_append.2 ⟨h.distinct, by simp, by grind⟩
  · rcases (hasSet_putSet h hname hns).1 hj with hj | rfl
    · exact h.fits j hj
    · exact hi

theorem hasSet_deleted (h : OwnSets cr sets) :
    HasSet cr (sets.filter fun s => !ApiServer.sameSet (statefulSetName cr i) cr.nspace s) j ↔
      HasSet cr sets j ∧ j ≠ i := by
  have hij : statefulSetName cr j = statefulSetName cr i ↔ j = i :=
    ⟨statefulSetName_injective, fun h => h ▸ rfl⟩
  simp only [HasSet, List.mem_map, List.mem_filter]
  constructor
  · rintro ⟨s, ⟨hs, hne⟩, hname⟩
    refine ⟨⟨s, hs, hname⟩, fun hji => ?_⟩
    have := (h.sameSet_iff hs _).2 (hname.trans (hij.2 hji))
    simp [this] at hne
  · rintro ⟨⟨s, hs, hname⟩, hji⟩
    refine ⟨s, ⟨hs, ?_⟩, hname⟩
    rw [Bool.not_eq_true', Bool.eq_false_iff]
    exact fun hsame => hji (hij.1 (hname.symm.trans ((h.sameSet_iff hs _).1 hsame)))

end

end Valkeyop.Controller
