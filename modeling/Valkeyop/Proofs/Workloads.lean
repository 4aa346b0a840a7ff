import Valkeyop.Controller.ApiServer
import Valkeyop.Controller.Reconcile

/-!
# The Kubernetes side of a pass

What the parts of a pass that only talk to the API server answer, and what they
leave behind. The rest of the world is not looked at: `KubeBacked` says that a
handler keeps an `ApiServer` somewhere in its state and lets it answer, and the
facts here hold in every such world.
-/

namespace Valkeyop.Controller

open Valkeyop.Lib Valkeyop.Lib.Fallible Valkeyop.Cluster Valkeyop.Api Valkeyop.Resources

/-- Kubernetes calls are answered by the API server in the state, and change
nothing else. -/
structure KubeBacked {S : Type} (h : Handler Call Call.Reply S) (kube : S → ApiServer)
    (put : ApiServer → S → S) : Prop where
  answer : ∀ c s, h (.kube c) s = (((kube s).answer c).1, put ((kube s).answer c).2 s)
  kube_put : ∀ k s, kube (put k s) = k
  put_kube : ∀ s, put (kube s) s = s
  put_put : ∀ k k' s, put k (put k' s) = put k s

/-- The pods the sweep takes for existing. -/
def podHosts (cr : ValkeyCluster) (sets : List StatefulSet) : List String :=
  (setIndexes sets).flatMap fun i =>
    (List.range (cr.spec.replicasPerShard + 1)).map (podFQDN cr i)

theorem mem_podHosts {cr : ValkeyCluster} {sets : List StatefulSet} (h : OwnSets cr sets)
    {host : String} : host ∈ podHosts cr sets ↔
      ∃ i j, HasSet cr sets i ∧ j ≤ cr.spec.replicasPerShard ∧ host = podFQDN cr i j := by
  simp only [podHosts, List.mem_flatMap, List.mem_map, List.mem_range, mem_setIndexes h]
  constructor
  · rintro ⟨i, hi, j, hj, rfl⟩
    exact ⟨i, j, hi, by omega, rfl⟩
  · rintro ⟨i, j, hi, hj, rfl⟩
    exact ⟨i, hi, j, by omega, rfl⟩

section

variable {S : Type} {h : Handler Call Call.Reply S} {kube : S → ApiServer}
  {put : ApiServer → S → S} {cr : ValkeyCluster} {s : S}

/-! ## Listing -/

theorem exec_listStatefulSets (hk : KubeBacked h kube put)
    (hsets : OwnSets cr (kube s).statefulSets) :
    exec h (Kube.listStatefulSets cr.nspace (instanceSelector cr)) s =
      (.ok (kube s).statefulSets, s) := by
  change h (.kube (.listStatefulSets ..)) s = _
  rw [hk.answer, ApiServer.answer, listStatefulSets_own hsets, hk.put_kube]

theorem exec_existingShardIndexes (hk : KubeBacked h kube put)
    (hsets : OwnSets cr (kube s).statefulSets) :
    exec h (existingShardIndexes cr) s = (.ok (labelIndexes (kube s).statefulSets), s) :=
  exec_bind_ok (exec_listStatefulSets hk hsets)

/-- A listing only reads. -/
theorem only_existingShardIndexes {P : Call → Prop}
    (hP : P (.kube (.listStatefulSets cr.nspace (instanceSelector cr)))) :
    Prog.Only P (existingShardIndexes cr).run :=
  only_bind (Prog.only_op.2 hP) fun _ => Prog.only_pure _

theorem exec_existingPodHosts (hk : KubeBacked h kube put)
    (hsets : OwnSets cr (kube s).statefulSets) :
    exec h (existingPodHosts cr) s = (.ok (podHosts cr (kube s).statefulSets), s) := by
  have hlist := exec_existingShardIndexes hk hsets
  rw [labelIndexes_own hsets] at hlist
  rw [existingPodHosts, exec_bind_ok hlist, exec_pure, List.flatMap_map]
  simp only [labelledPodFQDN_natCast, podHosts]

theorem calls_existingPodHosts (hk : KubeBacked h kube put)
    (hsets : OwnSets cr (kube s).statefulSets) :
    calls h (existingPodHosts cr) s =
      [(.kube (.listStatefulSets cr.nspace (instanceSelector cr)), s)] := by
  rw [existingPodHosts, calls_bind_ok (exec_existingShardIndexes hk hsets),
    existingShardIndexes, calls_bind_ok (exec_listStatefulSets hk hsets)]
  rfl

theorem only_existingPodHosts {P : Call → Prop}
    (hP : P (.kube (.listStatefulSets cr.nspace (instanceSelector cr)))) :
    Prog.Only P (existingPodHosts cr).run :=
  only_bind (only_existingShardIndexes hP) fun _ => Prog.only_pure _

theorem exec_hasExcessShardStatefulSets (hk : KubeBacked h kube put)
    (hsets : OwnSets cr (kube s).statefulSets) :
    exec h (hasExcessShardStatefulSets cr) s =
      (.ok ((setIndexes (kube s).statefulSets).any fun i => decide (i ≥ cr.spec.shards)), s) := by
  have hlist := exec_existingShardIndexes hk hsets
  rw [labelIndexes_own hsets] at hlist
  rw [hasExcessShardStatefulSets, exec_bind_ok hlist, exec_pure, List.any_map]
  simp only [Function.comp_def, ge_iff_le, Int.ofNat_le]

/-- The plan for an observation, given the StatefulSets there are. -/
def chosenPlan (cr : ValkeyCluster) (sets : List StatefulSet) (observed : Topology.Observed) :
    Topology.Plan :=
  let plan := Topology.decide (desired cr) observed
  if (plan.kind ≠ .form ∧ plan.kind ≠ .scaleOutShards) ∧
      (setIndexes sets).any (fun i => decide (i ≥ cr.spec.shards)) then
    { kind := .scaleInShards }
  else plan

theorem exec_choosePlan (hk : KubeBacked h kube put) (hsets : OwnSets cr (kube s).statefulSets)
    (observed : Topology.Observed) :
    exec h (choosePlan cr observed) s =
      (.ok (chosenPlan cr (kube s).statefulSets observed), s) := by
  unfold choosePlan chosenPlan
  simp only []
  split
  · next hkind =>
      rw [exec_bind_ok (exec_hasExcessShardStatefulSets hk hsets), exec_pure]
      simp only [hkind, true_and, ne_eq, not_false_eq_true]
  · next hkind =>
      simp only [hkind, false_and, if_false]
      rfl

section

variable {sets : List StatefulSet} {observed : Topology.Observed}

theorem excess_iff (hsets : OwnSets cr sets) :
    (setIndexes sets).any (fun i => decide (i ≥ cr.spec.shards)) = true ↔
      ∃ i, HasSet cr sets i ∧ cr.spec.shards ≤ i := by
  simp [mem_setIndexes hsets]

theorem chosenPlan_of_excess (hsets : OwnSets cr sets)
    (hkind : (Topology.decide (desired cr) observed).kind ≠ .form ∧
      (Topology.decide (desired cr) observed).kind ≠ .scaleOutShards)
    (hexcess : ∃ i, HasSet cr sets i ∧ cr.spec.shards ≤ i) :
    (chosenPlan cr sets observed).kind = .scaleInShards := by
  rw [chosenPlan, if_pos ⟨hkind, (excess_iff hsets).2 hexcess⟩]

theorem chosenPlan_of_kind
    (hkind : (Topology.decide (desired cr) observed).kind = .form ∨
      (Topology.decide (desired cr) observed).kind = .scaleOutShards) :
    chosenPlan cr sets observed = Topology.decide (desired cr) observed := by
  rw [chosenPlan, if_neg]
  rintro ⟨⟨hform, hout⟩, -⟩
  exact hkind.elim hform hout

theorem chosenPlan_of_none (hsets : OwnSets cr sets)
    (hnone : ∀ i, HasSet cr sets i → i < cr.spec.shards) :
    chosenPlan cr sets observed = Topology.decide (desired cr) observed := by
  rw [chosenPlan, if_neg fun h => ?_]
  obtain ⟨i, hi, hge⟩ := (excess_iff hsets).1 h.2
  exact absurd (hnone i hi) (Nat.not_lt_of_le hge)

end

theorem only_choosePlan {P : Call → Prop}
    (hP : P (.kube (.listStatefulSets cr.nspace (instanceSelector cr))))
    (observed : Topology.Observed) : Prog.Only P (choosePlan cr observed).run := by
  unfold choosePlan
  simp only []
  split
  · exact only_bind (only_bind (only_existingShardIndexes hP) fun _ => Prog.only_pure _)
      fun _ => Prog.only_pure _
  · exact Prog.only_pure _

/-! ## Errors -/

theorem exec_wrap_ok {α : Type} {p : Act α} {a : α} {s' : S} (context : String)
    (hp : exec h p s = (.ok a, s')) : exec h (wrap context p) s = (.ok a, s') := by
  change Prog.run h (p.run >>= _) s = _
  rw [exec] at hp
  rw [Prog.run_bind, hp]
  rfl

theorem only_wrap {α : Type} {P : Call → Prop} {p : Act α} (context : String)
    (hp : Prog.Only P p.run) : Prog.Only P (wrap context p).run := by
  refine Prog.Only.bind hp fun r => ?_
  cases r with
  | ok a => exact Prog.only_pure _
  | error e => exact Prog.only_pure _

/-! ## Deleting -/

theorem succeeds_ignoreNotFound {G : Call → S → Prop} {p : Act Unit} {Q : Unit → S → Prop}
    (hp : Prog.Runs h G (Post Q fun e s' => e.reason = .notFound ∧ Q () s') p.run s) :
    Succeeds h G Q (ignoreNotFound p) s := by
  refine Prog.runs_bind.2 (hp.mono fun r s' hr => ?_)
  cases r with
  | ok u => exact Prog.runs_pure.2 hr
  | error e =>
      simp only [if_pos hr.1]
      exact Prog.runs_pure.2 hr.2

/-- A state that differs from `s` in its volume claims and StatefulSets only. -/
def Deleted (kube : S → ApiServer) (put : ApiServer → S → S) (sets : List StatefulSet)
    (s s' : S) : Prop :=
  ∃ k, s' = put k s ∧ k.statefulSets = sets ∧ k.cluster = (kube s).cluster

theorem succeeds_deletePVC (hk : KubeBacked h kube put) {G : Call → S → Prop} {pvc : PVC}
    {s₀ : S} {sets : List StatefulSet} (hs : Deleted kube put sets s₀ s)
    (hG : G (.kube (.deletePVC pvc)) s) :
    Succeeds h G (fun _ => Deleted kube put sets s₀) (ignoreNotFound (Kube.deletePVC pvc))
      s := by
  refine succeeds_ignoreNotFound (Prog.runs_op.2 ⟨hG, ?_⟩)
  obtain ⟨k, rfl, hsets, hcluster⟩ := hs
  rw [hk.answer, hk.kube_put, ApiServer.answer]
  split
  · exact ⟨_, hk.put_put .., hsets, hcluster⟩
  · exact ⟨rfl, k, hk.put_put .., hsets, hcluster⟩

theorem succeeds_deletePVCs (hk : KubeBacked h kube put) {G : Call → S → Prop}
    {selector : Labels} {s₀ : S} {sets : List StatefulSet} (hs : Deleted kube put sets s₀ s)
    (hlist : G (.kube (.listPVCs cr.nspace selector)) s)
    (hdelete : ∀ k pvc, Labels.matching selector pvc.labels = true →
      G (.kube (.deletePVC pvc)) (put k s₀)) :
    Succeeds h G (fun _ => Deleted kube put sets s₀) (deletePVCs cr selector) s := by
  refine succeeds_bind.2 (Prog.runs_op.2 ⟨hlist, ?_⟩)
  rw [hk.answer, ApiServer.answer, hk.put_kube]
  refine Succeeds.forM_inv (fun pvc hpvc s' hs' => succeeds_deletePVC hk hs' ?_) hs
  obtain ⟨k, rfl, -, -⟩ := hs'
  have hmatch := (List.mem_filter.1 hpvc).2
  exact hdelete k pvc (Bool.and_eq_true_iff.1 hmatch).2

/-- Deleting a shard takes its StatefulSet and the claims that carry its label. -/
theorem succeeds_deleteShard (hk : KubeBacked h kube put) {G : Call → S → Prop} (i : Nat)
    (hset : G (.kube (.deleteStatefulSet (statefulSetName cr i) cr.nspace)) s)
    (hlist : ∀ k selector, G (.kube (.listPVCs cr.nspace selector)) (put k s))
    (hpvc : ∀ k pvc, pvc.labels.lookup labelShard = some (toString i) →
      pvc.labels.lookup labelInstance = some cr.name → G (.kube (.deletePVC pvc)) (put k s)) :
    Succeeds h G (fun _ => Deleted kube put ((kube s).statefulSets.filter fun t =>
        !ApiServer.sameSet (statefulSetName cr i) cr.nspace t) s) (deleteShard cr i) s := by
  have hdeleted : Succeeds h G (fun _ => Deleted kube put ((kube s).statefulSets.filter
      fun t => !ApiServer.sameSet (statefulSetName cr i) cr.nspace t) s)
      (ignoreNotFound (Kube.deleteStatefulSet (statefulSetName cr i) cr.nspace)) s := by
    refine succeeds_ignoreNotFound (Prog.runs_op.2 ⟨hset, ?_⟩)
    rw [hk.answer, ApiServer.answer]
    split
    · exact ⟨_, rfl, rfl, rfl⟩
    · next hnone =>
        -- there was nothing to delete
        refine ⟨rfl, kube s, rfl, (List.filter_eq_self.2 fun t ht => ?_).symm, rfl⟩
        simpa using fun hsame => hnone (List.any_eq_true.2 ⟨t, ht, hsame⟩)
  refine succeeds_bind.2 (hdeleted.mono fun _ s' hs' => ?_)
  refine succeeds_deletePVCs hk hs' ?_ fun k pvc hmatch => ?_
  · obtain ⟨k, rfl, -, -⟩ := hs'
    exact hlist k _
  · have hlabels : pvc.labels.lookup labelShard = some (toString i) ∧
        pvc.labels.lookup labelInstance = some cr.name := by
      simpa [Labels.matching] using hmatch
    exact hpvc k pvc hlabels.1 hlabels.2

/-! ## Provisioning -/

/-- The shard's StatefulSet has all its pods ready. -/
def PodsReady (cr : ValkeyCluster) (sets : List StatefulSet) (i : Nat) : Prop :=
  ∃ t ∈ sets, t.name = statefulSetName cr i ∧ t.readyReplicas = 1 + cr.spec.replicasPerShard

/-- So many shards that each has an `int` for its number. -/
def Numbered (n : Nat) : Prop := ∀ i < n, (i : Int) ≤ Text.maxInt

theorem numbered_of_le {n : Nat} (hn : (n : Int) ≤ Text.maxInt) : Numbered n := fun i hi => by
  omega

/-- The shards of `new` have a StatefulSet with its pods ready, the others are as they
were, and so is the resource. -/
structure Provisioned (cr : ValkeyCluster) (new : Nat → Prop) (k k' : ApiServer) : Prop where
  cluster : k'.cluster = k.cluster
  own : OwnSets cr k'.statefulSets
  hasSet : ∀ j, HasSet cr k'.statefulSets j ↔ HasSet cr k.statefulSets j ∨ new j
  ready : ∀ i, new i → PodsReady cr k'.statefulSets i

theorem Provisioned.putStatefulSet {new : Nat → Prop} {k k' : ApiServer}
    (h : Provisioned cr new k k') {i : Nat} (hi : (i : Int) ≤ Text.maxInt) :
    Provisioned cr (fun j => new j ∨ j = i) k (k'.putStatefulSet (statefulSet cr i)) := by
  refine ⟨h.cluster, h.own.putSet hi rfl rfl rfl, fun j => ?_, fun j hj => ?_⟩
  · rw [← or_assoc, ← h.hasSet]
    exact hasSet_putSet h.own rfl rfl
  · by_cases hji : j = i
    · subst hji
      exact ⟨_, mem_putSet_self _, rfl, rfl⟩
    · obtain ⟨t, ht, hname, hready⟩ := h.ready j (hj.resolve_right hji)
      refine ⟨t, mem_putSet_of_ne ht fun heq => hji ?_, hname, hready⟩
      exact statefulSetName_injective (hname.symm.trans heq)

theorem succeeds_ensureStatefulSets (hk : KubeBacked h kube put) {G : Call → S → Prop}
    (hG : ∀ c k, G (.kube c) (put k s)) (hnum : Numbered cr.spec.shards)
    (hown : OwnSets cr (kube s).statefulSets) :
    Succeeds h G (fun _ s' => ∃ k, s' = put k s ∧
      Provisioned cr (· < cr.spec.shards) (kube s) k) (ensureStatefulSets cr) s := by
  refine (Succeeds.forM (I := fun done s' => ∃ k, s' = put k s ∧
    Provisioned cr (· ∈ done) (kube s) k) ?_ ?_).mono ?_
  · rintro done i todo hsplit _ ⟨k, rfl, hprov⟩
    have hi : i < cr.spec.shards := List.mem_range.1 (hsplit ▸ by simp)
    refine (Prog.runs_op (c := Call.kube (.applyStatefulSet (statefulSet cr i)))).2
      ⟨hG _ k, ?_⟩
    rw [hk.answer, hk.kube_put]
    refine ⟨_, hk.put_put .., ?_⟩
    simp only [List.mem_append, List.mem_singleton]
    exact hprov.putStatefulSet (hnum i hi)
  · refine ⟨kube s, (hk.put_kube s).symm, rfl, hown, fun j => ?_, fun i hi => ?_⟩
    · rw [or_iff_left (List.not_mem_nil)]
    · exact absurd hi List.not_mem_nil
  · rintro _ s' ⟨k, hs', hprov⟩
    exact ⟨k, hs', by simpa only [List.mem_range] using hprov⟩

theorem find_podsReady {sets : List StatefulSet} (hown : OwnSets cr sets) {i : Nat}
    (hready : PodsReady cr sets i) : ∃ t,
      sets.find? (ApiServer.sameSet (statefulSetName cr i) cr.nspace) = some t ∧
      t.readyReplicas = 1 + cr.spec.replicasPerShard := by
  obtain ⟨t, ht, hname, hr⟩ := hready
  refine ⟨t, ?_, hr⟩
  have hsome : (sets.find? (ApiServer.sameSet (statefulSetName cr i) cr.nspace)).isSome :=
    List.find?_isSome.2 ⟨t, ht, (hown.sameSet_iff ht _).2 hname⟩
  obtain ⟨t', ht'⟩ := Option.isSome_iff_exists.1 hsome
  have hmem := List.mem_of_find?_eq_some ht'
  have hname' := (hown.sameSet_iff hmem _).1 (List.find?_some ht')
  rw [ht', List.inj_on_of_nodup_map hown.distinct hmem ht (hname'.trans hname.symm)]

theorem succeeds_shardsReady (hk : KubeBacked h kube put) {G : Call → S → Prop}
    (hG : ∀ c, G (.kube c) s) (hown : OwnSets cr (kube s).statefulSets)
    (hready : ∀ i < cr.spec.shards, PodsReady cr (kube s).statefulSets i) :
    Succeeds h G (fun r s' => r = true ∧ s' = s) (shardsReady cr) s := by
  have key : ∀ idxs : List Nat, (∀ i ∈ idxs, i < cr.spec.shards) →
      Succeeds h G (fun r s' => r = true ∧ s' = s) (shardsReadyFrom cr idxs) s := by
    intro idxs
    induction idxs with
    | nil => exact fun _ => succeeds_pure.2 ⟨rfl, rfl⟩
    | cons i idxs ih =>
        intro hidxs
        obtain ⟨t, hfind, hr⟩ := find_podsReady hown (hready i (hidxs i (by simp)))
        refine succeeds_bind.2 (succeeds_attempt.2
          ((Prog.runs_op (c := Call.kube (.getStatefulSet _ _))).2 ⟨hG _, ?_⟩))
        rw [hk.answer, ApiServer.answer, hfind, hk.put_kube]
        simp only [hr, ne_eq, not_true_eq_false, if_false]
        exact ih fun k hk' => hidxs k (by simp [hk'])
  exact key _ fun i hi => List.mem_range.1 hi

/-! ## The resource -/

/-- The same resource with the same spec, neither of them under deletion if the other
is not. -/
structure SameCluster (c c' : ValkeyCluster) : Prop where
  name : c'.name = c.name
  nspace : c'.nspace = c.nspace
  spec : c'.spec = c.spec
  deletion : c'.deletionTimestamp = c.deletionTimestamp

theorem SameCluster.trans {c c' c'' : ValkeyCluster} (h : SameCluster c c')
    (h' : SameCluster c' c'') : SameCluster c c'' :=
  ⟨h'.name.trans h.name, h'.nspace.trans h.nspace, h'.spec.trans h.spec,
    h'.deletion.trans h.deletion⟩

end

/-! ## A first pass -/

/-- The API server as a first pass leaves it: the resource and the StatefulSets. -/
def ApiServer.provisioned (cr : ValkeyCluster) : ApiServer :=
  (List.range cr.spec.shards).foldl (fun k i => k.putStatefulSet (statefulSet cr i))
    { cluster := some cr }

theorem Provisioned.foldl {cr : ValkeyCluster} {k : ApiServer} {l : List Nat}
    (hl : ∀ i ∈ l, (i : Int) ≤ Text.maxInt) :
    ∀ {new : Nat → Prop} {k' : ApiServer}, Provisioned cr new k k' →
      Provisioned cr (fun j => new j ∨ j ∈ l) k
        (l.foldl (fun k i => k.putStatefulSet (statefulSet cr i)) k') := by
  induction l with
  | nil => intro new k' h; simpa using h
  | cons i l ih =>
      intro new k' h
      have hi := hl i (List.mem_cons_self ..)
      have hrest := ih (fun j hj => hl j (List.mem_cons_of_mem _ hj)) (h.putStatefulSet hi)
      simpa only [List.foldl_cons, List.mem_cons, or_assoc] using hrest

theorem provisioned_provisioned {cr : ValkeyCluster}
    (hnum : Numbered cr.spec.shards) :
    Provisioned cr (fun j => False ∨ j ∈ List.range cr.spec.shards) { cluster := some cr }
      (.provisioned cr) := by
  have hbase : Provisioned cr (fun _ => False) { cluster := some cr } { cluster := some cr } :=
    ⟨rfl, .nil, by simp, by simp⟩
  exact hbase.foldl fun i hi => hnum i (List.mem_range.1 hi)

end Valkeyop.Controller
