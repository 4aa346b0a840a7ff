import Valkeyop.Proofs.StaleNodes

/-!
# What scaling in deletes

`scaleIn` may delete a shard only when none of its nodes owns a slot, and it decides
that from afar: it asks the shard's pods for their IDs, up to the replica count of
the current spec, looks the answers up in what the seed lists after the sweep, and
falls back to ordinal 0. `Sighted` says when this finds an owner. The shards are
visited in ascending order and the first owner found ends the pass, so only the
first departing shard that owns slots matters: deleting spares the owners exactly
when that one is sighted.
-/

namespace Valkeyop.Controller

open Valkeyop.Lib Valkeyop.Lib.Fallible Valkeyop.Cluster Valkeyop.Api Valkeyop.Resources

/-- A deletion hits no shard with a slot owner in one of its pods. -/
def Spares (cr : ValkeyCluster) : Call → Deployment → Prop
  | .kube (.deleteStatefulSet name nspace), d =>
      ∀ i, name = statefulSetName cr i → nspace = cr.nspace → ¬ d.ShardOwns cr i
  | .kube (.deletePVC pvc), d =>
      ∀ i, pvc.labels.lookup labelShard = some (toString i) →
        pvc.labels.lookup labelInstance = some cr.name → ¬ d.ShardOwns cr i
  | _, _ => True

/-- The call deletes nothing. -/
def Harmless : Call → Prop
  | .kube (.deleteStatefulSet ..) | .kube (.deletePVC _) => False
  | _ => True

theorem Harmless.spares {cr : ValkeyCluster} {c : Call} {d : Deployment} (hc : Harmless c) :
    Spares cr c d := by
  unfold Spares
  split
  · exact hc.elim
  · exact hc.elim
  · trivial

/-! ## Which calls are made -/

section

variable {cr : ValkeyCluster} {idx : NodeMap} {P : Call → Prop}

theorem only_firstSurvivorPrimary (hP : ∀ ep, P (.admin (.myID ep))) (excludeID : String) :
    ∀ shards, (firstSurvivorPrimary cr idx excludeID shards).Only P := by
  intro shards
  induction shards with
  | nil => exact Prog.only_pure _
  | cons s shards ih =>
      refine Prog.Only.bind (only_findShardPrimary hP s) fun r => ?_
      obtain ⟨id, ord⟩ := r
      simp only []
      split
      · exact Prog.only_pure _
      · exact ih

theorem only_drainShard (hP : ∀ ep, P (.admin (.myID ep)))
    (hmove : ∀ ep a b n, P (.admin (.moveSlots ep a b n))) (shard : Nat) (departID : String) :
    Prog.Only P (drainShard cr shard idx departID).run := by
  refine only_bind (only_lift (only_firstSurvivorPrimary hP departID _)) fun survID => ?_
  split
  · exact Prog.only_pure _
  · refine only_bind (only_lift (Prog.only_op.2 (hmove ..))) fun r => ?_
    obtain ⟨moved, e⟩ := r
    cases e with
    | some e => exact Prog.only_pure _
    | none => exact Prog.only_pure _

theorem only_forgetEverywhere (hP : ∀ ep id, P (.admin (.forget ep id))) (nodeID : String) :
    (forgetEverywhere cr nodeID).Only P :=
  Prog.Only.forM fun _ _ => Prog.Only.bind (Prog.only_op.2 (hP _ _)) fun _ => Prog.only_pure _

theorem only_forgetShard (hid : ∀ ep, P (.admin (.myID ep)))
    (hforget : ∀ ep id, P (.admin (.forget ep id))) (shard : Nat) :
    (forgetShard cr shard).Only P := by
  refine Prog.Only.forM fun j _ => Prog.Only.bind (Prog.only_op.2 (hid _)) fun r => ?_
  cases r with
  | error e => exact Prog.only_pure _
  | ok id =>
      simp only []
      split
      · exact only_forgetEverywhere hforget id
      · exact Prog.only_pure _

theorem only_forgetStaleNodes (hforget : ∀ ep id, P (.admin (.forget ep id)))
    (hlist : P (.kube (.listStatefulSets cr.nspace (instanceSelector cr))))
    (state : ClusterState) : (forgetStaleNodes cr state).Only P := by
  refine Prog.Only.bind (only_existingPodHosts hlist) fun r => ?_
  cases r with
  | error e => exact Prog.only_pure _
  | ok want =>
      refine Prog.Only.forM fun n _ => ?_
      split
      · exact only_forgetEverywhere hforget n.id
      · exact Prog.only_pure _

end

/-! ## What the pods answer -/

namespace Deployment

/-- The deployment answering the controller of `cr`, whose seed is the first pod. -/
abbrev world (cr : ValkeyCluster) (fails : String → Nat → Bool)
    (rest : (c : AdminCall) → Deployment → c.Reply × Deployment)
    (order : (m : NodeMap) → RangeOrder m) : Handler Call Call.Reply Deployment :=
  answer (podFQDN cr 0 0) fails rest order

end Deployment

section

variable {cr : ValkeyCluster} {fails : String → Nat → Bool}
  {rest : (c : AdminCall) → Deployment → c.Reply × Deployment}
  {order : (m : NodeMap) → RangeOrder m} {idx : NodeMap} {d : Deployment} {i : Nat}

/-- What asking pod `j` of a shard brings to light: its node, if that is listed as a
primary with slots. -/
def slotOwnerAt (cr : ValkeyCluster) (fails : String → Nat → Bool) (idx : NodeMap)
    (d : Deployment) (i j : Nat) : Option (String × Nat) :=
  (d.reply fails (podFQDN cr i j) (d.asked (podFQDN cr i j))).bind fun id =>
    if (idx.lookup id).any ownsSlots then some (id, j) else none

theorem slotOwnerAt_ask {j j' : Nat} (hj : j' ≠ j) :
    slotOwnerAt cr fails idx (d.ask (podFQDN cr i j)) i j' = slotOwnerAt cr fails idx d i j' := by
  have hhost : podFQDN cr i j' ≠ podFQDN cr i j := fun h => hj (podFQDN_inj h).2
  simp [slotOwnerAt, Deployment.ask, Deployment.reply, hhost]

theorem findSome?_slotOwnerAt_ask {j : Nat} :
    ∀ js : List Nat, (∀ j' ∈ js, j' ≠ j) →
      js.findSome? (slotOwnerAt cr fails idx (d.ask (podFQDN cr i j)) i) =
        js.findSome? (slotOwnerAt cr fails idx d i)
  | [], _ => rfl
  | j' :: js, hne => by
      rw [List.findSome?_cons, List.findSome?_cons, slotOwnerAt_ask (hne j' (by simp)),
        findSome?_slotOwnerAt_ask js fun k hk => hne k (by simp [hk])]

/-- Only the counters of the pods that were asked have moved on. -/
structure Asked (cr : ValkeyCluster) (i : Nat) (js : List Nat) (d d' : Deployment) :
    Prop where
  rest : d' = { d with asked := d'.asked }
  others : ∀ host, (∀ j ∈ js, host ≠ podFQDN cr i j) → d'.asked host = d.asked host

theorem Asked.cons {j : Nat} {js : List Nat} {d' : Deployment}
    (h : Asked cr i js (d.ask (podFQDN cr i j)) d') : Asked cr i (j :: js) d d' := by
  refine ⟨h.rest, fun host hhost => ?_⟩
  rw [h.others host fun j' hj' => hhost j' (by simp [hj'])]
  exact d.asked_ask_ne (hhost j (by simp))

theorem world_myID (ep : Endpoint) (d : Deployment) :
    Deployment.world cr fails rest order (.admin (.myID ep)) d =
      (match d.reply fails ep.host (d.asked ep.host) with
        | some id => Except.ok id
        | none => Except.error Deployment.unreachable, d.ask ep.host) := rfl

theorem run_myID (ep : Endpoint) (d : Deployment) :
    (Admin.myID ep).run.run (Deployment.world cr fails rest order) d =
      Deployment.world cr fails rest order (.admin (.myID ep)) d := rfl

/-- The pods are asked in turn, each once, until an owner comes to light. -/
theorem findSlotOwner_run (js : List Nat) (hnodup : js.Nodup) (d : Deployment) :
    ∃ d', (findSlotOwner cr i idx js).run (Deployment.world cr fails rest order) d =
        (js.findSome? (slotOwnerAt cr fails idx d i), d') ∧ Asked cr i js d d' ∧
      (js.findSome? (slotOwnerAt cr fails idx d i) = none → ∀ j ∈ js,
        d'.asked (podFQDN cr i j) = d.asked (podFQDN cr i j) + 1) := by
  induction js generalizing d with
  | nil => exact ⟨d, rfl, ⟨rfl, fun _ _ => rfl⟩, fun _ j hj => absurd hj (by simp)⟩
  | cons j js ih =>
      obtain ⟨hj, hnodup⟩ := List.nodup_cons.1 hnodup
      obtain ⟨d', hrun, hasked, hcount⟩ := ih hnodup (d.ask (podFQDN cr i j))
      have hne : ∀ j' ∈ js, j' ≠ j := fun j' hj' h => hj (h ▸ hj')
      rw [findSome?_slotOwnerAt_ask js hne] at hrun hcount
      have hnext : slotOwnerAt cr fails idx d i j = none →
          ∃ d', (findSlotOwner cr i idx js).run (Deployment.world cr fails rest order)
              (d.ask (podFQDN cr i j)) =
              ((j :: js).findSome? (slotOwnerAt cr fails idx d i), d') ∧
            Asked cr i (j :: js) d d' ∧
            ((j :: js).findSome? (slotOwnerAt cr fails idx d i) = none → ∀ k ∈ j :: js,
              d'.asked (podFQDN cr i k) = d.asked (podFQDN cr i k) + 1) := by
        intro hnone
        rw [List.findSome?_cons, hnone]
        refine ⟨d', hrun, hasked.cons, fun hres k hk => ?_⟩
        rcases List.mem_cons.1 hk with rfl | hk
        · rw [hasked.others _ fun j' hj' h => hne j' hj' (podFQDN_inj h).2.symm]
          simp [Deployment.ask]
        · rw [hcount hres k hk]
          have hhost : podFQDN cr i k ≠ podFQDN cr i j := fun h => hne k hk (podFQDN_inj h).2
          simp [Deployment.ask, hhost]
      rw [findSlotOwner, Prog.run_bind, run_myID, world_myID]
      cases hr : d.reply fails (podFQDN cr i j) (d.asked (podFQDN cr i j)) with
      | none =>
          have hnone : slotOwnerAt cr fails idx d i j = none := by simp [slotOwnerAt, hr]
          simpa [endpoint, hr] using hnext hnone
      | some id =>
          simp only [endpoint, hr]
          cases hl : idx.lookup id with
          | none => exact hnext (by simp [slotOwnerAt, hr, hl])
          | some n =>
              by_cases hn : ownsSlots n = true
              · have hsome : slotOwnerAt cr fails idx d i j = some (id, j) := by
                  simp [slotOwnerAt, hr, hl, hn]
                simp only [hn, if_true, List.findSome?_cons, hsome]
                refine ⟨d.ask (podFQDN cr i j), rfl, Asked.cons ⟨rfl, fun _ _ => rfl⟩, ?_⟩
                exact fun h => absurd h (Option.some_ne_none _)
              · simp only [hn]
                exact hnext (by simp [slotOwnerAt, hr, hl, hn])

/-- The answer of `findShardPrimary`; the fallback is the second call to ordinal 0. -/
def primaryAt (cr : ValkeyCluster) (fails : String → Nat → Bool) (idx : NodeMap)
    (d : Deployment) (i : Nat) : String × Int :=
  match (List.range (cr.spec.replicasPerShard + 1)).findSome? (slotOwnerAt cr fails idx d i)
  with
  | some (id, j) => (id, (j : Int))
  | none =>
      match d.reply fails (podFQDN cr i 0) (d.asked (podFQDN cr i 0) + 1) with
      | some id => (id, 0)
      | none => ("", -1)

theorem findShardPrimary_run (d : Deployment) :
    ∃ d', (findShardPrimary cr i idx).run (Deployment.world cr fails rest order) d =
        (primaryAt cr fails idx d i, d') ∧
      Asked cr i (List.range (cr.spec.replicasPerShard + 1)) d d' := by
  rw [findShardPrimary, Prog.run_bind]
  obtain ⟨d', hrun, hasked, hcount⟩ := findSlotOwner_run
    (List.range (cr.spec.replicasPerShard + 1)) List.nodup_range d
  rw [hrun]
  unfold primaryAt
  cases hfound : (List.range (cr.spec.replicasPerShard + 1)).findSome?
      (slotOwnerAt cr fails idx d i) with
  | some found => exact ⟨d', rfl, hasked⟩
  | none =>
      have hzero : 0 ∈ List.range (cr.spec.replicasPerShard + 1) := by simp
      have hreply : d'.reply fails (podFQDN cr i 0) (d'.asked (podFQDN cr i 0)) =
          d.reply fails (podFQDN cr i 0) (d.asked (podFQDN cr i 0) + 1) := by
        rw [hcount hfound 0 hzero, hasked.rest]
        rfl
      refine ⟨d'.ask (podFQDN cr i 0), ?_, ?_, fun host hhost => ?_⟩
      · simp only [Prog.run_bind, run_myID, world_myID, endpoint, hreply]
        cases d.reply fails (podFQDN cr i 0) (d.asked (podFQDN cr i 0) + 1) <;> rfl
      · rw [hasked.rest]
        rfl
      · rw [← hasked.others host hhost]
        exact Deployment.asked_ask_ne _ (hhost 0 hzero)

/-! ## When an owner is found -/

/-- Asking the pods of shard `i` finds an owner among the listed nodes: one of the
pods within the spec's replica count answers as a listed primary with slots, or
ordinal 0 answers the second time and is listed with slots. -/
def Sighted (cr : ValkeyCluster) (fails : String → Nat → Bool) (d : Deployment)
    (listed : NodeInfo → Prop) (i : Nat) : Prop :=
  (∃ j ≤ cr.spec.replicasPerShard, ∃ n, listed n ∧ ownsSlots n = true ∧
    d.reply fails (podFQDN cr i j) (d.asked (podFQDN cr i j)) = some n.id) ∨
  ∃ n, listed n ∧ 0 < n.slotCount ∧
    d.reply fails (podFQDN cr i 0) (d.asked (podFQDN cr i 0) + 1) = some n.id

theorem ownsSlots_slotCount {n : NodeInfo} (h : ownsSlots n = true) : 0 < n.slotCount := by
  simp only [ownsSlots, Bool.and_eq_true, decide_eq_true_eq] at h
  exact h.2

theorem seen_nodup (hd : (d.state.nodes.map NodeInfo.id).Nodup) :
    (d.seen.nodes.map NodeInfo.id).Nodup :=
  hd.sublist (List.filter_sublist.map _)

theorem lookup_byID_seen (hnodes : (d.state.nodes.map NodeInfo.id).Nodup) {id : String}
    {n : NodeInfo} : (byID d.seen).lookup id = some n ↔ n ∈ d.seen.nodes ∧ n.id = id :=
  lookup_indexBy (seen_nodup hnodes)

theorem get_byID_seen (hnodes : (d.state.nodes.map NodeInfo.id).Nodup) {id : String} :
    0 < (NodeMap.get (byID d.seen) id).slotCount ↔
      ∃ n ∈ d.seen.nodes, 0 < n.slotCount ∧ id = n.id := by
  unfold NodeMap.get
  cases hl : (byID d.seen).lookup id with
  | none =>
      refine ⟨fun h => absurd h (by simp), fun ⟨n, hn, _, hid⟩ => ?_⟩
      exact absurd ((lookup_byID_seen hnodes).2 ⟨hn, hid.symm⟩) (by simp [hl])
  | some m =>
      obtain ⟨hm, hmid⟩ := (lookup_byID_seen hnodes).1 hl
      refine ⟨fun h => ⟨m, hm, h, hmid.symm⟩, fun ⟨n, hn, h, hid⟩ => ?_⟩
      obtain rfl := Option.some.inj
        (hl.symm.trans ((lookup_byID_seen hnodes).2 ⟨hn, hid.symm⟩))
      exact h

theorem slotOwnerAt_eq_some (hnodes : (d.state.nodes.map NodeInfo.id).Nodup) {j : Nat}
    {found : String × Nat} : slotOwnerAt cr fails (byID d.seen) d i j = some found ↔
      ∃ n ∈ d.seen.nodes, ownsSlots n = true ∧
        d.reply fails (podFQDN cr i j) (d.asked (podFQDN cr i j)) = some n.id ∧
        found = (n.id, j) := by
  unfold slotOwnerAt
  cases hr : d.reply fails (podFQDN cr i j) (d.asked (podFQDN cr i j)) with
  | none => simp
  | some id =>
      simp only [Option.bind_some, Option.ite_none_right_eq_some, Option.any_eq_true,
        Option.some.injEq, lookup_byID_seen hnodes]
      constructor
      · rintro ⟨⟨n, ⟨hn, hid⟩, howns⟩, hfound⟩
        exact ⟨n, hn, howns, hid.symm, by rw [← hfound, hid]⟩
      · rintro ⟨n, hn, howns, hid, hfound⟩
        exact ⟨⟨n, ⟨hn, hid.symm⟩, howns⟩, by rw [hfound, hid]⟩

/-- A shard is drained exactly when it is sighted. -/
theorem drains_iff (hnodes : (d.state.nodes.map NodeInfo.id).Nodup)
    (hne : ∀ host, d.serving host ≠ some "") :
    ((primaryAt cr fails (byID d.seen) d i).1 ≠ "" ∧
      (NodeMap.get (byID d.seen) (primaryAt cr fails (byID d.seen) d i).1).slotCount > 0) ↔
    Sighted cr fails d (· ∈ d.seen.nodes) i := by
  have hreply : ∀ {host k}, d.reply fails host k ≠ some "" := by
    intro host k
    unfold Deployment.reply
    split
    · simp
    · exact hne host
  unfold primaryAt
  cases hfound : (List.range (cr.spec.replicasPerShard + 1)).findSome?
      (slotOwnerAt cr fails (byID d.seen) d i) with
  | some found =>
      obtain ⟨j, hj, hsome⟩ := List.exists_of_findSome?_eq_some hfound
      obtain ⟨n, hn, howns, hr, rfl⟩ := (slotOwnerAt_eq_some hnodes).1 hsome
      have hdrain : n.id ≠ "" ∧ (NodeMap.get (byID d.seen) n.id).slotCount > 0 :=
        ⟨fun h => hreply (h ▸ hr),
          (get_byID_seen hnodes).2 ⟨n, hn, ownsSlots_slotCount howns, rfl⟩⟩
      have hsighted : Sighted cr fails d (· ∈ d.seen.nodes) i :=
        Or.inl ⟨j, Nat.lt_succ_iff.1 (List.mem_range.1 hj), n, hn, howns, hr⟩
      exact ⟨fun _ => hsighted, fun _ => hdrain⟩
  | none =>
      have hnone := List.findSome?_eq_none_iff.1 hfound
      have hfirst : ¬ ∃ j ≤ cr.spec.replicasPerShard, ∃ n, n ∈ d.seen.nodes ∧
          ownsSlots n = true ∧
          d.reply fails (podFQDN cr i j) (d.asked (podFQDN cr i j)) = some n.id := by
        rintro ⟨j, hj, n, hn, howns, hr⟩
        have hsome := (slotOwnerAt_eq_some hnodes).2 ⟨n, hn, howns, hr, rfl⟩
        rw [hnone j (List.mem_range.2 (Nat.lt_succ_iff.2 hj))] at hsome
        exact nomatch hsome
      rw [Sighted, or_iff_right hfirst]
      cases hr : d.reply fails (podFQDN cr i 0) (d.asked (podFQDN cr i 0) + 1) with
      | none => simp
      | some id =>
          have hid : id ≠ "" := fun h => hreply (h ▸ hr)
          simp only [hid, ne_eq, not_false_eq_true, true_and, gt_iff_lt,
            get_byID_seen hnodes, Option.some.injEq]

end

/-! ## What one shard's teardown leaves the others -/

/-- No two pods run the same node, every node has an ID, none is listed twice. -/
structure Distinct (cr : ValkeyCluster) (d : Deployment) : Prop where
  ids : ∀ i j i' j' id, d.serving (podFQDN cr i j) = some id →
    d.serving (podFQDN cr i' j') = some id → i = i' ∧ j = j'
  nonempty : ∀ host, d.serving host ≠ some ""
  nodes : (d.state.nodes.map NodeInfo.id).Nodup

/-- To shard `i` the two deployments look alike. -/
structure Alike (cr : ValkeyCluster) (i : Nat) (d d' : Deployment) : Prop where
  serving : d'.serving = d.serving
  state : d'.state = d.state
  asked : ∀ j, d'.asked (podFQDN cr i j) = d.asked (podFQDN cr i j)
  forgotten : ∀ j id, d.serving (podFQDN cr i j) = some id →
    (id ∈ d'.forgotten ↔ id ∈ d.forgotten)

section

variable {cr : ValkeyCluster} {fails : String → Nat → Bool}
  {rest : (c : AdminCall) → Deployment → c.Reply × Deployment}
  {order : (m : NodeMap) → RangeOrder m} {d d' d'' : Deployment} {i k : Nat}

theorem Deployed.distinct (hd : Deployed cr d) : Distinct cr d :=
  ⟨hd.ids, hd.nonempty, hd.nodes⟩

theorem Distinct.alike (hd : Distinct cr d) (h : Alike cr i d d') : Distinct cr d' where
  ids := h.serving ▸ hd.ids
  nonempty := h.serving ▸ hd.nonempty
  nodes := h.state ▸ hd.nodes

theorem Alike.refl (cr : ValkeyCluster) (i : Nat) (d : Deployment) : Alike cr i d d :=
  ⟨rfl, rfl, fun _ => rfl, fun _ _ _ => Iff.rfl⟩

theorem Alike.trans (h : Alike cr i d d') (h' : Alike cr i d' d'') : Alike cr i d d'' where
  serving := h'.serving.trans h.serving
  state := h'.state.trans h.state
  asked j := (h'.asked j).trans (h.asked j)
  forgotten j id hid := (h'.forgotten j id (h.serving ▸ hid)).trans (h.forgotten j id hid)

theorem Alike.shardOwns (h : Alike cr i d d') (k : Nat) :
    d'.ShardOwns cr k ↔ d.ShardOwns cr k := by
  unfold Deployment.ShardOwns Deployment.Owner
  rw [h.serving, h.state]

theorem reply_eq_some {host id : String} {n : Nat} (h : d.reply fails host n = some id) :
    d.serving host = some id := by
  unfold Deployment.reply at h
  split at h
  · exact nomatch h
  · exact h

theorem Alike.mem_seen (h : Alike cr i d d') {n : NodeInfo} {j : Nat}
    (hn : d.serving (podFQDN cr i j) = some n.id) :
    n ∈ d'.seen.nodes ↔ n ∈ d.seen.nodes := by
  simp only [Deployment.seen, h.state, List.mem_filter, Bool.not_eq_true',
    List.contains_eq_mem, decide_eq_false_iff_not, h.forgotten j n.id hn]

/-- Whether a shard is sighted depends on how its own pods answer and which of its
own nodes are listed. -/
theorem sighted_congr {listed listed' : NodeInfo → Prop} (hserving : d'.serving = d.serving)
    (hasked : ∀ j, d'.asked (podFQDN cr i j) = d.asked (podFQDN cr i j))
    (hlisted : ∀ j n, d.serving (podFQDN cr i j) = some n.id → (listed' n ↔ listed n)) :
    Sighted cr fails d' listed' i ↔ Sighted cr fails d listed i := by
  have hreply : ∀ j m, d'.reply fails (podFQDN cr i j) m = d.reply fails (podFQDN cr i j) m :=
    fun j m => by rw [Deployment.reply, Deployment.reply, hserving]
  simp only [Sighted, hasked, hreply]
  refine or_congr (exists_congr fun j => and_congr_right fun _ => exists_congr fun n => ?_)
    (exists_congr fun n => ?_)
  · exact ⟨fun hn => ⟨(hlisted j n (reply_eq_some hn.2.2)).1 hn.1, hn.2⟩,
      fun hn => ⟨(hlisted j n (reply_eq_some hn.2.2)).2 hn.1, hn.2⟩⟩
  · exact ⟨fun hn => ⟨(hlisted 0 n (reply_eq_some hn.2.2)).1 hn.1, hn.2⟩,
      fun hn => ⟨(hlisted 0 n (reply_eq_some hn.2.2)).2 hn.1, hn.2⟩⟩

theorem Alike.sighted (h : Alike cr i d d') :
    Sighted cr fails d' (· ∈ d'.seen.nodes) i ↔ Sighted cr fails d (· ∈ d.seen.nodes) i :=
  sighted_congr h.serving h.asked fun _ _ hn => h.mem_seen hn

theorem Asked.alike {js : List Nat} (h : Asked cr k js d d') (hik : i ≠ k) :
    Alike cr i d d' where
  serving := by rw [h.rest]
  state := by rw [h.rest]
  asked j := h.others _ fun j' _ hhost => hik (podFQDN_inj hhost).1
  forgotten j id _ := by rw [h.rest]

theorem alike_putKube (k : ApiServer) : Alike cr i d (d.putKube k) :=
  ⟨rfl, rfl, fun _ => rfl, fun _ _ _ => Iff.rfl⟩

theorem alike_forget {seedHost host id : String}
    (hid : ∀ j, d.serving (podFQDN cr i j) ≠ some id) :
    Alike cr i d (d.forget seedHost host id) := by
  unfold Deployment.forget
  split
  · refine ⟨rfl, rfl, fun _ => rfl, fun j x hx => ?_⟩
    have hne : x ≠ id := fun h => hid j (h ▸ hx)
    simp [hne]
  · exact Alike.refl cr i d

/-- Forgetting a node of another shard. -/
theorem forgetEverywhere_alike {id : String} {d₀ : Deployment}
    (hid : ∀ j, d₀.serving (podFQDN cr i j) ≠ some id) (h : Alike cr i d₀ d) :
    Prog.Runs (Deployment.world cr fails rest order) (fun _ _ => True)
      (fun _ => Alike cr i d₀) (forgetEverywhere cr id) d := by
  refine Prog.Runs.forM_inv (fun ep _ d hd => ?_) h
  refine Prog.runs_bind.2 ((Prog.runs_op (c := Call.admin (.forget ep id))).2 ⟨trivial, ?_⟩)
  exact Prog.runs_pure.2 (hd.trans (alike_forget (hd.serving.symm ▸ hid)))

/-- Asking and forgetting the pods of another shard. -/
theorem forgetShard_alike (hdist : Distinct cr d) (hik : i ≠ k) :
    Prog.Runs (Deployment.world cr fails rest order) (fun _ _ => True)
      (fun _ => Alike cr i d) (forgetShard cr k) d := by
  refine Prog.Runs.forM_inv (fun j _ d' hd => ?_) (Alike.refl cr i d)
  have hhost : ∀ j', podFQDN cr i j' ≠ podFQDN cr k j := fun _ h => hik (podFQDN_inj h).1
  have hask : Alike cr i d (d'.ask (podFQDN cr k j)) := hd.trans
    ⟨rfl, rfl, fun j' => d'.asked_ask_ne (hhost j'), fun _ _ _ => Iff.rfl⟩
  rw [Prog.runs_bind]
  refine (Prog.runs_op (c := Call.admin (.myID (endpoint cr k j)))).2 ⟨trivial, ?_⟩
  rw [world_myID]
  simp only [endpoint]
  cases hr : d'.reply fails (podFQDN cr k j) (d'.asked (podFQDN cr k j)) with
  | none => exact Prog.runs_pure.2 hask
  | some id =>
      simp only []
      split
      · refine forgetEverywhere_alike (fun j' hj' => hik ?_) hask
        exact (hdist.ids _ _ _ _ _ hj' (hd.serving ▸ reply_eq_some hr)).1
      · exact Prog.runs_pure.2 hask

/-! ## The departing shards in turn -/

/-- Among the listed shards, the first departing one that owns slots is sighted. -/
def FirstOwnerSighted (cr : ValkeyCluster) (fails : String → Nat → Bool) (d : Deployment)
    (listed : NodeInfo → Prop) : List Nat → Prop
  | [] => True
  | i :: rest =>
      if i < cr.spec.shards then FirstOwnerSighted cr fails d listed rest
      else (d.ShardOwns cr i → Sighted cr fails d listed i) ∧
        (¬ d.ShardOwns cr i → FirstOwnerSighted cr fails d listed rest)

theorem firstOwnerSighted_congr {listed listed' : NodeInfo → Prop} :
    ∀ idxs : List Nat, (∀ i ∈ idxs, cr.spec.shards ≤ i →
      (d'.ShardOwns cr i ↔ d.ShardOwns cr i) ∧
      (Sighted cr fails d' listed' i ↔ Sighted cr fails d listed i)) →
      (FirstOwnerSighted cr fails d' listed' idxs ↔ FirstOwnerSighted cr fails d listed idxs)
  | [], _ => Iff.rfl
  | i :: idxs, h => by
      have hrest := firstOwnerSighted_congr idxs fun k hk => h k (by simp [hk])
      rw [FirstOwnerSighted, FirstOwnerSighted]
      split
      · exact hrest
      · next hi =>
          obtain ⟨howns, hsighted⟩ := h i (by simp) (Nat.le_of_not_lt hi)
          rw [howns, hsighted, hrest]

/-- Read in ascending order, the first owner is the least one. -/
theorem firstOwnerSighted_iff {listed : NodeInfo → Prop} :
    ∀ idxs : List Nat, idxs.Pairwise (· < ·) →
      (FirstOwnerSighted cr fails d listed idxs ↔
        ∀ i ∈ idxs, cr.spec.shards ≤ i → d.ShardOwns cr i →
          (∀ k ∈ idxs, cr.spec.shards ≤ k → k < i → ¬ d.ShardOwns cr k) →
          Sighted cr fails d listed i)
  | [], _ => by simp [FirstOwnerSighted]
  | i :: idxs, h => by
      obtain ⟨hi, hsorted⟩ := List.pairwise_cons.1 h
      rw [FirstOwnerSighted, firstOwnerSighted_iff idxs hsorted]
      split
      · next hlt =>
          have hnot : ¬ cr.spec.shards ≤ i := Nat.not_le_of_lt hlt
          simp only [List.forall_mem_cons, hnot, false_imp_iff, true_and]
      · next hge =>
          simp only [List.forall_mem_cons]
          constructor
          · rintro ⟨hfirst, hrest⟩
            exact ⟨fun _ howns _ => hfirst howns, fun k hk hge' howns hbelow =>
              hrest (hbelow.1 (Nat.le_of_not_lt hge) (hi k hk)) k hk hge' howns hbelow.2⟩
          · rintro ⟨hfirst, hrest⟩
            refine ⟨fun howns => hfirst (Nat.le_of_not_lt hge) howns ⟨fun _ h => ?_,
              fun k hk _ h => ?_⟩, fun hnone k hk hge' howns hbelow =>
              hrest k hk hge' howns ⟨fun _ _ => hnone, hbelow⟩⟩
            · exact absurd h (lt_irrefl i)
            · exact absurd h (Nat.lt_asymm (hi k hk))

theorem Sighted.shardOwns (h : Sighted cr fails d (· ∈ d.seen.nodes) i) :
    d.ShardOwns cr i := by
  have howner : ∀ {n}, n ∈ d.seen.nodes → 0 < n.slotCount → d.Owner n.id :=
    fun hn hslots => ⟨_, List.mem_of_mem_filter hn, rfl, hslots⟩
  rcases h with ⟨j, -, n, hn, howns, hr⟩ | ⟨n, hn, hslots, hr⟩
  · exact ⟨j, n.id, reply_eq_some hr, howner hn (ownsSlots_slotCount howns)⟩
  · exact ⟨0, n.id, reply_eq_some hr, howner hn hslots⟩

/-- Deleting a shard spares the owners exactly when it has none. -/
theorem deleteShard_spares_iff (i : Nat) (d : Deployment) :
    (∀ e ∈ calls (Deployment.world cr fails rest order) (deleteShard cr i) d,
      Spares cr e.1 e.2) ↔ ¬ d.ShardOwns cr i := by
  constructor
  · intro h
    have hfirst : (Call.kube (.deleteStatefulSet (statefulSetName cr i) cr.nspace), d) ∈
        calls (Deployment.world cr fails rest order) (deleteShard cr i) d :=
      List.mem_cons_self ..
    exact h _ hfirst i rfl rfl
  · intro hnone
    have hkept : ∀ k j, toString i = toString j → ¬ (d.putKube k).ShardOwns cr j := by
      intro k j hij
      rw [← Lib.Text.toString_injective hij, (alike_putKube (i := i) k).shardOwns]
      exact hnone
    refine (succeeds_iff.1 (succeeds_deleteShard (Deployment.kubeBacked ..) i ?_
      (fun _ _ => trivial) fun k pvc hshard _ j hj _ => ?_)).2
    · intro j hj _
      obtain rfl := statefulSetName_injective hj
      exact hnone
    · exact hkept k j (Option.some.inj (hshard.symm.trans hj))

/-- Once a shard counts as empty it is torn down: its nodes are forgotten, its
objects deleted, and the others notice nothing. -/
theorem teardown_spares_iff (next : Act Unit) (hd : Distinct cr d)
    (hothers : ∀ k, k ≠ i → Alike cr k d d') :
    ∃ d'', (∀ k, k ≠ i → Alike cr k d d'') ∧
      ((∀ e ∈ calls (Deployment.world cr fails rest order)
          (do forgetShard cr i; deleteShard cr i; next : Act Unit) d', Spares cr e.1 e.2) ↔
        ¬ d.ShardOwns cr i ∧ ∀ e ∈ calls (Deployment.world cr fails rest order) next d'',
          Spares cr e.1 e.2) := by
  obtain ⟨d₂, hforget⟩ : ∃ d₂, (forgetShard cr i).run
      (Deployment.world cr fails rest order) d' = ((), d₂) := ⟨_, rfl⟩
  have hd' : Distinct cr d' := hd.alike (hothers (i + 1) (by omega))
  have hkept₂ : ∀ k, k ≠ i → Alike cr k d d₂ := by
    intro k hk
    have hrun : Prog.Runs (Deployment.world cr fails rest order) _ _ (forgetShard cr i) d' :=
      forgetShard_alike hd' hk
    rw [Prog.runs_iff, hforget] at hrun
    exact (hothers k hk).trans hrun.1
  have hsucceeds : Succeeds (Deployment.world cr fails rest order) (fun _ _ => True) _
      (deleteShard cr i) d₂ :=
    succeeds_deleteShard (Deployment.kubeBacked ..) i trivial (fun _ _ => trivial)
      fun _ _ _ _ => trivial
  obtain ⟨⟨u, d₃, hdelete, k₃, rfl, -, -⟩, -⟩ := succeeds_iff.1 hsucceeds
  refine ⟨d₂.putKube k₃, fun k hk => (hkept₂ k hk).trans (alike_putKube k₃), ?_⟩
  have hlift : exec (Deployment.world cr fails rest order)
      (liftM (forgetShard cr i) : Act Unit) d' = (.ok (), d₂) := by
    rw [exec_lift, hforget]
  rw [calls_bind_ok hlift, calls_bind_ok hdelete, calls_lift, List.forall_mem_append,
    List.forall_mem_append, deleteShard_spares_iff,
    (hkept₂ (i + 1) (by omega)).shardOwns i]
  refine and_iff_right fun e he => Harmless.spares ?_
  exact (only_forgetShard (fun _ => trivial) (fun _ _ => trivial) i).mem_trace e he

variable (fails rest order) in
/-- A departing shard: its primary is looked for, and what comes next depends on it. -/
theorem calls_removeShards (hi : ¬ i < cr.spec.shards) (idxs : List Nat) (d : Deployment) :
    ∃ d₁ before, Asked cr i (List.range (cr.spec.replicasPerShard + 1)) d d₁ ∧
      (∀ e ∈ before, Harmless e.1) ∧
      calls (Deployment.world cr fails rest order) (removeShards cr (i :: idxs)) d =
        before ++ calls (Deployment.world cr fails rest order)
          (if (primaryAt cr fails (byID d.seen) d i).1 ≠ "" ∧ (NodeMap.get (byID d.seen)
              (primaryAt cr fails (byID d.seen) d i).1).slotCount > 0 then
            drainShard cr i (byID d.seen) (primaryAt cr fails (byID d.seen) d i).1
          else do
            forgetShard cr i
            deleteShard cr i
            removeShards cr idxs) d₁ := by
  obtain ⟨d₁, hrun, hasked⟩ : ∃ d₁, (findShardPrimary cr i (byID d.seen)).run
        (Deployment.world cr fails rest order) d =
      (primaryAt cr fails (byID d.seen) d i, d₁) ∧ Asked cr i _ d d₁ :=
    findShardPrimary_run d
  have hstate : exec (Deployment.world cr fails rest order) (Admin.state (seed cr)) d =
      (.ok d.seen, d) := rfl
  have hfind : exec (Deployment.world cr fails rest order)
      (liftM (findShardPrimary cr i (byID d.seen)) : Act _) d =
      (.ok (primaryAt cr fails (byID d.seen) d i), d₁) := by
    rw [exec_lift, hrun]
  refine ⟨d₁, calls (Deployment.world cr fails rest order) (Admin.state (seed cr)) d ++
    (findShardPrimary cr i (byID d.seen)).trace (Deployment.world cr fails rest order) d,
    hasked, fun e he => ?_, ?_⟩
  · rcases List.mem_append.1 he with he | he
    · obtain rfl := List.mem_singleton.1 he
      trivial
    · exact (only_findShardPrimary (fun _ => trivial) i).mem_trace e he
  · rw [removeShards, if_neg hi, calls_bind_ok hstate, calls_bind_ok hfind, calls_lift,
      List.append_assoc]

theorem removeShards_spares_iff :
    ∀ (idxs : List Nat), idxs.Nodup → ∀ d : Deployment, Distinct cr d →
      ((∀ e ∈ calls (Deployment.world cr fails rest order) (removeShards cr idxs) d,
        Spares cr e.1 e.2) ↔
        FirstOwnerSighted cr fails d (· ∈ d.seen.nodes) idxs) := by
  intro idxs
  induction idxs with
  | nil => exact fun _ d _ => ⟨fun _ => trivial, fun _ e he => absurd he List.not_mem_nil⟩
  | cons i idxs ih =>
      intro hnodup d hd
      obtain ⟨hi, hnodup⟩ := List.nodup_cons.1 hnodup
      rw [FirstOwnerSighted]
      split
      · next hlt =>
          rw [removeShards, if_pos hlt]
          exact ih hnodup d hd
      next hge =>
      obtain ⟨d₁, before, hasked, hbefore, hcalls⟩ :=
        calls_removeShards fails rest order hge idxs d
      rw [hcalls, List.forall_mem_append,
        and_iff_right fun e he => Harmless.spares (hbefore e he)]
      have hdrains : _ ↔ Sighted cr fails d (· ∈ d.seen.nodes) i :=
        drains_iff hd.nodes hd.nonempty
      by_cases hsighted : Sighted cr fails d (· ∈ d.seen.nodes) i
      · -- the owner is found: drain a batch, and that is all
        rw [if_pos (hdrains.2 hsighted)]
        refine iff_of_true (fun e he => Harmless.spares ?_)
          ⟨fun _ => hsighted, fun hnone => absurd hsighted.shardOwns hnone⟩
        exact (only_drainShard (fun _ => trivial) (fun _ _ _ _ => trivial) i _).mem_trace e he
      · rw [if_neg (mt hdrains.1 hsighted)]
        obtain ⟨d₂, hkept, hiff⟩ := teardown_spares_iff (removeShards cr idxs) hd
          fun k hk => hasked.alike hk
        rw [hiff, ih hnodup d₂ (hd.alike (hkept (i + 1) (by omega))),
          firstOwnerSighted_congr idxs fun k hk _ =>
            have hk' := hkept k fun h => hi (h ▸ hk)
            ⟨hk'.shardOwns k, hk'.sighted⟩]
        tauto

/-! ## The sweep before -/

/-- The seed has been told to forget the nodes of `X`, and nothing else changed. -/
structure Forgot (X : String → Prop) (d d' : Deployment) : Prop where
  rest : d' = { d with forgotten := d'.forgotten }
  forgotten : ∀ x, x ∈ d'.forgotten ↔ x ∈ d.forgotten ∨ X x

theorem Forgot.refl (d : Deployment) : Forgot (fun _ => False) d d := ⟨rfl, by simp⟩

theorem Forgot.congr {X Y : String → Prop} (h : Forgot X d d') (hXY : ∀ x, X x ↔ Y x) :
    Forgot Y d d' :=
  ⟨h.rest, fun x => by rw [h.forgotten, hXY]⟩

theorem Forgot.trans {X Y : String → Prop} (h : Forgot X d d') (h' : Forgot Y d' d'') :
    Forgot (fun x => X x ∨ Y x) d d'' := by
  refine ⟨?_, fun x => by rw [h'.forgotten, h.forgotten, or_assoc]⟩
  rw [h'.rest, h.rest]

theorem forgot_forget (seedHost host id : String) (d : Deployment) :
    Forgot (fun x => host = seedHost ∧ x = id ∧ d.serving seedHost ≠ some x) d
      (d.forget seedHost host id) := by
  unfold Deployment.forget
  split
  · next h =>
      refine ⟨rfl, fun x => ?_⟩
      rw [List.mem_cons, or_comm]
      refine or_congr_right ⟨fun hx => ⟨h.1, hx, hx ▸ h.2⟩, fun hx => hx.2.1⟩
  · next h =>
      refine ⟨rfl, fun x => ⟨Or.inl, ?_⟩⟩
      rintro (hx | ⟨hhost, rfl, hx⟩)
      · exact hx
      · exact absurd ⟨hhost, hx⟩ h

theorem forgetEverywhere_forgot (hshards : 0 < cr.spec.shards) (id : String)
    (d : Deployment) :
    Prog.Runs (Deployment.world cr fails rest order) (fun _ _ => True)
      (fun _ => Forgot (fun x => x = id ∧ d.serving (podFQDN cr 0 0) ≠ some x) d)
      (forgetEverywhere cr id) d := by
  have hloop : Prog.Runs (Deployment.world cr fails rest order) (fun _ _ => True)
      (fun _ => Forgot (fun x => (∃ ep ∈ allEndpoints cr, ep.host = podFQDN cr 0 0) ∧
        x = id ∧ d.serving (podFQDN cr 0 0) ≠ some x) d) (forgetEverywhere cr id) d := by
    refine Prog.Runs.forM (I := fun told : List Endpoint => Forgot (fun x =>
      (∃ ep ∈ told, ep.host = podFQDN cr 0 0) ∧ x = id ∧
        d.serving (podFQDN cr 0 0) ≠ some x) d) (fun told ep _ _ d' hd' => ?_) ?_
    · refine Prog.runs_bind.2 ((Prog.runs_op (c := Call.admin (.forget ep id))).2 ⟨trivial, ?_⟩)
      refine Prog.runs_pure.2 ((hd'.trans (forgot_forget (podFQDN cr 0 0) ep.host id d')).congr
        fun x => ?_)
      have hserving : d'.serving = d.serving := by rw [hd'.rest]
      rw [hserving]
      simp only [List.mem_append, List.mem_singleton]
      grind
    · exact (Forgot.refl d).congr (by simp)
  refine hloop.mono fun _ d' hd' => hd'.congr fun x => ?_
  exact and_iff_right ⟨seed cr, seed_mem_allEndpoints hshards, rfl⟩

/-- The sweep forgets the stale nodes, except the seed itself. -/
theorem forgetStaleNodes_forgot (hshards : 0 < cr.spec.shards)
    (hsets : OwnSets cr d.kube.statefulSets) (state : ClusterState) :
    Prog.Runs (Deployment.world cr fails rest order) (fun _ _ => True)
      (fun _ => Forgot (fun x => ∃ n ∈ state.nodes, Stale cr d.kube.statefulSets n ∧ n.id = x ∧
        d.serving (podFQDN cr 0 0) ≠ some x) d) (forgetStaleNodes cr state) d := by
  have hhosts : exec (Deployment.world cr fails rest order) (existingPodHosts cr) d = _ :=
    exec_existingPodHosts (Deployment.kubeBacked ..) hsets
  rw [exec] at hhosts
  rw [Prog.runs_iff, forgetStaleNodes, Prog.run_bind, hhosts]
  refine ⟨?_, fun _ _ => trivial⟩
  have hloop : Prog.Runs (Deployment.world cr fails rest order) (fun _ _ => True)
      (fun _ => Forgot (fun x => ∃ n ∈ state.nodes, Stale cr d.kube.statefulSets n ∧ n.id = x ∧
        d.serving (podFQDN cr 0 0) ≠ some x) d)
      (state.nodes.forM fun n => if n.host ≠ "" ∧ n.host ∉ podHosts cr d.kube.statefulSets
        then forgetEverywhere cr n.id else pure ()) d := by
    refine Prog.Runs.forM (I := fun swept : List NodeInfo => Forgot (fun x => ∃ n ∈ swept,
      Stale cr d.kube.statefulSets n ∧ n.id = x ∧ d.serving (podFQDN cr 0 0) ≠ some x) d)
      (fun swept n _ _ d' hd' => ?_) ((Forgot.refl d).congr (by simp))
    have hserving : d'.serving = d.serving := by rw [hd'.rest]
    split
    · next hstale =>
        refine (forgetEverywhere_forgot hshards n.id d').mono fun _ d'' hd'' =>
          (hd'.trans hd'').congr fun x => ?_
        rw [hserving]
        have : Stale cr d.kube.statefulSets n := hstale
        simp only [List.mem_append, List.mem_singleton]
        grind
    · next hfresh =>
        refine Prog.runs_pure.2 (hd'.congr fun x => ?_)
        have : ¬ Stale cr d.kube.statefulSets n := hfresh
        simp only [List.mem_append, List.mem_singleton]
        grind
  exact (Prog.runs_iff.1 hloop).1

theorem only_sweep {P : Call → Prop} (hstate : ∀ ep, P (.admin (.state ep)))
    (hforget : ∀ ep id, P (.admin (.forget ep id)))
    (hlist : P (.kube (.listStatefulSets cr.nspace (instanceSelector cr)))) :
    Prog.Only P (sweep cr).run := by
  refine only_bind (only_lift (Prog.only_op.2 (hstate _))) fun r => ?_
  cases r with
  | ok st => exact only_lift (only_forgetStaleNodes hforget hlist st)
  | error e => exact Prog.only_pure _

theorem exec_sweep (hd : Deployed cr d) (hshards : 0 < cr.spec.shards) :
    ∃ d₁, exec (Deployment.world cr fails rest order) (sweep cr) d = (.ok (), d₁) ∧
      Forgot (fun x => ∃ n ∈ d.state.nodes, Stale cr d.kube.statefulSets n ∧ n.id = x ∧
        d.serving (podFQDN cr 0 0) ≠ some x) d d₁ := by
  have hseen : d.seen.nodes = d.state.nodes := by
    simp [Deployment.seen, hd.fresh]
  have hrun : Prog.Runs (Deployment.world cr fails rest order) _ _
      (forgetStaleNodes cr d.seen) d := forgetStaleNodes_forgot hshards hd.sets d.seen
  rw [hseen, Prog.runs_iff] at hrun
  have hstate : exec (Deployment.world cr fails rest order) (Admin.state (seed cr)).attempt d =
      (.ok (.ok d.seen), d) := rfl
  refine ⟨_, ?_, hrun.1⟩
  rw [sweep, exec_bind_ok hstate]
  exact exec_lift _

/-- The sweep leaves the node listed. -/
def Kept (cr : ValkeyCluster) (d : Deployment) (n : NodeInfo) : Prop :=
  n ∈ d.state.nodes ∧ (n.host = "" ∨ d.KnownHost cr n.host)

/-- After the sweep the seed lists, of a departing shard's nodes, those that are kept. -/
theorem mem_seen_iff_kept (hd : Deployed cr d) (hi : i ≠ 0) {d₁ : Deployment}
    (hforgot : Forgot (fun x => ∃ n ∈ d.state.nodes, Stale cr d.kube.statefulSets n ∧
      n.id = x ∧ d.serving (podFQDN cr 0 0) ≠ some x) d d₁) {j : Nat} {n : NodeInfo}
    (hn : d.serving (podFQDN cr i j) = some n.id) : n ∈ d₁.seen.nodes ↔ Kept cr d n := by
  have hseed : d.serving (podFQDN cr 0 0) ≠ some n.id := fun h =>
    hi (hd.ids _ _ _ _ _ hn h).1
  have hstate : d₁.state = d.state := by rw [hforgot.rest]
  simp only [Deployment.seen, List.mem_filter, Bool.not_eq_true', List.contains_eq_mem,
    decide_eq_false_iff_not, hstate, hforgot.forgotten, hd.fresh, List.not_mem_nil, false_or,
    Kept]
  refine and_congr_right fun hmem => ?_
  rw [← not_iff_not, ← stale_iff hd, not_not]
  constructor
  · rintro ⟨m, hm, hstale, hid, -⟩
    obtain rfl := List.inj_on_of_nodup_map hd.nodes hm hmem hid
    exact hstale
  · exact fun hstale => ⟨n, hmem, hstale, rfl, hseed⟩

theorem Distinct.forgot {X : String → Prop} (hd : Distinct cr d) (h : Forgot X d d') :
    Distinct cr d' := by
  rw [h.rest]
  exact ⟨hd.ids, hd.nonempty, hd.nodes⟩

variable (fails rest order) in
/-- Scaling in is the sweep, and then the shards in ascending order. -/
theorem calls_scaleIn (hd : Deployed cr d) (hshards : 0 < cr.spec.shards) :
    ∃ d₁ before,
      Forgot (fun x => ∃ n ∈ d.state.nodes, Stale cr d.kube.statefulSets n ∧ n.id = x ∧
        d.serving (podFQDN cr 0 0) ≠ some x) d d₁ ∧
      (∀ e ∈ before, Harmless e.1) ∧
      calls (Deployment.world cr fails rest order) (scaleIn cr) d =
        before ++ calls (Deployment.world cr fails rest order)
          (removeShards cr (setIndexes d.kube.statefulSets)) d₁ := by
  obtain ⟨d₁, hsweep, hforgot⟩ : ∃ d₁, exec (Deployment.world cr fails rest order) (sweep cr)
      d = (.ok (), d₁) ∧ Forgot _ d d₁ := exec_sweep hd hshards
  have hkube : d₁.kube = d.kube := by rw [hforgot.rest]
  have hidxs : exec (Deployment.world cr fails rest order) (existingShardIndexes cr) d₁ =
      (.ok (labelIndexes d₁.kube.statefulSets), d₁) :=
    exec_existingShardIndexes (Deployment.kubeBacked ..) (hkube.symm ▸ hd.sets)
  have hlist : Prog.Only Harmless (existingShardIndexes cr).run :=
    only_existingShardIndexes trivial
  have hforget : Prog.Only Harmless (sweep cr).run :=
    only_sweep (fun _ => trivial) (fun _ _ => trivial) trivial
  refine ⟨d₁, calls (Deployment.world cr fails rest order) (sweep cr) d ++
    calls (Deployment.world cr fails rest order) (existingShardIndexes cr) d₁, hforgot, ?_, ?_⟩
  · intro e he
    exact (List.mem_append.1 he).elim (hforget.mem_trace e) (hlist.mem_trace e)
  · rw [scaleIn, calls_bind_ok hsweep, calls_bind_ok hidxs, hkube, List.append_assoc]
    rfl

theorem scaleIn_spares_iff (hd : Deployed cr d) (hshards : 0 < cr.spec.shards) :
    (∀ e ∈ calls (Deployment.world cr fails rest order) (scaleIn cr) d, Spares cr e.1 e.2) ↔
      FirstOwnerSighted cr fails d (Kept cr d) (setIndexes d.kube.statefulSets) := by
  obtain ⟨d₁, before, hforgot, hbefore, hcalls⟩ := calls_scaleIn fails rest order hd hshards
  have hserving : d₁.serving = d.serving := by rw [hforgot.rest]
  have hstate : d₁.state = d.state := by rw [hforgot.rest]
  have hasked : d₁.asked = d.asked := by rw [hforgot.rest]
  rw [hcalls, List.forall_mem_append, and_iff_right fun e he => Harmless.spares (hbefore e he),
    removeShards_spares_iff _ ((setIndexes_pairwise hd.sets).imp Nat.ne_of_lt) d₁
      (hd.distinct.forgot hforgot)]
  refine firstOwnerSighted_congr _ fun i _ hi => ⟨?_, ?_⟩
  · unfold Deployment.ShardOwns Deployment.Owner
    rw [hserving, hstate]
  · exact sighted_congr hserving (fun _ => by rw [hasked]) fun j n hn =>
      mem_seen_iff_kept hd (by omega) hforgot hn

/-- Scaling in deletes no shard with a slot owner in one of its pods, exactly when the
first departing shard that has one is sighted among the nodes the sweep keeps. -/
theorem scaleIn_spares_owners_iff (hd : Deployed cr d) (hcr : cr.spec.Admitted) :
    (∀ e ∈ calls (Deployment.world cr fails rest order) (scaleIn cr) d,
      Spares cr e.1 e.2) ↔
    ∀ i, HasSet cr d.kube.statefulSets i → cr.spec.shards ≤ i → d.ShardOwns cr i →
      (∀ k, HasSet cr d.kube.statefulSets k → cr.spec.shards ≤ k → k < i →
        ¬ d.ShardOwns cr k) →
      Sighted cr fails d (Kept cr d) i := by
  have hshards : 0 < cr.spec.shards := by
    rcases hcr.1 with h | h <;> omega
  rw [scaleIn_spares_iff hd hshards, firstOwnerSighted_iff _ (setIndexes_pairwise hd.sets)]
  simp only [mem_setIndexes hd.sets]

end

/-! ## A shard that failed over

The spec went from three shards with a replica each to one without. Shard 1 is gone,
shard 2 still has its two pods. -/

def shrinkingPods (p : Nat × Nat) : String :=
  if p = (0, 0) then "a" else if p = (2, 0) then "b" else "c"

def shrinking (nodes : List NodeInfo) : Deployment :=
  .onPaper loneCluster [(0, 1), (2, 2)] shrinkingPods ⟨true, true, false, nodes⟩

theorem shrinking_deployed {nodes : List NodeInfo} (hnodes : (nodes.map NodeInfo.id).Nodup) :
    Deployed loneCluster (shrinking nodes) :=
  Deployment.deployed_onPaper (by decide) (by decide) (by decide) (by decide) hnodes

theorem shrinking_serving {nodes : List NodeInfo} {i j : Nat} {x : String} :
    (shrinking nodes).serving (podFQDN loneCluster i j) = some x ↔
      (i, j) ∈ [(0, 0), (2, 0), (2, 1)] ∧ shrinkingPods (i, j) = x :=
  Deployment.serving_onPaper

theorem shrinking_setIndexes (nodes : List NodeInfo) :
    setIndexes (shrinking nodes).kube.statefulSets = [0, 2] :=
  Deployment.setIndexes_onPaper (by decide) (by decide)

def shrinkingNode (id : String) (i j : Nat) (flags : List String) (masterID : String)
    (slots : List SlotRange) : NodeInfo :=
  ⟨id, podFQDN loneCluster i j, "10.0.0.1", 6379, flags, masterID, slots, true⟩

/-- Ordinal 0 is the primary of shard 2. -/
def steadyNodes : List NodeInfo :=
  [shrinkingNode "a" 0 0 ["master"] "" [⟨0, 10922⟩],
    shrinkingNode "b" 2 0 ["master"] "" [⟨10923, 16383⟩],
    shrinkingNode "c" 2 1 ["slave"] "b" []]

theorem scaleIn_spares_steady_shard :
    (shrinking steadyNodes).ShardOwns loneCluster 2 ∧
    ∀ e ∈ calls (Deployment.world loneCluster (fun _ _ => false) Deployment.idle
      asWritten) (scaleIn loneCluster) (shrinking steadyNodes),
      Spares loneCluster e.1 e.2 := by
  have hserving : (shrinking steadyNodes).serving (podFQDN loneCluster 2 0) = some "b" :=
    shrinking_serving.2 ⟨by decide, rfl⟩
  refine ⟨⟨0, "b", hserving, shrinkingNode "b" 2 0 ["master"] "" [⟨10923, 16383⟩],
    by simp [shrinking, Deployment.onPaper, steadyNodes], rfl, by decide⟩, ?_⟩
  refine (scaleIn_spares_owners_iff (shrinking_deployed (by decide))
    ⟨Or.inl rfl, by decide, by decide⟩).2 fun i hi hge _ _ => Or.inl ⟨0, by decide, ?_⟩
  obtain rfl : i = 2 := by
    have hmem : i ∈ setIndexes (shrinking steadyNodes).kube.statefulSets :=
      (mem_setIndexes (shrinking_deployed (by decide)).sets).2 hi
    simp only [shrinking_setIndexes, List.mem_cons, List.not_mem_nil, or_false] at hmem
    have hge : 1 ≤ i := hge
    omega
  refine ⟨shrinkingNode "b" 2 0 ["master"] "" [⟨10923, 16383⟩], ⟨?_, Or.inr ⟨2, 0, hi,
    by decide, rfl⟩⟩, by decide, hserving⟩
  simp [shrinking, Deployment.onPaper, steadyNodes]

/-- Ordinal 1 has taken over, beyond the replica count of the new spec. -/
def failedOverNodes : List NodeInfo :=
  [shrinkingNode "a" 0 0 ["master"] "" [⟨0, 10922⟩],
    shrinkingNode "b" 2 0 ["slave"] "c" [],
    shrinkingNode "c" 2 1 ["master"] "" [⟨10923, 16383⟩]]

/-- No call fails, and a shard goes with a third of the slots in it. -/
theorem scaleIn_deletes_owner :
    Deployed loneCluster (shrinking failedOverNodes) ∧ loneCluster.spec.Admitted ∧
    ¬ ∀ e ∈ calls (Deployment.world loneCluster (fun _ _ => false) Deployment.idle
      asWritten) (scaleIn loneCluster) (shrinking failedOverNodes),
      Spares loneCluster e.1 e.2 := by
  have hd : Deployed loneCluster (shrinking failedOverNodes) := shrinking_deployed (by decide)
  refine ⟨hd, ⟨Or.inl rfl, by decide, by decide⟩, ?_⟩
  rw [scaleIn_spares_iff hd (by decide), shrinking_setIndexes]
  intro hfirst
  have howns : (shrinking failedOverNodes).ShardOwns loneCluster 2 :=
    ⟨1, "c", shrinking_serving.2 ⟨by decide, rfl⟩, shrinkingNode "c" 2 1 ["master"] ""
      [⟨10923, 16383⟩], by simp [shrinking, Deployment.onPaper, failedOverNodes], rfl,
      by decide⟩
  have hzero : ∀ n ∈ failedOverNodes, n.id = "b" → n.slotCount = 0 ∧ ownsSlots n = false := by
    decide
  rcases hfirst.1 howns with ⟨j, hj, n, hn, hslots, hr⟩ | ⟨n, hn, hslots, hr⟩
  · obtain rfl : j = 0 := Nat.le_zero.1 hj
    have hid : n.id = "b" := (shrinking_serving.1 (reply_eq_some hr)).2.symm
    simp [(hzero n hn.1 hid).2] at hslots
  · have hid : n.id = "b" := (shrinking_serving.1 (reply_eq_some hr)).2.symm
    simp [(hzero n hn.1 hid).1] at hslots

end Valkeyop.Controller
