import Valkeyop.Lib.Emitted
import Valkeyop.Proofs.FakeMembership
import Valkeyop.Proofs.PassCalls

/-!
# Forming and scaling the fake cluster

The three actions that move slots, each as what it does to a placement. Forming
deals the slots out evenly. Scaling out fills each new shard with one move, because
the fattest of the others always has more than it lacks. Scaling in deletes the
departing shards that are empty and drains a batch of the first that is not.
-/

namespace Valkeyop.Controller

open Valkeyop.Lib Valkeyop.Lib.Fallible Valkeyop.Cluster Valkeyop.Api Valkeyop.Resources

/-- The resource that is reconciled is stored. -/
def Stored (cr : ValkeyCluster) (w : World) : Prop :=
  ∃ c, w.kube.cluster = some c ∧ SameCluster cr c

/-- Shard `a` has `k` slots that shard `b` can take. -/
structure Movable (cr : ValkeyCluster) (w : World) (q : Placement) (a b k : Nat) : Prop where
  placed : Placed cr w q
  ne : a ≠ b
  le : k ≤ q.slots a
  pos : 0 < q.slots a
  set : b ∈ q.sets
  node : podFQDN cr b 0 ∈ w.fake.nodes

/-- A move of a pass from `p₀`: a new shard is filled, or a departing one drained. -/
def Wanted (cr : ValkeyCluster) (p₀ : Placement) (w : World) (q : Placement) (a b k : Nat) :
    Prop :=
  Placement.Fills cr.spec.shards p₀ q a b k ∧ Stored cr w ∨
    cr.spec.shards ≤ a ∧ 0 < p₀.slots a

/-- The calls of a pass from `p₀`. Slots are given out when nobody has any, and moved
between the first pods of two shards as it is wanted; no other call touches them. -/
def Careful (cr : ValkeyCluster) (p₀ : Placement) : Call → World → Prop
  | .admin (.addSlots ..), _ => p₀.total = 0
  | .admin (.moveSlots _ source target n), w => ∃ q a b k, Movable cr w q a b k ∧
      Wanted cr p₀ w q a b k ∧
      source = podFQDN cr a 0 ∧ target = podFQDN cr b 0 ∧ n = (k : Int)
  | .admin (.failover ..), _ | .admin (.rebalance ..), _ => False
  | .admin (.reshard ..), _ | .admin (.fix ..), _ => False
  | c, w => Spared c w

/-- The call moves slots. -/
def isMove : Call → Bool
  | .admin (.moveSlots ..) => true
  | _ => false

section

variable {cr : ValkeyCluster} {order : RangeOrders} {p₀ p q : Placement} {w w' : World} {k : Nat}

theorem Careful.spared {c : Call} (hc : Careful cr p₀ c w) : Spared c w := by
  unfold Careful at hc
  split at hc
  · trivial
  · trivial
  all_goals first | exact hc.elim | exact hc

theorem guards_careful : Guards cr p (Careful cr p₀) := by
  intro c w _ hc hstill
  unfold Careful
  split
  all_goals first | exact hstill.elim | exact hc

theorem Stored.of_cluster (h : Stored cr w) (hc : w'.kube.cluster = w.kube.cluster) :
    Stored cr w' := by
  obtain ⟨c, hcluster, hsame⟩ := h
  exact ⟨c, hc.trans hcluster, hsame⟩

/-! ## Forming -/

theorem size_distribute (n i : Nat) :
    (⟨(i : Int) * totalSlots / n, ((i : Int) + 1) * totalSlots / n - 1⟩ : SlotRange).size =
      Placement.share n i :=
  Slots.size_evenRange n i

/-- One round of the deal. -/
theorem succeeds_addSlots {slots : Nat → Nat} (hnone : p₀.total = 0) (h : Holds cr w.fake slots)
    {r : SlotRange} (hr : r.size = k) (i : Nat) :
    Succeeds (World.answer order) (Careful cr p₀) (fun _ w' => w'.kube = w.kube ∧
      Holds cr w'.fake (Function.update slots i (slots i + k)))
      (Admin.addSlots (endpoint cr i 0) [r]) w :=
  (Prog.runs_op (c := Call.admin (.addSlots (endpoint cr i 0) [r]))).2
    ⟨hnone, rfl, h.addSlots hr⟩

theorem getElem_distribute_zipIdx {n i : Nat} {x : SlotRange × Nat}
    (h : (Slots.distribute n).zipIdx[i]? = some x) :
    x.2 = i ∧ x.1.size = Placement.share n i := by
  rw [List.getElem?_zipIdx] at h
  obtain ⟨r, hr, rfl⟩ := Option.map_eq_some_iff.1 h
  obtain ⟨-, rfl⟩ := Slots.getElem?_distribute_eq_some.1 hr
  exact ⟨Nat.zero_add i, size_distribute n i⟩

/-- The whole deal. -/
theorem succeeds_deal {n : Nat} (hnone : p₀.total = 0) (h : Holds cr w.fake fun _ => 0) :
    Succeeds (World.answer order) (Careful cr p₀)
      (fun _ w' => w'.kube = w.kube ∧ Holds cr w'.fake (Placement.dealt n n))
      ((Slots.distribute n).zipIdx.forM fun (r, i) =>
        wrap ("addslots shard " ++ toString i) (Admin.addSlots (endpoint cr i 0) [r])) w := by
  have hlen : (Slots.distribute n).zipIdx.length = n := by
    rw [List.length_zipIdx, Slots.length_distribute]
  rw [← Placement.dealt_zero n] at h
  refine (Succeeds.forM (I := fun done w' => w'.kube = w.kube ∧
    Holds cr w'.fake (Placement.dealt n done.length))
    (fun done x todo hl w₁ hw₁ => ?_) ⟨rfl, h⟩).mono
    fun _ w' hw' => ⟨hw'.1, by rw [hlen] at hw'; exact hw'.2⟩
  obtain ⟨r, i⟩ := x
  have hx : (Slots.distribute n).zipIdx[done.length]? = some (r, i) := by simp [hl]
  obtain ⟨rfl, hr⟩ := getElem_distribute_zipIdx hx
  refine succeeds_wrap _ ((succeeds_addSlots hnone hw₁.2 hr done.length).mono fun _ w₂ hw₂ => ?_)
  rw [List.length_append, List.length_singleton, ← Placement.update_dealt]
  exact ⟨hw₂.1.trans hw₁.1, hw₂.2⟩

theorem succeeds_state {Q : ClusterState → World → Prop} (hQ : Q w.fake.state w) :
    Succeeds (World.answer order) (Careful cr p₀) Q (Admin.state (seed cr)) w :=
  (Prog.runs_op (c := Call.admin (.state (seed cr)))).2 ⟨trivial, hQ⟩

theorem succeeds_meetAll (h : Placed cr w p) :
    Succeeds (World.answer order) (Careful cr p₀) (fun _ => Undisturbed cr p w)
      ((allEndpoints cr).forM fun ep =>
        if ep.host = (seed cr).host then pure ()
        else wrap ("meet " ++ ep.host) (Admin.meet (seed cr) ep)) w := by
  refine Succeeds.forM_inv (fun ep hep w₁ hw₁ => ?_) (.refl h)
  obtain ⟨i, -, j, -, rfl⟩ := mem_allEndpoints.1 hep
  split
  · exact succeeds_pure.2 hw₁
  · exact succeeds_wrap _ ((succeeds_meet guards_careful hw₁.placed i j).mono
      fun _ w₂ hw₂ => hw₁.trans hw₂)

/-- Forming a cluster without slots deals them all out. -/
theorem succeeds_formCluster (hnone : p₀.total = 0) (h : Placed cr w p)
    (hempty : ∀ i, p.slots i = 0) (hq : q.sets = p.sets)
    (hslots : q.slots = Placement.dealt cr.spec.shards cr.spec.shards) :
    Succeeds (World.answer order) (Careful cr p₀)
      (fun _ w' => Placed cr w' q ∧ w'.kube = w.kube ∧ Attached cr w'.fake)
      (formCluster cr) w := by
  refine succeeds_bind.2 ((succeeds_meetAll h).mono fun _ w₁ hw₁ => ?_)
  have hholds : Holds cr w₁.fake fun _ => 0 := by
    have := hw₁.placed.holds
    rwa [funext hempty] at this
  refine succeeds_bind.2 ((succeeds_deal hnone hholds).mono fun _ w₂ hw₂ => ?_)
  have hplaced : Placed cr w₂ q := by
    refine ⟨hslots ▸ hw₂.2, ?_, fun i => ?_⟩
    · rw [hw₂.1]
      exact hw₁.placed.own
    · rw [hw₂.1, hq]
      exact hw₁.placed.hasSet i
  refine succeeds_bind.2 (succeeds_state ?_)
  refine (succeeds_attachReplicas_now guards_careful hplaced).mono fun _ w₃ hw₃ => ?_
  exact ⟨hw₃.1.placed, hw₃.1.kube.trans (hw₂.1.trans hw₁.kube), hw₃.2⟩

/-! ## Scaling out -/

/-- The search ends with the most slots any entry it may take has, and with an entry
that has them if that is more than it started with. -/
theorem foldl_fatter (excludeID : String) :
    ∀ (l : List (Σ _ : String, NodeInfo)) (best : String × Int),
      best.2 ≤ (l.foldl (fatter excludeID) best).2 ∧
      (∀ e ∈ l, e.1 ≠ excludeID → e.2.isPrimary = true →
        e.2.slotCount ≤ (l.foldl (fatter excludeID) best).2) ∧
      (l.foldl (fatter excludeID) best = best ∨
        best.2 < (l.foldl (fatter excludeID) best).2 ∧ ∃ e ∈ l, e.1 ≠ excludeID ∧
          l.foldl (fatter excludeID) best = (e.1, e.2.slotCount))
  | [], best => by simp
  | e :: l, best => by
      obtain ⟨hbest, hmax, hfound⟩ := foldl_fatter excludeID l (fatter excludeID best e)
      rw [List.foldl_cons]
      unfold fatter at hbest hmax hfound ⊢
      split at hbest
      · next hskip =>
          simp only [if_pos hskip] at hmax hfound ⊢
          refine ⟨hbest, ?_, hfound.imp_right fun ⟨hlt, e', he', h⟩ =>
            ⟨hlt, e', List.mem_cons_of_mem _ he', h⟩⟩
          intro e' he' hne hprimary
          rcases List.mem_cons.1 he' with rfl | he'
          · rcases hskip with h | h
            · exact absurd h hne
            · simp [h] at hprimary
          · exact hmax e' he' hne hprimary
      · next htake =>
          simp only [if_neg htake] at hmax hfound ⊢
          rw [not_or] at htake
          by_cases hgt : e.2.slotCount > best.2
          · simp only [if_pos hgt] at hbest hmax hfound ⊢
            refine ⟨by omega, ?_, Or.inr ⟨by omega, ?_⟩⟩
            · intro e' he' hne hprimary
              rcases List.mem_cons.1 he' with rfl | he'
              · exact hbest
              · exact hmax e' he' hne hprimary
            · rcases hfound with h | ⟨-, e', he', h⟩
              · exact ⟨e, List.mem_cons_self .., htake.1, h⟩
              · exact ⟨e', List.mem_cons_of_mem _ he', h⟩
          · simp only [if_neg hgt] at hbest hmax hfound ⊢
            refine ⟨hbest, ?_, hfound.imp_right fun ⟨hlt, e', he', h⟩ =>
              ⟨hlt, e', List.mem_cons_of_mem _ he', h⟩⟩
            intro e' he' hne hprimary
            rcases List.mem_cons.1 he' with rfl | he'
            · omega
            · exact hmax e' he' hne hprimary

/-- The fattest primary besides shard `k`'s, if any other shard owns slots. -/
theorem runs_fattestPrimary (h : Placed cr w q) {a₀ : Nat} (ha₀ : a₀ ≠ k)
    (hpos : 0 < q.slots a₀) :
    Prog.Runs (World.answer order) (Careful cr p₀)
      (fun r w' => w' = { w with ranges := w.ranges + 1 } ∧ ∃ a, a ≠ k ∧
        (∀ i, i ≠ k → q.slots i ≤ q.slots a) ∧ r = (podFQDN cr a 0, (q.slots a : Int)))
      (fattestPrimary (byID w.fake.state) (podFQDN cr k 0)) w := by
  refine Prog.runs_bind.2 ((Prog.runs_op (c := Call.rangeOver (byID w.fake.state))).2
    ⟨trivial, Prog.runs_pure.2 ⟨rfl, ?_⟩⟩)
  change ∃ a, _ ∧ _ ∧ (order w.ranges (byID w.fake.state)).1.foldl _ _ = _
  obtain ⟨l, hperm⟩ := order w.ranges (byID w.fake.state)
  have hmem : ∀ {key n}, ⟨key, n⟩ ∈ l ↔ w.fake.nodes.lookup key = some n := by
    intro key n
    rw [hperm.mem_iff, ← h.holds.lookup_byID]
    exact AList.mem_lookup_iff.symm
  obtain ⟨-, hmax, hfound⟩ := foldl_fatter (podFQDN cr k 0) l ("", 0)
  -- every other owner was looked at
  have hle : ∀ i, i ≠ k → (q.slots i : Int) ≤ (l.foldl (fatter (podFQDN cr k 0)) ("", 0)).2 := by
    intro i hi
    cases hn : w.fake.nodes.lookup (podFQDN cr i 0) with
    | none =>
        have hzero := h.holds.slots i
        rw [NodeMap.get, hn] at hzero
        rw [← hzero]
        exact (foldl_fatter (podFQDN cr k 0) l ("", 0)).1
    | some n =>
        rw [← h.holds.slotCount_eq hn]
        by_cases hzero : n.slotCount = 0
        · rw [hzero]
          exact (foldl_fatter (podFQDN cr k 0) l ("", 0)).1
        · exact hmax ⟨_, n⟩ (hmem.2 hn) (fun hkey => hi (podFQDN_inj hkey).1)
            ((h.holds.roles hn).owner hzero).2.1
  rcases hfound with hfound | ⟨hlt, ⟨key, n⟩, he, hne, hfound⟩
  · have := hle a₀ ha₀
    rw [hfound] at this
    omega
  · rw [hfound] at hlt hle ⊢
    obtain ⟨a, rfl, hcount, -⟩ := h.holds.owner (hmem.1 he) (Int.ne_of_gt hlt)
    refine ⟨a, fun hak => hne (by rw [hak]), fun i hi => ?_, by rw [hcount]⟩
    have := hle i hi
    simp only [hcount] at this
    omega

theorem succeeds_newPrimaryID (h : Placed cr w q) :
    Succeeds (World.answer order) (Careful cr p₀) (fun id w' => id = podFQDN cr k 0 ∧
      podFQDN cr k 0 ∈ w'.fake.nodes ∧ Undisturbed cr q w w') (newPrimaryID cr k) w := by
  refine succeeds_bind.2 (succeeds_wrap _ ((succeeds_myID guards_careful h k 0).mono ?_))
  rintro id w' ⟨rfl, hmem, hw'⟩
  simp only [if_neg (podFQDN_ne_empty cr k 0)]
  exact succeeds_pure.2 ⟨rfl, hmem, hw'⟩

theorem share_sub_cast (n x : Nat) :
    totalSlots / (n : Int) - (x : Int) = ((slotSpace / n : Nat) : Int) - x := rfl

theorem fillShard_done (ep : Endpoint) (shard : Nat) (id : String) {need : Int}
    (hneed : need ≤ 0) (idx : NodeMap) : ∀ fuel, fillShard ep shard id fuel need idx = pure ()
  | 0 => rfl
  | fuel + 1 => by rw [fillShard, if_pos hneed]

/-- The slots are moved, and everything stays in its place. -/
theorem Movable.moveSlots {a b x : Nat} (h : Movable cr w q a b x) :
    (w.fake.moveSlots (podFQDN cr a 0) (podFQDN cr b 0) x).1 = x ∧
      ∃ q', Placed cr { w with
          fake := (w.fake.moveSlots (podFQDN cr a 0) (podFQDN cr b 0) x).2 } q' ∧
        q'.sets = q.sets ∧ q'.slots = Placement.moved q.slots a b x := by
  have ha : podFQDN cr a 0 ∈ w.fake.nodes := by
    by_contra hnone
    have hzero := h.placed.holds.slots a
    rw [NodeMap.get, AList.lookup_eq_none.2 hnone] at hzero
    exact absurd (Int.ofNat_eq_zero.1 hzero.symm) (Nat.ne_of_gt h.pos)
  obtain ⟨hmoved, hholds⟩ := h.placed.holds.moveSlots h.ne h.le ha h.node
  refine ⟨hmoved, ⟨q.sets, Placement.moved q.slots a b x, fun i hi => ?_⟩,
    ⟨hholds, h.placed.own, h.placed.hasSet⟩, rfl, rfl⟩
  by_cases hib : i = b
  · rw [hib]
    exact h.set
  · by_cases hia : i = a
    · rw [hia]
      exact q.housed a h.pos
    · rw [Placement.moved_other hia hib] at hi
      exact q.housed i hi

/-- The moves the controller asks for are made. -/
theorem runs_moveSlots {a b x : Nat} (h : Movable cr w q a b x)
    (hwanted : Wanted cr p₀ w q a b x) :
    Prog.Runs (World.answer order) (Careful cr p₀) (fun r w' => r = ((x : Int), none) ∧
      w'.kube = w.kube ∧ ∃ q', Placed cr w' q' ∧ q'.sets = q.sets ∧
        q'.slots = Placement.moved q.slots a b x)
      (Admin.moveSlots (seed cr) (podFQDN cr a 0) (podFQDN cr b 0) x) w := by
  obtain ⟨hmoved, hplaced⟩ := h.moveSlots
  exact (Prog.runs_op (c := Call.admin (.moveSlots (seed cr) (podFQDN cr a 0)
    (podFQDN cr b 0) x))).2 ⟨⟨q, a, b, x, h, hwanted, rfl, rfl, rfl⟩,
      Prod.ext hmoved rfl, rfl, hplaced⟩

/-- Only the two first pods are touched. -/
theorem Follows.moveSlots {f : Fake} {i j : Nat} (h : Follows cr f i j) (hj : j ≠ 0)
    (a b : Nat) (n : Int) :
    Follows cr (f.moveSlots (podFQDN cr a 0) (podFQDN cr b 0) n).2 i j := by
  have hne : ∀ i', podFQDN cr i j ≠ podFQDN cr i' 0 := fun i' hkey => hj (podFQDN_inj hkey).2
  obtain ⟨node, hnode, hmaster⟩ := h
  refine ⟨node, ?_, hmaster⟩
  unfold Fake.moveSlots
  split
  · exact (lookup_modify_ne (hne b)).trans ((lookup_modify_ne (hne a)).trans hnode)
  · exact hnode

theorem emits_state_bind {f : ClusterState → Act Unit}
    {Q : Unit → World → List (Call × World) → Prop}
    (hf : Emits (World.answer order) (Careful cr p₀) isMove Q (f w.fake.state) w) :
    Emits (World.answer order) (Careful cr p₀) isMove Q (Admin.state (seed cr) >>= f) w := by
  have hstate : Succeeds (World.answer order) (Careful cr p₀)
      (fun st w' => st = w.fake.state ∧ w' = w) (Admin.state (seed cr)) w :=
    succeeds_state ⟨rfl, rfl⟩
  refine hstate.emits_bind (Prog.only_op.2 rfl) ?_
  rintro _ _ ⟨rfl, rfl⟩
  exact hf

/-- Shard `a`, the fattest of the others, has given shard `k` what it lacked of its share,
all at once and in `w₁`. -/
structure Given (cr : ValkeyCluster) (w : World) (q : Placement) (k a : Nat) (w₁ w' : World)
    (q' : Placement) : Prop where
  before : Undisturbed cr q w w₁
  kube : w'.kube = w.kube
  follows : ∀ i j, j ≠ 0 → Follows cr w₁.fake i j → Follows cr w'.fake i j
  placed : Placed cr w' q'
  ne : a ≠ k
  max : ∀ i, i ≠ k → q.slots i ≤ q.slots a
  sets : q'.sets = q.sets
  slots : q'.slots = Placement.moved q.slots a k (slotSpace / cr.spec.shards - q.slots k)

/-- One that lacks slots gets them from the fattest of the others, all at once. -/
theorem emits_fillNewShard_short (hc : Stored cr w) (h : Placed cr w q)
    (hfilled : Placement.Filled cr.spec.shards p₀.owners.card k p₀ q)
    (htotal : p₀.total = slotSpace) (hold : p₀.owners.card ≤ k) (hk : k < cr.spec.shards)
    (hneed : q.slots k < slotSpace / cr.spec.shards) (hset : k ∈ q.sets) :
    Emits (World.answer order) (Careful cr p₀) isMove (fun _ w' l => ∃ a w₁ q',
      Given cr w q k a w₁ w' q' ∧ l = [(.admin (.moveSlots (seed cr) (podFQDN cr a 0)
        (podFQDN cr k 0) ((slotSpace / cr.spec.shards - q.slots k : Nat) : Int)), w₁)])
      (fillNewShard cr k) w := by
  have hqtotal : q.total = slotSpace := hfilled.total.trans htotal
  have hlt : q.slots k < q.total := by
    have := Nat.div_le_self slotSpace cr.spec.shards
    omega
  obtain ⟨a₀, ha₀, hpos₀⟩ := Placement.exists_other hlt
  refine (succeeds_newPrimaryID h).emits_bind (only_newPrimaryID (fun _ => rfl) k) ?_
  rintro id w' ⟨rfl, hmem, hw'⟩
  refine emits_state_bind ?_
  simp only [hw'.placed.holds.get_byID, share_sub_cast]
  obtain ⟨m, hm⟩ : ∃ m, slotSpace / cr.spec.shards - q.slots k = m + 1 :=
    Nat.exists_eq_succ_of_ne_zero (by omega)
  have hcast : ((slotSpace / cr.spec.shards : Nat) : Int) - (q.slots k : Int) =
      ((m + 1 : Nat) : Int) := by omega
  have hgt : ¬ ((m + 1 : Nat) : Int) ≤ 0 := by omega
  rw [hcast, Int.toNat_natCast, fillShard, if_neg hgt, hm]
  refine (succeeds_lift.2 (runs_fattestPrimary hw'.placed ha₀ hpos₀)).emits_bind
    (only_lift (only_fattestPrimary (fun _ => rfl) _ _)) ?_
  rintro r w₁ ⟨rfl, a, ha, hmax, rfl⟩
  have hfat := Placement.share_lt_fattest hqtotal (hfilled.card_others_lt hold hk) hmax hneed
  have hid : ¬ (podFQDN cr a 0 = "" ∨ (q.slots a : Int) = 0) := by
    rintro (h | h)
    · exact podFQDN_ne_empty cr a 0 h
    · omega
  have hmin : min ((m + 1 : Nat) : Int) (q.slots a : Int) = ((m + 1 : Nat) : Int) := by omega
  simp only [if_neg hid, hmin]
  have hplaced : Placed cr { w' with ranges := w'.ranges + 1 } q :=
    ⟨hw'.placed.holds, hw'.placed.own, hw'.placed.hasSet⟩
  have hmovable : Movable cr { w' with ranges := w'.ranges + 1 } q a k (m + 1) :=
    ⟨hplaced, ha, by omega, by omega, hset, hmem⟩
  have hfills : Placement.Fills cr.spec.shards p₀ q a k (m + 1) :=
    ⟨hfilled, htotal, hold, hk, ha, hmax, hneed, hm.symm⟩
  obtain ⟨hmoved, q', hq', hsets, hslots⟩ := hmovable.moveSlots
  refine emits_op_bind rfl ⟨q, a, k, m + 1, hmovable,
    .inl ⟨hfills, hc.of_cluster (by rw [hw'.kube])⟩, rfl, rfl, rfl⟩ ?_
  have hne : ¬ ((m + 1 : Nat) : Int) = 0 := by omega
  simp only [World.answer, Fake.answer, hmoved, if_neg hne]
  refine emits_state_bind ?_
  rw [fillShard_done _ _ _ (by omega)]
  exact emits_pure ⟨a, _, q', ⟨⟨hplaced, hw'.kube, hw'.follows⟩, hw'.kube,
    fun i j hj hf => hf.moveSlots hj a k _, hq', ha, hmax, hsets, hm ▸ hslots⟩, rfl⟩

/-- One that has its share is left alone. -/
theorem emits_fillNewShard_full (h : Placed cr w q)
    (hfull : slotSpace / cr.spec.shards ≤ q.slots k) :
    Emits (World.answer order) (Careful cr p₀) isMove
      (fun _ w' l => l = [] ∧ Undisturbed cr q w w') (fillNewShard cr k) w := by
  refine (succeeds_newPrimaryID h).emits_bind (only_newPrimaryID (fun _ => rfl) k) ?_
  rintro id w' ⟨rfl, hmem, hw'⟩
  refine emits_state_bind ?_
  simp only [hw'.placed.holds.get_byID, share_sub_cast]
  rw [fillShard_done _ _ _ (by omega)]
  exact emits_pure ⟨rfl, hw'⟩

theorem succeeds_joinShard (h : Placed cr w q) (k : Nat) :
    Succeeds (World.answer order) (Careful cr p₀) (fun _ => Undisturbed cr q w)
      (joinShard cr k) w :=
  Succeeds.forM_inv (fun j _ _ hw₁ =>
    (succeeds_meet guards_careful hw₁.placed k j).mono fun _ _ hw₂ => hw₁.trans hw₂) (.refl h)

/-- Between two rounds of filling everybody is attached, and nobody has touched the
workloads. -/
structure Between (cr : ValkeyCluster) (w w₁ : World) (q : Placement) : Prop where
  placed : Placed cr w₁ q
  kube : w₁.kube = w.kube
  attached : Attached cr w₁.fake

theorem Between.undisturbed {w₁ w₂ : World} (h : Between cr w w₁ q)
    (hw : Undisturbed cr q w₁ w₂) : Between cr w w₂ q :=
  ⟨hw.placed, hw.kube.trans h.kube, fun i hi j hj hne => hw.follows i j (h.attached i hi j hj hne)⟩

theorem Between.given {w₁ w₂ w₃ : World} {a : Nat} {q' : Placement} (h : Between cr w w₁ q)
    (hgiven : Given cr w₁ q k a w₂ w₃ q') : Between cr w w₃ q' :=
  ⟨hgiven.placed, hgiven.kube.trans h.kube, fun i hi j hj hne =>
    hgiven.follows i j hne ((h.undisturbed hgiven.before).attached i hi j hj hne)⟩

theorem getElem?_range'_eq {s n i x : Nat} (h : (List.range' s n)[i]? = some x) :
    x = s + i ∧ i < n := by
  obtain ⟨hlt, hget⟩ := List.getElem?_eq_some_iff.1 h
  rw [List.length_range'] at hlt
  rw [List.getElem_range'] at hget
  exact ⟨by omega, hlt⟩

/-- Scaling out goes through the new shards one by one. `I` is about the shards up to which
it has come, the placement, and the moves so far. -/
theorem emits_scaleOut {I : Nat → Placement → List (Call × World) → Prop} {old : Nat}
    (h : Placed cr w p) (hold : old ≤ cr.spec.shards) (hI : I old p [])
    (hfill : ∀ k q w₁ l, old ≤ k → k < cr.spec.shards → Between cr w w₁ q → I k q l →
      Emits (World.answer order) (Careful cr p₀) isMove
        (fun _ w₂ l' => ∃ q', Between cr w w₂ q' ∧ I (k + 1) q' (l ++ l')) (fillNewShard cr k) w₁) :
    Emits (World.answer order) (Careful cr p₀) isMove
      (fun _ w' l => ∃ q, Between cr w w' q ∧ I cr.spec.shards q l) (scaleOut cr old) w := by
  have hattach : ∀ state, Prog.Only (fun c => isMove c = false) (attachReplicas cr state).run :=
    only_attachReplicas (fun _ => rfl) fun _ _ => rfl
  have hjoin : Succeeds (World.answer order) (Careful cr p₀) (fun _ => Undisturbed cr p w)
      ((List.range' old (cr.spec.shards - old)).forM (joinShard cr)) w :=
    Succeeds.forM_inv (fun k _ _ hw₁ =>
      (succeeds_joinShard hw₁.placed k).mono fun _ _ hw₂ => hw₁.trans hw₂) (.refl h)
  refine hjoin.emits_bind (only_forM fun k _ => only_joinShard (fun _ _ => rfl) k)
    fun _ w₁ hw₁ => emits_state_bind ?_
  refine (succeeds_attachReplicas_now guards_careful hw₁.placed).emits_bind (hattach _)
    fun _ w₂ hw₂ => ?_
  have hrounds : Emits (World.answer order) (Careful cr p₀) isMove
      (fun _ w' l => ∃ q, Between cr w w' q ∧ I cr.spec.shards q l)
      ((List.range' old (cr.spec.shards - old)).forM (fillNewShard cr)) w₂ := by
    have hw₂' : Between cr w w₂ p := ⟨hw₂.1.placed, hw₂.1.kube.trans hw₁.kube, hw₂.2⟩
    refine (Emits.forM (I := fun done w' l => ∃ q, Between cr w w' q ∧ I (old + done.length) q l)
      (fun done k todo hl w₃ l hw₃ => ?_) ⟨p, hw₂', hI⟩).mono fun _ w' l hw' => ?_
    · obtain ⟨q, hq, hIq⟩ := hw₃
      have hget : (List.range' old (cr.spec.shards - old))[done.length]? = some k := by simp [hl]
      obtain ⟨rfl, hlt⟩ := getElem?_range'_eq hget
      rw [List.length_append, List.length_singleton, ← Nat.add_assoc]
      exact hfill _ q w₃ l (by omega) (by omega) hq hIq
    · rw [List.length_range', Nat.add_sub_of_le hold] at hw'
      exact hw'
  refine emits_bind (hrounds.mono fun _ w₃ l hw₃ => emits_state_bind ?_)
  obtain ⟨q, hq, hIq⟩ := hw₃
  refine ((succeeds_attachReplicas_now guards_careful hq.placed).emits (hattach _)).mono ?_
  rintro _ w₄ _ ⟨rfl, hw₄, -⟩
  rw [List.append_nil]
  exact ⟨q, hq.undisturbed hw₄, hIq⟩

/-- Scaling out fills the shards from the number of owners on. -/
theorem succeeds_scaleOut (hc : Stored cr w) (h : Placed cr w p) (htotal : p.total = slotSpace)
    (hfew : p.owners.card < cr.spec.shards) (hsets : ∀ i < cr.spec.shards, i ∈ p.sets) :
    Succeeds (World.answer order) (Careful cr p)
      (fun _ w' => w'.kube = w.kube ∧ ∃ q, Placed cr w' q ∧
        Placement.Filled cr.spec.shards p.owners.card cr.spec.shards p q)
      (scaleOut cr p.owners.card) w := by
  refine (emits_scaleOut (I := fun k q _ => Placement.Filled cr.spec.shards p.owners.card k p q)
    h hfew.le (.refl ..) fun k q w₁ _ hold hk hw₁ hfilled => ?_).succeeds ?_
  · by_cases hfull : slotSpace / cr.spec.shards ≤ q.slots k
    · refine (emits_fillNewShard_full hw₁.placed hfull).mono ?_
      rintro _ w₂ _ ⟨-, hw₂⟩
      exact ⟨q, hw₁.undisturbed hw₂, hfilled.step_full hold (by omega) hfull⟩
    · refine (emits_fillNewShard_short (hc.of_cluster (by rw [hw₁.kube])) hw₁.placed hfilled htotal
        hold hk (by omega) (hfilled.sets ▸ hsets k hk)).mono ?_
      rintro _ w₂ _ ⟨a, w₀, q', hgiven, -⟩
      exact ⟨q', hw₁.given hgiven, hfilled.step_move hold hk htotal hgiven.ne hgiven.max
        (by omega) hgiven.sets hgiven.slots⟩
  · rintro _ w' _ ⟨q, hq, hfilled⟩
    exact ⟨hq.kube, q, hq.placed, hfilled⟩

/-! ## Scaling in -/

theorem runs_forgetShard (h : Placed cr w p) (hk : p.slots k = 0) :
    Prog.Runs (World.answer order) (Careful cr p₀) (fun _ w' => Placed cr w' p ∧ w'.kube = w.kube)
      (forgetShard cr k) w := by
  refine Prog.Runs.forM_inv (fun j _ w₁ hw₁ => ?_) ⟨h, rfl⟩
  refine Prog.runs_bind.2 (Prog.Runs.mono (succeeds_myID guards_careful hw₁.1 k j)
    fun r w₂ hr => ?_)
  cases r with
  | error e => exact hr.elim
  | ok id =>
      obtain ⟨rfl, -, hw₂⟩ := hr
      simp only [ne_eq, podFQDN_ne_empty, not_false_eq_true, if_true]
      have hempty : ∀ i, podFQDN cr k j = podFQDN cr i 0 → p.slots i = 0 := fun i hkey => by
        rw [← (podFQDN_inj hkey).1, hk]
      have hdrop : Prog.Runs (World.answer order) (Careful cr p₀)
          (fun _ => Dropped cr p (fun _ => False) w₂) (forgetEverywhere cr (podFQDN cr k j)) w₂ :=
        runs_forgetEverywhere guards_careful hempty id hw₂.placed
      exact hdrop.mono fun _ w₃ hw₃ => ⟨hw₃.placed, hw₃.kube.trans (hw₂.kube.trans hw₁.2)⟩

theorem succeeds_deleteShard_placed (h : Placed cr w p) (hk : p.slots k = 0) :
    Succeeds (World.answer order) (Careful cr p₀) (fun _ w' => Placed cr w' (p.remove k hk) ∧
      w'.kube.cluster = w.kube.cluster) (deleteShard cr k) w := by
  refine (succeeds_deleteShard (World.kubeBacked order) k trivial (fun _ _ => trivial)
    fun _ _ _ _ => trivial).mono ?_
  rintro _ _ ⟨kube, rfl, hsets, hcluster⟩
  have hown : OwnSets cr kube.statefulSets := hsets ▸ h.own.filter _
  refine ⟨⟨h.holds, hown, fun i => ?_⟩, hcluster⟩
  change HasSet cr kube.statefulSets i ↔ _
  rw [hsets, hasSet_deleted h.own, h.hasSet]
  simp [Placement.remove, and_comm]

/-- The first shard survives. -/
theorem runs_firstSurvivorPrimary {idx : NodeMap} (hidx : FirstsOwn cr idx)
    (hn : 0 < cr.spec.shards) (hk : k ≠ 0) (h : Placed cr w p) :
    Prog.Runs (World.answer order) (Careful cr p₀) (fun r w' => r = podFQDN cr 0 0 ∧
      podFQDN cr 0 0 ∈ w'.fake.nodes ∧ Undisturbed cr p w w')
      (firstSurvivorPrimary cr idx (podFQDN cr k 0) (List.range cr.spec.shards)) w := by
  obtain ⟨n, hn⟩ : ∃ n, cr.spec.shards = n + 1 := ⟨cr.spec.shards - 1, by omega⟩
  rw [hn, List.range_succ_eq_map, firstSurvivorPrimary]
  refine Prog.runs_bind.2 ((runs_findShardPrimary guards_careful hidx h).mono ?_)
  rintro r w' ⟨rfl, hmem, hw'⟩
  have hsurv : podFQDN cr 0 0 ≠ "" ∧ podFQDN cr 0 0 ≠ podFQDN cr k 0 :=
    ⟨podFQDN_ne_empty cr 0 0, fun hkey => hk (podFQDN_inj hkey).1.symm⟩
  simp only [if_pos hsurv]
  exact Prog.runs_pure.2 ⟨rfl, hmem, hw'⟩

theorem succeeds_drainShard {idx : NodeMap} (hidx : FirstsOwn cr idx)
    (hcount : (NodeMap.get idx (podFQDN cr k 0)).slotCount = p.slots k)
    (hn : 0 < cr.spec.shards) (hk : cr.spec.shards ≤ k) (hpos : 0 < p.slots k)
    (hslots : p.slots = p₀.slots) (hseed : 0 ∈ p.sets) (h : Placed cr w p) :
    Succeeds (World.answer order) (Careful cr p₀)
      (fun _ w' => w'.kube = w.kube ∧ ∃ q, Placed cr w' q ∧ q.sets = p.sets ∧
        q.slots = Placement.moved p.slots k 0 (min Placement.batch (p.slots k)))
      (drainShard cr k idx (podFQDN cr k 0)) w := by
  have hk0 : k ≠ 0 := by omega
  refine succeeds_bind.2 (succeeds_lift.2 ((runs_firstSurvivorPrimary hidx hn hk0 h).mono ?_))
  rintro r w' ⟨rfl, hmem, hw'⟩
  have hbatch : min drainBatchSlots (p.slots k : Int) =
      ((min Placement.batch (p.slots k) : Nat) : Int) := by
    simp only [drainBatchSlots, Placement.batch]
    omega
  simp only [if_neg (podFQDN_ne_empty cr 0 0), hcount, hbatch]
  have hmovable : Movable cr w' p k 0 (min Placement.batch (p.slots k)) :=
    ⟨hw'.placed, hk0, Nat.min_le_right .., hpos, hseed, hmem⟩
  refine succeeds_bind.2 (succeeds_lift.2 ((runs_moveSlots hmovable
    (.inr ⟨hk, hslots ▸ hpos⟩)).mono ?_))
  rintro r w₁ ⟨rfl, hkube, q, hq, hsets, hslots⟩
  exact succeeds_pure.2 ⟨hkube.trans hw'.kube, q, hq, hsets, hslots⟩

theorem succeeds_removeShards (hn : 0 < cr.spec.shards) :
    ∀ idxs : List Nat, idxs.Pairwise (· < ·) → ∀ (w : World) (p : Placement), Placed cr w p →
      p.slots = p₀.slots → 0 ∈ p.sets →
      Succeeds (World.answer order) (Careful cr p₀) (fun _ w' => w'.kube.cluster = w.kube.cluster ∧
        ∃ q, Placed cr w' q ∧ Placement.Removed cr.spec.shards idxs p q)
        (removeShards cr idxs) w := by
  intro idxs
  induction idxs with
  | nil =>
      intro _ w p h _ _
      exact succeeds_pure.2 ⟨rfl, p, h, .cleared (by simp) (by simp) rfl⟩
  | cons i idxs ih =>
      intro hsorted w p h hslots₀ hseed
      obtain ⟨hlt, hsorted⟩ := List.pairwise_cons.1 hsorted
      rw [removeShards]
      split
      · next hi =>
          refine (ih hsorted w p h hslots₀ hseed).mono ?_
          rintro _ w' ⟨hcluster, q, hq, hr⟩
          exact ⟨hcluster, q, hq, hr.skip hi⟩
      next hi =>
      refine succeeds_bind.2 (succeeds_state ?_)
      refine succeeds_bind.2 (succeeds_lift.2
        ((runs_findShardPrimary guards_careful h.holds.firstsOwn h).mono ?_))
      rintro r w₁ ⟨rfl, -, hw₁⟩
      have hcount := h.holds.get_byID i
      simp only [hcount, ne_eq, podFQDN_ne_empty, not_false_eq_true, true_and]
      split
      · next hpos =>
          refine (succeeds_drainShard h.holds.firstsOwn hcount hn (by omega) (by omega) hslots₀
            hseed hw₁.placed).mono ?_
          rintro _ w₂ ⟨hkube, q, hq, hsets, hslots⟩
          refine ⟨by rw [hkube, hw₁.kube], q, hq, .drained i (List.mem_cons_self ..) (by omega)
            (by omega) (fun k hk _ hki => ?_) ?_ hslots⟩
          · rcases List.mem_cons.1 hk with rfl | hk
            · omega
            · exact absurd (hlt k hk) (by omega)
          · rw [hsets, Finset.filter_true_of_mem]
            rintro k - ⟨hk, -, hki⟩
            rcases List.mem_cons.1 hk with rfl | hk
            · omega
            · exact absurd (hlt k hk) (by omega)
      · next hzero =>
          have hzero : p.slots i = 0 := by omega
          refine succeeds_bind.2 (succeeds_lift.2 ((runs_forgetShard hw₁.placed hzero).mono ?_))
          rintro _ w₂ ⟨hw₂, hkube₂⟩
          refine succeeds_bind.2 ((succeeds_deleteShard_placed hw₂ hzero).mono ?_)
          rintro _ w₃ ⟨hw₃, hcluster⟩
          have hseed' : 0 ∈ (p.remove i hzero).sets :=
            Finset.mem_erase.2 ⟨by omega, hseed⟩
          refine (ih hsorted w₃ _ hw₃ hslots₀ hseed').mono ?_
          rintro _ w₄ ⟨hc, q, hq, hr⟩
          refine ⟨?_, q, hq, hr.delete hzero (by omega) hlt⟩
          rw [hc, hcluster, hkube₂, hw₁.kube]

theorem succeeds_sweep (h : Placed cr w p) :
    Succeeds (World.answer order) (Careful cr p₀) (fun _ w' => Placed cr w' p ∧ w'.kube = w.kube)
      (sweep cr) w := by
  refine succeeds_bind.2 (succeeds_attempt.2
    ((Prog.runs_op (c := Call.admin (.state (seed cr)))).2 ⟨trivial, ?_⟩))
  refine succeeds_lift.2 ((runs_forgetStaleNodes guards_careful h.holds.id_eq_host h).mono ?_)
  exact fun _ w' hw' => ⟨hw'.placed, hw'.kube⟩

/-- Scaling in goes through all shards that have a StatefulSet. -/
theorem succeeds_scaleIn (h : Placed cr w p) (hn : 0 < cr.spec.shards) (hseed : 0 ∈ p.sets) :
    Succeeds (World.answer order) (Careful cr p) (fun _ w' => w'.kube.cluster = w.kube.cluster ∧
      ∃ q idxs, (∀ i, i ∈ idxs ↔ i ∈ p.sets) ∧ Placed cr w' q ∧
        Placement.Removed cr.spec.shards idxs p q) (scaleIn cr) w := by
  refine succeeds_bind.2 ((succeeds_sweep h).mono ?_)
  rintro _ w₁ ⟨hw₁, hkube⟩
  have hlist := exec_existingShardIndexes (World.kubeBacked order) hw₁.own
  refine succeeds_bind.2 (succeeds_iff.2 ⟨⟨_, _, hlist, ?_⟩, ?_⟩)
  · refine (succeeds_removeShards hn _ (setIndexes_pairwise hw₁.own) w₁ p
      hw₁ rfl hseed).mono ?_
    rintro _ w₂ ⟨hcluster, q, hq, hr⟩
    refine ⟨hcluster.trans (by rw [hkube]), q, _, fun i => ?_, hq, hr⟩
    exact (mem_setIndexes hw₁.own).trans (hw₁.hasSet i)
  · intro e he
    have hcall : e.1 = .kube (.listStatefulSets cr.nspace (instanceSelector cr)) :=
      (only_existingShardIndexes (P := (· = .kube (.listStatefulSets cr.nspace
        (instanceSelector cr)))) rfl).mem_trace e he
    rw [hcall]
    trivial

end

end Valkeyop.Controller
