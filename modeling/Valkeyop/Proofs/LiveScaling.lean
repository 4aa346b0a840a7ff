import Valkeyop.Proofs.FakeScaling
import Valkeyop.Proofs.Refinement

/-!
# Scaling a cluster that serves

What the controller does to the slots of a cluster when it scales, on servers with keys in them.
The loops are argued about on the ledger the servers stand for, where a move is an entry; that
the servers follow, and that no client notices, is the refinement.
-/

namespace Valkeyop.Cluster

open Valkeyop.Lib

variable {κ ν : Type}

/-! ## Counting in the books -/

namespace Ledger

/-- Every slot is with a listed primary. -/
def Served (nodes : List NodeInfo) (l : Ledger κ ν) : Prop :=
  ∀ s ∈ allSlots, ∃ m ∈ nodes, m.isPrimary = true ∧ l.owner s = some m.id

/-- Slots have changed hands, but only in favour of `id`. -/
structure Favours (id : String) (l l' : Ledger κ ν) : Prop where
  data : l'.data = l.data
  owner : ∀ s, l'.owner s = l.owner s ∨ l'.owner s = some id

section

variable {nodes : List NodeInfo} {l l' l'' : Ledger κ ν} {a b id : String} {n : Int}

theorem Favours.refl (id : String) (l : Ledger κ ν) : Favours id l l := ⟨rfl, fun _ => .inl rfl⟩

theorem Favours.trans (h : Favours id l l') (h' : Favours id l' l'') : Favours id l l'' where
  data := h'.data.trans h.data
  owner s := by
    rcases h'.owner s with heq | heq
    · rw [heq]
      exact h.owner s
    · exact .inr heq

theorem favours_reassign (sel : List Int) (id : String) (l : Ledger κ ν) :
    Favours id l (l.reassign sel id) where
  data := rfl
  owner s := by
    rw [owner_reassign]
    split
    · exact .inr rfl
    · exact .inl rfl

theorem Favours.served (h : Favours b l l') (hl : l.Served nodes) {m : NodeInfo} (hm : m ∈ nodes)
    (hmp : m.isPrimary = true) (hb : m.id = b) : l'.Served nodes := by
  intro s hs
  rcases h.owner s with heq | heq
  · rw [heq]
    exact hl s hs
  · exact ⟨m, hm, hmp, by rw [heq, hb]⟩

theorem mem_slotsOf {s : Int} : s ∈ l.slotsOf id ↔ s ∈ allSlots ∧ l.owner s = some id := by
  rw [slotsOf, List.mem_filter, decide_eq_true_iff]

theorem nodup_slotsOf : (l.slotsOf id).Nodup := nodup_allSlots.filter _

theorem nodup_chosen : (l.chosen a n).Nodup := nodup_slotsOf.sublist (List.take_sublist ..)

theorem length_chosen (hn : n ≤ (l.slotsOf a).length) : (l.chosen a n).length = n.toNat := by
  rw [chosen, List.length_take]
  omega

/-- What is taken from one is added to the other. -/
theorem length_slotsOf_target (hab : a ≠ b) :
    ((l.reassign (l.chosen a n) b).slotsOf b).length =
      (l.slotsOf b).length + (l.chosen a n).length := by
  have hperm : ((l.reassign (l.chosen a n) b).slotsOf b).Perm (l.slotsOf b ++ l.chosen a n) := by
    have hnodup : (l.slotsOf b ++ l.chosen a n).Nodup := by
      refine nodup_slotsOf.append nodup_chosen fun s hs hs' => ?_
      have howner := (mem_slotsOf.1 hs).2
      rw [owner_chosen hs'] at howner
      exact hab (Option.some.inj howner)
    refine (List.perm_ext_iff_of_nodup nodup_slotsOf hnodup).2 fun s => ?_
    rw [List.mem_append, mem_slotsOf, mem_slotsOf, owner_reassign]
    have hmem : s ∈ l.chosen a n → s ∈ allSlots := fun hs =>
      (mem_slotsOf.1 (List.mem_of_mem_take hs)).1
    by_cases hs : s ∈ l.chosen a n
    · simp [hs, hmem hs]
    · simp [hs]
  rw [hperm.length_eq, List.length_append]

theorem mem_slotsOf_source (hab : a ≠ b) {s : Int} :
    s ∈ (l.reassign (l.chosen a n) b).slotsOf a ↔ s ∈ l.slotsOf a ∧ s ∉ l.chosen a n := by
  rw [mem_slotsOf, mem_slotsOf, owner_reassign]
  by_cases hs : s ∈ l.chosen a n
  · simp [hs, Ne.symm hab]
  · simp [hs]

theorem length_slotsOf_source (hab : a ≠ b) :
    ((l.reassign (l.chosen a n) b).slotsOf a).length + (l.chosen a n).length =
      (l.slotsOf a).length := by
  have hperm : ((l.reassign (l.chosen a n) b).slotsOf a ++ l.chosen a n).Perm (l.slotsOf a) := by
    have hnodup : ((l.reassign (l.chosen a n) b).slotsOf a ++ l.chosen a n).Nodup :=
      nodup_slotsOf.append nodup_chosen fun _ hs => ((mem_slotsOf_source hab).1 hs).2
    refine (List.perm_ext_iff_of_nodup hnodup nodup_slotsOf).2 fun s => ?_
    rw [List.mem_append, mem_slotsOf_source hab]
    have hsub : s ∈ l.chosen a n → s ∈ l.slotsOf a := List.mem_of_mem_take
    by_cases hs : s ∈ l.chosen a n
    · simp [hs, hsub hs]
    · simp [hs]
  rw [← hperm.length_eq, List.length_append]

/-- Whoever has less than all the slots leaves some for another. -/
theorem Served.exists_other (hl : l.Served nodes) (hlt : (l.slotsOf b).length < 16384) :
    ∃ m ∈ nodes, m.isPrimary = true ∧ m.id ≠ b ∧ 0 < (l.slotsOf m.id).length := by
  have htotal : allSlots.length = 16384 := by simp [allSlots]
  obtain ⟨s, hs, hne⟩ : ∃ s ∈ allSlots, l.owner s ≠ some b := by
    by_contra hall
    have hevery : ∀ s ∈ allSlots, decide (l.owner s = some b) = true := fun s hs =>
      decide_eq_true (not_not.1 fun hne => hall ⟨s, hs, hne⟩)
    rw [slotsOf, List.filter_eq_self.2 hevery] at hlt
    omega
  obtain ⟨m, hm, hmp, howner⟩ := hl s hs
  refine ⟨m, hm, hmp, fun heq => hne (by rw [howner, heq]), ?_⟩
  exact List.length_pos_of_mem (mem_slotsOf.2 ⟨hs, howner⟩)

/-- If the primaries cannot all have more than `share`, and one has less, another has more. -/
theorem Served.exists_fatter (hl : l.Served nodes) {share : Nat} {t : NodeInfo} (ht : t ∈ nodes)
    (htp : t.isPrimary = true) (hfew : (nodes.filter (·.isPrimary)).length * share ≤ 16384)
    (hlt : (l.slotsOf t.id).length < share) :
    ∃ m ∈ nodes, m.isPrimary = true ∧ m.id ≠ t.id ∧ share < (l.slotsOf m.id).length := by
  by_contra hnone
  have htotal : allSlots.length = 16384 := by simp [allSlots]
  have hle : ∀ m ∈ nodes.filter (·.isPrimary), (l.slotsOf m.id).length ≤ share := by
    intro m hm
    obtain ⟨hm, hmp⟩ := List.mem_filter.1 hm
    by_cases hid : m.id = t.id
    · rw [hid]
      omega
    · exact Nat.le_of_not_lt fun hgt => hnone ⟨m, hm, hmp, hid, hgt⟩
  have hcover : allSlots ⊆ (nodes.filter (·.isPrimary)).flatMap fun m => l.slotsOf m.id := by
    intro s hs
    obtain ⟨m, hm, hmp, howner⟩ := hl s hs
    exact List.mem_flatMap.2 ⟨m, List.mem_filter.2 ⟨hm, hmp⟩, mem_slotsOf.2 ⟨hs, howner⟩⟩
  have hlen := (nodup_allSlots.subperm hcover).length_le
  have hsum := List.sum_lt_sum (fun m : NodeInfo => (l.slotsOf m.id).length) (fun _ => share) hle
    ⟨t, List.mem_filter.2 ⟨ht, htp⟩, hlt⟩
  rw [List.length_flatMap] at hlen
  simp only [List.map_const', List.sum_replicate, smul_eq_mul] at hsum
  omega

/-- Nobody but the two ends is concerned. -/
theorem slotsOf_reassign (hida : id ≠ a) (hidb : id ≠ b) :
    (l.reassign (l.chosen a n) b).slotsOf id = l.slotsOf id := by
  refine List.filter_congr fun s _ => ?_
  rw [owner_reassign]
  split
  · next hs =>
      rw [owner_chosen hs]
      simp [Ne.symm hida, Ne.symm hidb]
  · rfl

theorem slotCount_listed (m : NodeInfo) :
    (m.withSlots (slotRuns (l.slotsOf m.id))).slotCount = (l.slotsOf m.id).length := by
  rw [NodeInfo.slotCount, NodeInfo.slots_withSlots,
    ← length_flatMap_slots _ fun r hr => (mem_slotRuns hr).2.2, flatMap_slotRuns]

end

end Ledger

end Valkeyop.Cluster

namespace Valkeyop.Controller

open Valkeyop.Lib Valkeyop.Lib.Fallible Valkeyop.Cluster Valkeyop.Api

variable {κ ν : Type}

section

variable {nodes : List NodeInfo} {idAt : String → String} {orders : RangeOrders} {ep : Endpoint}
  {w : Site (Ledger κ ν)} {l : Ledger κ ν} {b : String}

theorem lookup_byID_listed (hids : (nodes.map (·.id)).Nodup) {id : String} {n : NodeInfo} :
    (byID (l.state nodes)).lookup id = some n ↔
      ∃ m ∈ nodes, m.id = id ∧ n = m.withSlots (slotRuns (l.slotsOf m.id)) := by
  have hlisted : ((l.listed nodes).map NodeInfo.id).Nodup := by rwa [map_id_listed]
  rw [byID, Ledger.state, lookup_indexBy hlisted, Ledger.listed, List.mem_map]
  constructor
  · rintro ⟨⟨m, hm, rfl⟩, hid⟩
    rw [NodeInfo.id_withSlots] at hid
    exact ⟨m, hm, hid, rfl⟩
  · rintro ⟨m, hm, hid, rfl⟩
    rw [NodeInfo.id_withSlots]
    exact ⟨⟨m, hm, rfl⟩, hid⟩

theorem slotCount_get_byID (hids : (nodes.map (·.id)).Nodup) {m : NodeInfo} (hm : m ∈ nodes) :
    (NodeMap.get (byID (l.state nodes)) m.id).slotCount = (l.slotsOf m.id).length := by
  rw [NodeMap.get, (lookup_byID_listed hids).2 ⟨m, hm, rfl, rfl⟩, Option.getD_some,
    Ledger.slotCount_listed]

/-- As long as somebody else has slots, the search finds one who has as many as anybody. -/
theorem runs_fattestPrimary_listed (hids : (nodes.map (·.id)).Nodup) (hl : w.cluster.Served nodes)
    (hlt : (w.cluster.slotsOf b).length < 16384) :
    Prog.Runs (Site.answer (Ledger.answer nodes idAt) orders) (fun c _ => Booked nodes ep c)
      (fun r w' => w' = { w with ranges := w.ranges + 1 } ∧ ∃ m ∈ nodes, m.isPrimary = true ∧
        m.id ≠ b ∧ 0 < (w.cluster.slotsOf m.id).length ∧
        (∀ m' ∈ nodes, m'.isPrimary = true → m'.id ≠ b →
          (w.cluster.slotsOf m'.id).length ≤ (w.cluster.slotsOf m.id).length) ∧
        r = (m.id, ((w.cluster.slotsOf m.id).length : Int)))
      (fattestPrimary (byID (w.cluster.state nodes)) b) w := by
  refine Prog.runs_bind.2 ((Prog.runs_op (c := Call.rangeOver (byID (w.cluster.state nodes)))).2
    ⟨trivial, Prog.runs_pure.2 ⟨rfl, ?_⟩⟩)
  change ∃ m, _ ∧ _ ∧ _ ∧ _ ∧ _ ∧
    (orders w.ranges (byID (w.cluster.state nodes))).1.foldl _ _ = _
  obtain ⟨entries, hperm⟩ := orders w.ranges (byID (w.cluster.state nodes))
  have hmem : ∀ {key n}, ⟨key, n⟩ ∈ entries ↔
      ∃ m ∈ nodes, m.id = key ∧ n = m.withSlots (slotRuns (w.cluster.slotsOf m.id)) := by
    intro key n
    rw [hperm.mem_iff, ← lookup_byID_listed hids]
    exact AList.mem_lookup_iff.symm
  obtain ⟨m₀, hm₀, hmp₀, hne₀, hpos₀⟩ := hl.exists_other hlt
  obtain ⟨-, hmax, hfound⟩ := foldl_fatter b entries ("", 0)
  have hle : ∀ m ∈ nodes, m.isPrimary = true → m.id ≠ b →
      ((w.cluster.slotsOf m.id).length : Int) ≤ (entries.foldl (fatter b) ("", 0)).2 := by
    intro m hm hmp hne
    have hcount := hmax ⟨m.id, m.withSlots (slotRuns (w.cluster.slotsOf m.id))⟩
      (hmem.2 ⟨m, hm, rfl, rfl⟩) hne (by rwa [NodeInfo.isPrimary_withSlots])
    rwa [Ledger.slotCount_listed] at hcount
  have hsome := hle m₀ hm₀ hmp₀ hne₀
  rcases hfound with hfound | ⟨hpos, ⟨key, n⟩, he, hne, hfound⟩
  · rw [hfound] at hsome
    omega
  · obtain ⟨m, hm, rfl, rfl⟩ := hmem.1 he
    rw [Ledger.slotCount_listed] at hfound
    rw [hfound] at hpos hle
    have hlen : 0 < (w.cluster.slotsOf m.id).length := by
      simp only [] at hpos
      omega
    -- an owner is a primary, since every slot is with one
    obtain ⟨s, hs⟩ := List.exists_mem_of_length_pos hlen
    obtain ⟨hs, howner⟩ := Ledger.mem_slotsOf.1 hs
    obtain ⟨m', hm', hmp', howner'⟩ := hl s hs
    rw [howner] at howner'
    obtain rfl := List.inj_on_of_nodup_map hids hm hm' (Option.some.inj howner')
    exact ⟨m, hm, hmp', hne, hlen, fun m' hm' hmp' hne' => Int.ofNat_le.1 (hle m' hm' hmp' hne'),
      hfound⟩

theorem succeeds_state_listed {Q : ClusterState → Site (Ledger κ ν) → Prop}
    (hQ : Q (w.cluster.state nodes) w) :
    Succeeds (Site.answer (Ledger.answer nodes idAt) orders) (fun c _ => Booked nodes ep c) Q
      (Admin.state ep) w :=
  (Prog.runs_op (c := Call.admin (.state ep))).2 ⟨rfl, hQ⟩

theorem runs_moveSlots_listed {s t : NodeInfo} {n : Int}
    {Q : Int × Option Err → Site (Ledger κ ν) → Prop}
    (hs : s ∈ nodes) (hsp : s.isPrimary = true) (ht : t ∈ nodes) (htp : t.isPrimary = true)
    (hne : s.id ≠ t.id) (hQ : Q ((w.cluster.chosen s.id n).length, none)
      { w with cluster := w.cluster.reassign (w.cluster.chosen s.id n) t.id }) :
    Prog.Runs (Site.answer (Ledger.answer nodes idAt) orders) (fun c _ => Booked nodes ep c) Q
      (Admin.moveSlots ep s.id t.id n) w :=
  (Prog.runs_op (c := Call.admin (.moveSlots ep s.id t.id n))).2
    ⟨⟨rfl, ⟨s, hs, hsp, rfl⟩, ⟨t, ht, htp, rfl⟩, hne⟩, hQ⟩

/-- The loop ends with the share it was meant to reach: each round takes all it needs from the
fattest, or everything the fattest has. With no more primaries than shares there are, whoever has
a share or less is left alone. -/
theorem succeeds_fillShard (hids : (nodes.map (·.id)).Nodup) (hnames : ∀ m ∈ nodes, m.id ≠ "")
    {t : NodeInfo} (ht : t ∈ nodes) (htp : t.isPrimary = true) (shard : Nat) {share : Nat}
    (hshare : share ≤ 16384) :
    ∀ (fuel : Nat) (need : Int) (w : Site (Ledger κ ν)),
      need = (share : Int) - (w.cluster.slotsOf t.id).length → need ≤ fuel →
      w.cluster.Served nodes →
      Succeeds (Site.answer (Ledger.answer nodes idAt) orders) (fun c _ => Booked nodes ep c)
        (fun _ w' => w'.kube = w.kube ∧ w.cluster.Favours t.id w'.cluster ∧
          (w'.cluster.slotsOf t.id).length = max (w.cluster.slotsOf t.id).length share ∧
          ((nodes.filter (·.isPrimary)).length * share ≤ 16384 → ∀ m ∈ nodes, m.id ≠ t.id →
            (w.cluster.slotsOf m.id).length ≤ share →
            w'.cluster.slotsOf m.id = w.cluster.slotsOf m.id))
        (fillShard ep shard t.id fuel need (byID (w.cluster.state nodes))) w := by
  intro fuel
  induction fuel with
  | zero =>
      intro need w hneed hfuel _
      exact succeeds_pure.2 ⟨rfl, .refl .., by omega, fun _ _ _ _ _ => rfl⟩
  | succ fuel ih =>
      intro need w hneed hfuel hl
      rw [fillShard]
      split
      · exact succeeds_pure.2 ⟨rfl, .refl .., by omega, fun _ _ _ _ _ => rfl⟩
      · next hpos =>
          have hlt : (w.cluster.slotsOf t.id).length < 16384 := by omega
          refine succeeds_bind.2 (succeeds_lift.2
            ((runs_fattestPrimary_listed hids hl hlt).mono ?_))
          rintro r w₁ ⟨rfl, m, hm, hmp, hne, hlen, hmax, rfl⟩
          have hgive : ¬ (m.id = "" ∨ ((w.cluster.slotsOf m.id).length : Int) = 0) := by
            rintro (h | h)
            · exact hnames m hm h
            · omega
          simp only [if_neg hgive]
          obtain ⟨n, hn⟩ : ∃ n, n = min need ((w.cluster.slotsOf m.id).length : Int) := ⟨_, rfl⟩
          have hmoved : (w.cluster.chosen m.id n).length = n.toNat :=
            Ledger.length_chosen (by omega)
          have hcount := Ledger.length_slotsOf_target (l := w.cluster) (n := n) hne
          have hfavours := Ledger.favours_reassign (w.cluster.chosen m.id n) t.id w.cluster
          rw [← hn]
          refine succeeds_bind.2 (succeeds_lift.2 (runs_moveSlots_listed hm hmp ht htp hne ?_))
          have hsome : ¬ ((w.cluster.chosen m.id n).length : Int) = 0 := by omega
          simp only [if_neg hsome]
          refine succeeds_bind.2 (succeeds_state_listed ?_)
          refine (ih _ _ ?_ ?_ (hfavours.served hl ht htp rfl)).mono ?_
          · simp only [hcount]
            push_cast
            omega
          · omega
          · rintro _ w' ⟨hkube, hfav, hlen', hrest⟩
            refine ⟨hkube, hfavours.trans hfav, ?_, fun hfew m' hm' hne' hle' => ?_⟩
            · rw [hlen']
              simp only [hcount]
              omega
            · -- the giver has more than a share, so it is somebody else
              obtain ⟨m₁, hm₁, hmp₁, hne₁, hgt₁⟩ := hl.exists_fatter ht htp hfew (by omega)
              have hgiver := hmax m₁ hm₁ hmp₁ hne₁
              have hother : m'.id ≠ m.id := fun heq => by
                rw [heq] at hle'
                omega
              have hsame : (w.cluster.reassign (w.cluster.chosen m.id n) t.id).slotsOf m'.id =
                  w.cluster.slotsOf m'.id := Ledger.slotsOf_reassign hother hne'
              rw [← hsame]
              exact hrest hfew m' hm' hne' (by simpa only [hsame] using hle')

/-- A new shard gets its share. -/
theorem succeeds_fillNewShard {cr : ValkeyCluster} {shard : Nat} {t : NodeInfo}
    (hids : (nodes.map (·.id)).Nodup) (hnames : ∀ m ∈ nodes, m.id ≠ "") (ht : t ∈ nodes)
    (htp : t.isPrimary = true)
    (hat : idAt (dialAddr (endpoint cr shard 0).host (endpoint cr shard 0).port) = t.id)
    (hl : w.cluster.Served nodes) :
    Succeeds (Site.answer (Ledger.answer nodes idAt) orders)
      (fun c _ => Booked nodes (seed cr) c)
      (fun _ w' => w'.kube = w.kube ∧ w.cluster.Favours t.id w'.cluster ∧
        (w'.cluster.slotsOf t.id).length =
          max (w.cluster.slotsOf t.id).length (16384 / cr.spec.shards) ∧
        ((nodes.filter (·.isPrimary)).length * (16384 / cr.spec.shards) ≤ 16384 →
          ∀ m ∈ nodes, m.id ≠ t.id → (w.cluster.slotsOf m.id).length ≤ 16384 / cr.spec.shards →
          w'.cluster.slotsOf m.id = w.cluster.slotsOf m.id))
      (fillNewShard cr shard) w := by
  have hmyID : Succeeds (Site.answer (Ledger.answer nodes idAt) orders)
      (fun c _ => Booked nodes (seed cr) c) (fun id w' => id = t.id ∧ w' = w)
      (Admin.myID (endpoint cr shard 0)) w :=
    (Prog.runs_op (c := Call.admin (.myID (endpoint cr shard 0)))).2 ⟨trivial, hat, rfl⟩
  have hnewID : Succeeds (Site.answer (Ledger.answer nodes idAt) orders)
      (fun c _ => Booked nodes (seed cr) c) (fun id w' => id = t.id ∧ w' = w)
      (newPrimaryID cr shard) w := by
    refine succeeds_bind.2 (succeeds_wrap _ (hmyID.mono ?_))
    rintro _ _ ⟨rfl, rfl⟩
    simp only [if_neg (hnames t ht)]
    exact succeeds_pure.2 ⟨rfl, rfl⟩
  refine succeeds_bind.2 (hnewID.mono ?_)
  rintro _ w ⟨rfl, rfl⟩
  refine succeeds_bind.2 (succeeds_state_listed ?_)
  simp only [slotCount_get_byID hids ht, share_sub_cast, slotSpace]
  have hle : 16384 / cr.spec.shards ≤ 16384 := Nat.div_le_self 16384 _
  generalize 16384 / cr.spec.shards = share at hle ⊢
  generalize hneed : (share : Int) - ((w.cluster.slotsOf t.id).length : Int) = need
  exact succeeds_fillShard hids hnames ht htp shard hle need.toNat need w hneed.symm
    (Int.self_le_toNat need) hl

/-- The new shards from `old` on have joined: their first pods are listed as primaries. -/
structure Joined (cr : ValkeyCluster) (nodes : List NodeInfo) (idAt : String → String) (old : Nat)
    (primary : Nat → NodeInfo) : Prop where
  listed : ∀ i, old ≤ i → i < cr.spec.shards → primary i ∈ nodes
  isPrimary : ∀ i, old ≤ i → i < cr.spec.shards → (primary i).isPrimary = true
  dialled : ∀ i, old ≤ i → i < cr.spec.shards →
    idAt (dialAddr (endpoint cr i 0).host (endpoint cr i 0).port) = (primary i).id
  apart : ∀ i j, old ≤ i → i < cr.spec.shards → old ≤ j → j < cr.spec.shards →
    (primary i).id = (primary j).id → i = j

/-- What filling the shards of `done` has made of a ledger. -/
structure Widening (cr : ValkeyCluster) (nodes : List NodeInfo) (old : Nat)
    (primary : Nat → NodeInfo) (l : Ledger κ ν) (done : List Nat) (l' : Ledger κ ν) : Prop where
  served : l'.Served nodes
  data : l'.data = l.data
  owner : ∀ s, l'.owner s = l.owner s ∨
    ∃ i, old ≤ i ∧ i < cr.spec.shards ∧ l'.owner s = some (primary i).id
  room : ∀ i, old ≤ i → i < cr.spec.shards →
    (l'.slotsOf (primary i).id).length ≤ 16384 / cr.spec.shards
  filled : ∀ i ∈ done, old ≤ i → i < cr.spec.shards →
    (l'.slotsOf (primary i).id).length = 16384 / cr.spec.shards

/-- Filling one new shard after the other gives each its share, and takes none back. -/
theorem succeeds_fillNewShards {cr : ValkeyCluster} {old : Nat} {primary : Nat → NodeInfo}
    (hids : (nodes.map (·.id)).Nodup) (hnames : ∀ m ∈ nodes, m.id ≠ "")
    (hjoined : Joined cr nodes idAt old primary)
    (hfew : (nodes.filter (·.isPrimary)).length ≤ cr.spec.shards) (hl : w.cluster.Served nodes)
    (hroom : ∀ i, old ≤ i → i < cr.spec.shards →
      (w.cluster.slotsOf (primary i).id).length ≤ 16384 / cr.spec.shards) :
    Succeeds (Site.answer (Ledger.answer nodes idAt) orders)
      (fun c _ => Booked nodes (seed cr) c)
      (fun _ w' => w'.kube = w.kube ∧ Widening cr nodes old primary w.cluster
        (List.range' old (cr.spec.shards - old)) w'.cluster)
      ((List.range' old (cr.spec.shards - old)).forM (fillNewShard cr)) w := by
  have hshares : (nodes.filter (·.isPrimary)).length * (16384 / cr.spec.shards) ≤ 16384 :=
    (Nat.mul_le_mul_right _ hfew).trans (Nat.mul_div_le 16384 cr.spec.shards)
  have hstart : Widening cr nodes old primary w.cluster [] w.cluster :=
    ⟨hl, rfl, fun _ => .inl rfl, hroom, fun _ h => absurd h List.not_mem_nil⟩
  refine Succeeds.forM (I := fun done (w' : Site (Ledger κ ν)) => w'.kube = w.kube ∧
    Widening cr nodes old primary w.cluster done w'.cluster) ?_ ⟨rfl, hstart⟩
  rintro done i todo hsplit w₁ ⟨hkube, h⟩
  have hi : old ≤ i ∧ i < cr.spec.shards := by
    have hmem : i ∈ List.range' old (cr.spec.shards - old) := hsplit ▸ by simp
    rw [List.mem_range'_1] at hmem
    omega
  refine (succeeds_fillNewShard hids hnames (hjoined.listed i hi.1 hi.2)
    (hjoined.isPrimary i hi.1 hi.2) (hjoined.dialled i hi.1 hi.2) h.served).mono ?_
  rintro _ w₂ ⟨hkube₂, hfavours, hlen, hrest⟩
  have hfull : (w₂.cluster.slotsOf (primary i).id).length = 16384 / cr.spec.shards := by
    have := h.room i hi.1 hi.2
    omega
  have hsame : ∀ j, old ≤ j → j < cr.spec.shards → j ≠ i →
      w₂.cluster.slotsOf (primary j).id = w₁.cluster.slotsOf (primary j).id :=
    fun j hj hj' hne => hrest hshares _ (hjoined.listed j hj hj')
      (fun heq => hne (hjoined.apart j i hj hj' hi.1 hi.2 heq)) (h.room j hj hj')
  refine ⟨hkube₂.trans hkube, hfavours.served h.served (hjoined.listed i hi.1 hi.2)
    (hjoined.isPrimary i hi.1 hi.2) rfl, hfavours.data.trans h.data, fun s => ?_,
    fun j hj hj' => ?_, fun j hdone hj hj' => ?_⟩
  · rcases hfavours.owner s with heq | heq
    · rw [heq]
      exact h.owner s
    · exact .inr ⟨i, hi.1, hi.2, heq⟩
  · by_cases hji : j = i
    · rw [hji, hfull]
    · rw [hsame j hj hj' hji]
      exact h.room j hj hj'
  · by_cases hji : j = i
    · rw [hji, hfull]
    · rw [hsame j hj hj' hji]
      have hbefore : j ∈ done := by simpa [hji] using hdone
      exact h.filled j hbefore hj hj'

end

/-! ## On servers -/

section

variable [DecidableEq κ] {slotOf : κ → Int} {p : Printer κ ν} {seed : Endpoint} {fuel : Nat}
  {nodes : List NodeInfo} {idAt : String → String} {l : Ledger κ ν} {net : Net κ ν}

/-- A program that goes through on the ledger goes through on the servers, to the same end. -/
theorem succeeds_servers {α : Type} {prog : Act α} {order : List Int → List Int}
    (horder : ∀ l, (order l).Perm l) {orders : RangeOrders} {kube : ApiServer} {ranges : Nat}
    {Q : α → Site (Ledger κ ν) → Prop} (h : Stands slotOf p seed fuel nodes idAt l net)
    (hprog : Succeeds (Site.answer (Ledger.answer nodes idAt) orders)
      (fun c _ => Booked nodes seed c) Q prog ⟨l, kube, ranges⟩) :
    ∃ a w' v, exec (Site.answer (Net.answer slotOf p order fuel) orders) prog ⟨net, kube, ranges⟩ =
        (.ok a, v) ∧ Q a w' ∧ v.kube = w'.kube ∧
      Stands slotOf p seed fuel nodes idAt w'.cluster v.cluster ∧ w'.cluster.data = l.data := by
  obtain ⟨⟨a, w', hexec, hQ⟩, hcalls⟩ := succeeds_iff.1 hprog
  have hstart : Mirrored slotOf p seed fuel nodes idAt l.data ⟨net, kube, ranges⟩
      ⟨l, kube, ranges⟩ := ⟨h, rfl, rfl, rfl⟩
  obtain ⟨hresult, hend⟩ := hstart.run horder hcalls
  rw [exec] at hexec
  rw [hexec] at hresult hend
  exact ⟨a, w', _, Prod.ext hresult rfl, hQ, hend.kube, hend.stands, hend.data⟩

end

/-- Scaling out a cluster that serves: with the new shards joined and at most as many primaries
as shards, handing out slots goes through, and each new shard ends with its share. Slots only go
to new shards. The masters agree on the new arrangement, and a client that asks any of them for
any key reads what it would have read before. -/
theorem fillNewShards_serving [DecidableEq κ] {slotOf : κ → Int} {p : Printer κ ν}
    {cr : ValkeyCluster} {fuel : Nat} {nodes : List NodeInfo} {idAt : String → String}
    {l : Ledger κ ν} {net : Net κ ν} {order : List Int → List Int} {old : Nat}
    {primary : Nat → NodeInfo} {addrOf : String → String} (orders : RangeOrders)
    (kube : ApiServer) (ranges : Nat) (horder : ∀ l, (order l).Perm l)
    (h : Stands slotOf p (seed cr) fuel nodes idAt l net)
    (hl : l.Served nodes) (hjoined : Joined cr nodes idAt old primary)
    (hfew : (nodes.filter (·.isPrimary)).length ≤ cr.spec.shards)
    (hroom : ∀ i, old ≤ i → i < cr.spec.shards →
      (l.slotsOf (primary i).id).length ≤ 16384 / cr.spec.shards)
    (haddr : ∀ m ∈ nodes, addrOf m.id = clientFor m) :
    ∃ l' v, exec (Site.answer (Net.answer slotOf p order fuel) orders)
        ((List.range' old (cr.spec.shards - old)).forM (fillNewShard cr)) ⟨net, kube, ranges⟩ =
        (.ok ⟨⟩, v) ∧ v.kube = kube ∧ Stands slotOf p (seed cr) fuel nodes idAt l' v.cluster ∧
      (∀ i, old ≤ i → i < cr.spec.shards →
        (l'.slotsOf (primary i).id).length = 16384 / cr.spec.shards) ∧
      (∀ s, l'.owner s = l.owner s ∨
        ∃ i, old ≤ i ∧ i < cr.spec.shards ∧ l'.owner s = some (primary i).id) ∧
      ∀ k, slotOf k ∈ allSlots → ∀ x ∈ masterClients nodes,
        fetch slotOf addrOf v.cluster k 2 x false = some (l.data k) := by
  have hfill : Succeeds (Site.answer (Ledger.answer nodes idAt) orders)
      (fun c _ => Booked nodes (seed cr) c) _ _ (⟨l, kube, ranges⟩ : Site (Ledger κ ν)) :=
    succeeds_fillNewShards h.nodup_ids h.names hjoined hfew hl hroom
  obtain ⟨_, w', v, hexec, ⟨hkube, hw⟩, hv, hstands, hdata⟩ := succeeds_servers horder h hfill
  refine ⟨w'.cluster, v, hexec, hv.trans hkube, hstands, fun i hi hi' => ?_, hw.owner,
    fun k hk x hx => ?_⟩
  · exact hw.filled i (List.mem_range'_1.2 (by omega)) hi hi'
  · obtain ⟨m, hm, hmp, howner⟩ := hw.served _ hk
    rw [hstands.fetch haddr hm hmp howner hx, hdata]

/-- The second of two shards is new and gets half of the slots, with the key. -/
theorem fillNewShards_serving_twin :
    ∃ (l' : Ledger Nat String) (v : Site (Net Nat String)),
      exec (Site.answer (Net.answer (fun _ => 0) twinPrinter id 2) fun _ => asWritten)
        ((List.range' 1 ((twin 2).spec.shards - 1)).forM (fillNewShard (twin 2)))
        ⟨twinNet fun _ => true, { cluster := some (twin 2) }, 0⟩ = (.ok ⟨⟩, v) ∧
      (l'.slotsOf "b").length = 8192 ∧
      (∀ s, (v.cluster "10.0.0.1:6379").owner s = l'.owner s) ∧
      fetch (fun _ => 0) twinAddr v.cluster 0 2 "10.0.0.1:6379" false = some (some "x") := by
  have horder : ∀ l : List Int, (id l).Perm l := fun l => .refl l
  have hserved : (twinLedger fun _ => true).Served twinNodes := fun _ _ =>
    ⟨twinA, mem_twinNodes.1, by decide, rfl⟩
  have hshards : (twin 2).spec.shards = 2 := rfl
  have hjoined : Joined (twin 2) twinNodes (fun x => twinName (twinPrinter.home x)) 1
      fun _ => twinB := by
    have hdial : twinName (twinPrinter.home (dialAddr (endpoint (twin 2) 1 0).host
        (endpoint (twin 2) 1 0).port)) = twinB.id := by decide
    refine ⟨fun _ _ _ => mem_twinNodes.2, fun _ _ _ => by decide, fun i hi hi' => ?_,
      fun i j hi hi' hj hj' _ => by omega⟩
    obtain rfl : i = 1 := by omega
    exact hdial
  have hempty : (twinLedger fun _ => true).slotsOf "b" = [] := by
    simp [Ledger.slotsOf, twinLedger]
  have hfew : (twinNodes.filter (·.isPrimary)).length ≤ (twin 2).spec.shards := by decide
  have haddr : ∀ m ∈ twinNodes, twinAddr m.id = clientFor m := by decide
  obtain ⟨l', v, hexec, -, hstands, hfull, -, hread⟩ := fillNewShards_serving
    (fun _ => asWritten) { cluster := some (twin 2) } 0 horder (stands_twin 2 fun _ => true)
    hserved hjoined hfew
    (fun i hi hi' => by
      rw [show twinB.id = "b" from rfl, hempty]
      exact Nat.zero_le _) haddr
  have hsettled := hstands.intact.settled
  rw [masterClients_listed] at hsettled
  exact ⟨l', v, hexec, hfull 1 le_rfl (by omega), hsettled.owner _ twinA_master,
    hread 0 (mem_allSlots.2 (by decide)) _ twinA_master⟩

end Valkeyop.Controller
