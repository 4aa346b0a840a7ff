import Valkeyop.Proofs.Observation

/-!
# What a repair leaves behind

Two questions about `RepairSlots` that do not depend on how many strays it managed to
collect. Wherever it stops, and whatever the network did to its commands, no value has been
lost, made up or overwritten: it migrates without `REPLACE`, so a copy of a key either stays
where it is or turns up at the owner of its slot. And where everything answers, its markers
are the ones that are left afterwards: those of slots nobody with an address owns, and those
of servers that are not listed as masters. No further repair gets rid of them.
-/

namespace Valkeyop.Cluster

open Valkeyop.Lib Valkeyop.Lib.Text Valkeyop.Api Valkeyop.Controller Valkeyop.Topology Prog

variable {κ ν : Type} [DecidableEq κ]

/-! ## Wherever it stops -/

/-- A `MIGRATE` without `REPLACE` that failed may, like any other, have copied a key without
removing it, as long as the key was new to the target. -/
def Torn (slotOf : κ → Int) (texts : Texts κ ν) : Service (Rpc κ) Rpc.Reply (Net κ ν)
  | .migrate a host port keys false, net, r, net' =>
      Valkey slotOf texts (.migrate a host port keys false) net r net' ∨
        (∃ e, r = Except.error e) ∧ host ≠ "" ∧
          (∀ k ∈ keys, (net (dialAddr host port)).get k = none) ∧
          Net.MovedPart a (dialAddr host port) keys net net'
  | c, net, r, net' => Valkey slotOf texts c net r net'

theorem torn_of_valkey {slotOf : κ → Int} {texts : Texts κ ν} {c : Rpc κ} {r : c.Reply}
    {net net' : Net κ ν} (h : Valkey slotOf texts c net r net') :
    Torn slotOf texts c net r net' := by
  unfold Torn
  split
  · exact .inl h
  · exact h

section

variable (slotOf : κ → Int) (nodes : List NodeInfo)

/-- A key is only ever sent to the owner of its slot, from somewhere else, alone, and never to
replace another. -/
def Gathers : Rpc κ → Prop
  | .migrate a host port keys replace => replace = false ∧ ∃ k owner, keys = [k] ∧
      ownerOf nodes (slotOf k) = some owner ∧ dialAddr host port = clientFor owner ∧
      a ≠ clientFor owner
  | _ => True

/-- Each copy of a key is where it was, or the owner of its slot has it; and there is nothing
that was not there. -/
structure Gathered (net₀ net : Net κ ν) : Prop where
  copies : ∀ x k v, (net₀ x).get k = some v → (net x).get k = some v ∨
    ∃ owner, ownerOf nodes (slotOf k) = some owner ∧ (net (clientFor owner)).get k = some v
  origin : ∀ x k v, (net x).get k = some v → ∃ y, (net₀ y).get k = some v

end

section

variable {slotOf : κ → Int} {texts : Texts κ ν} {nodes : List NodeInfo} {net₀ net net' : Net κ ν}

theorem Gathered.of_store (h : Gathered slotOf nodes net₀ net)
    (hs : ∀ x, (net' x).store = (net x).store) : Gathered slotOf nodes net₀ net' := by
  have hget : ∀ x k, (net' x).get k = (net x).get k := fun x k => by
    rw [Server.get, Server.get, hs]
  exact ⟨by simpa only [hget] using h.copies, by simpa only [hget] using h.origin⟩

/-- The owner lacks the key, so a copy of it harms nobody. -/
theorem Gathered.copyKey (h : Gathered slotOf nodes net₀ net) {a : String} {k : κ}
    {owner : NodeInfo} (hk : (net (clientFor owner)).get k = none) :
    Gathered slotOf nodes net₀ (net.copyKey a (clientFor owner) k) := by
  have hgrow : ∀ x j v, (net x).get j = some v →
      (net.copyKey a (clientFor owner) k x).get j = some v := by
    intro x j v hv
    by_cases hx : x = clientFor owner
    · subst hx
      rw [Net.copyKey_target_get, if_neg, hv]
      rintro ⟨rfl, -⟩
      rw [hk] at hv
      cases hv
    · rwa [Net.copyKey_of_ne _ _ hx]
  refine ⟨fun x j v hv => ?_, fun x j v hv => ?_⟩
  · rcases h.copies x j v hv with hx | ⟨o, ho, hx⟩
    · exact .inl (hgrow x j v hx)
    · exact .inr ⟨o, ho, hgrow _ j v hx⟩
  · by_cases hx : x = clientFor owner
    · subst hx
      rw [Net.copyKey_target_get] at hv
      split at hv
      · next hj => exact h.origin a j v (hj.1 ▸ hv)
      · exact h.origin _ j v hv
    · rw [Net.copyKey_of_ne _ _ hx] at hv
      exact h.origin x j v hv

theorem Gathered.moveKey (h : Gathered slotOf nodes net₀ net) {a : String} {k : κ}
    {owner : NodeInfo} (howner : ownerOf nodes (slotOf k) = some owner)
    (ha : a ≠ clientFor owner) (hk : (net (clientFor owner)).get k = none) :
    Gathered slotOf nodes net₀ (net.moveKey a (clientFor owner) k) := by
  have hcopy := h.copyKey (a := a) hk
  -- what is dropped at the source is what the owner has just got
  have hkeep : ∀ x j v, (net.copyKey a (clientFor owner) k x).get j = some v →
      (net.moveKey a (clientFor owner) k x).get j = some v ∨ x = a ∧ j = k := by
    intro x j v hv
    by_cases hx : x = a
    · subst hx
      by_cases hj : j = k
      · exact .inr ⟨rfl, hj⟩
      · left
        rw [Net.moveKey_source _ _ ha, Server.get_drop_of_ne _ hj,
          ← Net.copyKey_of_ne net k ha]
        exact hv
    · left
      rw [Net.moveKey, Net.modify_of_ne _ _ hx]
      exact hv
  have howned : ∀ v, (net.copyKey a (clientFor owner) k a).get k = some v →
      (net.moveKey a (clientFor owner) k (clientFor owner)).get k = some v := by
    intro v hv
    rw [Net.copyKey_of_ne _ _ ha] at hv
    rw [Net.moveKey_target _ _ ha, Net.copyKey_target_get, if_pos ⟨rfl, by simp [hv]⟩, hv]
  refine ⟨fun x j v hv => ?_, fun x j v hv => ?_⟩
  · rcases hcopy.copies x j v hv with hx | ⟨o, ho, hx⟩
    · rcases hkeep x j v hx with hx' | ⟨rfl, rfl⟩
      · exact .inl hx'
      · exact .inr ⟨owner, howner, howned v hx⟩
    · rcases hkeep _ j v hx with hx' | ⟨hoa, rfl⟩
      · exact .inr ⟨o, ho, hx'⟩
      · exact .inr ⟨owner, howner, howned v (hoa ▸ hx)⟩
  · refine hcopy.origin x j v ?_
    by_cases hx : x = a
    · subst hx
      rw [Net.moveKey, Net.modify_self] at hv
      by_cases hj : j = k
      · subst hj
        rw [Server.get_drop_self] at hv
        cases hv
      · rwa [Server.get_drop_of_ne _ hj] at hv
    · rwa [Net.moveKey, Net.modify_of_ne _ _ hx] at hv

/-- Every command of a repair keeps to it, whatever becomes of the command. -/
theorem Gathered.step (h : Gathered slotOf nodes net₀ net) {c : Rpc κ} {r : c.Reply}
    (hc : Gathers slotOf nodes c) (hr : Torn slotOf texts c net r net') :
    Gathered slotOf nodes net₀ net' := by
  have hmark : ∀ {can : Prop} {x : String} {f : Server κ ν → Server κ ν}
      {r : Except String Unit}, Carried can net (net.modify x f) r net' →
      (∀ v, (f v).store = v.store) → Gathered slotOf nodes net₀ net' := by
    intro can x f r hr hf
    rcases hr.cases with ⟨-, rfl⟩ | ⟨-, rfl⟩
    · exact h
    · exact h.of_store fun y => Net.modify_proj Server.store f hf x y
  match c with
  | .clusterInfo _ | .clusterNodes _ | .getKeysInSlot .. =>
      obtain rfl := hr.1
      exact h
  | .setSlotImporting .. | .setSlotMigrating .. | .setSlotStable .. | .setSlotNode .. =>
      exact hmark hr fun _ => rfl
  | .migrate a host port keys replace =>
      obtain ⟨rfl, k, owner, rfl, howner, hdial, ha⟩ := hc
      rw [Torn, hdial] at hr
      rcases hr with hr | ⟨-, -, hnew, hpart⟩
      · rw [Valkey, hdial] at hr
        rcases hr.cases with ⟨-, rfl⟩ | ⟨⟨-, hnew⟩, rfl⟩
        · exact h
        · exact h.moveKey howner ha (hnew k (by simp))
      · cases hpart with
        | left hrest =>
            cases hrest
            exact h
        | copied hrest =>
            cases hrest
            exact h.copyKey (hnew k (by simp))
        | moved hrest =>
            cases hrest
            exact h.moveKey howner ha (hnew k (by simp))

end

section

variable {slotOf : κ → Int} {nodes : List NodeInfo} {owner : NodeInfo}

omit [DecidableEq κ] in
theorem migrateStrays_gathers {s : Int} (howner : ownerOf nodes s = some owner)
    (hip : owner.ip ≠ "") {a : String} (ha : a ≠ clientFor owner) :
    ∀ ks : List κ, (∀ k ∈ ks, slotOf k = s) →
      (migrateStrays a owner ks).Only (Gathers slotOf nodes) := by
  have hdial : dialAddr owner.ip owner.port = clientFor owner := by rw [clientFor, if_neg hip]
  intro ks
  induction ks with
  | nil => exact fun _ => trivial
  | cons k ks ih =>
      intro hks
      refine Only.bind (only_op.2 ⟨rfl, k, owner, rfl, ?_, hdial, ha⟩) fun _ =>
        ih fun j hj => hks j (by simp [hj])
      rw [hks k (by simp), howner]

omit [DecidableEq κ] in
theorem assertOwner_gathers (s : Int) :
    ∀ rest : List NodeInfo, (assertOwner owner s rest : RpcProg κ Unit).Only
      (Gathers slotOf nodes) := by
  intro rest
  induction rest with
  | nil => trivial
  | cons n rest ih =>
      rw [assertOwner]
      split
      · exact Only.bind (only_op.2 trivial) fun _ => Only.bind (only_op.2 trivial) fun _ => ih
      · exact ih

end

section

variable {slotOf : κ → Int} {texts : Texts κ ν} {nodes : List NodeInfo} {net₀ : Net κ ν}

/-- A program of such commands keeps to it at every call and at the end. -/
theorem wp_of_gathers {α : Type} {p : RpcProg κ α} (hp : p.Only (Gathers slotOf nodes)) :
    ∀ {net : Net κ ν}, Gathered slotOf nodes net₀ net → p.Wp Quiet (Torn slotOf texts)
      (fun _ => Gathered slotOf nodes net₀) (fun _ => Gathered slotOf nodes net₀) net := by
  induction p with
  | ret a => exact fun h => wp_quiet_pure.2 h
  | call c k ih =>
      intro net h net₁ h₁
      rw [quiet_eq h₁]
      exact ⟨h, fun r net' hr => ih r (hp.2 r) (h.step hp.1 hr)⟩

variable {owner : NodeInfo} {slot : Int}

/-- The keys of a stray are of the slot, so they go to its owner. -/
theorem collectStrays_wp (howner : ownerOf nodes slot = some owner) (hip : owner.ip ≠ "")
    (hown : ∀ n ∈ nodes, Stray owner n → clientFor n ≠ clientFor owner) :
    ∀ (rest : List NodeInfo) (net : Net κ ν), (∀ n ∈ rest, n ∈ nodes) →
      Gathered slotOf nodes net₀ net →
      (collectStrays owner slot rest).Wp Quiet (Torn slotOf texts)
        (fun _ => Gathered slotOf nodes net₀) (fun _ => Gathered slotOf nodes net₀) net := by
  intro rest
  induction rest with
  | nil => exact fun _ _ h => wp_quiet_pure.2 h
  | cons n rest ih =>
      intro net hrest h
      have hlater := fun m hm => hrest m (List.mem_cons_of_mem n hm)
      rw [collectStrays]
      split
      · exact ih net hlater h
      · next hskip =>
          have hn : Stray owner n := by simpa [Stray] using hskip
          rw [hn.dialAddr_eq]
          refine wp_quiet_op_bind.2 ⟨h, fun r net' hr => ?_⟩
          obtain ⟨rfl, hkeys⟩ := hr
          have hslot : ∀ k ∈ r.toOption.getD [], slotOf k = slot := by
            intro k hk
            cases r with
            | error e => cases hk
            | ok l => exact (Server.mem_keysIn.1 ((hkeys l rfl).2.1 k hk)).2
          refine wp_bind.2 (Wp.mono (wp_of_gathers (migrateStrays_gathers howner hip
            (hown n (hrest n (by simp)) hn) _ hslot) h) fun _ net₁ h₁ => ?_)
          exact ih net₁ hlater h₁

theorem repairEach_wp (hnodup : (nodes.map clientFor).Nodup) :
    ∀ (slots : List Int) (repaired : Nat) (net : Net κ ν), Gathered slotOf nodes net₀ net →
      (repairEach nodes slots repaired).Wp Quiet (Torn slotOf texts)
        (fun _ => Gathered slotOf nodes net₀) (fun _ => Gathered slotOf nodes net₀) net := by
  intro slots
  induction slots with
  | nil => exact fun _ _ h => wp_quiet_pure.2 h
  | cons slot slots ih =>
      intro repaired net h
      rw [repairEach]
      split
      · exact ih repaired net h
      · next owner howner =>
          split
          · exact ih repaired net h
          · next hip =>
              refine wp_bind.2 ((collectStrays_wp howner hip
                (Stray.clientFor_ne hnodup (ownerOf_mem howner)) nodes net (fun _ hn => hn)
                h).mono fun _ net₁ h₁ => wp_bind.2 ?_)
              exact (wp_of_gathers (assertOwner_gathers slot nodes) h₁).mono fun _ net₂ h₂ =>
                ih _ net₂ h₂

omit [DecidableEq κ] in
theorem openSlotsSeen_gathers :
    ∀ rest : List NodeInfo, (openSlotsSeen rest : RpcProg κ (List Int)).Only
      (Gathers slotOf nodes) := by
  intro rest
  induction rest with
  | nil => trivial
  | cons n rest ih =>
      rw [openSlotsSeen]
      split
      · exact ih
      · refine Only.bind (only_op.2 trivial) fun r => ?_
        cases r with
        | error e => exact ih
        | ok raw => exact Only.bind ih fun _ => trivial

omit [DecidableEq κ] in
theorem collectOpenSlots_gathers (order : List Int → List Int) (rest : List NodeInfo) :
    (collectOpenSlots order rest : RpcProg κ (List Int)).Only (Gathers slotOf nodes) :=
  Only.bind (openSlotsSeen_gathers rest) fun _ => trivial

/-- Wherever `RepairSlots` stops, each copy of a key is where it was before, or the owner of
its slot has it; and no server holds a value that none held before. Commands may be lost, fail
after they were carried out, or, like any `MIGRATE`, break off between the copy and the
removal. -/
theorem repairSlots_stopped_anywhere {order : List Int → List Int} {seed : Endpoint}
    {net : Net κ ν} {p : RpcProg κ (Nat × Option String)}
    (hnodes : parseNodes (texts.nodes net₀ (dialAddr seed.host seed.port)) = nodes)
    (hnodup : (nodes.map clientFor).Nodup)
    (hrun : Reaches Quiet (Torn slotOf texts) (repairSlots order seed, net₀) (p, net)) :
    (∀ x k v, (net₀ x).get k = some v → (net x).get k = some v ∨
      ∃ owner, ownerOf nodes (slotOf k) = some owner ∧
        (net (clientFor owner)).get k = some v) ∧
    ∀ x k v, (net x).get k = some v → ∃ y, (net₀ y).get k = some v := by
  have hstart : Gathered slotOf nodes net₀ net₀ :=
    ⟨fun _ _ _ h => .inl h, fun x _ _ h => ⟨x, h⟩⟩
  have hwp : (repairSlots order seed).Wp Quiet (Torn slotOf texts)
      (fun _ => Gathered slotOf nodes net₀) (fun _ => Gathered slotOf nodes net₀) net₀ := by
    rw [repairSlots]
    refine wp_quiet_op_bind.2 ⟨hstart, fun r net' hr => ?_⟩
    obtain ⟨rfl, hraw⟩ := hr
    cases r with
    | error e => exact wp_quiet_pure.2 hstart
    | ok raw =>
        simp only [hraw raw rfl, hnodes]
        refine wp_bind.2 (Wp.mono (wp_of_gathers (collectOpenSlots_gathers order nodes) hstart)
          fun seen net₁ h₁ => ?_)
        split
        · exact wp_quiet_pure.2 h₁
        · exact wp_bind.2 ((repairEach_wp hnodup seen 0 net₁ h₁).mono fun _ _ h₂ =>
            wp_quiet_pure.2 h₂)
  have hend := hwp.invariant (fun _ _ h => h) (fun _ _ h => h) hrun
  exact ⟨hend.copies, hend.origin⟩

end

/-- The owner has the key too, so the stray copy has to stay. -/
theorem repairSlots_stopped_stray :
    ∃ x, (((repairSlots id pairSeed).after
      (fated pairSlotOf (pairTexts pairLineOpen pairLineB) fun _ => .answered) 5
      strayNet).2 x).get 0 = some "y" := by
  have hrun := reaches_after (E := Quiet) (fun c net => torn_of_valkey (fated_valkey pairSlotOf
    (pairTexts pairLineOpen pairLineB) (fun _ => .answered) c net)) 5
    (repairSlots id pairSeed) strayNet
  generalize (repairSlots id pairSeed).after (fated pairSlotOf
    (pairTexts pairLineOpen pairLineB) fun _ => .answered) 5 strayNet = stop at hrun ⊢
  obtain ⟨p, net⟩ := stop
  have hcopies := (repairSlots_stopped_anywhere (parseNodes_pair_open _ _) (by decide) hrun).1
  have hheld : (strayNet (clientFor pairB)).get 0 = some "y" := by
    rw [strayNet, Net.modify_self, Server.get_put_self]
  rcases hcopies _ _ _ hheld with hstays | ⟨owner, -, hcarried⟩
  · exact ⟨_, hstays⟩
  · exact ⟨_, hcarried⟩

/-! ## What is cleared -/

/-- The markers at the places `C` are gone and the others are as before; there, and only there,
a server may have learnt of an owner. -/
structure Cleared (C : String → Int → Prop) (net net' : Net κ ν) : Prop where
  id : ∀ x, (net' x).id = (net x).id
  gone : ∀ x s, C x s → (net' x).migrating s = none ∧ (net' x).importing s = none
  kept : ∀ x s, ¬ C x s → (net' x).migrating s = (net x).migrating s ∧
    (net' x).importing s = (net x).importing s ∧ (net' x).owner s = (net x).owner s
  owned : ∀ x s, (net x).owner s ≠ none → (net' x).owner s ≠ none

section

variable {C C' : String → Int → Prop} {net net₁ net' : Net κ ν}

omit [DecidableEq κ] in
theorem Cleared.of_sameViews (h : Net.SameViews net net') : Cleared (fun _ _ => False) net net' := by
  refine ⟨fun x => ?_, fun _ _ h => h.elim, fun x s _ => ?_, fun x s hs => ?_⟩
  all_goals obtain ⟨st, hst⟩ := h x
  · rw [hst]
  · rw [hst]
    exact ⟨rfl, rfl, rfl⟩
  · rwa [hst]

omit [DecidableEq κ] in
theorem Cleared.trans (h : Cleared C net net₁) (h' : Cleared C' net₁ net') :
    Cleared (fun x s => C x s ∨ C' x s) net net' where
  id x := (h'.id x).trans (h.id x)
  gone x s hs := by
    by_cases hC' : C' x s
    · exact h'.gone x s hC'
    · obtain ⟨hm, hi, -⟩ := h'.kept x s hC'
      rw [hm, hi]
      exact h.gone x s (hs.resolve_right hC')
  kept x s hs := by
    obtain ⟨hC, hC'⟩ := not_or.1 hs
    obtain ⟨hm, hi, ho⟩ := h.kept x s hC
    obtain ⟨hm', hi', ho'⟩ := h'.kept x s hC'
    exact ⟨hm'.trans hm, hi'.trans hi, ho'.trans ho⟩
  owned x s hs := h'.owned x s (h.owned x s hs)

omit [DecidableEq κ] in
theorem Cleared.congr (h : Cleared C net net') (hC : ∀ x s, C x s ↔ C' x s) :
    Cleared C' net net' := by
  obtain rfl : C = C' := by
    ext x s
    exact hC x s
  exact h

omit [DecidableEq κ] in
/-- A server that drops the markers of a slot, and may learn its owner. -/
theorem Cleared.modify (a : String) (slot : Int) {f : Server κ ν → Server κ ν}
    (hid : ∀ v, (f v).id = v.id)
    (hgone : ∀ v, (f v).migrating slot = none ∧ (f v).importing slot = none)
    (hkept : ∀ v, ∀ s ≠ slot, (f v).migrating s = v.migrating s ∧
      (f v).importing s = v.importing s ∧ (f v).owner s = v.owner s)
    (howned : ∀ v, v.owner slot ≠ none → (f v).owner slot ≠ none) :
    Cleared (fun x s => s = slot ∧ x = a) net (net.modify a f) where
  id x := Net.modify_proj Server.id f hid a x
  gone := by
    rintro x s ⟨rfl, rfl⟩
    rw [Net.modify_self]
    exact hgone _
  kept x s hs := by
    by_cases hx : x = a
    · subst hx
      rw [Net.modify_self]
      exact hkept _ s fun h => hs ⟨h, rfl⟩
    · rw [Net.modify_of_ne _ _ hx]
      exact ⟨rfl, rfl, rfl⟩
  owned x s hs := by
    by_cases hx : x = a
    · subst hx
      rw [Net.modify_self]
      by_cases h : s = slot
      · exact h ▸ howned _ (h ▸ hs)
      · rwa [(hkept _ s h).2.2]
    · rwa [Net.modify_of_ne _ _ hx]

omit [DecidableEq κ] in
theorem Cleared.setStable (a : String) (slot : Int) :
    Cleared (fun x s => s = slot ∧ x = a) net (net.modify a (Server.setStable slot)) := by
  refine .modify a slot (fun _ => rfl) (fun v => ?_) (fun v s hs => ?_) fun _ h => h
  · simp [Server.setStable]
  · simp [Server.setStable, Function.update_of_ne hs]

omit [DecidableEq κ] in
theorem Cleared.setNode (a : String) (slot : Int) (id : String) :
    Cleared (fun x s => s = slot ∧ x = a) net (net.modify a (Server.setNode slot id)) := by
  refine .modify a slot (fun _ => rfl) (fun v => ?_) (fun v s hs => ?_) fun v _ => ?_
  · simp [Server.setNode, Server.setStable]
  · simp [Server.setNode, Server.setStable, Function.update_of_ne hs]
  · rw [Server.owner_setNode]
    simp

end

section

variable {slotOf : κ → Int} {texts : Texts κ ν} {nodes : List NodeInfo} {owner : NodeInfo}

theorem gather_sameViews {fate : Rpc κ → Fate} {s : Int} :
    ∀ (rest : List NodeInfo) (net : Net κ ν),
      Net.SameViews net (rest.foldl (gather slotOf fate owner s) net) := by
  have hcarry : ∀ (a : String) (lost : κ → Prop) [DecidablePred lost] (ks : List κ)
      (net : Net κ ν), Net.SameViews net (ks.foldl (carry lost a (clientFor owner)) net) := by
    intro a lost _ ks
    induction ks with
    | nil => exact fun net => .refl net
    | cons k ks ih =>
        intro net
        refine Net.SameViews.trans ?_ (ih _)
        unfold carry
        split
        · exact .refl net
        · exact .moveKey net _ _ _
  intro rest
  induction rest with
  | nil => exact fun net => .refl net
  | cons n rest ih =>
      intro net
      refine Net.SameViews.trans ?_ (ih _)
      unfold gather
      split
      · exact hcarry _ _ _ _
      · exact .refl net

variable (slotOf texts) in
theorem setSlotNode_cleared (a : String) (slot : Int) (id : String) (net : Net κ ν) :
    ∃ C : String → Int → Prop, (∀ x s, C x s → s = slot ∧ x = a) ∧ Cleared C net
      ((setSlotNode a slot id).run (fated slotOf texts fun _ => .answered) net).2 := by
  change ∃ C : String → Int → Prop, _ ∧ Cleared C net
    (prompt slotOf texts (.setSlotNode a slot id) net).2
  rw [prompt]
  split
  · exact ⟨_, fun _ _ h => h.elim, .of_sameViews (.refl net)⟩
  · exact ⟨_, fun _ _ h => h, .setNode a slot id⟩

/-- The assertions clear the slot on every master, also on one that refuses the owner. -/
theorem assertOwner_cleared (slot : Int) :
    ∀ (rest : List NodeInfo) (net : Net κ ν),
      Cleared (fun x s => s = slot ∧ x ∈ masterClients rest) net
        ((assertOwner owner slot rest).run (fated slotOf texts fun _ => .answered) net).2 := by
  intro rest
  induction rest with
  | nil =>
      intro net
      refine (Cleared.of_sameViews (.refl net)).congr fun x s => ?_
      simp [masterClients]
  | cons n rest ih =>
      intro net
      rw [assertOwner]
      split
      · next hn =>
          rw [Prog.run_bind, Prog.run_bind]
          obtain ⟨C, hC, hnode⟩ := setSlotNode_cleared slotOf texts (clientFor n) slot owner.id
            (net.modify (clientFor n) (Server.setStable slot))
          refine (((Cleared.setStable (clientFor n) slot).trans hnode).trans (ih _)).congr
            fun x s => ?_
          have hmem : x ∈ masterClients (n :: rest) ↔ x = clientFor n ∨ x ∈ masterClients rest := by
            simp [masterClients, hn]
          have hinside := hC x s
          rw [hmem]
          tauto
      · next hn =>
          refine (ih net).congr fun x s => ?_
          simp [masterClients, hn]

theorem repairRound_cleared (slot : Int) (net : Net κ ν) :
    Cleared (fun x s => s = slot ∧ counted nodes slot = true ∧ x ∈ masterClients nodes) net
      (repairRound slotOf texts (fun _ => .answered) nodes net slot) := by
  have hnone : counted nodes slot = false → Cleared (fun x s => s = slot ∧
      counted nodes slot = true ∧ x ∈ masterClients nodes) net net := fun hfalse =>
    (Cleared.of_sameViews (.refl net)).congr fun x s => by simp [hfalse]
  unfold repairRound
  split
  · next ho => exact hnone (by simp [counted, ho])
  · next owner ho =>
      split
      · next hip => exact hnone (by simp [counted, ho, hip])
      · next hip =>
          refine ((Cleared.of_sameViews (gather_sameViews nodes net)).trans
            (assertOwner_cleared slot nodes _)).congr fun x s => ?_
          simp [counted, ho, hip]

theorem repairRounds_cleared :
    ∀ (slots : List Int) (net : Net κ ν),
      Cleared (fun x s => s ∈ slots ∧ counted nodes s = true ∧ x ∈ masterClients nodes) net
        (slots.foldl (repairRound slotOf texts (fun _ => .answered) nodes) net) := by
  intro slots
  induction slots with
  | nil => exact fun net => (Cleared.of_sameViews (.refl net)).congr fun x s => by simp
  | cons slot slots ih =>
      intro net
      refine ((repairRound_cleared slot net).trans (ih _)).congr fun x s => ?_
      rw [List.mem_cons]
      constructor
      · rintro (⟨rfl, h⟩ | ⟨h, h'⟩)
        · exact ⟨.inl rfl, h⟩
        · exact ⟨.inr h, h'⟩
      · rintro ⟨rfl | h, h'⟩
        · exact .inl ⟨rfl, h'⟩
        · exact .inr ⟨h, h'⟩

end

/-! ## Pages that differ in their slots -/

/-- The slots of a node are all that is read from the items of its line. -/
theorem NodeLine.decoded_items (n : NodeLine) (items : List SlotItem) :
    NodeLine.decoded { n with items := items } =
      n.decoded.withSlots (items.filterMap SlotItem.owned?) := by
  simp only [NodeLine.decoded, NodeLine.owned, NodeInfo.withSlots]

section

variable {p : Printer κ ν} {net net' : Net κ ν} {x : String}

omit [DecidableEq κ] in
theorem Printer.Sound.parsed (h : p.Sound net x) :
    parseNodes (p.texts.nodes net x) = (p.roster x).map fun n =>
      n.decoded.withSlots (((net (p.home x)).items n.id).filterMap SlotItem.owned?) := by
  simp only [h.nodes, Server.table, List.map_map, Function.comp_def, NodeLine.decoded_items]

omit [DecidableEq κ] in
theorem Printer.Sound.clients_eq (h : p.Sound net x) :
    (parseNodes (p.texts.nodes net x)).map clientFor =
      ((p.roster x).map NodeLine.decoded).map clientFor := by
  simp only [h.parsed, List.map_map, Function.comp_def, clientFor_withSlots]

omit [DecidableEq κ] in
/-- The listed nodes are always the same, up to their slots. -/
theorem Printer.Sound.relisted (h : p.Sound net x) (h' : p.Sound net' x) {n : NodeInfo}
    (hn : n ∈ parseNodes (p.texts.nodes net' x)) :
    ∃ m ∈ parseNodes (p.texts.nodes net x), n = m.withSlots n.slots := by
  rw [h'.parsed, List.mem_map] at hn
  obtain ⟨line, hline, rfl⟩ := hn
  refine ⟨line.decoded.withSlots (((net (p.home x)).items line.id).filterMap SlotItem.owned?),
    ?_, ?_⟩
  · rw [h.parsed, List.mem_map]
    exact ⟨line, hline, rfl⟩
  · rw [NodeInfo.withSlots_withSlots, NodeInfo.slots_withSlots]

omit [DecidableEq κ] in
theorem Printer.Sound.masterClients_eq (h : p.Sound net x) :
    masterClients (parseNodes (p.texts.nodes net x)) =
      masterClients ((p.roster x).map NodeLine.decoded) := by
  simp only [h.parsed, masterClients, List.filter_map, List.map_map, Function.comp_def,
    NodeInfo.isPrimary_withSlots, clientFor_withSlots]

omit [DecidableEq κ] in
theorem Printer.Sound.reachable_iff {fate : Rpc κ → Fate} {seed : Endpoint}
    (h : p.Sound net (dialAddr seed.host seed.port)) {y : String} :
    Reachable p.texts fate seed net y ↔ fate (.clusterNodes y) = .answered ∧
      ∃ n ∈ p.roster (dialAddr seed.host seed.port), clientFor n.decoded = y ∧
        n.decoded.connected = true ∧ n.decoded.hasFlag "fail" = false ∧
        n.decoded.hasFlag "fail?" = false ∧ n.decoded.hasFlag "noaddr" = false := by
  simp only [Reachable, h.parsed, List.mem_map, exists_exists_and_eq_and, clientFor_withSlots,
    NodeInfo.connected_withSlots, NodeInfo.hasFlag_withSlots]

omit [DecidableEq κ] in
/-- The owner of a slot is the first listed node that the server calls so. -/
theorem Printer.Sound.ownerOf_eq (h : p.Sound net x) {s : Int} (hs : s ∈ allSlots) :
    ownerOf (parseNodes (p.texts.nodes net x)) s =
      ((p.roster x).find? fun n => decide ((net (p.home x)).owner s = some n.id)).map fun n =>
        n.decoded.withSlots (((net (p.home x)).items n.id).filterMap SlotItem.owned?) := by
  have hlists : ∀ id, ((((net (p.home x)).items id).filterMap SlotItem.owned?).any fun r =>
      decide (r.start ≤ s ∧ s ≤ r.stop)) = decide ((net (p.home x)).owner s = some id) := by
    intro id
    have hmem : s ∈ (((net (p.home x)).items id).filterMap SlotItem.owned?).flatMap SlotRange.slots ↔
        (net (p.home x)).owner s = some id := by
      rw [flatMap_owned, Server.slotsOf, List.mem_filter, decide_eq_true_iff]
      exact and_iff_right hs
    rw [Bool.eq_iff_iff, decide_eq_true_iff, ← hmem]
    simp only [List.any_eq_true, decide_eq_true_iff, List.mem_flatMap, SlotRange.mem_slots]
  rw [h.parsed, ownerOf, List.find?_map]
  simp only [Function.comp_def, NodeInfo.slots_withSlots, hlists]

omit [DecidableEq κ] in
/-- If the node the server calls the owner is listed, it is found. -/
theorem Printer.Sound.ownerOf_some (h : p.Sound net x) {s : Int} (hs : s ∈ allSlots) {n : NodeInfo}
    (hn : n ∈ parseNodes (p.texts.nodes net x)) (howner : (net (p.home x)).owner s = some n.id) :
    ∃ o, ownerOf (parseNodes (p.texts.nodes net x)) s = some o ∧ o.id = n.id := by
  have hid : ∀ line : NodeLine, line.decoded.id = line.id := fun line => by
    simp only [NodeLine.decoded]
  rw [h.ownerOf_eq hs]
  rw [h.parsed, List.mem_map] at hn
  obtain ⟨line, hline, rfl⟩ := hn
  rw [NodeInfo.id_withSlots, hid] at howner ⊢
  cases hfind : (p.roster x).find? fun n => decide ((net (p.home x)).owner s = some n.id) with
  | none => exact absurd howner (by simpa using List.find?_eq_none.1 hfind line hline)
  | some m =>
      refine ⟨_, rfl, ?_⟩
      have hm := List.find?_some hfind
      rw [decide_eq_true_iff] at hm
      rw [NodeInfo.id_withSlots, hid]
      exact Option.some.inj (hm.symm.trans howner)

omit [DecidableEq κ] in
/-- Which slots are counted follows from the owners the seed knows. -/
theorem Printer.Sound.counted_eq (h : p.Sound net x) {s : Int} (hs : s ∈ allSlots) :
    counted (parseNodes (p.texts.nodes net x)) s =
      (((p.roster x).find? fun n => decide ((net (p.home x)).owner s = some n.id)).any
        fun n => n.decoded.ip != "") := by
  rw [counted, h.ownerOf_eq hs]
  cases (p.roster x).find? fun n => decide ((net (p.home x)).owner s = some n.id) with
  | none => rfl
  | some n => simp only [Option.map_some, NodeInfo.ip_withSlots, Option.any_some]

omit [DecidableEq κ] in
/-- A page can be read as long as the markers on it can. -/
theorem Printer.Sound.of_marks (h : p.Sound net x)
    (hmore : ∀ e ∈ p.more net' x, CleanLine e ∧ e.1 ≠ "cluster_state" ∧
      e.1 ≠ "cluster_slots_assigned") (hids : ∀ y, (net' y).id = (net y).id)
    (hmarks : ∀ y s id, (net' y).migrating s = some id ∨ (net' y).importing s = some id →
      ((net y).migrating s = some id ∨ (net y).importing s = some id) ∨
        ∀ c ∈ id.toList, isSpace c = false) : p.Sound net' x where
  lines := h.lines
  self := by
    rw [hids]
    exact h.self
  marks s id hid := (hmarks _ s id hid).elim (h.marks s id) fun h => h
  more := hmore

omit [DecidableEq κ] in
theorem Cleared.marks {C : String → Int → Prop} (hc : Cleared C net net') {s : Int} {id : String}
    (hid : (net' x).migrating s = some id ∨ (net' x).importing s = some id) :
    (net x).migrating s = some id ∨ (net x).importing s = some id := by
  by_cases hC : C x s
  · obtain ⟨hm, hi⟩ := hc.gone x s hC
    rw [hm, hi] at hid
    simp at hid
  · obtain ⟨hm, hi, -⟩ := hc.kept x s hC
    rwa [hm, hi] at hid

end

/-! ## One repair, or none -/

section

variable {slotOf : κ → Int} {p : Printer κ ν} {order : List Int → List Int} {seed : Endpoint}
  {net : Net κ ν}

/-- Every page the operator reads can be read. -/
structure Printer.Legible (p : Printer κ ν) (seed : Endpoint) (net : Net κ ν) : Prop where
  more : ∀ m x, ∀ e ∈ p.more m x, CleanLine e ∧ e.1 ≠ "cluster_state" ∧
    e.1 ≠ "cluster_slots_assigned"
  atSeed : p.Sound net (dialAddr seed.host seed.port)
  reachable : ∀ x, Reachable p.texts (fun _ => .answered) seed net x → p.Sound net x
  home : ∀ x, Reachable p.texts (fun _ => .answered) seed net x → p.home x = x

variable (slotOf p order seed) in
/-- What an answered `RepairSlots` leaves. -/
def sweep (net : Net κ ν) : Net κ ν :=
  ((repairSlots order seed).run (fated slotOf p.texts fun _ => .answered) net).2

/-- A marker no repair gets at: the seed does not list its server as a master, or knows no
address of the owner of its slot. -/
def OutOfReach (p : Printer κ ν) (seed : Endpoint) (net : Net κ ν) (x : String) (s : Int) :
    Prop :=
  x ∉ masterClients (parseNodes (p.texts.nodes net (dialAddr seed.host seed.port))) ∨
    counted (parseNodes (p.texts.nodes net (dialAddr seed.host seed.port))) s = false

/-- The slots that are seen open. -/
theorem Printer.Legible.mem_open (horder : ∀ l, (order l).Perm l) (h : p.Legible seed net)
    {s : Int} :
    s ∈ ((collectOpenSlots order (parseNodes (p.texts.nodes net
        (dialAddr seed.host seed.port)))).run (fated slotOf p.texts fun _ => .answered) net).1 ↔
      ∃ y, Reachable p.texts (fun _ => .answered) seed net y ∧ s ∈ allSlots ∧
        (net y).marked s := by
  rw [mem_collectOpenSlots horder]
  refine exists_congr fun y => and_congr_right fun hy => ?_
  rw [(h.reachable y hy).mem_open, h.home y hy]

theorem sweep_cleared (horder : ∀ l, (order l).Perm l) (h : p.Legible seed net) :
    Cleared (fun x s => (∃ y, Reachable p.texts (fun _ => .answered) seed net y ∧
      s ∈ allSlots ∧ (net y).marked s) ∧ ¬ OutOfReach p seed net x s) net
      (sweep slotOf p order seed net) := by
  rw [sweep, repairSlots_run rfl rfl]
  refine (repairRounds_cleared _ net).congr fun x s => ?_
  rw [h.mem_open horder, OutOfReach, not_or, not_not, Bool.not_eq_false]
  exact and_congr_right fun _ => and_comm

omit [DecidableEq κ] in
/-- The same pages, with other markers that can be read. -/
theorem Printer.Legible.of_marks {net' : Net κ ν} (h : p.Legible seed net)
    (hids : ∀ y, (net' y).id = (net y).id)
    (hmarks : ∀ y s id, (net' y).migrating s = some id ∨ (net' y).importing s = some id →
      ((net y).migrating s = some id ∨ (net y).importing s = some id) ∨
        ∀ c ∈ id.toList, isSpace c = false) :
    p.Legible seed net' ∧ ∀ x, Reachable p.texts (fun _ => .answered) seed net' x ↔
      Reachable p.texts (fun _ => .answered) seed net x := by
  have hseed := h.atSeed.of_marks (h.more net' _) hids hmarks
  have hreach : ∀ x, Reachable p.texts (fun _ => .answered) seed net' x ↔
      Reachable p.texts (fun _ => .answered) seed net x :=
    fun x => by rw [hseed.reachable_iff, h.atSeed.reachable_iff]
  exact ⟨⟨h.more, hseed, fun x hx => (h.reachable x ((hreach x).1 hx)).of_marks (h.more _ _) hids
    hmarks, fun x hx => h.home x ((hreach x).1 hx)⟩, hreach⟩

theorem legible_sweep (horder : ∀ l, (order l).Perm l) (h : p.Legible seed net) :
    p.Legible seed (sweep slotOf p order seed net) ∧
      ∀ x, Reachable p.texts (fun _ => .answered) seed (sweep slotOf p order seed net) x ↔
        Reachable p.texts (fun _ => .answered) seed net x := by
  have hc : Cleared _ net (sweep slotOf p order seed net) := sweep_cleared horder h
  exact h.of_marks hc.id fun _ _ _ hid => .inl (hc.marks hid)

/-- The markers of reachable servers that are left are those out of reach. -/
theorem marked_sweep (horder : ∀ l, (order l).Perm l) (h : p.Legible seed net) {x : String}
    (hx : Reachable p.texts (fun _ => .answered) seed net x) {s : Int} (hs : s ∈ allSlots) :
    (sweep slotOf p order seed net x).marked s ↔
      (net x).marked s ∧ OutOfReach p seed net x s := by
  have hc : Cleared _ net (sweep slotOf p order seed net) := sweep_cleared horder h
  by_cases hC : (∃ y, Reachable p.texts (fun _ => .answered) seed net y ∧ s ∈ allSlots ∧
      (net y).marked s) ∧ ¬ OutOfReach p seed net x s
  · obtain ⟨hm, hi⟩ := hc.gone x s hC
    simp [Server.marked, hm, hi, hC.2]
  · obtain ⟨hm, hi, -⟩ := hc.kept x s hC
    rw [Server.marked, hm, hi]
    refine ⟨fun hmarked => ⟨hmarked, ?_⟩, And.left⟩
    by_contra hfar
    exact hC ⟨⟨x, hx, hs, hmarked⟩, hfar⟩

/-- What is out of reach stays so. -/
theorem outOfReach_sweep (horder : ∀ l, (order l).Perm l) (h : p.Legible seed net) {x : String}
    {s : Int} (hs : s ∈ allSlots) (hfar : OutOfReach p seed net x s) :
    OutOfReach p seed (sweep slotOf p order seed net) x s := by
  have hc : Cleared _ net (sweep slotOf p order seed net) := sweep_cleared horder h
  have hlegible : p.Legible seed (sweep slotOf p order seed net) := (legible_sweep horder h).1
  have hseed := hlegible.atSeed
  rcases hfar with hx | hcount
  · left
    rwa [hseed.masterClients_eq, ← h.atSeed.masterClients_eq]
  · right
    -- the seed's own opinion of the slot is not touched
    obtain ⟨-, -, ho⟩ := hc.kept (p.home (dialAddr seed.host seed.port)) s fun hC =>
      hC.2 (.inr hcount)
    rwa [hseed.counted_eq hs, ho, ← h.atSeed.counted_eq hs]

/-- After any number of repairs but none, the markers left are those that were out of reach at
the start. -/
theorem marked_sweeps (horder : ∀ l, (order l).Perm l) (h : p.Legible seed net) (m : Nat) :
    p.Legible seed ((sweep slotOf p order seed)^[m + 1] net) ∧
      ((∃ x, Reachable p.texts (fun _ => .answered) seed
          ((sweep slotOf p order seed)^[m + 1] net) x ∧
          ∃ s ∈ allSlots, ((sweep slotOf p order seed)^[m + 1] net x).marked s) ↔
        ∃ x, Reachable p.texts (fun _ => .answered) seed net x ∧
          ∃ s ∈ allSlots, (net x).marked s ∧ OutOfReach p seed net x s) := by
  induction m generalizing net with
  | zero =>
      obtain ⟨hlegible, hreach⟩ : p.Legible seed (sweep slotOf p order seed net) ∧ _ :=
        legible_sweep horder h
      refine ⟨hlegible, exists_congr fun x => ?_⟩
      rw [zero_add, Function.iterate_one, hreach]
      exact and_congr_right fun hx => exists_congr fun s => and_congr_right fun hs =>
        marked_sweep horder h hx hs
  | succ m ih =>
      obtain ⟨hlegible, hreach⟩ : p.Legible seed (sweep slotOf p order seed net) ∧ _ :=
        legible_sweep horder h
      rw [Function.iterate_succ_apply]
      obtain ⟨hend, hiff⟩ := ih hlegible
      refine ⟨hend, hiff.trans (exists_congr fun x => ?_)⟩
      rw [hreach]
      refine and_congr_right fun hx => exists_congr fun s => and_congr_right fun hs => ?_
      rw [marked_sweep horder h hx hs, and_assoc]
      exact and_congr_right fun _ => ⟨And.left, fun hfar =>
        ⟨hfar, outOfReach_sweep horder h hs hfar⟩⟩

theorem owner_sweeps (horder : ∀ l, (order l).Perm l) (h : p.Legible seed net) {x : String}
    {s : Int} (howner : (net x).owner s ≠ none) (m : Nat) :
    ((sweep slotOf p order seed)^[m] net x).owner s ≠ none := by
  induction m generalizing net with
  | zero => exact howner
  | succ m ih =>
      rw [Function.iterate_succ_apply]
      exact ih (legible_sweep horder h).1 ((sweep_cleared horder h).owned x s howner)

/-- Where every server answers and the seed knows an owner of every slot, either one
`RepairSlots` is enough or no number of them is: after any number but none, the operator's plan
is to repair once more exactly if at the start some reachable server showed a marker that is
out of reach. -/
theorem repairs_settle_iff (horder : ∀ l, (order l).Perm l) (h : p.Legible seed net)
    (hhealthy : ∀ m, p.healthy m (dialAddr seed.host seed.port) = true)
    (hcovered : ∀ s ∈ allSlots, (net (p.home (dialAddr seed.host seed.port))).owner s ≠ none) (m : Nat) :
    ∃ st, (state order seed).run (fated slotOf p.texts fun _ => .answered)
        ((sweep slotOf p order seed)^[m + 1] net) =
          (.ok st, (sweep slotOf p order seed)^[m + 1] net) ∧
      ∀ (cr : ValkeyCluster) (d : Desired),
        (Topology.decide d (summarize cr st)).kind = .repair ↔
          ∃ x, Reachable p.texts (fun _ => .answered) seed net x ∧
            ∃ s ∈ allSlots, (net x).marked s ∧ OutOfReach p seed net x s := by
  obtain ⟨hend, hmarks⟩ : p.Legible seed ((sweep slotOf p order seed)^[m + 1] net) ∧ _ :=
    marked_sweeps horder h m
  obtain ⟨st, hrun, -, hplan⟩ : ∃ st, (state order seed).run
      (fated slotOf p.texts fun _ => .answered) ((sweep slotOf p order seed)^[m + 1] net) =
        (.ok st, _) ∧ _ := state_plan horder rfl rfl hend.atSeed hend.reachable
  refine ⟨st, hrun, fun cr d => (hplan cr d).2.trans ?_⟩
  have howned : ∀ s ∈ allSlots, ((sweep slotOf p order seed)^[m + 1] net
      (p.home (dialAddr seed.host seed.port))).owner s ≠ none :=
    fun s hs => owner_sweeps horder h (hcovered s hs) (m + 1)
  have hsome : (0 : Int) ∈ allSlots := mem_allSlots.2 (by decide)
  rw [← hmarks]
  constructor
  · rintro ⟨-, hsick | ⟨s, hs, hnone⟩ | ⟨x, hx, hleft⟩⟩
    · rw [hhealthy] at hsick
      cases hsick
    · exact absurd hnone (howned s hs)
    · exact ⟨x, hx, hend.home x hx ▸ hleft⟩
  · rintro ⟨x, hx, hleft⟩
    rw [← hend.home x hx] at hleft
    exact ⟨⟨0, hsome, howned 0 hsome⟩, .inr (.inr ⟨x, hx, hleft⟩)⟩

end

/-- One server owns every slot and was giving the first one away. -/
def leavingNet : Net Nat String := fun x =>
  { id := if x = "10.0.0.1:6379" then "a" else "b"
    store := ∅
    owner := fun _ => some "a"
    migrating := fun s => if x = "10.0.0.1:6379" ∧ s = 0 then some "b" else none
    importing := fun _ => none }

theorem leavingNet_legible : pairPrinter.Legible pairSeed leavingNet := by
  have hsound : ∀ x, pairPrinter.Sound leavingNet x := by
    intro x
    refine pairPrinter_sound ?_ fun s id hid => ?_
    · simp only [leavingNet]
      split
      · exact .inl rfl
      · exact .inr rfl
    · simp only [leavingNet, Option.ite_none_right_eq_some, Option.some_inj, reduceCtorEq,
        or_false] at hid
      rw [← hid.2]
      exact noSpace_of_all rfl
  exact ⟨fun m x => (hsound x).more, hsound _, fun x _ => hsound x, fun _ _ => rfl⟩

theorem repairs_settle_leaving :
    ∃ st, (state id pairSeed).run (fated pairSlotOf pairPrinter.texts fun _ => .answered)
        ((sweep pairSlotOf pairPrinter id pairSeed)^[1] leavingNet) =
          (.ok st, (sweep pairSlotOf pairPrinter id pairSeed)^[1] leavingNet) ∧
      ∀ (cr : ValkeyCluster) (d : Desired),
        (Topology.decide d (summarize cr st)).kind ≠ .repair := by
  have hlegible := leavingNet_legible
  have hmasters : "10.0.0.1:6379" ∈ masterClients (parseNodes (pairPrinter.texts.nodes leavingNet
      (dialAddr pairSeed.host pairSeed.port))) := by
    rw [hlegible.atSeed.masterClients_eq]
    decide +kernel
  have hcounted : counted (parseNodes (pairPrinter.texts.nodes leavingNet
      (dialAddr pairSeed.host pairSeed.port))) 0 = true := by
    rw [hlegible.atSeed.counted_eq (mem_allSlots.2 (by decide))]
    decide +kernel
  have horder : ∀ l : List Int, (id l).Perm l := fun l => .refl l
  refine (repairs_settle_iff horder hlegible (fun _ => rfl) (fun _ _ => by simp [leavingNet])
    0).imp fun st hst => ⟨hst.1, fun cr d hkind => ?_⟩
  obtain ⟨x, -, s, -, hmarked, hfar⟩ := (hst.2 cr d).1 hkind
  -- the only marker is that of slot 0 on the first server
  simp only [Server.marked, leavingNet, Option.isSome_ite, Option.isSome_none, Bool.false_eq_true,
    or_false] at hmarked
  rw [hmarked.1, hmarked.2] at hfar
  rcases hfar with hfar | hfar
  · exact hfar hmasters
  · rw [hcounted] at hfar
    cases hfar

end Valkeyop.Cluster
