import Valkeyop.Controller.Status
import Valkeyop.Proofs.RepairSlots
import Valkeyop.Proofs.SingleWriter

/-!
# An interrupted move is visible

A slot move that stops halfway should leave evidence: unless source and target
agree on the owner, one of them shows the slot as open, and then the next pass
sees open slots, calls the cluster uncovered and repairs it.

The handshake leaves that evidence at every point. The shortcut for an empty
slot sets no markers, so there the evidence has to be there beforehand: whichever
of the two servers is told the new owner first, the other one must show the slot
as open or name the new owner already. `Armed` is that condition, `Detectable`
what every stop then satisfies, and the second half of the file follows a marker
through `State`, `summarize` and `Decide`.
-/

namespace Valkeyop.Cluster

open Valkeyop.Lib Valkeyop.Lib.Text Valkeyop.Api Valkeyop.Controller Valkeyop.Topology Relation

variable {κ ν : Type}

/-! ## Evidence -/

section

variable (a b tid : String)

/-- The two servers agree on the owner, or one of them shows the slot as open. -/
def Detectable (s : Int) (net : Net κ ν) : Prop :=
  (net a).owner s = (net b).owner s ∨ (net a).marked s ∨ (net b).marked s

/-- No slot is moved halfway without a trace. -/
def Evident (net : Net κ ν) : Prop := ∀ s, Detectable a b s net

/-- A server shows the slot as open, or names the new owner. -/
def Handing (s : Int) (x : String) (net : Net κ ν) : Prop :=
  (net x).marked s ∨ (net x).owner s = some tid

/-- Whichever of the two is told first, the other one gives the move away. -/
def Armed (s : Int) (masters : List String) (net : Net κ ν) : Prop :=
  ∀ first ∈ masters.find? (fun m => m = a ∨ m = b),
    (first = a → Handing tid s b net) ∧ (first = b → Handing tid s a net)

end

section

variable {a b tid x m : String} {s s' : Int} {masters : List String} {net net' : Net κ ν}

theorem Net.SameViews.marked (h : Net.SameViews net net') (x : String) (s : Int) :
    (net' x).marked s ↔ (net x).marked s := by
  obtain ⟨st, hst⟩ := h x
  rw [hst]
  exact Iff.rfl

theorem Detectable.sameViews (hv : Net.SameViews net net') (h : Detectable a b s net) :
    Detectable a b s net' := by
  rw [Detectable, hv.owner, hv.owner, hv.marked, hv.marked]
  exact h

theorem Evident.sameViews (hv : Net.SameViews net net') (h : Evident a b net) :
    Evident a b net' := fun s => (h s).sameViews hv

theorem Handing.sameViews (hv : Net.SameViews net net') (h : Handing tid s x net) :
    Handing tid s x net' := by
  rw [Handing, hv.owner, hv.marked]
  exact h

theorem Armed.sameViews (hv : Net.SameViews net net') (h : Armed a b tid s masters net) :
    Armed a b tid s masters net' := fun first hfirst =>
  ⟨fun ha => ((h first hfirst).1 ha).sameViews hv,
    fun hb => ((h first hfirst).2 hb).sameViews hv⟩

theorem Armed.of_both (ha : Handing tid s a net) (hb : Handing tid s b net) :
    Armed a b tid s masters net :=
  fun _ _ => ⟨fun _ => hb, fun _ => ha⟩

theorem Net.marked_modify {f : Server κ ν → Server κ ν}
    (hmark : ∀ v, v.marked s → (f v).marked s) {y : String} (hy : (net y).marked s) :
    (net.modify x f y).marked s := by
  by_cases hyx : y = x
  · subst hyx
    rw [Net.modify_self]
    exact hmark _ hy
  · rw [Net.modify_of_ne _ _ hyx]
    exact hy

/-- A marker more hides nothing. -/
theorem Detectable.mark {f : Server κ ν → Server κ ν}
    (hown : ∀ v, (f v).owner = v.owner) (hmark : ∀ v, v.marked s → (f v).marked s)
    (h : Detectable a b s net) : Detectable a b s (net.modify x f) := by
  rw [Detectable, Net.modify_proj Server.owner f hown, Net.modify_proj Server.owner f hown]
  exact h.imp_right (Or.imp (Net.marked_modify hmark) (Net.marked_modify hmark))

theorem Server.marked_setImporting (v : Server κ ν) (src : String) (h : v.marked s') :
    (v.setImporting s src).marked s' := by
  by_cases hs : s' = s
  · subst hs
    exact Or.inr (by simp [Server.setImporting])
  · simpa [Server.marked, Server.setImporting, hs] using h

theorem Server.marked_setMigrating (v : Server κ ν) (dst : String) (h : v.marked s') :
    (v.setMigrating s dst).marked s' := by
  by_cases hs : s' = s
  · subst hs
    exact Or.inl (by simp [Server.setMigrating])
  · simpa [Server.marked, Server.setMigrating, hs] using h

theorem Evident.setImporting (h : Evident a b net) (src : String) :
    Evident a b (net.modify x (Server.setImporting s src)) := fun s' =>
  (h s').mark (fun _ => rfl) fun v => v.marked_setImporting src

theorem Evident.setMigrating (h : Evident a b net) (dst : String) :
    Evident a b (net.modify x (Server.setMigrating s dst)) := fun s' =>
  (h s').mark (fun _ => rfl) fun v => v.marked_setMigrating dst

/-! ## Telling one server -/

theorem Handing.told : Handing tid s m (net.modify m (Server.setNode s tid)) := by
  rw [Handing, Net.modify_self]
  exact Or.inr (by simp [Server.setNode])

theorem Handing.setNode (h : Handing tid s x net) :
    Handing tid s x (net.modify m (Server.setNode s tid)) := by
  by_cases hx : x = m
  · subst hx
    exact Handing.told
  · rw [Handing, Net.modify_of_ne _ _ hx]
    exact h

theorem Detectable.of_handing (ha : Handing tid s a net) (hb : Handing tid s b net) :
    Detectable a b s net := by
  rcases ha with ha | ha
  · exact Or.inr (Or.inl ha)
  · rcases hb with hb | hb
    · exact Or.inr (Or.inr hb)
    · exact Or.inl (ha.trans hb.symm)

/-- Telling a server about `s` changes nothing about another slot. -/
theorem Server.setNode_of_ne (v : Server κ ν) (hs : s' ≠ s) :
    (v.setNode s tid).owner s' = v.owner s' ∧ ((v.setNode s tid).marked s' ↔ v.marked s') := by
  simp [Server.setNode, Server.setStable, Server.marked, hs]

theorem Detectable.setNode_of_ne (h : Detectable a b s' net) (hs : s' ≠ s) :
    Detectable a b s' (net.modify m (Server.setNode s tid)) := by
  have hsame : ∀ y, (net.modify m (Server.setNode s tid) y).owner s' = (net y).owner s' ∧
      ((net.modify m (Server.setNode s tid) y).marked s' ↔ (net y).marked s') := by
    intro y
    by_cases hy : y = m
    · subst hy
      rw [Net.modify_self]
      exact Server.setNode_of_ne _ hs
    · rw [Net.modify_of_ne _ _ hy]
      exact ⟨rfl, Iff.rfl⟩
  rw [Detectable, (hsame a).1, (hsame b).1, (hsame a).2, (hsame b).2]
  exact h

/-- The first of the two to be told leaves both handing over. -/
theorem Armed.head (h : Armed a b tid s (m :: masters) net) (hm : m = a ∨ m = b) :
    Handing tid s a (net.modify m (Server.setNode s tid)) ∧
      Handing tid s b (net.modify m (Server.setNode s tid)) := by
  have hfirst := h m (by simp [hm])
  rcases hm with rfl | rfl
  · exact ⟨Handing.told, (hfirst.1 rfl).setNode⟩
  · exact ⟨(hfirst.2 rfl).setNode, Handing.told⟩

theorem Armed.tail (h : Armed a b tid s (m :: masters) net) (hm : ¬ (m = a ∨ m = b)) :
    Armed a b tid s masters (net.modify m (Server.setNode s tid)) := by
  intro first hfirst
  have hsame := h first (by rw [List.find?_cons_of_neg (by simpa using hm)]; exact hfirst)
  exact ⟨fun ha => (hsame.1 ha).setNode, fun hb => (hsame.2 hb).setNode⟩

theorem Evident.setNode (h : Evident a b net)
    (harmed : Armed a b tid s (m :: masters) net) :
    Evident a b (net.modify m (Server.setNode s tid)) := by
  intro s'
  by_cases hs : s' = s
  · subst hs
    by_cases hm : m = a ∨ m = b
    · exact Detectable.of_handing (harmed.head hm).1 (harmed.head hm).2
    · obtain ⟨hma, hmb⟩ := not_or.1 hm
      rw [Detectable, Net.modify_of_ne _ _ (Ne.symm hma), Net.modify_of_ne _ _ (Ne.symm hmb)]
      exact h s'
  · exact (h s').setNode_of_ne hs

end

/-! ## Moving a slot -/

variable [DecidableEq κ]

/-- The probe that skips the handshake finds the slot armed. -/
def HandOverOk (a b tid : String) (masters : List String) :
    (c : Rpc κ) → Net κ ν → c.Reply → Prop
  | .getKeysInSlot x s 1, net, r => x = a → r = Except.ok [] → Armed a b tid s masters net
  | _, _, _ => True

section

variable {slotOf : κ → Int} {texts : Texts κ ν} {E : Net κ ν → Net κ ν → Prop}
  {H : Service (Rpc κ) Rpc.Reply (Net κ ν)} {I : Net κ ν → Prop}
  {source target : NodeInfo} {masters : List String}

/-- Moving keys changes no view. -/
theorem moveKeys_views (hE : ∀ n n', E n n' → Net.SameViews n n')
    (hH : ∀ c n r n', H c n r n' → Valkey slotOf texts c n r n')
    (hI : ∀ n n', Net.SameViews n n' → I n → I n') {s : Int} :
    ∀ (fuel : Nat) (net : Net κ ν), I net →
      (moveKeys source target s fuel).Wp E H (fun _ => I) (fun _ => I) net := by
  have hstable : ∀ n n', I n → E n n' → I n' := fun n n' hn he => hI n n' (hE n n' he) hn
  intro fuel
  induction fuel with
  | zero => exact fun net h => Prog.wp_ret I h hstable fun _ hn => hn
  | succ fuel ih =>
      intro net h
      refine Prog.wp_op_bind I h hstable (fun _ hn => hn) fun net₁ r net₂ h₁ hr => ?_
      obtain ⟨rfl, -⟩ := hH _ _ _ _ hr
      match r with
      | .error e => exact Prog.wp_ret I h₁ hstable fun _ hn => hn
      | .ok [] => exact Prog.wp_ret I h₁ hstable fun _ hn => hn
      | .ok (k :: ks) =>
          refine Prog.wp_op_bind I h₁ hstable (fun _ hn => hn) fun net₃ r₃ net₄ h₃ hr₃ => ?_
          have h₄ : I net₄ := by
            rcases Valkey.migrate_cases (hH _ _ _ _ hr₃) with rfl | ⟨-, hp⟩
            · exact h₃
            · exact hI _ _ hp.sameViews h₃
          match r₃ with
          | .error e => exact Prog.wp_ret I h₄ hstable fun _ hn => hn
          | .ok () => exact ih net₄ h₄

variable {a b tid : String} {s : Int}

/-- The assignment loop, from an armed slot. -/
theorem assignOwner_evident (hE : ∀ n n', E n n' → Net.SameViews n n')
    (hH : ∀ c n r n', H c n r n' → Valkey slotOf texts c n r n') :
    ∀ (todo : List String) (net : Net κ ν), Evident a b net → Armed a b tid s todo net →
      (assignOwner tid s todo).Wp E H (fun _ => Evident a b) (fun _ => Evident a b) net := by
  have hstable : ∀ n n', Evident a b n → E n n' → Evident a b n' :=
    fun n n' hn he => hn.sameViews (hE n n' he)
  intro todo
  induction todo with
  | nil => exact fun net h _ => Prog.wp_ret _ h hstable fun _ hn => hn
  | cons m todo ih =>
      intro net h harmed
      refine Prog.wp_op_bind (fun n => Evident a b n ∧ Armed a b tid s (m :: todo) n)
        ⟨h, harmed⟩ (fun n n' hn he => ⟨hstable n n' hn.1 he, hn.2.sameViews (hE n n' he)⟩)
        (fun _ hn => hn.1) fun net₁ r net₂ h₁ hr => ?_
      have hr := hH _ _ _ _ hr
      match r with
      | .error e =>
          refine Prog.wp_ret _ ?_ hstable fun _ hn => hn
          rcases hr with rfl | ⟨-, rfl⟩
          · exact h₁.1
          · exact h₁.1.setNode h₁.2
      | .ok () =>
          obtain ⟨-, rfl⟩ := hr
          refine ih _ (h₁.1.setNode h₁.2) ?_
          by_cases hm : m = a ∨ m = b
          · exact Armed.of_both (h₁.2.head hm).1 (h₁.2.head hm).2
          · exact h₁.2.tail hm

/-- What the hand-over of a slot leaves behind: evidence, and if it went through,
two servers that both show the slot as open. -/
def HandedOver (a b : String) (s : Int) (r : Option (Except String Unit)) (net : Net κ ν) :
    Prop :=
  Evident a b net ∧ (r = some (.ok ()) → (net a).marked s ∧ (net b).marked s)

omit [DecidableEq κ] in
theorem HandedOver.sameViews {r : Option (Except String Unit)} {net net' : Net κ ν}
    (hv : Net.SameViews net net') (h : HandedOver a b s r net) : HandedOver a b s r net' :=
  ⟨h.1.sameViews hv, fun hr => ⟨(hv.marked a s).2 (h.2 hr).1, (hv.marked b s).2 (h.2 hr).2⟩⟩

theorem handOver_evident (hE : ∀ n n', E n n' → Net.SameViews n n')
    (hH : ∀ c n r n', H c n r n' → Valkey slotOf texts c n r n') (fuel : Nat) {net : Net κ ν}
    (h : Evident (clientFor source) (clientFor target) net) :
    (handOver fuel source target s).Wp E H
      (fun _ => Evident (clientFor source) (clientFor target))
      (HandedOver (clientFor source) (clientFor target) s) net := by
  have hstable : ∀ n n', Evident (clientFor source) (clientFor target) n → E n n' →
      Evident (clientFor source) (clientFor target) n' :=
    fun n n' hn he => hn.sameViews (hE n n' he)
  refine Prog.wp_op_bind _ h hstable (fun _ hn => hn) fun net₁ r net₂ h₁ hr => ?_
  have hr := hH _ _ _ _ hr
  match r with
  | .error e =>
      refine Prog.wp_ret _ ?_ hstable fun _ hn => ⟨hn, fun hok => by simp at hok⟩
      rcases hr with rfl | ⟨-, rfl⟩
      · exact h₁
      · exact h₁.setImporting source.id
  | .ok () =>
      obtain ⟨-, rfl⟩ := hr
      refine Prog.wp_op_bind (fun n => Evident (clientFor source) (clientFor target) n ∧
          (n (clientFor target)).marked s) ⟨h₁.setImporting source.id, ?_⟩
        (fun n n' hn he => ⟨hstable n n' hn.1 he, ((hE n n' he).marked _ s).2 hn.2⟩)
        (fun _ hn => hn.1) fun net₃ r₃ net₄ h₃ hr₃ => ?_
      · rw [Net.modify_self]
        exact Or.inr (by simp [Server.setImporting])
      have hr₃ := hH _ _ _ _ hr₃
      match r₃ with
      | .error e =>
          refine Prog.wp_ret _ ?_ hstable fun _ hn => ⟨hn, fun hok => by simp at hok⟩
          rcases hr₃ with rfl | ⟨-, rfl⟩
          · exact h₃.1
          · exact h₃.1.setMigrating target.id
      | .ok () =>
          obtain ⟨-, rfl⟩ := hr₃
          refine ((moveKeys_views hE hH (fun _ _ hv hn => HandedOver.sameViews hv hn) fuel _
            ?_).guard_mono ?_).mono fun r n hn => ⟨hn.1, fun _ => hn.2 rfl⟩
          · refine ⟨h₃.1.setMigrating target.id, fun _ => ⟨?_, ?_⟩⟩
            · rw [Net.modify_self]
              exact Or.inl (by simp [Server.setMigrating])
            · exact Net.marked_modify (fun v => v.marked_setMigrating target.id) h₃.2
          · exact fun _ _ (hn : HandedOver _ _ s (some (.ok ())) _) => hn.1

/-- One slot: with the handshake always, without it from an armed slot. -/
theorem moveSlot_evident (hE : ∀ n n', E n n' → Net.SameViews n n') (fuel : Nat)
    {net : Net κ ν} (h : Evident (clientFor source) (clientFor target) net) :
    (moveSlot fuel source target masters s).Wp E
      ((Valkey slotOf texts).restrict
        (HandOverOk (clientFor source) (clientFor target) target.id masters))
      (fun _ => Evident (clientFor source) (clientFor target))
      (fun _ => Evident (clientFor source) (clientFor target)) net := by
  have hH : ∀ c (n : Net κ ν) r n', (Valkey slotOf texts).restrict
      (HandOverOk (clientFor source) (clientFor target) target.id masters) c n r n' →
      Valkey slotOf texts c n r n' := fun _ _ _ _ hr => hr.1
  have hstable : ∀ n n', Evident (clientFor source) (clientFor target) n → E n n' →
      Evident (clientFor source) (clientFor target) n' :=
    fun n n' hn he => hn.sameViews (hE n n' he)
  refine Prog.wp_op_bind _ h hstable (fun _ hn => hn) fun net₁ r net₂ h₁ hr => ?_
  obtain ⟨⟨rfl, -⟩, hprobe⟩ := hr
  match r with
  | .error e => exact Prog.wp_ret _ h₁ hstable fun _ hn => hn
  | .ok probe =>
      have hhanded : (if probe.isEmpty then pure (some (.ok ()))
          else handOver fuel source target s).Wp E
          ((Valkey slotOf texts).restrict
            (HandOverOk (clientFor source) (clientFor target) target.id masters))
          (fun _ => Evident (clientFor source) (clientFor target))
          (fun r n => Evident (clientFor source) (clientFor target) n ∧
            (r = some (.ok ()) →
              Armed (clientFor source) (clientFor target) target.id s masters n)) net₂ := by
        cases probe with
        | cons k ks =>
            refine (handOver_evident hE hH fuel h₁).mono fun r n hn => ⟨hn.1, fun hr => ?_⟩
            exact Armed.of_both (Or.inl (hn.2 hr).1) (Or.inl (hn.2 hr).2)
        | nil =>
            refine Prog.wp_ret (fun n => Evident (clientFor source) (clientFor target) n ∧
              Armed (clientFor source) (clientFor target) target.id s masters n)
              ⟨h₁, hprobe rfl rfl⟩ (fun n n' hn he => ?_) fun _ hn => ⟨hn.1, fun _ => hn.2⟩
            exact ⟨hstable n n' hn.1 he, hn.2.sameViews (hE n n' he)⟩
      refine Prog.wp_bind.2 (hhanded.mono fun handed net₃ hh => ?_)
      match handed with
      | none => exact Prog.wp_ret _ hh.1 hstable fun _ hn => hn
      | some (.error e) => exact Prog.wp_ret _ hh.1 hstable fun _ hn => hn
      | some (.ok ()) =>
          refine Prog.wp_bind.2 ((assignOwner_evident hE hH masters net₃ hh.1
            (hh.2 rfl)).mono fun r net₄ h₄ => ?_)
          match r with
          | .error e => exact Prog.wp_ret _ h₄ hstable fun _ hn => hn
          | .ok () => exact Prog.wp_ret _ h₄ hstable fun _ hn => hn

end

/-! ## Seeing a marker -/

/-- `CLUSTER NODES` of a server shows its own markers on its own line, each with a number
that fits an `int`, as that of a slot does. -/
def ShowsMarkers (texts : Texts κ ν) (net : Net κ ν) (x : String) : Prop :=
  ∀ s : Nat, ((net x).marked s → (s : Int) ≤ maxInt) ∧
    (∀ id, (net x).migrating s = some id → migratingField s id ∈ fields (texts.nodes net x)) ∧
    ∀ id, (net x).importing s = some id → importingField s id ∈ fields (texts.nodes net x)

/-- The node is listed as alive, and the server behind it answers. -/
def Reachable (texts : Texts κ ν) (fate : Rpc κ → Fate) (seed : Endpoint) (net : Net κ ν)
    (x : String) : Prop :=
  fate (.clusterNodes x) = .answered ∧
    ∃ n ∈ parseNodes (texts.nodes net (dialAddr seed.host seed.port)), clientFor n = x ∧
      n.connected = true ∧ n.hasFlag "fail" = false ∧ n.hasFlag "fail?" = false ∧
      n.hasFlag "noaddr" = false

/-- `CLUSTER INFO` of a cluster that has been formed. -/
def Formed (info : String) : Prop :=
  infoValue (parseInfo info) "cluster_state" ≠ "" ∧
    0 < atoiValue (infoValue (parseInfo info) "cluster_slots_assigned")

section

variable {slotOf : κ → Int} {texts : Texts κ ν} {fate : Rpc κ → Fate} {seed : Endpoint}
  {net : Net κ ν}

omit [DecidableEq κ] in
theorem mem_parseOpenSlots_of_marked {x : String} {s : Nat} (hshow : ShowsMarkers texts net x)
    (hm : (net x).marked s) : (s : Int) ∈ parseOpenSlots (texts.nodes net x) := by
  obtain ⟨hfits, hmigrating, himporting⟩ := hshow s
  have hfits := hfits hm
  rcases hm with hm | hm
  · obtain ⟨id, hid⟩ := Option.isSome_iff_exists.1 hm
    exact mem_parseOpenSlots (hmigrating id hid) (markedSlot_migratingField hfits id)
  · obtain ⟨id, hid⟩ := Option.isSome_iff_exists.1 hm
    exact mem_parseOpenSlots (himporting id hid) (markedSlot_importingField hfits id)

omit [DecidableEq κ] in
theorem showsMarkers_of_none {x : String} (hmig : ∀ s, (net x).migrating s = none)
    (himp : ∀ s, (net x).importing s = none) : ShowsMarkers texts net x := fun s =>
  ⟨fun hm => by simp [Server.marked, hmig, himp] at hm, fun id hid => by simp [hmig] at hid,
    fun id hid => by simp [himp] at hid⟩

theorem clusterNodes_answered {x : String} (hans : fate (.clusterNodes x) = .answered) :
    (clusterNodes x).run (fated slotOf texts fate) net = (.ok (texts.nodes net x), net) := by
  change fated slotOf texts fate (.clusterNodes x) net = _
  simp only [fated, hans]
  rfl

/-- What one listed, answering server reports is among the open slots seen. -/
theorem mem_openSlotsSeen {s : Int} {n : NodeInfo} (halive : n.connected = true ∧
      n.hasFlag "fail" = false ∧ n.hasFlag "fail?" = false ∧ n.hasFlag "noaddr" = false)
    (hans : fate (.clusterNodes (clientFor n)) = .answered)
    (hs : s ∈ parseOpenSlots (texts.nodes net (clientFor n))) :
    ∀ nodes : List NodeInfo, n ∈ nodes →
      s ∈ ((openSlotsSeen nodes).run (fated slotOf texts fate) net).1 := by
  intro nodes
  induction nodes with
  | nil => exact fun hn => absurd hn List.not_mem_nil
  | cons m nodes ih =>
      intro hn
      rw [openSlotsSeen]
      rcases List.mem_cons.1 hn with rfl | hn
      · rw [if_neg (by simp [halive]), Prog.run_bind, clusterNodes_answered hans]
        simp only [Prog.run_bind, Prog.run_pure]
        exact List.mem_append_left _ hs
      · split
        · exact ih hn
        · rw [Prog.run_bind, (clusterNodes_run _ net).1]
          split
          · exact ih hn
          · simp only [Prog.run_bind, Prog.run_pure]
            exact List.mem_append_right _ (ih hn)

theorem clusterInfo_answered {x : String} (hans : fate (.clusterInfo x) = .answered) :
    (clusterInfo x).run (fated slotOf texts fate) net = (.ok (texts.info net x), net) := by
  change fated slotOf texts fate (.clusterInfo x) net = _
  simp only [fated, hans]
  rfl

/-- One open slot on a reachable server is enough for the next pass to repair. -/
theorem state_open {order : List Int → List Int} (horder : ∀ l, (order l).Perm l)
    (hinfo : fate (.clusterInfo (dialAddr seed.host seed.port)) = .answered)
    (hnodes : fate (.clusterNodes (dialAddr seed.host seed.port)) = .answered)
    (hformed : Formed (texts.info net (dialAddr seed.host seed.port))) {x : String}
    (hreach : Reachable texts fate seed net x) {s : Int}
    (hs : s ∈ parseOpenSlots (texts.nodes net x)) (cr : ValkeyCluster) (d : Desired) :
    ∃ st, ((state order seed).run (fated slotOf texts fate) net).1 = .ok st ∧
      st.openSlots = true ∧ (summarize cr st).slotsCovered = false ∧
      (Topology.decide d (summarize cr st)).kind = .repair := by
  obtain ⟨hans, n, hn, rfl, halive⟩ := hreach
  have hseen : s ∈ ((openSlotsSeen (parseNodes (texts.nodes net
      (dialAddr seed.host seed.port)))).run (fated slotOf texts fate) net).1 :=
    mem_openSlotsSeen halive hans hs _ hn
  have hpos : 0 < (((collectOpenSlots order (parseNodes (texts.nodes net
      (dialAddr seed.host seed.port)))).run (fated slotOf texts fate) net).1).length := by
    rw [collectOpenSlots, Prog.run_bind]
    exact List.length_pos_of_mem ((horder _).mem_iff.2 (List.mem_dedup.2 hseen))
  rw [state, Prog.run_bind, clusterInfo_answered hinfo]
  simp only [Prog.run_bind, clusterNodes_answered hnodes, Prog.run_pure, Except.ok.injEq,
    exists_eq_left']
  have huncovered : ∀ st : ClusterState, st.openSlots = true →
      (summarize cr st).slotsCovered = false := fun st hst => by simp [summarize, hst]
  refine ⟨by simpa using hpos, huncovered _ (by simpa using hpos),
    decide_uncovered ?_ (huncovered _ (by simpa using hpos))⟩
  simpa [summarize, Formed] using hformed

end

/-! ## Every stop is visible -/

section

variable {slotOf : κ → Int} {texts : Texts κ ν} {net₀ net : Net κ ν} {fuel : Nat}
  {seed : Endpoint} {fromNodeID toNodeID : String} {n : Int} {nodes : List NodeInfo}
  {source target : NodeInfo} {p : RpcProg κ (Option (Nat × Option String))}

/-- Wherever `MoveSlots` is stopped, each slot is finished or shows as open, and
then the next pass sees it and repairs, as long as every probe that came back
empty found the slot armed. At the start no slot is moved halfway without a
trace. -/
theorem moveSlots_stop_detectable
    (hnodes : ∀ net, ReflTransGen (Client slotOf) net₀ net →
      parseNodes (texts.nodes net (dialAddr seed.host seed.port)) = nodes)
    (hsource : ∀ x ∈ nodeByID nodes fromNodeID, x = source)
    (htarget : ∀ x ∈ nodeByID nodes toNodeID, x = target)
    (hstart : Evident (clientFor source) (clientFor target) net₀)
    (hrun : Prog.Reaches (Client slotOf)
      ((Valkey slotOf texts).restrict (HandOverOk (clientFor source) (clientFor target)
        target.id (masterClients nodes)))
      (moveSlots fuel seed fromNodeID toNodeID n, net₀) (p, net)) (s : Nat) :
    (net (clientFor source)).owner s = (net (clientFor target)).owner s ∨
      ((net (clientFor source)).marked s ∨ (net (clientFor target)).marked s) ∧
      ∀ (fate : Rpc κ → Fate) (order : List Int → List Int) (cr : ValkeyCluster) (d : Desired),
        (∀ l, (order l).Perm l) →
        fate (.clusterInfo (dialAddr seed.host seed.port)) = .answered →
        fate (.clusterNodes (dialAddr seed.host seed.port)) = .answered →
        Formed (texts.info net (dialAddr seed.host seed.port)) →
        (∀ x ∈ [clientFor source, clientFor target],
          Reachable texts fate seed net x ∧ ShowsMarkers texts net x) →
        ∃ st, ((state order seed).run (fated slotOf texts fate) net).1 = .ok st ∧
          st.openSlots = true ∧ (summarize cr st).slotsCovered = false ∧
          (Topology.decide d (summarize cr st)).kind = .repair := by
  have hviews : ∀ n n' : Net κ ν, Client slotOf n n' → Net.SameViews n n' :=
    fun _ _ hc => hc.sameViews
  have hevident : Evident (clientFor source) (clientFor target) net :=
    (moveSlots_invariant (fun n n' hn he => hn.sameViews (hviews n n' he))
      (fun _ _ _ _ hr => hr.1) hnodes hsource htarget
      (fun s _ _ hn => moveSlot_evident hviews fuel hn)
      hstart).invariant (fun _ _ hn => hn) (fun _ _ hn => hn) hrun
  refine (hevident s).imp_right fun hm => ⟨hm, ?_⟩
  intro fate order cr d horder hinfo hfate hformed hseen
  rcases hm with hm | hm
  · obtain ⟨hreach, hshow⟩ := hseen (clientFor source) (by simp)
    exact state_open horder hinfo hfate hformed hreach (mem_parseOpenSlots_of_marked hshow hm)
      cr d
  · obtain ⟨hreach, hshow⟩ := hseen (clientFor target) (by simp)
    exact state_open horder hinfo hfate hformed hreach (mem_parseOpenSlots_of_marked hshow hm)
      cr d

end

/-- The target's line while it imports slot 0. -/
def pairLineImporting : String :=
  "b 10.0.0.2:6379@16379 master - 0 0 2 connected 1 [0-<-a]"

/-- Servers that show whether the target is importing slot 0. -/
def importingTexts : Texts Nat String where
  info _ _ := "cluster_state:ok\ncluster_slots_assigned:16384"
  nodes net _ := pairLineA ++ "\n" ++
    if (net (clientFor pairB)).importing 0 = some "a" then pairLineImporting else pairLineB

theorem lists_pairLineImporting : Lists pairLineImporting pairB :=
  ⟨Lib.Text.not_mem_literal (by decide), by decide +kernel⟩

theorem parseNodes_importing (net : Net Nat String) (x : String) :
    parseNodes (importingTexts.nodes net x) = [pairA, pairB] := by
  by_cases h : (net (clientFor pairB)).importing 0 = some "a"
  · simp only [importingTexts, if_pos h]
    exact parseNodes_lines lists_pairLineA lists_pairLineImporting net x
  · simp only [importingTexts, if_neg h]
    exact parseNodes_pair net x

/-- A move of slot 0 that was stopped after the source was told. -/
def halfMoved : Net Nat String :=
  ((pairNet ∅).modify (clientFor pairB) (Server.setImporting 0 "a")).modify (clientFor pairA)
    (Server.setNode 0 "b")

theorem halfMoved_source :
    halfMoved (clientFor pairA) = (pairNet ∅ (clientFor pairA)).setNode 0 "b" := by
  rw [halfMoved, Net.modify_self, Net.modify_of_ne _ _ (by decide)]

theorem halfMoved_target :
    halfMoved (clientFor pairB) = (pairNet ∅ (clientFor pairB)).setImporting 0 "a" := by
  rw [halfMoved, Net.modify_of_ne _ _ (by decide), Net.modify_self]

theorem halfMoved_marked : (halfMoved (clientFor pairB)).marked 0 := by
  rw [halfMoved_target]
  exact Or.inr rfl

/-- Telling the source once more changes nothing. -/
theorem halfMoved_told :
    halfMoved.modify (clientFor pairA) (Server.setNode 0 "b") = halfMoved := by
  have hsame : (halfMoved (clientFor pairA)).setNode 0 "b" = halfMoved (clientFor pairA) := by
    rw [halfMoved_source]
    simp [Server.setNode, Server.setStable]
  rw [Net.modify, hsame, Function.update_eq_self]

theorem halfMoved_evident : Evident (clientFor pairA) (clientFor pairB) halfMoved := by
  intro s
  by_cases hs : s = 0
  · subst hs
    exact Or.inr (Or.inr halfMoved_marked)
  · have hpair : Evident (clientFor pairA) (clientFor pairB) (pairNet ∅) :=
      fun _ => Or.inl rfl
    exact (hpair.setImporting "a" s).setNode_of_ne hs

theorem halfMoved_armed :
    Armed (clientFor pairA) (clientFor pairB) "b" 0 (masterClients [pairA, pairB])
      halfMoved := by
  have hfind : (masterClients [pairA, pairB]).find?
      (fun m => m = clientFor pairA ∨ m = clientFor pairB) = some (clientFor pairA) := by
    decide
  intro first hfirst
  obtain rfl := Option.some.inj (hfind.symm.trans hfirst)
  exact ⟨fun _ => Or.inl halfMoved_marked, fun h => absurd h (by decide)⟩

theorem halfMoved_shows : ShowsMarkers importingTexts halfMoved (clientFor pairB) := by
  intro s
  rw [halfMoved_target]
  refine ⟨fun hm => ?_, fun id hid => by simp [Server.setImporting, pairNet] at hid,
    fun id hid => ?_⟩
  · by_cases hs : s = 0
    · subst hs
      decide
    · simp [Server.marked, Server.setImporting, pairNet, hs] at hm
  by_cases hs : s = 0
  · subst hs
    obtain rfl : "a" = id := by simpa [Server.setImporting] using hid
    have hopen : (halfMoved (clientFor pairB)).importing 0 = some "a" := by
      rw [halfMoved_target]
      rfl
    simp only [importingTexts, if_pos hopen]
    decide +kernel
  · simp [Server.setImporting, pairNet, hs] at hid

/-- The move tried again, and stopped after the source was told once more. -/
theorem moveSlots_stop_detectable_retry :
    ∃ p, Prog.Reaches (Client pairSlotOf)
        ((Valkey pairSlotOf importingTexts).restrict (HandOverOk (clientFor pairA)
          (clientFor pairB) "b" (masterClients [pairA, pairB])))
        (moveSlots 1 pairSeed "a" "b" 1, halfMoved) (p, halfMoved) ∧
      (∀ q, p ≠ .ret q) ∧
      (halfMoved (clientFor pairA)).owner 0 ≠ (halfMoved (clientFor pairB)).owner 0 ∧
      ∀ cr d, ∃ st, ((state id pairSeed).run
          (fated pairSlotOf importingTexts fun _ => .answered) halfMoved).1 = .ok st ∧
        st.openSlots = true ∧ (summarize cr st).slotsCovered = false ∧
        (Topology.decide d (summarize cr st)).kind = .repair := by
  have hempty : (halfMoved (clientFor pairA)).keysIn pairSlotOf 0 = [] := by
    rw [halfMoved_source]
    rfl
  have howners : (halfMoved (clientFor pairA)).owner (0 : Nat) ≠
      (halfMoved (clientFor pairB)).owner (0 : Nat) := by
    rw [halfMoved_source, halfMoved_target]
    decide
  have hfirst : Prog.Step (Client pairSlotOf)
      ((Valkey pairSlotOf importingTexts).restrict (HandOverOk (clientFor pairA)
        (clientFor pairB) "b" (masterClients [pairA, pairB])))
      (moveSlots 1 pairSeed "a" "b" 1, halfMoved)
      (moveEach 1 pairA pairB (masterClients [pairA, pairB]) [0] 0, halfMoved) :=
    moveSlots_step (by decide)
      ⟨prompt_valkey pairSlotOf importingTexts (.clusterNodes _) _, trivial⟩
      (parseNodes_importing _ _) rfl rfl
  have hprobe : (Valkey pairSlotOf importingTexts).restrict (HandOverOk (clientFor pairA)
      (clientFor pairB) "b" (masterClients [pairA, pairB]))
      (.getKeysInSlot (clientFor pairA) 0 1) halfMoved (Except.ok []) halfMoved := by
    refine ⟨⟨rfl, fun l hl => ?_⟩, fun _ _ => halfMoved_armed⟩
    obtain rfl := Except.ok.inj hl
    exact ⟨by decide, by simp, fun _ => hempty⟩
  have htold : (Valkey pairSlotOf importingTexts).restrict (HandOverOk (clientFor pairA)
      (clientFor pairB) "b" (masterClients [pairA, pairB]))
      (.setSlotNode (clientFor pairA) 0 "b") halfMoved (Except.ok ()) halfMoved :=
    ⟨⟨fun hrefuse => hrefuse.2.2 hempty, halfMoved_told.symm⟩, trivial⟩
  have hrun := ((ReflTransGen.single hfirst).tail (.call hprobe)).tail (.call htold)
  refine ⟨_, hrun, fun q => by rintro ⟨⟩, howners, fun cr d => ?_⟩
  rcases moveSlots_stop_detectable (fun _ _ => parseNodes_importing _ _) (by decide)
    (by decide) halfMoved_evident hrun 0 with hsame | ⟨-, hseen⟩
  · exact absurd hsame howners
  refine hseen (fun _ => .answered) id cr d (fun l => .refl l) rfl rfl ?_ fun x hx => ?_
  · change infoValue (parseInfo "cluster_state:ok\ncluster_slots_assigned:16384") _ ≠ "" ∧
      0 < atoiValue (infoValue (parseInfo "cluster_state:ok\ncluster_slots_assigned:16384") _)
    decide +kernel
  rcases List.mem_cons.1 hx with rfl | hx
  · refine ⟨⟨rfl, pairA, by rw [parseNodes_importing]; simp, rfl, by decide⟩, ?_⟩
    refine showsMarkers_of_none (fun s => ?_) (fun s => ?_)
    · rw [halfMoved_source]
      simp [Server.setNode, Server.setStable, pairNet]
    · rw [halfMoved_source]
      simp [Server.setNode, Server.setStable, pairNet]
  · obtain rfl := List.mem_singleton.1 hx
    exact ⟨⟨rfl, pairB, by rw [parseNodes_importing]; simp, rfl, by decide⟩, halfMoved_shows⟩

/-- An empty slot: right after the source was told, the two servers name
different owners, and neither shows a marker. -/
theorem moveSlots_undetected :
    Evident (clientFor pairA) (clientFor pairB) (pairNet ∅) ∧
    ∃ p net, Prog.Reaches (Client pairSlotOf)
        (Valkey pairSlotOf (pairTexts pairLineA pairLineB))
        (moveSlots 1 pairSeed "a" "b" 1, pairNet ∅) (p, net) ∧
      (net (clientFor pairA)).owner 0 = some "b" ∧
      (net (clientFor pairB)).owner 0 = some "a" ∧
      ¬ (net (clientFor pairA)).marked 0 ∧ ¬ (net (clientFor pairB)).marked 0 := by
  have hrun := Prog.reaches_after (E := Client pairSlotOf)
    (prompt_valkey pairSlotOf (pairTexts pairLineA pairLineB)) 3
    (moveSlots 1 pairSeed "a" "b" 1) (pairNet ∅)
  rw [moveSlots_after (by decide) rfl (parseNodes_pair _ _) rfl rfl] at hrun
  refine ⟨fun s => Or.inl rfl, _, _, hrun, by decide +kernel, by decide +kernel, ?_, ?_⟩
  · rw [Server.marked]; decide +kernel
  · rw [Server.marked]; decide +kernel

end Valkeyop.Cluster
