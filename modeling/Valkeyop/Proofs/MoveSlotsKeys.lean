import Valkeyop.Cluster.Admin

/-!
# Stopping `MoveSlots` anywhere loses no key

The whole argument is one invariant, `MoveInv`, and it has to hold before every
command, because the operator can be stopped there: a key of the source is
still where it was, or has arrived at the target with the source's value. A
failed `MIGRATE` is the only command that makes this interesting, and it is
covered key by key: whatever it did to one key is a copy or a move, and both
keep the invariant.

`Finished` is what the returned count promises about a slot. It survives every
later command, since a later slot's keys never come back to the source and a
later `SETSLOT NODE` names the same target.
-/

namespace Valkeyop.Cluster

open Valkeyop.Lib

variable {κ ν : Type} [DecidableEq κ]

/-! ## One key -/

/-- What may have become of a key since `net₀`, seen from the source `a` and
the target `b`: not moved, perhaps already copied; or moved. -/
def KeyKept (a b : String) (net₀ net : Net κ ν) (k : κ) : Prop :=
  (net a).get k = (net₀ a).get k ∧
      ((net b).get k = (net₀ b).get k ∨
        (net₀ a).get k ≠ none ∧ (net b).get k = (net₀ a).get k) ∨
    (net a).get k = none ∧ (net₀ a).get k ≠ none ∧ (net b).get k = (net₀ a).get k

theorem KeyKept.copyKey {a b : String} (hab : a ≠ b) {net₀ net : Net κ ν} {j : κ} (k : κ)
    (h : KeyKept a b net₀ net j) : KeyKept a b net₀ (net.copyKey a b k) j := by
  unfold KeyKept at h ⊢
  rw [Net.copyKey_of_ne net k hab, Net.copyKey_target_get]
  by_cases hk : j = k ∧ (net a).get k ≠ none
  · obtain ⟨rfl, hne⟩ := hk
    rw [if_pos ⟨rfl, hne⟩]
    rcases h with ⟨ha, _⟩ | ⟨ha, _⟩
    · exact Or.inl ⟨ha, Or.inr ⟨ha ▸ hne, ha⟩⟩
    · exact absurd ha hne
  · rw [if_neg hk]
    exact h

theorem KeyKept.moveKey {a b : String} (hab : a ≠ b) {net₀ net : Net κ ν} {j : κ} (k : κ)
    (h : KeyKept a b net₀ net j) : KeyKept a b net₀ (net.moveKey a b k) j := by
  have hcopy := h.copyKey hab k
  unfold KeyKept at h hcopy ⊢
  rw [Net.copyKey_of_ne net k hab] at hcopy
  rw [Net.moveKey_source net k hab, Net.moveKey_target net k hab]
  by_cases hj : j = k
  · subst hj
    rw [Server.get_drop_self, Net.copyKey_target_get]
    by_cases hne : (net a).get j = none
    · -- Nothing to move: the source did not hold the key.
      rw [if_neg (by simp [hne])]
      rcases h with ⟨ha, hb⟩ | ⟨_, h₀, hb⟩
      · exact Or.inl ⟨by rw [← ha, hne], hb⟩
      · exact Or.inr ⟨rfl, h₀, hb⟩
    · rw [if_pos ⟨rfl, hne⟩]
      rcases h with ⟨ha, _⟩ | ⟨ha, _⟩
      · exact Or.inr ⟨rfl, ha ▸ hne, ha⟩
      · exact absurd ha hne
  · rw [Server.get_drop_of_ne _ hj]
    exact hcopy

/-- A key of the source keeps its value on one side or the other, and one that
only the target had is not written over. -/
theorem KeyKept.value {a b : String} {net₀ net : Net κ ν} {k : κ}
    (h : KeyKept a b net₀ net k) :
    (∀ v, (net₀ a).get k = some v → (net a).get k = some v ∨ (net b).get k = some v) ∧
      ((net₀ a).get k = none → (net b).get k = (net₀ b).get k) := by
  rcases h with ⟨ha, hb⟩ | ⟨_, h₀, hb⟩
  · refine ⟨fun v hv => Or.inl (ha.trans hv), fun hnone => ?_⟩
    rcases hb with hb | ⟨hne, _⟩
    · exact hb
    · exact absurd hnone hne
  · exact ⟨fun v hv => Or.inr (hb.trans hv), fun hnone => absurd hnone h₀⟩

/-- Once the source no longer has a key, the target has what there was. -/
theorem KeyKept.arrived {a b : String} {net₀ net : Net κ ν} {k : κ}
    (h : KeyKept a b net₀ net k) (ha : (net a).get k = none) :
    (net b).get k = ((net₀ a).get k).or ((net₀ b).get k) := by
  cases h₀ : (net₀ a).get k with
  | none => exact h.value.2 h₀
  | some v =>
      rcases h.value.1 v h₀ with hv | hv
      · exact absurd (ha.symm.trans hv) (by simp)
      · exact hv

/-! ## The invariant of the whole move -/

section

variable (slotOf : κ → Int) (sel : List Int) (a b id : String) (masters : List String)

/-- Nothing is lost, and nothing outside the selected slots is touched. The
last field is what bounds the batches. -/
structure MoveInv (net₀ net : Net κ ν) : Prop where
  kept : ∀ k, KeyKept a b net₀ net k
  keys : ∀ x k, slotOf k ∉ sel → (net x).get k = (net₀ x).get k
  owner : ∀ x s, s ∉ sel → (net x).owner s = (net₀ x).owner s
  fewer : (net a).store.keys.length ≤ (net₀ a).store.keys.length

/-- A slot the move has finished with. -/
structure Finished (net : Net κ ν) (s : Int) : Prop where
  empty : ∀ k, slotOf k = s → (net a).get k = none
  owned : ∀ m ∈ masters, (net m).owner s = some id

/-- The invariant, with the slots in `done` finished. -/
def Progress (net₀ : Net κ ν) (done : List Int) (net : Net κ ν) : Prop :=
  MoveInv slotOf sel a b net₀ net ∧ ∀ s ∈ done, Finished slotOf a id masters net s

end

section

variable {slotOf : κ → Int} {sel : List Int} {a b id : String} {masters : List String}
  {net₀ net : Net κ ν} {done : List Int}

theorem MoveInv.refl : MoveInv slotOf sel a b net₀ net₀ :=
  ⟨fun _ => Or.inl ⟨rfl, Or.inl rfl⟩, fun _ _ _ => rfl, fun _ _ _ => rfl, Nat.le_refl _⟩

/-- A command that leaves keys alone, and records at most the target as the
owner of a selected slot, keeps all progress. -/
theorem Progress.modify (f : Server κ ν → Server κ ν) (x : String)
    (hf : ∀ v, (f v).store = v.store)
    (hown : ∀ v s, (f v).owner s = v.owner s ∨ s ∈ sel ∧ (f v).owner s = some id)
    (h : Progress slotOf sel a b id masters net₀ done net) :
    Progress slotOf sel a b id masters net₀ done (net.modify x f) := by
  have howner : ∀ y s, ((net.modify x f) y).owner s = (net y).owner s ∨
      s ∈ sel ∧ ((net.modify x f) y).owner s = some id := by
    intro y s
    by_cases hy : y = x
    · subst hy
      rw [Net.modify_self]
      exact hown _ s
    · rw [Net.modify_of_ne _ _ hy]
      exact Or.inl rfl
  refine ⟨⟨fun k => ?_, fun y k hk => ?_, fun y s hs => ?_, ?_⟩, fun s hs => ⟨?_, ?_⟩⟩
  · have hk := h.1.kept k
    unfold KeyKept at hk ⊢
    rw [Net.get_modify hf, Net.get_modify hf]
    exact hk
  · rw [Net.get_modify hf]
    exact h.1.keys y k hk
  · rcases howner y s with heq | ⟨hmem, _⟩
    · rw [heq]
      exact h.1.owner y s hs
    · exact absurd hmem hs
  · rw [Net.modify_proj Server.store f hf]
    exact h.1.fewer
  · intro k hk
    rw [Net.get_modify hf]
    exact (h.2 s hs).empty k hk
  · intro m hm
    rcases howner m s with heq | ⟨_, heq⟩
    · rw [heq]
      exact (h.2 s hs).owned m hm
    · exact heq

theorem Progress.setNode {s : Int} (hs : s ∈ sel) (x : String)
    (h : Progress slotOf sel a b id masters net₀ done net) :
    Progress slotOf sel a b id masters net₀ done (net.modify x (Server.setNode s id)) := by
  refine h.modify (Server.setNode s id) x (fun _ => rfl) (fun v s' => ?_)
  by_cases hss : s' = s
  · subst hss
    exact Or.inr ⟨hs, Function.update_self ..⟩
  · exact Or.inl (Function.update_of_ne hss ..)

theorem Progress.copyKey (hab : a ≠ b) {k : κ} (hk : slotOf k ∈ sel)
    (h : Progress slotOf sel a b id masters net₀ done net) :
    Progress slotOf sel a b id masters net₀ done (net.copyKey a b k) := by
  refine ⟨⟨fun j => (h.1.kept j).copyKey hab k, fun x j hj => ?_, fun x s hs => ?_, ?_⟩,
    fun s hs => ⟨fun j hj => ?_, fun m hm => ?_⟩⟩
  · have hjk : j ≠ k := fun hc => hj (hc ▸ hk)
    by_cases hx : x = b
    · subst hx
      rw [Net.copyKey_target_get, if_neg (by simp [hjk])]
      exact h.1.keys x j hj
    · rw [Net.copyKey_of_ne net k hx]
      exact h.1.keys x j hj
  · rw [(Net.SameViews.copyKey net a b k).owner]
    exact h.1.owner x s hs
  · rw [Net.copyKey_of_ne net k hab]
    exact h.1.fewer
  · rw [Net.copyKey_of_ne net k hab]
    exact (h.2 s hs).empty j hj
  · rw [(Net.SameViews.copyKey net a b k).owner]
    exact (h.2 s hs).owned m hm

theorem Progress.moveKey (hab : a ≠ b) {k : κ} (hk : slotOf k ∈ sel)
    (h : Progress slotOf sel a b id masters net₀ done net) :
    Progress slotOf sel a b id masters net₀ done (net.moveKey a b k) := by
  refine ⟨⟨fun j => (h.1.kept j).moveKey hab k, fun x j hj => ?_, fun x s hs => ?_, ?_⟩,
    fun s hs => ⟨fun j hj => ?_, fun m hm => ?_⟩⟩
  · have hjk : j ≠ k := fun hc => hj (hc ▸ hk)
    rw [← (h.copyKey hab hk).1.keys x j hj]
    by_cases hx : x = a
    · subst hx
      rw [Net.moveKey_source net k hab, Server.get_drop_of_ne _ hjk,
        Net.copyKey_of_ne net k hab]
    · rw [Net.moveKey, Net.modify_of_ne _ _ hx]
  · rw [(Net.SameViews.moveKey net a b k).owner]
    exact h.1.owner x s hs
  · rw [Net.moveKey_source net k hab]
    refine Nat.le_trans ?_ h.1.fewer
    rw [Server.drop, AList.keys_erase]
    exact List.length_erase_le
  · rw [Net.moveKey_source net k hab]
    by_cases hjk : j = k
    · rw [hjk, Server.get_drop_self]
    · rw [Server.get_drop_of_ne _ hjk]
      exact (h.2 s hs).empty j hj
  · rw [(Net.SameViews.moveKey net a b k).owner]
    exact (h.2 s hs).owned m hm

/-- A `MIGRATE`, however far it got. -/
theorem Progress.movedPart (hab : a ≠ b) {ks : List κ} {net' : Net κ ν}
    (hpart : Net.MovedPart a b ks net net') (hks : ∀ k ∈ ks, slotOf k ∈ sel)
    (h : Progress slotOf sel a b id masters net₀ done net) :
    Progress slotOf sel a b id masters net₀ done net' := by
  induction hpart with
  | nil net => exact h
  | left _ ih => exact ih (fun j hj => hks j (by simp [hj])) h
  | copied _ ih =>
      exact ih (fun j hj => hks j (by simp [hj])) (h.copyKey hab (hks _ (by simp)))
  | moved _ ih =>
      exact ih (fun j hj => hks j (by simp [hj])) (h.moveKey hab (hks _ (by simp)))

end

/-! ## How many keys of a slot the source still holds -/

theorem Net.keysIn_moveKey_sublist {a b : String} (hab : a ≠ b) (slotOf : κ → Int)
    (net : Net κ ν) (k : κ) (s : Int) :
    List.Sublist ((net.moveKey a b k a).keysIn slotOf s) ((net a).keysIn slotOf s) := by
  rw [Net.moveKey_source net k hab, Server.keysIn, Server.keysIn, Server.drop,
    AList.keys_erase]
  exact List.erase_sublist.filter _

theorem Net.keysIn_moveKeys_le {a b : String} (hab : a ≠ b) (slotOf : κ → Int) (s : Int) :
    ∀ (ks : List κ) (net : Net κ ν),
      ((ks.foldl (Net.moveKey a b) net a).keysIn slotOf s).length ≤
        ((net a).keysIn slotOf s).length := by
  intro ks
  induction ks with
  | nil => intro net; exact Nat.le_refl _
  | cons k ks ih =>
      intro net
      exact Nat.le_trans (ih _) (Net.keysIn_moveKey_sublist hab slotOf net k s).length_le

/-- A batch that starts with a key the source holds leaves it with fewer. -/
theorem Net.keysIn_moveKeys_lt {a b : String} (hab : a ≠ b) {slotOf : κ → Int} {s : Int}
    {k : κ} (ks : List κ) {net : Net κ ν} (hk : k ∈ (net a).keysIn slotOf s) :
    (((k :: ks).foldl (Net.moveKey a b) net a).keysIn slotOf s).length <
      ((net a).keysIn slotOf s).length := by
  refine Nat.lt_of_le_of_lt (Net.keysIn_moveKeys_le hab slotOf s ks _) ?_
  have hsub := Net.keysIn_moveKey_sublist hab slotOf net k s
  refine Nat.lt_of_le_of_ne hsub.length_le fun hlen => ?_
  rw [← hsub.eq_of_length hlen, Server.mem_keysIn, Net.moveKey_source net k hab] at hk
  exact hk.1 (Server.get_drop_self k _)

/-! ## The commands of one slot -/

section

variable {slotOf : κ → Int} {texts : Texts κ ν} {sel : List Int} {source target : NodeInfo}
  {masters : List String} {net₀ : Net κ ν} {done : List Int}

theorem clientFor_of_ip {nd : NodeInfo} (h : nd.ip ≠ "") :
    clientFor nd = dialAddr nd.ip nd.port := by
  rw [clientFor, if_neg h]

section

variable (slotOf sel source target masters net₀ done)

/-- What the key moves of slot `s` leave behind: all progress so far, no key of
the slot on the source if they went through, and an answer given enough fuel. -/
def KeysMoved (s : Int) (fuel : Nat) (r : Option (Except String Unit)) (net : Net κ ν) :
    Prop :=
  Progress slotOf sel (clientFor source) (clientFor target) target.id masters net₀ done
    net ∧
  (r = some (.ok ()) → (net (clientFor source)).keysIn slotOf s = []) ∧
  (r = none → fuel ≤ (net₀ (clientFor source)).store.keys.length)

end

omit [DecidableEq κ] in
theorem Server.keysIn_length_le (slotOf : κ → Int) (v : Server κ ν) (s : Int) :
    (v.keysIn slotOf s).length ≤ v.store.keys.length :=
  List.length_filter_le ..

/-- The key loop keeps the invariant at every command. When it reports the
slot empty it is, and it can only run out of fuel if there were that many keys
to begin with. -/
theorem moveKeys_wp (hab : clientFor source ≠ clientFor target) {s : Int} (hs : s ∈ sel)
    {total : Nat} :
    ∀ (fuel : Nat) (net : Net κ ν),
      Progress slotOf sel (clientFor source) (clientFor target) target.id masters net₀ done
        net →
      total + ((net (clientFor source)).keysIn slotOf s).length ≤
        fuel + (net₀ (clientFor source)).store.keys.length →
      (moveKeys source target s fuel).Wp Prog.Quiet (Valkey slotOf texts)
        (fun _ => MoveInv slotOf sel (clientFor source) (clientFor target) net₀)
        (KeysMoved slotOf sel source target masters net₀ done s total) net := by
  intro fuel
  induction fuel with
  | zero =>
      intro net h hfuel
      exact Prog.wp_quiet_pure.2 ⟨h, by simp, fun _ => by omega⟩
  | succ fuel ih =>
      intro net h hfuel
      refine Prog.wp_quiet_op_bind.2 ⟨h.1, fun r net₁ hr => ?_⟩
      obtain ⟨rfl, hr⟩ := hr
      match r with
      | .error e => exact Prog.wp_quiet_pure.2 ⟨h, by simp, by simp⟩
      | .ok [] => exact Prog.wp_quiet_pure.2 ⟨h, fun _ => (hr [] rfl).2.2 rfl, by simp⟩
      | .ok (k :: ks) =>
          have hmem := (hr (k :: ks) rfl).2.1
          have hsel : ∀ j ∈ k :: ks, slotOf j ∈ sel := fun j hj => by
            rw [(Server.mem_keysIn.1 (hmem j hj)).2]; exact hs
          refine Prog.wp_quiet_op_bind.2 ⟨h.1, fun r₂ net₂ hr₂ => ?_⟩
          match r₂ with
          | .error e =>
              refine Prog.wp_quiet_pure.2 ⟨?_, by simp, by simp⟩
              rcases hr₂ with rfl | ⟨hip, hpart⟩
              · exact h
              · rw [← clientFor_of_ip hip] at hpart
                exact h.movedPart hab hpart hsel
          | .ok () =>
              obtain ⟨hip, rfl⟩ := hr₂
              rw [← clientFor_of_ip hip]
              -- the batch was not empty, so the source holds fewer keys now
              have hlt := Net.keysIn_moveKeys_lt hab ks (hmem k (by simp))
              exact ih _ (h.movedPart hab (.all ..) hsel) (by omega)

theorem handOver_wp (hab : clientFor source ≠ clientFor target) {s : Int} (hs : s ∈ sel)
    (fuel : Nat) (net : Net κ ν)
    (h : Progress slotOf sel (clientFor source) (clientFor target) target.id masters net₀
      done net) :
    (handOver fuel source target s).Wp Prog.Quiet (Valkey slotOf texts)
      (fun _ => MoveInv slotOf sel (clientFor source) (clientFor target) net₀)
      (KeysMoved slotOf sel source target masters net₀ done s fuel) net := by
  have himp := h.modify (Server.setImporting s source.id) (clientFor target)
    (fun _ => rfl) fun _ _ => Or.inl rfl
  refine Prog.wp_quiet_op_bind.2 ⟨h.1, fun r net₁ hr => ?_⟩
  match r with
  | .error e =>
      refine Prog.wp_quiet_pure.2 ⟨?_, by simp, by simp⟩
      rcases hr with rfl | ⟨_, rfl⟩
      · exact h
      · exact himp
  | .ok () =>
      obtain ⟨-, rfl⟩ := hr
      have hmig := himp.modify (Server.setMigrating s target.id) (clientFor source)
        (fun _ => rfl) fun _ _ => Or.inl rfl
      refine Prog.wp_quiet_op_bind.2 ⟨himp.1, fun r₂ net₂ hr₂ => ?_⟩
      match r₂ with
      | .error e =>
          refine Prog.wp_quiet_pure.2 ⟨?_, by simp, by simp⟩
          rcases hr₂ with rfl | ⟨_, rfl⟩
          · exact himp
          · exact hmig
      | .ok () =>
          obtain ⟨-, rfl⟩ := hr₂
          refine moveKeys_wp hab hs fuel _ hmig ?_
          have := Server.keysIn_length_le slotOf
            (((net.modify (clientFor target) (Server.setImporting s source.id)).modify
              (clientFor source) (Server.setMigrating s target.id)) (clientFor source)) s
          have := hmig.1.fewer
          omega

theorem Finished.setNode {a id : String} {ms : List String} {net : Net κ ν} {s : Int}
    (h : Finished slotOf a id ms net s) (x : String) :
    Finished slotOf a id (ms ++ [x]) (net.modify x (Server.setNode s id)) s := by
  refine ⟨fun k hk => ?_, fun m hm => ?_⟩
  · rw [Net.get_modify (f := Server.setNode s id) fun _ => rfl]
    exact h.empty k hk
  · by_cases hmx : m = x
    · subst hmx
      rw [Net.modify_self]
      exact Function.update_self ..
    · rw [Net.modify_of_ne _ _ hmx]
      exact h.owned m (by simpa [hmx] using hm)

/-- The assignment loop: `assigned` are the masters already told. -/
theorem assignOwner_wp {s : Int} (hs : s ∈ sel) :
    ∀ (todo assigned : List String) (net : Net κ ν),
      Progress slotOf sel (clientFor source) (clientFor target) target.id masters net₀ done
        net →
      Finished slotOf (clientFor source) target.id assigned net s →
      (assignOwner target.id s todo).Wp Prog.Quiet (Valkey slotOf texts)
        (fun _ => MoveInv slotOf sel (clientFor source) (clientFor target) net₀)
        (fun r net' =>
          Progress slotOf sel (clientFor source) (clientFor target) target.id masters net₀
            done net' ∧
          (r = .ok () →
            Finished slotOf (clientFor source) target.id (assigned ++ todo) net' s)) net := by
  intro todo
  induction todo with
  | nil =>
      intro assigned net h hfin
      exact Prog.wp_quiet_pure.2 ⟨h, fun _ => by rwa [List.append_nil]⟩
  | cons m todo ih =>
      intro assigned net h hfin
      refine Prog.wp_quiet_op_bind.2 ⟨h.1, fun r net₁ hr => ?_⟩
      match r with
      | .error e =>
          refine Prog.wp_quiet_pure.2 ⟨?_, by simp⟩
          rcases hr with rfl | ⟨_, rfl⟩
          · exact h
          · exact h.setNode hs m
      | .ok () =>
          obtain ⟨-, rfl⟩ := hr
          have := ih (assigned ++ [m]) _ (h.setNode hs m) (hfin.setNode m)
          simpa using this

theorem Progress.push {a b id : String} {net : Net κ ν} {s : Int}
    (h : Progress slotOf sel a b id masters net₀ done net)
    (hs : Finished slotOf a id masters net s) :
    Progress slotOf sel a b id masters net₀ (done ++ [s]) net := by
  refine ⟨h.1, fun s' hs' => ?_⟩
  rcases List.mem_append.1 hs' with hs' | hs'
  · exact h.2 s' hs'
  · rw [List.mem_singleton.1 hs']
    exact hs

/-- One slot, from the probe to the last assignment. -/
theorem moveSlot_wp (hab : clientFor source ≠ clientFor target) {s : Int} (hs : s ∈ sel)
    (fuel : Nat) (net : Net κ ν)
    (h : Progress slotOf sel (clientFor source) (clientFor target) target.id masters net₀
      done net) :
    (moveSlot fuel source target masters s).Wp Prog.Quiet (Valkey slotOf texts)
      (fun _ => MoveInv slotOf sel (clientFor source) (clientFor target) net₀)
      (fun r net' =>
        Progress slotOf sel (clientFor source) (clientFor target) target.id masters net₀
          (if r = some (.ok ()) then done ++ [s] else done) net' ∧
        (r = none → fuel ≤ (net₀ (clientFor source)).store.keys.length)) net := by
  refine Prog.wp_quiet_op_bind.2 ⟨h.1, fun r net₁ hr => ?_⟩
  obtain ⟨rfl, hr⟩ := hr
  match r with
  | .error e => exact Prog.wp_quiet_pure.2 ⟨h, by simp⟩
  | .ok probe =>
      have hhanded : (if probe.isEmpty then pure (some (.ok ())) else
          handOver fuel source target s).Wp Prog.Quiet (Valkey slotOf texts)
          (fun _ => MoveInv slotOf sel (clientFor source) (clientFor target) net₀)
          (KeysMoved slotOf sel source target masters net₀ done s fuel) net₁ := by
        cases probe with
        | nil => exact Prog.wp_quiet_pure.2 ⟨h, fun _ => (hr [] rfl).2.2 rfl, by simp⟩
        | cons k ks => exact handOver_wp hab hs fuel net₁ h
      refine Prog.wp_bind.2 (hhanded.mono fun handed net₂ hh => ?_)
      match handed with
      | none => exact Prog.wp_quiet_pure.2 ⟨hh.1, hh.2.2⟩
      | some (.error e) => exact Prog.wp_quiet_pure.2 ⟨hh.1, by simp⟩
      | some (.ok ()) =>
          have hfin : Finished slotOf (clientFor source) target.id [] net₂ s :=
            ⟨Server.keysIn_eq_nil.1 (hh.2.1 rfl), by simp⟩
          refine Prog.wp_bind.2 ((assignOwner_wp hs masters [] net₂ hh.1 hfin).mono ?_)
          intro r net₃ hr
          match r with
          | .error e => exact Prog.wp_quiet_pure.2 ⟨hr.1, by simp⟩
          | .ok () => exact Prog.wp_quiet_pure.2 ⟨hr.1.push (hr.2 rfl), by simp⟩

/-! ## All slots -/

section

variable (slotOf sel source target masters net₀)

/-- What the count and the error `MoveSlots` returns say. -/
def Moved (fuel : Nat) : Option (Nat × Option String) → Net κ ν → Prop
  | none, net =>
      MoveInv slotOf sel (clientFor source) (clientFor target) net₀ net ∧
        fuel ≤ (net₀ (clientFor source)).store.keys.length
  | some (k, err), net =>
      Progress slotOf sel (clientFor source) (clientFor target) target.id masters net₀
        (sel.take k) net ∧ (err = none → k = sel.length)

end

theorem Moved.inv {fuel : Nat} {r : Option (Nat × Option String)} {net : Net κ ν}
    (h : Moved slotOf sel source target masters net₀ fuel r net) :
    MoveInv slotOf sel (clientFor source) (clientFor target) net₀ net := by
  match r with
  | none => exact h.1
  | some (k, err) => exact h.1.1

/-- The loop over the slots, `done` of them behind it. -/
theorem moveEach_wp (hab : clientFor source ≠ clientFor target) (fuel : Nat) :
    ∀ (rest done : List Int) (net : Net κ ν), done ++ rest = sel →
      Progress slotOf sel (clientFor source) (clientFor target) target.id masters net₀ done
        net →
      (moveEach fuel source target masters rest done.length).Wp Prog.Quiet
        (Valkey slotOf texts)
        (fun _ => MoveInv slotOf sel (clientFor source) (clientFor target) net₀)
        (Moved slotOf sel source target masters net₀ fuel) net := by
  intro rest
  induction rest with
  | nil =>
      intro done net hsel h
      rw [List.append_nil] at hsel
      subst hsel
      exact Prog.wp_quiet_pure.2 ⟨by rwa [List.take_length], fun _ => rfl⟩
  | cons s rest ih =>
      intro done net hsel h
      have hs : s ∈ sel := by rw [← hsel]; simp
      refine Prog.wp_bind.2 ((moveSlot_wp hab hs fuel net h).mono fun r net₁ hr => ?_)
      match r with
      | none => exact Prog.wp_quiet_pure.2 ⟨hr.1.1, hr.2 rfl⟩
      | some (.error e) =>
          refine Prog.wp_quiet_pure.2 ⟨?_, by simp⟩
          have htake : sel.take done.length = done := by rw [← hsel, List.take_left]
          rw [htake]
          exact hr.1
      | some (.ok ()) =>
          have := ih (done ++ [s]) net₁ (by simpa using hsel) hr.1
          rwa [List.length_append] at this

end

/-! ## Which slots are selected -/

theorem selectFrom_eq {n : Int} :
    ∀ (k : Nat) (s : Int) (acc : List Int), acc.length ≤ n.toNat →
      selectFrom n k s acc =
        (acc ++ (List.range k).map fun i : Nat => s + (i : Int)).take n.toNat := by
  intro k
  induction k with
  | zero =>
      intro s acc hacc
      simp [selectFrom, List.take_of_length_le hacc]
  | succ k ih =>
      intro s acc hacc
      rw [selectFrom]
      split
      · next hlt =>
          rw [ih _ _ (by simp; omega), List.range_succ_eq_map]
          simp [Function.comp_def, add_assoc, add_comm (1 : Int)]
      · next hge =>
          have : acc.length = n.toNat := by omega
          rw [← this, List.take_left]

theorem selectSlots_eq {n : Int} :
    ∀ (ranges : List SlotRange) (acc : List Int), acc.length ≤ n.toNat →
      selectSlots n ranges acc = (acc ++ ranges.flatMap SlotRange.slots).take n.toNat := by
  intro ranges
  induction ranges with
  | nil =>
      intro acc hacc
      simp [selectSlots, List.take_of_length_le hacc]
  | cons r ranges ih =>
      intro acc hacc
      have hX : selectFrom n r.size.toNat r.start acc = (acc ++ r.slots).take n.toNat :=
        selectFrom_eq _ _ _ hacc
      simp only [selectSlots, hX, List.length_take, List.flatMap_cons,
        ← List.append_assoc acc]
      split
      · next hge => exact (List.take_append_of_le_length (by omega)).symm
      · next hlt =>
          rw [List.take_of_length_le (by omega)]
          exact ih _ (by omega)

/-! ## The theorem -/

/-- The slots a move of `n` slots away from `source` is about. -/
def selected (source : NodeInfo) (n : Int) : List Int :=
  (source.slots.flatMap SlotRange.slots).take n.toNat

theorem moveSlots_wp {slotOf : κ → Int} {texts : Texts κ ν} {net₀ : Net κ ν} (fuel : Nat)
    {seed : Endpoint} {fromNodeID toNodeID : String} (n : Int) {nodes : List NodeInfo}
    {source target : NodeInfo}
    (hnodes : parseNodes (texts.nodes net₀ (dialAddr seed.host seed.port)) = nodes)
    (hsource : ∀ x ∈ nodeByID nodes fromNodeID, x = source)
    (htarget : ∀ x ∈ nodeByID nodes toNodeID, x = target)
    (hab : clientFor source ≠ clientFor target) :
    (moveSlots fuel seed fromNodeID toNodeID n).Wp Prog.Quiet (Valkey slotOf texts)
      (fun _ => MoveInv slotOf (selected source n) (clientFor source) (clientFor target)
        net₀)
      (Moved slotOf (selected source n) source target (masterClients nodes) net₀ fuel)
      net₀ := by
  have hstart : ∀ err, (err = none → n ≤ 0) →
      Moved slotOf (selected source n) source target (masterClients nodes) net₀ fuel
        (some (0, err)) net₀ := by
    intro err herr
    refine ⟨⟨.refl, by simp⟩, fun he => ?_⟩
    rw [selected, Int.toNat_of_nonpos (herr he)]
    rfl
  rw [moveSlots]
  split
  · next hn => exact Prog.wp_quiet_pure.2 (hstart none fun _ => hn)
  · refine Prog.wp_quiet_op_bind.2 ⟨.refl, fun r net₁ hr => ?_⟩
    obtain ⟨rfl, hr⟩ := hr
    cases r with
    | error e => exact Prog.wp_quiet_pure.2 (hstart (some e) (by simp))
    | ok raw =>
        obtain rfl := hr raw rfl
        simp only [hnodes]
        split
        · next x y hx hy =>
            obtain rfl := hsource x hx
            obtain rfl := htarget y hy
            rw [selectSlots_eq _ _ (Nat.zero_le _), List.nil_append]
            exact moveEach_wp hab fuel (selected x n) [] net₁ rfl ⟨.refl, by simp⟩
        · exact Prog.wp_quiet_pure.2 (hstart _ (by simp))

/-- `MoveSlots` can be stopped anywhere. Whatever was acknowledged, lost or
half done by then, every key of a selected slot is on the source or on the
target, with the source's value if it had one; nothing else has changed hands;
and a slot that was counted is finished. With more fuel than the source has
keys, the key loop always ends. -/
theorem moveSlots_stopped_anywhere {slotOf : κ → Int} {texts : Texts κ ν}
    {net₀ net : Net κ ν} {fuel : Nat} {seed : Endpoint} {fromNodeID toNodeID : String}
    {n : Int} {nodes : List NodeInfo} {source target : NodeInfo}
    {p : RpcProg κ (Option (Nat × Option String))}
    (hnodes : parseNodes (texts.nodes net₀ (dialAddr seed.host seed.port)) = nodes)
    (hsource : ∀ x ∈ nodeByID nodes fromNodeID, x = source)
    (htarget : ∀ x ∈ nodeByID nodes toNodeID, x = target)
    (hab : clientFor source ≠ clientFor target)
    (hranges : ∀ r ∈ source.slots, r.start ≤ r.stop)
    (hrun : Prog.Reaches Prog.Quiet (Valkey slotOf texts)
      (moveSlots fuel seed fromNodeID toNodeID n, net₀) (p, net)) :
    (∀ k, slotOf k ∈ selected source n →
      (∀ v, (net₀ (clientFor source)).get k = some v →
        (net (clientFor source)).get k = some v ∨ (net (clientFor target)).get k = some v) ∧
      ((net₀ (clientFor source)).get k = none →
        (net (clientFor target)).get k = (net₀ (clientFor target)).get k)) ∧
    (∀ x k, slotOf k ∉ selected source n → (net x).get k = (net₀ x).get k) ∧
    (∀ x s, s ∉ selected source n → (net x).owner s = (net₀ x).owner s) ∧
    (∀ moved err, p = .ret (some (moved, err)) →
      (∀ s ∈ (selected source n).take moved,
        (∀ k, slotOf k = s →
          (net (clientFor source)).get k = none ∧
          (net (clientFor target)).get k =
            ((net₀ (clientFor source)).get k).or ((net₀ (clientFor target)).get k)) ∧
        (∀ nd ∈ nodes, nd.isPrimary → (net (clientFor nd)).owner s = some target.id)) ∧
      (err = none → (moved : Int) = max 0 (min n source.slotCount))) ∧
    ((net₀ (clientFor source)).store.keys.length < fuel → p ≠ .ret none) := by
  have hwp : (moveSlots fuel seed fromNodeID toNodeID n).Wp Prog.Quiet
      (Valkey slotOf texts) _ _ net₀ := moveSlots_wp fuel n hnodes hsource htarget hab
  have hinv := hwp.invariant (fun _ _ h => h) (fun _ _ h => h.inv) hrun
  refine ⟨fun k _ => ?_, hinv.keys, hinv.owner, fun moved err hp => ?_, fun hfuel hp => ?_⟩
  · exact (hinv.kept k).value
  · subst hp
    obtain ⟨hprog, hcount⟩ := hwp.returns hrun
    refine ⟨fun s hs => ⟨fun k hk => ?_, fun nd hnd hprim => ?_⟩, fun herr => ?_⟩
    · have hnone := (hprog.2 s hs).empty k hk
      exact ⟨hnone, (hinv.kept k).arrived hnone⟩
    · refine (hprog.2 s hs).owned (clientFor nd) ?_
      exact List.mem_map_of_mem (List.mem_filter.2 ⟨hnd, hprim⟩)
    · have hlen := length_flatMap_slots source.slots hranges
      rw [hcount herr, selected, List.length_take, NodeInfo.slotCount, ← hlen]
      omega
  · subst hp
    have := (hwp.returns hrun).2
    omega

/-- A slot with one key, moved to the end. -/
theorem moveSlots_stopped_anywhere_pair :
    ∃ net, Prog.Reaches Prog.Quiet (Valkey pairSlotOf (pairTexts pairLineA pairLineB))
        (moveSlots 3 pairSeed "a" "b" 1, pairNet (AList.singleton 0 "x"))
        (.ret (some (1, none)), net) ∧
      (net (clientFor pairA)).get 0 = none ∧ (net (clientFor pairB)).get 0 = some "x" := by
  have hrun := Prog.reaches_after (E := Prog.Quiet)
    (prompt_valkey pairSlotOf (pairTexts pairLineA pairLineB)) 20
    (moveSlots 3 pairSeed "a" "b" 1) (pairNet (AList.singleton 0 "x"))
  have hans : ((moveEach 3 pairA pairB (masterClients [pairA, pairB])
      (selectSlots 1 pairA.slots []) 0).run
      (prompt pairSlotOf (pairTexts pairLineA pairLineB))
      (pairNet (AList.singleton 0 "x"))).1 = some (1, none) := by decide +kernel
  rw [moveSlots_after (by decide) rfl (parseNodes_pair _ _) rfl rfl,
    Prog.after_of_length_le _ _ _ _ (by decide +kernel), hans] at hrun
  have hsource : ∀ x ∈ nodeByID [pairA, pairB] "a", x = pairA := by decide
  have htarget : ∀ x ∈ nodeByID [pairA, pairB] "b", x = pairB := by decide
  have hdone := (moveSlots_stopped_anywhere (parseNodes_pair _ _) hsource htarget
    (by decide) (by decide) hrun).2.2.2.1 1 none rfl
  exact ⟨_, hrun, (hdone.1 0 (by decide)).1 0 rfl⟩

end Valkeyop.Cluster
