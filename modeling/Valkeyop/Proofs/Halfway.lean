import Valkeyop.Cluster.Ledger
import Valkeyop.Proofs.RepairSlots

/-!
# Where a move can stop

`MoveSlots` goes through the slots one after the other, and each slot through a few stages.
This file says what they are, on a cluster that was settled before: a slot is untouched, its
keys are being copied, or the masters are being told the new owner; and of a slot without keys
nothing needs to be said. Each command keeps the stage of every slot or moves its own slot on
by one, whether the command succeeds, fails, or fails after all.

What matters for a repair is which markers are up. While keys are on both sides, both sides
show the slot as open; from then on until a side has been told the new owner it keeps doing so.
-/

namespace Valkeyop.Cluster

open Valkeyop.Lib Prog

variable {κ ν : Type}

/-- The servers a move is about: the two ends, the one whose list it has read, and the masters. -/
structure Route where
  source : String
  target : String
  seed : String
  sourceID : String
  targetID : String
  masters : List String

/-- The servers whose opinion counts. -/
def Route.Heard (r : Route) (x : String) : Prop := x = r.seed ∨ x ∈ r.masters

variable [DecidableEq κ]

section

variable (slotOf : κ → Int) (l : Ledger κ ν) (r : Route) (s : Int) (net : Net κ ν)

/-- The keys of the slot are at the two ends, each with the value it had. -/
structure Spread : Prop where
  source : ∀ k, slotOf k = s → (net r.source).get k = l.data k ∨ (net r.source).get k = none
  target : ∀ k, slotOf k = s → (net r.target).get k = l.data k ∨ (net r.target).get k = none
  either : ∀ k, slotOf k = s → l.data k ≠ none →
    (net r.source).get k ≠ none ∨ (net r.target).get k ≠ none
  others : ∀ x ∈ r.masters, x ≠ r.source → x ≠ r.target → ∀ k, slotOf k = s →
    (net x).get k = none

/-- Nothing has happened to the slot. -/
structure Still : Prop where
  owner : ∀ x, r.Heard x → (net x).owner s = l.owner s
  unmarked : ∀ x ∈ r.masters, ¬ (net x).marked s
  data : ∀ x ∈ r.masters, ∀ k, slotOf k = s →
    (net x).get k = if l.owner s = some (net x).id then l.data k else none

/-- The source has the slot, and its keys are on their way. -/
structure Copying : Prop where
  given : l.owner s = some r.sourceID
  owner : ∀ x, r.Heard x → (net x).owner s = some r.sourceID
  spread : Spread slotOf l r s net
  marks : (∀ k, slotOf k = s → (net r.source).get k = l.data k) ∨
    (net r.source).marked s ∧ (net r.target).marked s

/-- The keys are across, and the masters are told the new owner one after the other. -/
structure Telling : Prop where
  given : l.owner s = some r.sourceID
  owner : ∀ x, r.Heard x → (net x).owner s = some r.sourceID ∨ (net x).owner s = some r.targetID
  spread : Spread slotOf l r s net
  across : ∀ k, slotOf k = s → (net r.source).get k = none
  source : (net r.source).marked s ∨ (net r.source).owner s = some r.targetID
  target : (net r.target).marked s ∨ (net r.target).owner s = some r.targetID

/-- There is no key of the slot. -/
def Bare : Prop := ∀ k, slotOf k = s → l.data k = none

/-- What a stop may have made of a slot. -/
def Stage : Prop :=
  Bare slotOf l s ∨ Still slotOf l r s net ∨ Copying slotOf l r s net ∨ Telling slotOf l r s net

end

/-! ## The other slots -/

/-- Two sets of servers that are the same as far as one slot is concerned. -/
structure Agree (slotOf : κ → Int) (s : Int) (net net' : Net κ ν) : Prop where
  view : ∀ x, SameView s (net x) (net' x)
  keys : SameSlot slotOf s net net'

section

variable {slotOf : κ → Int} {l : Ledger κ ν} {r : Route} {s s' : Int} {net net₁ net' : Net κ ν}

omit [DecidableEq κ] in
theorem SameView.marked {v v' : Server κ ν} (h : SameView s v v') : v'.marked s ↔ v.marked s := by
  rw [Server.marked, Server.marked, h.migrating, h.importing]

theorem Agree.refl (net : Net κ ν) : Agree slotOf s net net :=
  ⟨fun x => .refl s (net x), fun _ _ _ => rfl⟩

theorem Agree.trans (h : Agree slotOf s net net₁) (h' : Agree slotOf s net₁ net') :
    Agree slotOf s net net' where
  view x := ⟨(h'.view x).id.trans (h.view x).id, (h'.view x).owner.trans (h.view x).owner,
    (h'.view x).migrating.trans (h.view x).migrating,
    (h'.view x).importing.trans (h.view x).importing⟩
  keys := h.keys.trans h'.keys

theorem Agree.modify {x : String} {f : Server κ ν → Server κ ν} (hview : ∀ v, SameView s v (f v))
    (hstore : ∀ v, (f v).store = v.store) : Agree slotOf s net (net.modify x f) where
  view := Net.sameView_modify net s x hview
  keys y k _ := Net.get_modify hstore x y k

theorem Spread.of_keys (h : Spread slotOf l r s net) (hkeys : SameSlot slotOf s net net') :
    Spread slotOf l r s net' where
  source k hk := by rw [hkeys _ k hk]; exact h.source k hk
  target k hk := by rw [hkeys _ k hk]; exact h.target k hk
  either k hk := by rw [hkeys _ k hk, hkeys _ k hk]; exact h.either k hk
  others x hx hxa hxb k hk := by rw [hkeys _ k hk]; exact h.others x hx hxa hxb k hk

theorem Still.agree (h : Still slotOf l r s net) (ha : Agree slotOf s net net') :
    Still slotOf l r s net' where
  owner x hx := by rw [(ha.view x).owner, h.owner x hx]
  unmarked x hx := by
    rw [(ha.view x).marked]
    exact h.unmarked x hx
  data x hx k hk := by rw [ha.keys x k hk, (ha.view x).id, h.data x hx k hk]

theorem Copying.agree (h : Copying slotOf l r s net) (ha : Agree slotOf s net net') :
    Copying slotOf l r s net' where
  given := h.given
  owner x hx := by rw [(ha.view x).owner, h.owner x hx]
  spread := h.spread.of_keys ha.keys
  marks := by
    rw [(ha.view _).marked, (ha.view _).marked]
    exact h.marks.imp_left fun hall k hk => by rw [ha.keys _ k hk, hall k hk]

theorem Telling.agree (h : Telling slotOf l r s net) (ha : Agree slotOf s net net') :
    Telling slotOf l r s net' where
  given := h.given
  owner x hx := by
    rw [(ha.view x).owner]
    exact h.owner x hx
  spread := h.spread.of_keys ha.keys
  across k hk := by rw [ha.keys _ k hk, h.across k hk]
  source := by
    rw [(ha.view _).marked, (ha.view _).owner]
    exact h.source
  target := by
    rw [(ha.view _).marked, (ha.view _).owner]
    exact h.target

theorem Stage.agree (h : Stage slotOf l r s net) (ha : Agree slotOf s net net') :
    Stage slotOf l r s net' :=
  h.imp_right (.imp (·.agree ha) (.imp (·.agree ha) (·.agree ha)))

end

/-! ## The slot itself -/

/-- The ends of the route are two of its masters, and no third one goes by their names. -/
structure Route.Fits (r : Route) (net : Net κ ν) : Prop where
  source : r.source ∈ r.masters
  target : r.target ∈ r.masters
  apart : r.source ≠ r.target
  sourceID : ∀ x ∈ r.masters, (net x).id = r.sourceID ↔ x = r.source
  targetID : ∀ x ∈ r.masters, (net x).id = r.targetID ↔ x = r.target

section

variable {slotOf : κ → Int} {l : Ledger κ ν} {r : Route} {s : Int} {net net' : Net κ ν}

omit [DecidableEq κ] in
theorem Route.Fits.of_ids (h : r.Fits net) (hids : ∀ x, (net' x).id = (net x).id) : r.Fits net' where
  source := h.source
  target := h.target
  apart := h.apart
  sourceID x hx := by rw [hids, h.sourceID x hx]
  targetID x hx := by rw [hids, h.targetID x hx]

/-- A slot of the source that nothing has happened to. -/
theorem Still.copying (h : Still slotOf l r s net) (hfits : r.Fits net)
    (howner : l.owner s = some r.sourceID) : Copying slotOf l r s net := by
  have hsource : ∀ k, slotOf k = s → (net r.source).get k = l.data k := fun k hk => by
    rw [h.data _ hfits.source k hk, howner, (hfits.sourceID _ hfits.source).2 rfl, if_pos rfl]
  have hnone : ∀ x ∈ r.masters, x ≠ r.source → ∀ k, slotOf k = s → (net x).get k = none :=
    fun x hx hne k hk => by
      rw [h.data x hx k hk, howner, if_neg]
      exact fun heq => hne ((hfits.sourceID x hx).1 (Option.some.inj heq).symm)
  refine ⟨howner, fun x hx => (h.owner x hx).trans howner, ⟨fun k hk => .inl (hsource k hk),
    fun k hk => ?_, fun k hk hdata => ?_, fun x hx hxa _ => hnone x hx hxa⟩, .inl hsource⟩
  · exact .inr (hnone _ hfits.target hfits.apart.symm k hk)
  · rw [hsource k hk]
    exact .inl hdata

/-- More markers do no harm. -/
theorem Copying.mark (h : Copying slotOf l r s net) {x : String} {f : Server κ ν → Server κ ν}
    (hstore : ∀ v, (f v).store = v.store) (howner : ∀ v, (f v).owner s = v.owner s)
    (hmarked : ∀ v, v.marked s → (f v).marked s) : Copying slotOf l r s (net.modify x f) := by
  have hkeys : SameSlot slotOf s net (net.modify x f) := fun y k _ =>
    Net.get_modify hstore x y k
  have hgrow : ∀ y, (net y).marked s → (net.modify x f y).marked s := by
    intro y hy
    by_cases hyx : y = x
    · subst hyx
      rw [Net.modify_self]
      exact hmarked _ hy
    · rwa [Net.modify_of_ne _ _ hyx]
  refine ⟨h.given, fun y hy => ?_, h.spread.of_keys hkeys, h.marks.imp (fun hall k hk => ?_)
    fun hm => ⟨hgrow _ hm.1, hgrow _ hm.2⟩⟩
  · rw [Net.modify_proj (fun v => v.owner s) f howner]
    exact h.owner y hy
  · rw [hkeys _ k hk, hall k hk]

theorem Spread.copyKey (h : Spread slotOf l r s net) (hab : r.source ≠ r.target) {k : κ}
    (hk : slotOf k = s) : Spread slotOf l r s (net.copyKey r.source r.target k) where
  source j hj := by
    rw [Net.copyKey_of_ne _ _ hab]
    exact h.source j hj
  target j hj := by
    rw [Net.copyKey_target_get]
    split
    · next hjk =>
        rw [hjk.1]
        exact h.source k hk
    · exact h.target j hj
  either j hj hdata := by
    rw [Net.copyKey_of_ne _ _ hab, Net.copyKey_target_get]
    refine (h.either j hj hdata).imp_right fun htarget => ?_
    split
    · next hjk => exact hjk.2
    · exact htarget
  others x hx hxa hxb j hj := by
    rw [Net.copyKey_of_ne _ _ hxb]
    exact h.others x hx hxa hxb j hj

theorem Spread.moveKey (h : Spread slotOf l r s net) (hab : r.source ≠ r.target) {k : κ}
    (hk : slotOf k = s) : Spread slotOf l r s (net.moveKey r.source r.target k) := by
  have hcopy := h.copyKey hab hk
  have hsource : ∀ j, (net.moveKey r.source r.target k r.source).get j =
      if j = k then none else (net r.source).get j := by
    intro j
    rw [Net.moveKey_source _ _ hab]
    split
    · next hj => rw [hj, Server.get_drop_self]
    · next hj => rw [Server.get_drop_of_ne _ hj]
  refine ⟨fun j hj => ?_, fun j hj => ?_, fun j hj hdata => ?_, fun x hx hxa hxb j hj => ?_⟩
  · rw [hsource]
    split
    · exact .inr rfl
    · exact h.source j hj
  · rw [Net.moveKey_target _ _ hab]
    exact hcopy.target j hj
  · rw [hsource, Net.moveKey_target _ _ hab]
    split
    · next hjk =>
        -- what the source gives away has arrived
        right
        rw [Net.copyKey_target_get, hjk]
        split
        · next hheld => exact hheld.2
        · next hnot =>
            have hgone : (net r.source).get k = none := by
              by_contra hne
              exact hnot ⟨rfl, hne⟩
            exact ((h.either k hk (hjk ▸ hdata)).resolve_left (not_not.2 hgone))
    · refine (hcopy.either j hj hdata).imp_left fun hheld => ?_
      rwa [Net.copyKey_of_ne _ _ hab] at hheld
  · rw [Net.moveKey_of_ne _ _ hxa hxb]
    exact h.others x hx hxa hxb j hj

/-- Some part of a `MIGRATE` of keys of the slot. -/
theorem Spread.movedPart (hab : r.source ≠ r.target) {ks : List κ}
    (hpart : Net.MovedPart r.source r.target ks net net') (h : Spread slotOf l r s net)
    (hks : ∀ k ∈ ks, slotOf k = s) : Spread slotOf l r s net' := by
  induction hpart with
  | nil net => exact h
  | left _ ih => exact ih h fun j hj => hks j (by simp [hj])
  | copied _ ih => exact ih (h.copyKey hab (hks _ (by simp))) fun j hj => hks j (by simp [hj])
  | moved _ ih => exact ih (h.moveKey hab (hks _ (by simp))) fun j hj => hks j (by simp [hj])

theorem Copying.movedPart (h : Copying slotOf l r s net) (hab : r.source ≠ r.target)
    (hmarks : (net r.source).marked s ∧ (net r.target).marked s) {ks : List κ}
    (hpart : Net.MovedPart r.source r.target ks net net') (hks : ∀ k ∈ ks, slotOf k = s) :
    Copying slotOf l r s net' ∧ (net' r.source).marked s ∧ (net' r.target).marked s := by
  have hview : ∀ x, SameView s (net x) (net' x) := fun x => .of_store s (hpart.sameViews x)
  have hmarks' : (net' r.source).marked s ∧ (net' r.target).marked s := by
    rwa [(hview _).marked, (hview _).marked]
  refine ⟨⟨h.given, fun x hx => ?_, .movedPart hab hpart h.spread hks, .inr hmarks'⟩, hmarks'⟩
  rw [(hview x).owner, h.owner x hx]

/-- The source has run out of keys. -/
theorem Copying.telling (h : Copying slotOf l r s net)
    (hempty : (net r.source).keysIn slotOf s = [])  :
    Bare slotOf l s ∨ Telling slotOf l r s net := by
  have hnone := Server.keysIn_eq_nil.1 hempty
  rcases h.marks with hall | hmarks
  · exact .inl fun k hk => by rw [← hall k hk, hnone k hk]
  · exact .inr ⟨h.given, fun x hx => .inl (h.owner x hx), h.spread, hnone, .inl hmarks.1,
      .inl hmarks.2⟩

/-- One more master is told. -/
theorem Telling.setNode (h : Telling slotOf l r s net) (x : String) :
    Telling slotOf l r s (net.modify x (Server.setNode s r.targetID)) := by
  have hkeys : SameSlot slotOf s net (net.modify x (Server.setNode s r.targetID)) := fun y k _ =>
    Net.get_modify (f := Server.setNode s r.targetID) (fun _ => rfl) x y k
  have hend : ∀ y, (net y).marked s ∨ (net y).owner s = some r.targetID →
      (net.modify x (Server.setNode s r.targetID) y).marked s ∨
        (net.modify x (Server.setNode s r.targetID) y).owner s = some r.targetID := by
    intro y hy
    by_cases hyx : y = x
    · subst hyx
      rw [Net.modify_self]
      exact .inr (Server.owner_setNode ..)
    · rwa [Net.modify_of_ne _ _ hyx]
  refine ⟨h.given, fun y hy => ?_, h.spread.of_keys hkeys, fun k hk => ?_, hend _ h.source,
    hend _ h.target⟩
  · by_cases hyx : y = x
    · subst hyx
      rw [Net.modify_self]
      exact .inr (Server.owner_setNode ..)
    · rw [Net.modify_of_ne _ _ hyx]
      exact h.owner y hy
  · rw [hkeys _ k hk, h.across k hk]

end

/-! ## All slots -/

/-- Where a move from `net₀` may have stopped. -/
structure Halfway (slotOf : κ → Int) (l : Ledger κ ν) (r : Route) (net₀ net : Net κ ν) : Prop where
  ids : ∀ x, (net x).id = (net₀ x).id
  /-- A marker was there before, or it is one that the move sets. -/
  traced : ∀ x s id, (net x).migrating s = some id ∨ (net x).importing s = some id →
    ((net₀ x).migrating s = some id ∨ (net₀ x).importing s = some id) ∨
      (x = r.source ∨ x = r.target) ∧ (id = r.sourceID ∨ id = r.targetID)
  stage : ∀ s, Stage slotOf l r s net

section

variable {slotOf : κ → Int} {l : Ledger κ ν} {r : Route} {s : Int} {net₀ net net' : Net κ ν}

/-- A command that is about one slot. -/
theorem Halfway.step (h : Halfway slotOf l r net₀ net) (hids : ∀ x, (net' x).id = (net x).id)
    (hmarks : ∀ x s id, (net' x).migrating s = some id ∨ (net' x).importing s = some id →
      ((net x).migrating s = some id ∨ (net x).importing s = some id) ∨
        (x = r.source ∨ x = r.target) ∧ (id = r.sourceID ∨ id = r.targetID))
    (hothers : ∀ s' ≠ s, Agree slotOf s' net net') (hs : Stage slotOf l r s net') :
    Halfway slotOf l r net₀ net' where
  ids x := (hids x).trans (h.ids x)
  traced x s' id hid := (hmarks x s' id hid).elim (h.traced x s' id) .inr
  stage s' := by
    by_cases hne : s' = s
    · exact hne ▸ hs
    · exact (h.stage s').agree (hothers s' hne)

theorem Halfway.setImporting (h : Halfway slotOf l r net₀ net)
    (hs : Stage slotOf l r s (net.modify r.target (Server.setImporting s r.sourceID))) :
    Halfway slotOf l r net₀ (net.modify r.target (Server.setImporting s r.sourceID)) := by
  refine h.step (Net.modify_proj Server.id (Server.setImporting s r.sourceID) (fun _ => rfl) _)
    (fun x s' id hid => ?_) (fun s' hne => ?_) hs
  · by_cases hx : x = r.target
    · subst hx
      rw [Net.modify_self, Server.importing_setImporting] at hid
      split at hid
      · rcases hid with hid | hid
        · exact .inl (.inl hid)
        · exact .inr ⟨.inr rfl, .inl (Option.some.inj hid).symm⟩
      · exact .inl hid
    · rw [Net.modify_of_ne _ _ hx] at hid
      exact .inl hid
  · refine .modify (fun v => ⟨rfl, rfl, rfl, ?_⟩) fun _ => rfl
    rw [Server.importing_setImporting, if_neg hne]

theorem Halfway.setMigrating (h : Halfway slotOf l r net₀ net)
    (hs : Stage slotOf l r s (net.modify r.source (Server.setMigrating s r.targetID))) :
    Halfway slotOf l r net₀ (net.modify r.source (Server.setMigrating s r.targetID)) := by
  refine h.step (Net.modify_proj Server.id (Server.setMigrating s r.targetID) (fun _ => rfl) _)
    (fun x s' id hid => ?_) (fun s' hne => ?_) hs
  · by_cases hx : x = r.source
    · subst hx
      rw [Net.modify_self, Server.migrating_setMigrating] at hid
      split at hid
      · rcases hid with hid | hid
        · exact .inr ⟨.inl rfl, .inr (Option.some.inj hid).symm⟩
        · exact .inl (.inr hid)
      · exact .inl hid
    · rw [Net.modify_of_ne _ _ hx] at hid
      exact .inl hid
  · refine .modify (fun v => ⟨rfl, rfl, ?_, rfl⟩) fun _ => rfl
    rw [Server.migrating_setMigrating, if_neg hne]

theorem Halfway.setNode (h : Halfway slotOf l r net₀ net) {x id : String}
    (hs : Stage slotOf l r s (net.modify x (Server.setNode s id))) :
    Halfway slotOf l r net₀ (net.modify x (Server.setNode s id)) := by
  refine h.step (Net.modify_proj Server.id (Server.setNode s id) (fun _ => rfl) _)
    (fun y s' i hid => .inl ?_) (fun s' hne => ?_) hs
  · by_cases hy : y = x
    · subst hy
      rw [Net.modify_self] at hid
      simp only [Server.setNode, Server.setStable, Function.update_apply] at hid
      split at hid
      · simp at hid
      · exact hid
    · rwa [Net.modify_of_ne _ _ hy] at hid
  · refine .modify (fun v => ?_) fun _ => rfl
    simp only [Server.setNode, Server.setStable]
    exact ⟨rfl, Function.update_of_ne hne .., Function.update_of_ne hne ..,
      Function.update_of_ne hne ..⟩

theorem agree_movedPart {a b : String} {ks : List κ} (hpart : Net.MovedPart a b ks net net')
    (hks : ∀ k ∈ ks, slotOf k = s) {s' : Int} (hne : s' ≠ s) : Agree slotOf s' net net' := by
  have hcopy : ∀ (net : Net κ ν) (k : κ), slotOf k = s → Agree slotOf s' net (net.copyKey a b k) := by
    intro net k hk
    refine ⟨fun x => .of_store s' (Net.SameViews.copyKey net a b k x), fun x j hj => ?_⟩
    by_cases hx : x = b
    · subst hx
      rw [Net.copyKey_target_get, if_neg]
      rintro ⟨rfl, -⟩
      exact hne (hj.symm.trans hk)
    · rw [Net.copyKey_of_ne _ _ hx]
  have hdrop : ∀ (net : Net κ ν) (k : κ), slotOf k = s →
      Agree slotOf s' net (net.modify a (Server.drop k)) := by
    intro net k hk
    refine ⟨Net.sameView_modify net s' a fun _ => ⟨rfl, rfl, rfl, rfl⟩, fun x j hj => ?_⟩
    by_cases hx : x = a
    · subst hx
      rw [Net.modify_self, Server.get_drop_of_ne]
      rintro rfl
      exact hne (hj.symm.trans hk)
    · rw [Net.modify_of_ne _ _ hx]
  induction hpart with
  | nil net => exact .refl net
  | left _ ih => exact ih fun j hj => hks j (by simp [hj])
  | copied _ ih =>
      exact (hcopy _ _ (hks _ (by simp))).trans (ih fun j hj => hks j (by simp [hj]))
  | moved _ ih =>
      have hk := hks _ List.mem_cons_self
      exact ((hcopy _ _ hk).trans (hdrop _ _ hk)).trans (ih fun j hj => hks j (by simp [hj]))

theorem Halfway.movedPart (h : Halfway slotOf l r net₀ net) {a b : String} {ks : List κ}
    (hpart : Net.MovedPart a b ks net net') (hks : ∀ k ∈ ks, slotOf k = s)
    (hs : Stage slotOf l r s net') : Halfway slotOf l r net₀ net' := by
  have hview : ∀ x, net' x = { net x with store := (net' x).store } := by
    intro x
    obtain ⟨st, hst⟩ := hpart.sameViews x
    rw [hst]
  refine h.step (fun x => ?_) (fun x s' id hid => .inl ?_) (fun s' => agree_movedPart hpart hks) hs
  · rw [hview x]
  · rwa [hview x] at hid

end

/-! ## The commands -/

/-- The route of a move between two listed nodes. -/
def routeOf (nodes : List NodeInfo) (source target : NodeInfo) (seed : String) : Route where
  source := clientFor source
  target := clientFor target
  seed := seed
  sourceID := source.id
  targetID := target.id
  masters := masterClients nodes

section

variable {slotOf : κ → Int} {texts : Texts κ ν} {l : Ledger κ ν} {nodes : List NodeInfo}
  {source target : NodeInfo} {z : String} {s : Int} {net₀ : Net κ ν}

/-- A slot without keys is at every stage at once; of another one `P` holds. -/
theorem stage_of_bare {P : Prop} {r : Route} {net : Net κ ν} (h : Bare slotOf l s ∨ P)
    (hP : P → Stage slotOf l r s net) : Stage slotOf l r s net :=
  h.elim .inl hP

theorem moveKeys_halfway (hab : clientFor source ≠ clientFor target) :
    ∀ (fuel : Nat) (net : Net κ ν), Halfway slotOf l (routeOf nodes source target z) net₀ net →
      (Bare slotOf l s ∨ Copying slotOf l (routeOf nodes source target z) s net ∧
        (net (clientFor source)).marked s ∧ (net (clientFor target)).marked s) →
      (moveKeys source target s fuel).Wp Quiet (Valkey slotOf texts)
        (fun _ => Halfway slotOf l (routeOf nodes source target z) net₀)
        (fun r net' => Halfway slotOf l (routeOf nodes source target z) net₀ net' ∧
          (r = some (.ok ()) →
            Bare slotOf l s ∨ Telling slotOf l (routeOf nodes source target z) s net')) net := by
  intro fuel
  induction fuel with
  | zero => exact fun net h _ => wp_quiet_pure.2 ⟨h, fun hr => by cases hr⟩
  | succ fuel ih =>
      intro net h hcopy
      refine wp_quiet_op_bind.2 ⟨h, fun r net' hr => ?_⟩
      obtain ⟨rfl, hkeys⟩ := hr
      match r with
      | .error e => exact wp_quiet_pure.2 ⟨h, fun hr => by cases hr⟩
      | .ok [] =>
          refine wp_quiet_pure.2 ⟨h, fun _ => ?_⟩
          exact hcopy.elim .inl fun hc => hc.1.telling ((hkeys [] rfl).2.2 rfl)
      | .ok (k :: ks) =>
          have hks : ∀ j ∈ k :: ks, slotOf j = s := fun j hj =>
            (Server.mem_keysIn.1 ((hkeys _ rfl).2.1 j hj)).2
          refine wp_quiet_op_bind.2 ⟨h, fun r₁ net₁ hr₁ => ?_⟩
          have hnext : Halfway slotOf l (routeOf nodes source target z) net₀ net₁ ∧
              (Bare slotOf l s ∨ Copying slotOf l (routeOf nodes source target z) s net₁ ∧
                (net₁ (clientFor source)).marked s ∧ (net₁ (clientFor target)).marked s) := by
            rcases Valkey.migrate_cases hr₁ with rfl | ⟨hip, hpart⟩
            · exact ⟨h, hcopy⟩
            · rw [← clientFor_of_ip hip] at hpart
              have hcopy' := hcopy.imp_right fun hc => hc.1.movedPart hab hc.2 hpart hks
              exact ⟨h.movedPart hpart hks (stage_of_bare hcopy' fun hc => .inr (.inr (.inl hc.1))),
                hcopy'⟩
          match r₁ with
          | .error e => exact wp_quiet_pure.2 ⟨hnext.1, fun hr => by cases hr⟩
          | .ok () => exact ih net₁ hnext.1 hnext.2

theorem assignOwner_halfway :
    ∀ (todo : List String) (net : Net κ ν),
      Halfway slotOf l (routeOf nodes source target z) net₀ net →
      (Bare slotOf l s ∨ Telling slotOf l (routeOf nodes source target z) s net) →
      (assignOwner target.id s todo).Wp Quiet (Valkey slotOf texts)
        (fun _ => Halfway slotOf l (routeOf nodes source target z) net₀)
        (fun _ => Halfway slotOf l (routeOf nodes source target z) net₀) net := by
  intro todo
  induction todo with
  | nil => exact fun net h _ => wp_quiet_pure.2 h
  | cons m todo ih =>
      intro net h htell
      refine wp_quiet_op_bind.2 ⟨h, fun r net' hr => ?_⟩
      have hnext : Halfway slotOf l (routeOf nodes source target z) net₀ net' ∧
          (Bare slotOf l s ∨ Telling slotOf l (routeOf nodes source target z) s net') := by
        rcases Carried.cases hr with ⟨-, rfl⟩ | ⟨-, rfl⟩
        · exact ⟨h, htell⟩
        · have htell' := htell.imp_right fun ht => ht.setNode m
          exact ⟨h.setNode (stage_of_bare htell' fun ht => .inr (.inr (.inr ht))), htell'⟩
      match r with
      | .error e => exact wp_quiet_pure.2 hnext.1
      | .ok () => exact ih net' hnext.1 hnext.2

omit [DecidableEq κ] in
theorem Server.marked_setImporting_self (v : Server κ ν) (x : String) :
    (v.setImporting s x).marked s := by
  right
  rw [Server.importing_setImporting, if_pos rfl]
  rfl

omit [DecidableEq κ] in
theorem Server.marked_setMigrating_self (v : Server κ ν) (x : String) :
    (v.setMigrating s x).marked s := by
  left
  rw [Server.migrating_setMigrating, if_pos rfl]
  rfl

theorem handOver_halfway (hab : clientFor source ≠ clientFor target) (fuel : Nat) {net : Net κ ν}
    (h : Halfway slotOf l (routeOf nodes source target z) net₀ net)
    (hcopy : Bare slotOf l s ∨ Copying slotOf l (routeOf nodes source target z) s net) :
    (handOver fuel source target s).Wp Quiet (Valkey slotOf texts)
      (fun _ => Halfway slotOf l (routeOf nodes source target z) net₀)
      (fun r net' => Halfway slotOf l (routeOf nodes source target z) net₀ net' ∧
        (r = some (.ok ()) →
          Bare slotOf l s ∨ Telling slotOf l (routeOf nodes source target z) s net')) net := by
  have himporting : ∀ net : Net κ ν, Halfway slotOf l (routeOf nodes source target z) net₀ net →
      (Bare slotOf l s ∨ Copying slotOf l (routeOf nodes source target z) s net) →
      Halfway slotOf l (routeOf nodes source target z) net₀
          (net.modify (clientFor target) (Server.setImporting s source.id)) ∧
        (Bare slotOf l s ∨ Copying slotOf l (routeOf nodes source target z) s
          (net.modify (clientFor target) (Server.setImporting s source.id))) := by
    intro net h hcopy
    have hcopy' := hcopy.imp_right fun hc => hc.mark (x := clientFor target)
      (f := Server.setImporting s source.id) (fun _ => rfl) (fun _ => rfl)
      fun v _ => v.marked_setImporting_self _
    exact ⟨h.setImporting (stage_of_bare hcopy' fun hc => .inr (.inr (.inl hc))), hcopy'⟩
  have hmigrating : ∀ net : Net κ ν, Halfway slotOf l (routeOf nodes source target z) net₀ net →
      (Bare slotOf l s ∨ Copying slotOf l (routeOf nodes source target z) s net) →
      Halfway slotOf l (routeOf nodes source target z) net₀
          (net.modify (clientFor source) (Server.setMigrating s target.id)) ∧
        (Bare slotOf l s ∨ Copying slotOf l (routeOf nodes source target z) s
          (net.modify (clientFor source) (Server.setMigrating s target.id))) := by
    intro net h hcopy
    have hcopy' := hcopy.imp_right fun hc => hc.mark (x := clientFor source)
      (f := Server.setMigrating s target.id) (fun _ => rfl) (fun _ => rfl)
      fun v _ => v.marked_setMigrating_self _
    exact ⟨h.setMigrating (stage_of_bare hcopy' fun hc => .inr (.inr (.inl hc))), hcopy'⟩
  refine wp_quiet_op_bind.2 ⟨h, fun r net₁ hr => ?_⟩
  match r with
  | .error e =>
      refine wp_quiet_pure.2 ⟨?_, fun hr => by cases hr⟩
      rcases hr with rfl | ⟨-, rfl⟩
      · exact h
      · exact (himporting net h hcopy).1
  | .ok () =>
      obtain ⟨-, rfl⟩ := hr
      obtain ⟨h₁, hcopy₁⟩ := himporting net h hcopy
      refine wp_quiet_op_bind.2 ⟨h₁, fun r₁ net₂ hr₁ => ?_⟩
      match r₁ with
      | .error e =>
          refine wp_quiet_pure.2 ⟨?_, fun hr => by cases hr⟩
          rcases hr₁ with rfl | ⟨-, rfl⟩
          · exact h₁
          · exact (hmigrating _ h₁ hcopy₁).1
      | .ok () =>
          obtain ⟨-, rfl⟩ := hr₁
          obtain ⟨h₂, hcopy₂⟩ := hmigrating _ h₁ hcopy₁
          refine moveKeys_halfway hab fuel _ h₂ (hcopy₂.imp_right fun hc => ⟨hc, ?_, ?_⟩)
          · rw [Net.modify_self]
            exact Server.marked_setMigrating_self ..
          · rw [Net.modify_of_ne _ _ hab.symm, Net.modify_self]
            exact Server.marked_setImporting_self ..

/-- One slot of the source. -/
theorem moveSlot_halfway (hfits : (routeOf nodes source target z).Fits net₀)
    (howner : l.owner s = some source.id) (fuel : Nat) {net : Net κ ν}
    (h : Halfway slotOf l (routeOf nodes source target z) net₀ net) :
    (moveSlot fuel source target (masterClients nodes) s).Wp Quiet (Valkey slotOf texts)
      (fun _ => Halfway slotOf l (routeOf nodes source target z) net₀)
      (fun _ => Halfway slotOf l (routeOf nodes source target z) net₀) net := by
  have hstage : Bare slotOf l s ∨ Copying slotOf l (routeOf nodes source target z) s net ∨
      Telling slotOf l (routeOf nodes source target z) s net := by
    rcases h.stage s with hs | hs | hs
    · exact .inl hs
    · exact .inr (.inl (hs.copying (hfits.of_ids h.ids) howner))
    · exact .inr hs
  refine wp_quiet_op_bind.2 ⟨h, fun r net' hr => ?_⟩
  obtain ⟨rfl, hprobe⟩ := hr
  match r with
  | .error e => exact wp_quiet_pure.2 h
  | .ok probe =>
      have hhanded : (if probe.isEmpty then pure (some (.ok ()))
          else handOver fuel source target s).Wp Quiet (Valkey slotOf texts)
          (fun _ => Halfway slotOf l (routeOf nodes source target z) net₀)
          (fun r net' => Halfway slotOf l (routeOf nodes source target z) net₀ net' ∧
            (r = some (.ok ()) → Bare slotOf l s ∨
              Telling slotOf l (routeOf nodes source target z) s net')) net' := by
        cases probe with
        | nil =>
            refine wp_quiet_pure.2 ⟨h, fun _ => ?_⟩
            rcases hstage with hs | hs | hs
            · exact .inl hs
            · exact hs.telling ((hprobe [] rfl).2.2 rfl)
            · exact .inr hs
        | cons k ks =>
            refine handOver_halfway hfits.apart fuel h ?_
            rcases hstage with hs | hs | hs
            · exact .inl hs
            · exact .inr hs
            · -- the source would hold nothing any more
              obtain ⟨hne, hk⟩ := Server.mem_keysIn.1 ((hprobe _ rfl).2.1 k (by simp))
              exact absurd (hs.across k hk) hne
      refine wp_bind.2 (hhanded.mono fun handed net₁ hh => ?_)
      match handed with
      | none => exact wp_quiet_pure.2 hh.1
      | some (.error e) => exact wp_quiet_pure.2 hh.1
      | some (.ok ()) =>
          refine wp_bind.2 ((assignOwner_halfway _ net₁ hh.1 (hh.2 rfl)).mono fun r net₂ h₂ => ?_)
          match r with
          | .error e => exact wp_quiet_pure.2 h₂
          | .ok () => exact wp_quiet_pure.2 h₂

/-- Wherever `MoveSlots` stops, every slot is at one of its stages. -/
theorem moveSlots_halfway {fuel : Nat} {seed : Endpoint} {fromNodeID toNodeID : String} {n : Int}
    {net : Net κ ν} {p : RpcProg κ (Option (Nat × Option String))}
    (hnodes : parseNodes (texts.nodes net₀ (dialAddr seed.host seed.port)) = nodes)
    (hsource : nodeByID nodes fromNodeID = some source)
    (htarget : nodeByID nodes toNodeID = some target)
    (hfits : (routeOf nodes source target z).Fits net₀)
    (howner : ∀ s ∈ selected source n, l.owner s = some source.id)
    (hstart : Halfway slotOf l (routeOf nodes source target z) net₀ net₀)
    (hrun : Reaches Quiet (Valkey slotOf texts) (moveSlots fuel seed fromNodeID toNodeID n, net₀)
      (p, net)) : Halfway slotOf l (routeOf nodes source target z) net₀ net := by
  have hsource' : ∀ x ∈ nodeByID nodes fromNodeID, x = source := fun x hx =>
    Option.some.inj (hx.symm.trans hsource)
  have htarget' : ∀ x ∈ nodeByID nodes toNodeID, x = target := fun x hx =>
    Option.some.inj (hx.symm.trans htarget)
  refine (moveSlots_invariant (fun _ _ _ he => he.elim) (fun _ _ _ _ hr => hr)
    (fun net hnet => quiet_eq hnet ▸ hnodes) hsource' htarget'
    (fun s hs net h => moveSlot_halfway hfits (howner s hs) fuel h) hstart).invariant
    (fun _ _ h => h) (fun _ _ h => h) hrun

end

end Valkeyop.Cluster
