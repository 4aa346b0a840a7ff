import Valkeyop.Cluster.Routing

/-!
# Reading and writing while a slot moves

Clients keep reading and writing while `MoveSlots` runs, and any command may fail or lose
its reply. Take one slot, and suppose its target is told of the new owner before its source.
Then at every moment a client that starts at any server and follows its redirects reads what
the last accepted write left.

The order of the commands carries this. The target imports before the source migrates, so
nobody is sent to a node that would send them back. The source is empty and muted before the
target is told, so nothing is written behind the target's back. And the target knows that it
owns the slot before the source names it. `Routed` collects what of this holds at any moment.
An empty slot skips the handshake and with it the muting, so the slot has to be marked by an
earlier attempt if a probe finds it empty.
-/

namespace Valkeyop.Cluster

open Valkeyop.Lib Relation

variable {κ ν : Type}

variable [DecidableEq κ]

section

variable (slotOf : κ → Int) (idOf : String → String) (entries : List String) (s : Int)
  (a b : String)

/-- Slot `s` on its way from `a` to `b`: who owns it in whose view, what the markers are
worth, and where the last written value of a key is. -/
structure Routed (l : Live κ ν) : Prop where
  ids : ∀ x, (l.net x).id = idOf x
  owners : ∀ x, (l.net x).owns s → x = a ∨ x = b
  source : (l.net a).owner s = some (idOf a) ∨
    (l.net a).owner s = some (idOf b) ∧ (l.net b).owner s = some (idOf b)
  target : (l.net b).owner s = some (idOf a) ∨ (l.net b).owner s = some (idOf b)
  known : ∀ x ∈ entries, (l.net x).owner s = some (idOf a) ∨ (l.net x).owner s = some (idOf b)
  marker : (l.net a).owner s = some (idOf a) → (l.net a).migrating s = none ∨
    (l.net a).migrating s = some (idOf b) ∧
      ((l.net b).importing s ≠ none ∨ (l.net b).owner s = some (idOf b))
  handed : (l.net b).owner s = some (idOf b) → (l.net b).migrating s = none ∧
    (l.net a).keysIn slotOf s = [] ∧
      ((l.net a).owner s = some (idOf a) → (l.net a).migrating s ≠ none)
  value : ∀ k, slotOf k = s → l.reg k = ((l.net a).get k).or ((l.net b).get k)
  absent : (l.net a).owner s = some (idOf a) → (l.net a).migrating s = none →
    ∀ k, slotOf k = s → (l.net a).get k = none → (l.net b).get k = none

/-- The source holds no key of the slot, and will not get one. -/
def Drained (l : Live κ ν) : Prop :=
  (l.net a).keysIn slotOf s = [] ∧
    ((l.net a).owner s = some (idOf a) → (l.net a).migrating s ≠ none)

end

section

variable {slotOf : κ → Int} {idOf : String → String} {entries : List String} {s : Int}
  {a b : String} {l l' : Live κ ν}

/-- A slot that nobody has begun to move. -/
theorem Routed.start {net : Net κ ν} {reg : κ → Option ν} (hne : idOf a ≠ idOf b)
    (hids : ∀ x, (net x).id = idOf x) (howns : ∀ x, (net x).owns s → x = a)
    (hknown : ∀ x ∈ a :: b :: entries, (net x).owner s = some (idOf a))
    (hmig : (net a).migrating s = none) (hempty : (net b).keysIn slotOf s = [])
    (hreg : ∀ k, slotOf k = s → reg k = (net a).get k) :
    Routed slotOf idOf entries s a b ⟨net, reg⟩ where
  ids := hids
  owners x hx := Or.inl (howns x hx)
  source := Or.inl (hknown a (by simp))
  target := Or.inl (hknown b (by simp))
  known x hx := Or.inl (hknown x (by simp [hx]))
  marker _ := Or.inl hmig
  handed hb := by
    have heq : idOf a = idOf b := Option.some.inj ((hknown b (by simp)).symm.trans hb)
    exact absurd heq hne
  value k hk := by
    change reg k = ((net a).get k).or ((net b).get k)
    rw [hreg k hk, Server.keysIn_eq_nil.1 hempty k hk, Option.or_none]
  absent _ _ k hk _ := Server.keysIn_eq_nil.1 hempty k hk

/-! ## What a client reads -/

section

variable {addrOf : String → String} {k : κ} (h : Routed slotOf idOf entries s a b l)
  (hk : slotOf k = s)

include h hk

/-- A target that knows it owns the slot answers for every key. -/
theorem Routed.fetch_target (howns : (l.net b).owner s = some (idOf b)) (asking : Bool)
    (hops : Nat) : fetch slotOf addrOf l.net k (hops + 1) b asking = some (l.reg k) := by
  obtain ⟨hmig, hempty, -⟩ := h.handed howns
  have hreply : (l.net b).reply slotOf asking k = (l.net b).holding k := by
    rw [Server.reply, if_pos (by rw [hk, h.ids b]; exact howns), hk, hmig]
    cases (l.net b).get k with
    | none => rfl
    | some y => rfl
  rw [fetch_holding hreply, h.value k hk, Server.keysIn_eq_nil.1 hempty k hk, Option.none_or]

/-- A source that owns the slot answers, or sends the client where the key is. -/
theorem Routed.fetch_source (haddr : addrOf (idOf b) = b)
    (howns : (l.net a).owner s = some (idOf a)) :
    fetch slotOf addrOf l.net k 2 a false = some (l.reg k) := by
  have hself : (l.net a).owner (slotOf k) = some (l.net a).id := by rw [hk, h.ids a, howns]
  cases hget : (l.net a).get k with
  | some y =>
      have hreply : (l.net a).reply slotOf false k = (l.net a).holding k := by
        rw [Server.reply, if_pos hself, hget]
      rw [fetch_holding hreply, hget, h.value k hk, hget, Option.some_or]
  | none =>
      rcases h.marker howns with hmig | ⟨hmig, himp⟩
      · have hreply : (l.net a).reply slotOf false k = (l.net a).holding k := by
          rw [Server.reply, if_pos hself, hget, hk, hmig]
        rw [fetch_holding hreply, hget, h.value k hk, hget, h.absent howns hmig k hk hget]
        rfl
      · rw [fetch_ask hself hget (hk ▸ hmig), haddr]
        by_cases hb : (l.net b).owner s = some (idOf b)
        · exact h.fetch_target hk hb true 0
        · -- the target still names the source, but it imports
          have hreply : (l.net b).reply slotOf true k = (l.net b).holding k := by
            rw [Server.reply, if_neg (by rw [hk, h.ids b]; exact hb), hk,
              if_pos ⟨rfl, himp.resolve_right hb⟩]
          rw [fetch_holding hreply, h.value k hk, hget, Option.none_or]

/-- Four requests are enough, wherever the client starts. -/
theorem Routed.fetch (haddrA : addrOf (idOf a) = a) (haddrB : addrOf (idOf b) = b)
    (hab : idOf a ≠ idOf b) {x : String} (hx : x ∈ entries) :
    fetch slotOf addrOf l.net k 4 x false = some (l.reg k) := by
  have hsource : ∀ hops, Cluster.fetch slotOf addrOf l.net k (hops + 2) a false = some (l.reg k) := by
    intro hops
    have htwo : Cluster.fetch slotOf addrOf l.net k 2 a false = some (l.reg k) := by
      rcases h.source with ha | ⟨ha, hb⟩
      · exact h.fetch_source hk haddrB ha
      · rw [fetch_moved (hk ▸ ha) (by rw [h.ids a]; exact hab.symm), haddrB]
        exact h.fetch_target hk hb false 0
    induction hops with
    | zero => exact htwo
    | succ hops ih => exact fetch_more ih
  have htarget : ∀ hops, Cluster.fetch slotOf addrOf l.net k (hops + 3) b false =
      some (l.reg k) := by
    intro hops
    rcases h.target with hb | hb
    · rw [fetch_moved (hk ▸ hb) (by rw [h.ids b]; exact hab), haddrA]
      exact hsource hops
    · exact h.fetch_target hk hb false _
  by_cases hxa : x = a
  · exact hxa ▸ hsource 2
  by_cases hxb : x = b
  · exact hxb ▸ htarget 1
  -- anybody else names one of the two
  have hother : (l.net x).owner s ≠ some (l.net x).id := by
    intro howns
    rcases h.owners x howns with hx | hx
    · exact hxa hx
    · exact hxb hx
  rcases h.known x hx with ho | ho
  · rw [fetch_moved (hk ▸ ho) (fun heq => hother (by rw [ho, heq])), haddrA]
    exact hsource 1
  · rw [fetch_moved (hk ▸ ho) (fun heq => hother (by rw [ho, heq])), haddrB]
    exact htarget 0

end

/-! ## Keys that change places -/

/-- What becomes of the slot when only keys change. -/
theorem Routed.of_keys (h : Routed slotOf idOf entries s a b l)
    (hview : ∀ x, SameView s (l.net x) (l'.net x))
    (hempty : (l.net a).keysIn slotOf s = [] → (l.net b).owner s = some (idOf b) →
      (l'.net a).keysIn slotOf s = [])
    (hvalue : ∀ k, slotOf k = s → l'.reg k = ((l'.net a).get k).or ((l'.net b).get k))
    (habsent : (l.net a).owner s = some (idOf a) → (l.net a).migrating s = none →
      ∀ k, slotOf k = s → (l'.net a).get k = none → (l'.net b).get k = none) :
    Routed slotOf idOf entries s a b l' where
  ids x := (hview x).id.trans (h.ids x)
  owners x hx := by
    rw [Server.owns, (hview x).owner, (hview x).id] at hx
    exact h.owners x hx
  source := by
    rw [(hview a).owner, (hview b).owner]
    exact h.source
  target := by
    rw [(hview b).owner]
    exact h.target
  known x hx := by
    rw [(hview x).owner]
    exact h.known x hx
  marker := by
    rw [(hview a).owner, (hview a).migrating, (hview b).importing, (hview b).owner]
    exact h.marker
  handed := by
    rw [(hview b).owner, (hview b).migrating, (hview a).owner, (hview a).migrating]
    intro hb
    obtain ⟨hmig, hnone, hsource⟩ := h.handed hb
    exact ⟨hmig, hempty hnone hb, hsource⟩
  value := hvalue
  absent := by
    rw [(hview a).owner, (hview a).migrating]
    exact habsent

/-- What touches neither the views nor the keys of the slot. -/
theorem Routed.frame (h : Routed slotOf idOf entries s a b l)
    (hview : ∀ x, SameView s (l.net x) (l'.net x))
    (hkeys : ∀ x k, slotOf k = s → (l'.net x).get k = (l.net x).get k)
    (hreg : ∀ k, slotOf k = s → l'.reg k = l.reg k) : Routed slotOf idOf entries s a b l' := by
  refine h.of_keys hview (fun hnone _ => ?_) (fun k hk => ?_) (fun ha hmig k hk => ?_)
  · refine Server.keysIn_eq_nil.2 fun k hk => ?_
    rw [hkeys a k hk]
    exact Server.keysIn_eq_nil.1 hnone k hk
  · rw [hreg k hk, hkeys a k hk, hkeys b k hk]
    exact h.value k hk
  · rw [hkeys a k hk, hkeys b k hk]
    exact h.absent ha hmig k hk

/-- The servers change, the clients' side does not. -/
def Live.onNet (f : Net κ ν → Net κ ν) (l : Live κ ν) : Live κ ν := { l with net := f l.net }

omit [DecidableEq κ] in
theorem Live.net_onNet (f : Net κ ν → Net κ ν) (l : Live κ ν) : (l.onNet f).net = f l.net := rfl

/-- A key that goes from the source to the target, or is copied there. -/
theorem Routed.copyKey (h : Routed slotOf idOf entries s a b l) (hab : a ≠ b) (k : κ) :
    Routed slotOf idOf entries s a b (l.onNet fun net => net.copyKey a b k) := by
  have hsource : (l.net.copyKey a b k) a = l.net a := Net.copyKey_of_ne l.net k hab
  refine h.of_keys (fun x => .of_store s (Net.SameViews.copyKey l.net a b k x))
    (fun hnone _ => ?_) (fun j hj => ?_) (fun ha hmig j hj hnone => ?_)
  · exact (congrArg (fun v : Server κ ν => v.keysIn slotOf s) hsource).trans hnone
  · change l.reg j = ((l.net.copyKey a b k a).get j).or ((l.net.copyKey a b k b).get j)
    rw [hsource, Net.copyKey_target_get, h.value j hj]
    by_cases hjk : j = k ∧ (l.net a).get k ≠ none
    · obtain ⟨rfl, hne⟩ := hjk
      obtain ⟨v, hv⟩ := Option.ne_none_iff_exists'.1 hne
      rw [hv, Option.some_or, Option.some_or]
    · rw [if_neg hjk]
  · change (l.net.copyKey a b k b).get j = none
    change (l.net.copyKey a b k a).get j = none at hnone
    rw [hsource] at hnone
    rw [Net.copyKey_target_get, if_neg fun hjk => hjk.2 (hjk.1 ▸ hnone)]
    exact h.absent ha hmig j hj hnone

/-- A key that is moved while the source shows the slot as migrating. -/
theorem Routed.moveKey (h : Routed slotOf idOf entries s a b l) (hab : a ≠ b) {k : κ}
    (hk : slotOf k = s → (l.net a).migrating s ≠ none) :
    Routed slotOf idOf entries s a b (l.onNet fun net => net.moveKey a b k) := by
  have hcopy := h.copyKey hab k
  have hsource : ∀ j, ((l.net.moveKey a b k) a).get j = if j = k then none else (l.net a).get j := by
    intro j
    rw [Net.moveKey_source l.net k hab]
    split
    · next hjk => rw [hjk, Server.get_drop_self]
    · next hjk => rw [Server.get_drop_of_ne _ hjk]
  have htarget : (l.net.moveKey a b k) b = (l.net.copyKey a b k) b :=
    Net.moveKey_target l.net k hab
  have hcopied : ∀ j, slotOf j = s →
      l.reg j = ((l.net a).get j).or ((l.net.copyKey a b k b).get j) := by
    intro j hj
    have hvalue := hcopy.value j hj
    change l.reg j = ((l.net.copyKey a b k a).get j).or _ at hvalue
    rwa [Net.copyKey_of_ne l.net k hab] at hvalue
  refine h.of_keys (fun x => .of_store s (Net.SameViews.moveKey l.net a b k x))
    (fun hnone _ => ?_) (fun j hj => ?_) (fun ha hmig j hj hnone => ?_)
  · refine Server.keysIn_eq_nil.2 fun j hj => (hsource j).trans ?_
    rw [Server.keysIn_eq_nil.1 hnone j hj, ite_self]
  · change l.reg j = ((l.net.moveKey a b k a).get j).or ((l.net.moveKey a b k b).get j)
    rw [hsource, htarget]
    split
    · next hjk =>
        -- the target has by now what the source had
        rw [Option.none_or, hcopied j hj, Net.copyKey_target_get, hjk]
        cases (l.net a).get k with
        | none => simp
        | some v => simp
    · exact hcopied j hj
  · change (l.net.moveKey a b k b).get j = none
    change (l.net.moveKey a b k a).get j = none at hnone
    rw [hsource] at hnone
    rw [htarget]
    split at hnone
    · next hjk => exact absurd hmig (hk (hjk ▸ hj))
    · next hjk =>
        rw [Net.copyKey_target_get, if_neg fun hc => hjk hc.1]
        exact h.absent ha hmig j hj hnone

/-- A `MIGRATE`, however far it got. -/
theorem Routed.movedPart (hab : a ≠ b) {ks : List κ} {net net' : Net κ ν} {reg : κ → Option ν}
    (hpart : Net.MovedPart a b ks net net') (h : Routed slotOf idOf entries s a b ⟨net, reg⟩)
    (hks : ∀ k ∈ ks, slotOf k = s → (net a).migrating s ≠ none) :
    Routed slotOf idOf entries s a b ⟨net', reg⟩ := by
  induction hpart with
  | nil net => exact h
  | left _ ih => exact ih h fun j hj => hks j (by simp [hj])
  | copied _ ih =>
      refine ih (h.copyKey hab _) fun j hj hjs => ?_
      rw [Net.copyKey_of_ne _ _ hab]
      exact hks j (by simp [hj]) hjs
  | moved _ ih =>
      refine ih (h.moveKey hab (hks _ (by simp))) fun j hj hjs => ?_
      rw [Net.moveKey_source _ _ hab]
      exact hks j (by simp [hj]) hjs

/-! ## Clients -/

/-- A key of the slot that the source answers for. -/
def AtSource (idOf : String → String) (s : Int) (a : String) (l : Live κ ν) (k : κ) : Prop :=
  (l.net a).owner s = some (idOf a) ∧ ((l.net a).migrating s = none ∨ (l.net a).get k ≠ none)

/-- A key of the slot that the target answers for. -/
def AtTarget (idOf : String → String) (s : Int) (a : String) (l : Live κ ν) (k : κ) : Prop :=
  (l.net a).get k = none ∧ ((l.net a).owner s = some (idOf a) → (l.net a).migrating s ≠ none)

theorem Routed.accepts (h : Routed slotOf idOf entries s a b l) {k : κ} (hk : slotOf k = s)
    {x : String} (hx : (l.net x).accepts slotOf k) :
    x = a ∧ AtSource idOf s a l k ∨ x = b ∧ AtTarget idOf s a l k := by
  obtain ⟨howns, haccept⟩ := hx
  rw [hk] at howns haccept
  rw [Server.owns, h.ids x] at howns
  rcases h.owners x (by rw [Server.owns, h.ids x]; exact howns) with rfl | rfl
  · exact Or.inl ⟨rfl, howns, haccept⟩
  · obtain ⟨-, hempty, hmuted⟩ := h.handed howns
    exact Or.inr ⟨rfl, Server.keysIn_eq_nil.1 hempty k hk, hmuted⟩

theorem Routed.asks (h : Routed slotOf idOf entries s a b l) (hids : Function.Injective idOf)
    {k : κ} (hk : slotOf k = s) {y x : String} (hask : Live.Asks slotOf l.net y x k) :
    x = b ∧ AtTarget idOf s a l k := by
  obtain ⟨howns, hget, hmig, -⟩ := hask
  rw [hk] at howns hmig
  rw [Server.owns, h.ids y] at howns
  rcases h.owners y (by rw [Server.owns, h.ids y]; exact howns) with rfl | rfl
  · rcases h.marker howns with hnone | ⟨hsome, -⟩
    · exact absurd (hnone.symm.trans hmig) (Option.some_ne_none _).symm
    · have hx : idOf b = idOf x := by
        rw [hsome, h.ids x] at hmig
        exact Option.some.inj hmig
      exact ⟨(hids hx).symm, hget, fun _ => by rw [hsome]; exact Option.some_ne_none _⟩
  · -- a target that owns the slot sends nobody on
    exact absurd ((h.handed howns).1.symm.trans hmig) (Option.some_ne_none _).symm

theorem Net.get_modify_put (net : Net κ ν) (x y : String) (j k : κ) (v : ν) :
    (net.modify x (Server.put k v) y).get j =
      if y = x ∧ j = k then some v else (net y).get j := by
  by_cases hy : y = x
  · subst hy
    rw [Net.modify_self]
    by_cases hj : j = k
    · subst hj
      simp
    · rw [Server.get_put_of_ne _ _ hj, if_neg fun h => hj h.2]
  · rw [Net.modify_of_ne _ _ hy, if_neg fun h => hy h.1]

theorem Net.get_modify_drop (net : Net κ ν) (x y : String) (j k : κ) :
    (net.modify x (Server.drop k) y).get j =
      if y = x ∧ j = k then none else (net y).get j := by
  by_cases hy : y = x
  · subst hy
    rw [Net.modify_self]
    by_cases hj : j = k
    · subst hj
      simp
    · rw [Server.get_drop_of_ne _ hj, if_neg fun h => hj h.2]
  · rw [Net.modify_of_ne _ _ hy, if_neg fun h => hy h.1]

/-- The last accepted request for `k` has left `v`, at the server `x`. -/
structure Answered (x : String) (k : κ) (v : Option ν) (l l' : Live κ ν) : Prop where
  views : ∀ y, ∃ st, l'.net y = { l.net y with store := st }
  get : ∀ y j, (l'.net y).get j = if y = x ∧ j = k then v else (l.net y).get j
  reg : ∀ j, l'.reg j = if j = k then v else l.reg j

theorem Live.answered_write (x : String) (k : κ) (v : ν) (l : Live κ ν) :
    Answered x k (some v) l (l.write x k v) where
  views := Net.sameViews_modify l.net x fun _ => ⟨_, rfl⟩
  get y j := Net.get_modify_put l.net x y j k v
  reg j := Function.update_apply l.reg k (some v) j

theorem Live.answered_delete (x : String) (k : κ) (l : Live κ ν) :
    Answered x k none l (l.delete x k) where
  views := Net.sameViews_modify l.net x fun _ => ⟨_, rfl⟩
  get y j := Net.get_modify_drop l.net x y j k
  reg j := Function.update_apply l.reg k none j

section

variable {x : String} {k : κ} {v : Option ν}

/-- A request for a key of another slot. -/
theorem Routed.answered_other (h : Routed slotOf idOf entries s a b l)
    (hl : Answered x k v l l') (hk : slotOf k ≠ s) : Routed slotOf idOf entries s a b l' := by
  have hne : ∀ j, slotOf j = s → j ≠ k := fun j hj hjk => hk (hjk ▸ hj)
  refine h.frame (fun y => .of_store s (hl.views y)) (fun y j hj => ?_) fun j hj => ?_
  · rw [hl.get, if_neg fun hc => hne j hj hc.2]
  · rw [hl.reg, if_neg (hne j hj)]

/-- A request the source answers; what it deletes, the target does not have. -/
theorem Routed.answered_source (h : Routed slotOf idOf entries s a b l) (hab : a ≠ b)
    (hl : Answered a k v l l') (hk : slotOf k = s) (hat : AtSource idOf s a l k)
    (hdelete : v = none → (l.net b).get k = none) : Routed slotOf idOf entries s a b l' := by
  have htarget : ∀ j, (l'.net b).get j = (l.net b).get j := by
    intro j
    rw [hl.get, if_neg fun hc => hab hc.1.symm]
  refine h.of_keys (fun y => .of_store s (hl.views y)) (fun hnone hb => ?_) (fun j hj => ?_)
    (fun ha hmig j hj hnone => ?_)
  · -- a muted source answers for no key
    rcases hat.2 with hmig | hget
    · exact absurd hmig ((h.handed hb).2.2 hat.1)
    · exact absurd (Server.keysIn_eq_nil.1 hnone k hk) hget
  · rw [hl.reg, hl.get, htarget]
    by_cases hjk : j = k
    · subst hjk
      rw [if_pos rfl, if_pos ⟨rfl, rfl⟩]
      cases v with
      | none => rw [hdelete rfl]; rfl
      | some v => rfl
    · rw [if_neg hjk, if_neg fun hc => hjk hc.2]
      exact h.value j hj
  · rw [htarget]
    rw [hl.get] at hnone
    by_cases hjk : j = k
    · rw [if_pos ⟨rfl, hjk⟩] at hnone
      exact hjk ▸ hdelete hnone
    · rw [if_neg fun hc => hjk hc.2] at hnone
      exact h.absent ha hmig j hj hnone

/-- A request the target answers. -/
theorem Routed.answered_target (h : Routed slotOf idOf entries s a b l) (hab : a ≠ b)
    (hl : Answered b k v l l') (hat : AtTarget idOf s a l k) :
    Routed slotOf idOf entries s a b l' := by
  have hsource : ∀ j, (l'.net a).get j = (l.net a).get j := by
    intro j
    rw [hl.get, if_neg fun hc => hab hc.1]
  refine h.of_keys (fun y => .of_store s (hl.views y)) (fun hnone _ => ?_) (fun j hj => ?_)
    (fun ha hmig => absurd hmig (hat.2 ha))
  · refine Server.keysIn_eq_nil.2 fun j hj => ?_
    rw [hsource]
    exact Server.keysIn_eq_nil.1 hnone j hj
  · rw [hl.reg, hsource, hl.get]
    by_cases hjk : j = k
    · subst hjk
      rw [if_pos rfl, if_pos ⟨rfl, rfl⟩, hat.1, Option.none_or]
    · rw [if_neg hjk, if_neg fun hc => hjk hc.2]
      exact h.value j hj

end

/-- What a request is, as far as the slot is concerned. -/
theorem Routed.client_cases (h : Routed slotOf idOf entries s a b l) (hab : a ≠ b)
    (hids : Function.Injective idOf) (hc : Live.ClientOp slotOf l l') :
    ∃ x k v, Answered x k v l l' ∧ (slotOf k ≠ s ∨
      slotOf k = s ∧ x = a ∧ AtSource idOf s a l k ∧ (v = none → (l.net b).get k = none) ∨
      slotOf k = s ∧ x = b ∧ AtTarget idOf s a l k) := by
  cases hc with
  | @write x k v hacc =>
      refine ⟨x, k, some v, l.answered_write x k v, ?_⟩
      by_cases hk : slotOf k = s
      · rcases h.accepts hk hacc with ⟨hx, hat⟩ | ⟨hx, hat⟩
        · exact Or.inr (Or.inl ⟨hk, hx, hat, fun hv => absurd hv (Option.some_ne_none _)⟩)
        · exact Or.inr (Or.inr ⟨hk, hx, hat⟩)
      · exact Or.inl hk
  | @delete x k hacc honly =>
      refine ⟨x, k, none, l.answered_delete x k, ?_⟩
      by_cases hk : slotOf k = s
      · rcases h.accepts hk hacc with ⟨hx, hat⟩ | ⟨hx, hat⟩
        · exact Or.inr (Or.inl ⟨hk, hx, hat, fun _ => honly b fun hb => hab (hx ▸ hb.symm)⟩)
        · exact Or.inr (Or.inr ⟨hk, hx, hat⟩)
      · exact Or.inl hk
  | @askWrite y x k v hask =>
      refine ⟨x, k, some v, l.answered_write x k v, ?_⟩
      by_cases hk : slotOf k = s
      · exact Or.inr (Or.inr ⟨hk, h.asks hids hk hask⟩)
      · exact Or.inl hk
  | @askDelete y x k hask =>
      refine ⟨x, k, none, l.answered_delete x k, ?_⟩
      by_cases hk : slotOf k = s
      · exact Or.inr (Or.inr ⟨hk, h.asks hids hk hask⟩)
      · exact Or.inl hk

theorem Routed.client (h : Routed slotOf idOf entries s a b l) (hab : a ≠ b)
    (hids : Function.Injective idOf) (hc : Live.ClientOp slotOf l l') :
    Routed slotOf idOf entries s a b l' := by
  obtain ⟨x, k, v, hl, hk | ⟨hk, rfl, hat, hdelete⟩ | ⟨-, rfl, hat⟩⟩ :=
    h.client_cases hab hids hc
  · exact h.answered_other hl hk
  · exact h.answered_source hab hl hk hat hdelete
  · exact h.answered_target hab hl hat

/-- Nobody writes to a source that has been drained. -/
theorem Drained.client (hd : Drained slotOf idOf s a l) (h : Routed slotOf idOf entries s a b l)
    (hab : a ≠ b) (hids : Function.Injective idOf) (hc : Live.ClientOp slotOf l l') :
    Drained slotOf idOf s a l' := by
  obtain ⟨x, k, v, hl, hcases⟩ := h.client_cases hab hids hc
  obtain ⟨st, hst⟩ := hl.views a
  refine ⟨Server.keysIn_eq_nil.2 fun j hj => ?_, by rw [hst]; exact hd.2⟩
  have hnone := Server.keysIn_eq_nil.1 hd.1 j hj
  rw [hl.get, hnone]
  split
  · next hjk =>
      obtain ⟨rfl, rfl⟩ := hjk
      rcases hcases with hk | ⟨-, -, hat, -⟩ | ⟨-, hx, -⟩
      · exact absurd hj hk
      · rcases hat.2 with hmig | hget
        · exact absurd hmig (hd.2 hat.1)
        · exact absurd hnone hget
      · exact absurd hx hab
  · rfl

theorem Live.ClientOp.views (hc : Live.ClientOp slotOf l l') (x : String) :
    ∃ st, l'.net x = { l.net x with store := st } := by
  cases hc with
  | write v _ => exact Net.sameViews_modify l.net _ (fun _ => ⟨_, rfl⟩) x
  | delete _ _ => exact Net.sameViews_modify l.net _ (fun _ => ⟨_, rfl⟩) x
  | askWrite v _ => exact Net.sameViews_modify l.net _ (fun _ => ⟨_, rfl⟩) x
  | askDelete _ => exact Net.sameViews_modify l.net _ (fun _ => ⟨_, rfl⟩) x

/-! ## Markers and owners -/

/-- A command for another slot. -/
theorem Routed.modify_other (h : Routed slotOf idOf entries s a b l) (x : String)
    {f : Server κ ν → Server κ ν} (hview : ∀ v, SameView s v (f v))
    (hstore : ∀ v, (f v).store = v.store) :
    Routed slotOf idOf entries s a b (l.onNet fun net => net.modify x f) :=
  h.frame (l.net.sameView_modify s x hview) (fun y k _ => Net.get_modify hstore x y k)
    fun _ _ => rfl

/-- What becomes of the slot when only markers change: those of the source are kept or
replaced, and the target goes on owning what it owned. -/
theorem Routed.of_marks (h : Routed slotOf idOf entries s a b l)
    (hid : ∀ x, (l'.net x).id = (l.net x).id)
    (howner : ∀ x, (l'.net x).owner = (l.net x).owner)
    (hstore : ∀ x, (l'.net x).store = (l.net x).store) (hreg : l'.reg = l.reg)
    (ha : (l.net a).migrating s ≠ none → (l'.net a).migrating s ≠ none)
    (hb : (l'.net b).migrating s = (l.net b).migrating s)
    (hmarker : (l.net a).owner s = some (idOf a) → (l'.net a).migrating s = none ∨
      (l'.net a).migrating s = some (idOf b) ∧
        ((l'.net b).importing s ≠ none ∨ (l.net b).owner s = some (idOf b))) :
    Routed slotOf idOf entries s a b l' := by
  have hget : ∀ x k, (l'.net x).get k = (l.net x).get k := fun x k => by
    rw [Server.get, Server.get, hstore]
  have hkeys : (l'.net a).keysIn slotOf s = (l.net a).keysIn slotOf s := by
    rw [Server.keysIn, Server.keysIn, hstore]
  refine ⟨fun x => (hid x).trans (h.ids x), fun x hx => ?_, ?_, ?_, fun x hx => ?_, ?_, ?_,
    fun k hk => ?_, ?_⟩
  · rw [Server.owns, howner, hid] at hx
    exact h.owners x hx
  · rw [howner, howner]
    exact h.source
  · rw [howner]
    exact h.target
  · rw [howner]
    exact h.known x hx
  · rw [howner, howner]
    exact hmarker
  · rw [howner, howner, hb, hkeys]
    intro howns
    obtain ⟨hmig, hempty, hmuted⟩ := h.handed howns
    exact ⟨hmig, hempty, fun hself => ha (hmuted hself)⟩
  · rw [hreg, hget, hget]
    exact h.value k hk
  · rw [howner]
    intro hself hmig k hk
    rw [hget, hget]
    refine h.absent hself ?_ k hk
    by_contra hne
    exact ha hne hmig

theorem Routed.setImporting (h : Routed slotOf idOf entries s a b l) (hab : a ≠ b) (s' : Int)
    (x : String) :
    Routed slotOf idOf entries s a b
      (l.onNet fun net => net.modify b (Server.setImporting s' x)) := by
  have ha : l.net.modify b (Server.setImporting s' x) a = l.net a := Net.modify_of_ne _ _ hab
  have himp : (l.net b).importing s ≠ none →
      (l.net.modify b (Server.setImporting s' x) b).importing s ≠ none := by
    intro hne
    rw [Net.modify_self, Server.importing_setImporting]
    split
    · exact Option.some_ne_none _
    · exact hne
  refine h.of_marks (Net.modify_proj Server.id (Server.setImporting s' x) (fun _ => rfl) b)
    (Net.modify_proj Server.owner (Server.setImporting s' x) (fun _ => rfl) b)
    (Net.modify_proj Server.store (Server.setImporting s' x) (fun _ => rfl) b) rfl ?_
    (Net.modify_proj (fun v => v.migrating s) (Server.setImporting s' x) (fun _ => rfl) b b)
    fun hself => ?_
  · intro hne
    simpa only [Live.net_onNet, ha] using hne
  · simp only [Live.net_onNet, ha]
    exact (h.marker hself).imp_right fun hm => ⟨hm.1, hm.2.imp_left himp⟩

theorem Routed.setMigrating (h : Routed slotOf idOf entries s a b l) (hab : a ≠ b) {s' : Int}
    (himp : s' = s → (l.net b).importing s ≠ none) :
    Routed slotOf idOf entries s a b
      (l.onNet fun net => net.modify a (Server.setMigrating s' (idOf b))) := by
  have hb : l.net.modify a (Server.setMigrating s' (idOf b)) b = l.net b :=
    Net.modify_of_ne _ _ hab.symm
  have hmig : (l.net.modify a (Server.setMigrating s' (idOf b)) a).migrating s =
      if s = s' then some (idOf b) else (l.net a).migrating s := by
    rw [Net.modify_self, Server.migrating_setMigrating]
  refine h.of_marks
    (Net.modify_proj Server.id (Server.setMigrating s' (idOf b)) (fun _ => rfl) a)
    (Net.modify_proj Server.owner (Server.setMigrating s' (idOf b)) (fun _ => rfl) a)
    (Net.modify_proj Server.store (Server.setMigrating s' (idOf b)) (fun _ => rfl) a) rfl
    (fun hne => ?_) (by simp only [Live.net_onNet, hb]) fun hself => ?_
  · simp only [Live.net_onNet, hmig]
    split
    · exact Option.some_ne_none _
    · exact hne
  · simp only [Live.net_onNet, hmig, hb]
    split
    · next hs => exact Or.inr ⟨rfl, Or.inl (himp hs.symm)⟩
    · exact h.marker hself

/-- What becomes of the slot when `m` learns that the target owns it: the target may learn it
once the source is drained, the source once the target knows. -/
theorem Routed.told (h : Routed slotOf idOf entries s a b l) (hab : a ≠ b)
    (hids : Function.Injective idOf) {m : String} (hid : ∀ x, (l'.net x).id = (l.net x).id)
    (hstore : ∀ x, (l'.net x).store = (l.net x).store) (hreg : l'.reg = l.reg)
    (hother : ∀ x, x ≠ m → l'.net x = l.net x)
    (htold : (l'.net m).owner s = some (idOf b) ∧ (l'.net m).migrating s = none)
    (hb : m = b → Drained slotOf idOf s a l)
    (ha : m = a → (l.net b).owner s = some (idOf b)) : Routed slotOf idOf entries s a b l' := by
  have hne : (some (idOf b) : Option String) ≠ some (idOf a) := fun heq =>
    hab (hids (Option.some.inj heq)).symm
  have hget : ∀ x k, (l'.net x).get k = (l.net x).get k := fun x k => by
    rw [Server.get, Server.get, hstore]
  have hkeys : (l'.net a).keysIn slotOf s = (l.net a).keysIn slotOf s := by
    rw [Server.keysIn, Server.keysIn, hstore]
  have howner : ∀ x, (l'.net x).owner s = some (idOf b) ∨ l'.net x = l.net x := by
    intro x
    by_cases hx : x = m
    · exact Or.inl (hx ▸ htold.1)
    · exact Or.inr (hother x hx)
  -- a source that still owns the slot has not been told
  have hsource : (l'.net a).owner s = some (idOf a) → l'.net a = l.net a := fun howns =>
    (howner a).resolve_left fun ho => hne (ho.symm.trans howns)
  have hdrained : (l'.net b).owner s = some (idOf b) →
      (l'.net b).migrating s = none ∧ Drained slotOf idOf s a l := by
    intro howns
    by_cases hmb : m = b
    · exact ⟨hmb ▸ htold.2, hb hmb⟩
    · rw [hother b (Ne.symm hmb)] at howns ⊢
      exact h.handed howns
  refine ⟨fun x => (hid x).trans (h.ids x), fun x hx => ?_, ?_, ?_, fun x hx => ?_, fun howns => ?_, fun howns => ?_,
    fun k hk => ?_, fun howns hmig k hk => ?_⟩
  · rw [Server.owns, hid, h.ids] at hx
    rcases howner x with ho | hsame
    · exact Or.inr (hids (Option.some.inj (ho.symm.trans hx))).symm
    · exact h.owners x (by rw [Server.owns, h.ids, ← hsame]; exact hx)
  · by_cases hma : m = a
    · subst hma
      exact Or.inr ⟨htold.1, by rw [hother b hab.symm]; exact ha rfl⟩
    · rw [hother a (Ne.symm hma)]
      refine h.source.imp_right fun hs => ⟨hs.1, ?_⟩
      rcases howner b with ho | hsame
      · exact ho
      · rw [hsame]
        exact hs.2
  · rcases howner b with ho | hsame
    · exact Or.inr ho
    · rw [hsame]
      exact h.target
  · rcases howner x with ho | hsame
    · exact Or.inr ho
    · rw [hsame]
      exact h.known x hx
  · have hsame := hsource howns
    rw [hsame] at howns ⊢
    refine (h.marker howns).imp_right fun hm => ⟨hm.1, ?_⟩
    rcases howner b with ho | hsame
    · exact Or.inr ho
    · rw [hsame]
      exact hm.2
  · obtain ⟨hmig, hempty, hmuted⟩ := hdrained howns
    refine ⟨hmig, hkeys.trans hempty, fun hself => ?_⟩
    have hsame := hsource hself
    rw [hsame] at hself ⊢
    exact hmuted hself
  · rw [hreg, hget, hget]
    exact h.value k hk
  · rw [hget, hget]
    have hsame := hsource howns
    rw [hsame] at howns hmig
    exact h.absent howns hmig k hk

theorem Routed.setNode (h : Routed slotOf idOf entries s a b l) (hab : a ≠ b)
    (hids : Function.Injective idOf) {m : String} (hb : m = b → Drained slotOf idOf s a l)
    (ha : m = a → (l.net b).owner s = some (idOf b)) :
    Routed slotOf idOf entries s a b
      (l.onNet fun net => net.modify m (Server.setNode s (idOf b))) := by
  refine h.told hab hids (Net.modify_proj Server.id (Server.setNode s (idOf b)) (fun _ => rfl) m)
    (Net.modify_proj Server.store (Server.setNode s (idOf b)) (fun _ => rfl) m) rfl
    (fun x hx => Net.modify_of_ne _ _ hx) ?_ hb ha
  simp only [Live.net_onNet, Net.modify_self]
  exact ⟨Server.owner_setNode .., Function.update_self ..⟩

omit [DecidableEq κ] in
theorem Drained.setNode (h : Drained slotOf idOf s a l) (hab : idOf a ≠ idOf b) (m : String) :
    Drained slotOf idOf s a (l.onNet fun net => net.modify m (Server.setNode s (idOf b))) := by
  refine ⟨?_, fun howns => ?_⟩
  · exact (Net.modify_proj (fun v => v.keysIn slotOf s) (Server.setNode s (idOf b))
      (fun _ => rfl) m a).trans h.1
  · simp only [Live.net_onNet] at howns ⊢
    by_cases hm : a = m
    · subst hm
      rw [Net.modify_self, Server.owner_setNode] at howns
      exact absurd (Option.some.inj howns).symm hab
    · rw [Net.modify_of_ne _ _ hm] at howns ⊢
      exact h.2 howns

end

/-! ## The commands of a move, among clients -/

/-- A probe that finds the slot empty finds it marked. -/
def Marked (a : String) (s : Int) : (c : Rpc κ) → Net κ ν → c.Reply → Prop
  | .getKeysInSlot x s' 1, net, r =>
      x = a → s' = s → r = Except.ok [] → (net a).migrating s ≠ none
  | _, _, _ => True

/-- The servers with their clients, watched for as long as every probe is safe. -/
abbrev Served (slotOf : κ → Int) (texts : Texts κ ν) (a : String) (s : Int) :
    Service (Rpc κ) Rpc.Reply (Live κ ν) :=
  Live.served ((Valkey slotOf texts).restrict (Marked a s))

section

variable {slotOf : κ → Int} {texts : Texts κ ν} {idOf : String → String} {entries : List String}
  {s : Int} {source target : NodeInfo} {masters : List String}

/-- The program keeps the slot in order wherever it is stopped, and leaves `Q` at its end. -/
abbrev Orderly {α : Type} (slotOf : κ → Int) (texts : Texts κ ν) (idOf : String → String)
    (entries : List String) (s : Int) (a b : String) (Q : α → Live κ ν → Prop)
    (p : RpcProg κ α) (l : Live κ ν) : Prop :=
  p.Wp (Live.ClientOp slotOf) (Served slotOf texts a s)
    (fun _ => Routed slotOf idOf entries s a b)
    (fun r l => Routed slotOf idOf entries s a b l ∧ Q r l) l

section

variable {a b : String} {α : Type} {Q : α → Live κ ν → Prop} {l : Live κ ν}

theorem orderly_op_bind {c : Rpc κ} {f : c.Reply → RpcProg κ α} (X : Live κ ν → Prop)
    (h : Routed slotOf idOf entries s a b l) (hab : a ≠ b) (hids : Function.Injective idOf)
    (hX : X l)
    (hstable : ∀ l l', Routed slotOf idOf entries s a b l → X l → Live.ClientOp slotOf l l' → X l')
    (hf : ∀ l r net', Routed slotOf idOf entries s a b l → X l →
      Valkey slotOf texts c l.net r net' → Marked a s c l.net r →
      Orderly slotOf texts idOf entries s a b Q (f r) ⟨net', l.reg⟩) :
    Orderly slotOf texts idOf entries s a b Q (Prog.op c >>= f) l := by
  refine Prog.wp_op_bind (fun l => Routed slotOf idOf entries s a b l ∧ X l) ⟨h, hX⟩
    (fun l l' hl hc => ⟨hl.1.client hab hids hc, hstable l l' hl.1 hl.2 hc⟩) (fun _ hl => hl.1)
    fun l r l' hl hr => ?_
  obtain ⟨⟨hr, hmarked⟩, hreg⟩ := hr
  have hl' : l' = ⟨l'.net, l.reg⟩ := by rw [← hreg]
  rw [hl']
  exact hf l r l'.net hl.1 hl.2 hr hmarked

theorem orderly_pure {r : α} (X : Live κ ν → Prop) (h : Routed slotOf idOf entries s a b l)
    (hab : a ≠ b) (hids : Function.Injective idOf) (hX : X l)
    (hstable : ∀ l l', Routed slotOf idOf entries s a b l → X l → Live.ClientOp slotOf l l' → X l')
    (hQ : ∀ l, X l → Q r l) :
    Orderly slotOf texts idOf entries s a b Q (pure r) l :=
  Prog.wp_ret (fun l => Routed slotOf idOf entries s a b l ∧ X l) ⟨h, hX⟩
    (fun l l' hl hc => ⟨hl.1.client hab hids hc, hstable l l' hl.1 hl.2 hc⟩)
    fun l hl => ⟨hl.1, hQ l hl.2⟩

/-- A program that has stopped, with nothing more to say. -/
theorem orderly_stop {r : α} (h : Routed slotOf idOf entries s a b l) (hab : a ≠ b)
    (hids : Function.Injective idOf) (hQ : ∀ l, Q r l) :
    Orderly slotOf texts idOf entries s a b Q (pure r) l :=
  orderly_pure (fun _ => True) h hab hids trivial (fun _ _ _ _ _ => trivial) fun l _ => hQ l

end

theorem Live.ClientOp.migrating {a : String} {l l' : Live κ ν} (hc : Live.ClientOp slotOf l l')
    (h : (l.net a).migrating s ≠ none) : (l'.net a).migrating s ≠ none := by
  obtain ⟨st, hst⟩ := hc.views a
  rw [hst]
  exact h

/-- What the key moves of slot `s'` leave: if they went through, and it is the slot we look at,
a drained source. -/
abbrev Emptied (slotOf : κ → Int) (idOf : String → String) (s s' : Int) (a : String)
    (r : Option (Except String Unit)) (l : Live κ ν) : Prop :=
  r = some (.ok ()) → s' = s → Drained slotOf idOf s a l

theorem moveKeys_orderly (hab : clientFor source ≠ clientFor target)
    (hids : Function.Injective idOf) (s' : Int) :
    ∀ (fuel : Nat) (l : Live κ ν),
      Routed slotOf idOf entries s (clientFor source) (clientFor target) l →
      (s' = s → (l.net (clientFor source)).migrating s ≠ none) →
      Orderly slotOf texts idOf entries s (clientFor source) (clientFor target)
        (Emptied slotOf idOf s s' (clientFor source)) (moveKeys source target s' fuel) l := by
  have hstable : ∀ l l' : Live κ ν,
      Routed slotOf idOf entries s (clientFor source) (clientFor target) l →
      (s' = s → (l.net (clientFor source)).migrating s ≠ none) → Live.ClientOp slotOf l l' →
      s' = s → (l'.net (clientFor source)).migrating s ≠ none :=
    fun _ _ _ hmig hc hs => hc.migrating (hmig hs)
  intro fuel
  induction fuel with
  | zero => exact fun l h _ => orderly_stop h hab hids fun _ hok => absurd hok (by simp)
  | succ fuel ih =>
      intro l h hmig
      refine orderly_op_bind (fun l => s' = s → (l.net (clientFor source)).migrating s ≠ none)
        h hab hids hmig hstable fun l₁ r net₁ h₁ hmig₁ hr _ => ?_
      obtain ⟨rfl, hr⟩ := hr
      match r with
      | .error e => exact orderly_stop h₁ hab hids fun _ hok => absurd hok (by simp)
      | .ok [] =>
          have hempty := (hr [] rfl).2.2 rfl
          refine orderly_pure (fun l => s' = s → Drained slotOf idOf s (clientFor source) l)
            h₁ hab hids (fun hs => ⟨hs ▸ hempty, fun _ => hmig₁ hs⟩)
            (fun _ _ hl hd hc hs => (hd hs).client hl hab hids hc) fun _ hd _ => hd
      | .ok (k :: ks) =>
          have hks := (hr (k :: ks) rfl).2.1
          refine orderly_op_bind (fun l => s' = s → (l.net (clientFor source)).migrating s ≠ none)
            h₁ hab hids hmig₁ hstable fun l₂ r₂ net₂ h₂ hmig₂ hr₂ _ => ?_
          have hpart : Routed slotOf idOf entries s (clientFor source) (clientFor target)
              ⟨net₂, l₂.reg⟩ ∧ (s' = s → (net₂ (clientFor source)).migrating s ≠ none) := by
            rcases Valkey.migrate_cases hr₂ with rfl | ⟨hip, hp⟩
            · exact ⟨h₂, hmig₂⟩
            · rw [← clientFor_of_ip hip] at hp
              obtain ⟨st, hst⟩ := hp.sameViews (clientFor source)
              refine ⟨h₂.movedPart hab hp fun j hj hjs => hmig₂ ?_,
                fun hs => by rw [hst]; exact hmig₂ hs⟩
              -- the keys that were listed are keys of the slot that is moved
              exact (Server.mem_keysIn.1 (hks j hj)).2.symm.trans hjs
          match r₂ with
          | .error e => exact orderly_stop hpart.1 hab hids fun _ hok => absurd hok (by simp)
          | .ok () => exact ih _ hpart.1 hpart.2

theorem handOver_orderly (hab : clientFor source ≠ clientFor target)
    (hids : Function.Injective idOf) (htid : target.id = idOf (clientFor target)) (s' : Int)
    (fuel : Nat) {l : Live κ ν}
    (h : Routed slotOf idOf entries s (clientFor source) (clientFor target) l) :
    Orderly slotOf texts idOf entries s (clientFor source) (clientFor target)
      (Emptied slotOf idOf s s' (clientFor source)) (handOver fuel source target s') l := by
  refine orderly_op_bind (fun _ => True) h hab hids trivial (fun _ _ _ _ _ => trivial)
    fun l₁ r net₁ h₁ _ hr _ => ?_
  match r with
  | .error e =>
      refine orderly_stop ?_ hab hids fun _ hok => absurd hok (by simp)
      rcases hr with rfl | ⟨_, rfl⟩
      · exact h₁
      · exact h₁.setImporting hab s' source.id
  | .ok () =>
      obtain ⟨-, rfl⟩ := hr
      have himp : s' = s → (l₁.net.modify (clientFor target) (Server.setImporting s' source.id)
          (clientFor target)).importing s ≠ none := by
        rintro rfl
        rw [Net.modify_self, Server.importing_setImporting, if_pos rfl]
        exact Option.some_ne_none _
      refine orderly_op_bind
        (fun l => s' = s → (l.net (clientFor target)).importing s ≠ none)
        (h₁.setImporting hab s' source.id) hab hids himp (fun l l' _ hl hc hs => ?_)
        fun l₂ r₂ net₂ h₂ himp₂ hr₂ _ => ?_
      · obtain ⟨st, hst⟩ := hc.views (clientFor target)
        rw [hst]
        exact hl hs
      · rw [htid] at hr₂
        match r₂ with
        | .error e =>
            refine orderly_stop ?_ hab hids fun _ hok => absurd hok (by simp)
            rcases hr₂ with rfl | ⟨_, rfl⟩
            · exact h₂
            · exact h₂.setMigrating hab himp₂
        | .ok () =>
            obtain ⟨-, rfl⟩ := hr₂
            refine moveKeys_orderly hab hids s' fuel _ (h₂.setMigrating hab himp₂) fun hs => ?_
            simp only [Net.modify_self, Server.migrating_setMigrating, if_pos hs.symm]
            exact Option.some_ne_none _

/-- The announcements go to the target before they go to the source. -/
theorem assignOwner_orderly {a b : String} (hab : a ≠ b) (hids : Function.Injective idOf)
    (s' : Int) :
    ∀ (todo : List String) (l : Live κ ν), Routed slotOf idOf entries s a b l →
      (s' = s → Drained slotOf idOf s a l ∧
        ((l.net b).owner s = some (idOf b) ∨ b ∈ todo.takeWhile (· ≠ a))) →
      Orderly slotOf texts idOf entries s a b (fun _ _ => True) (assignOwner (idOf b) s' todo)
        l := by
  intro todo
  induction todo with
  | nil => exact fun l h _ => orderly_stop h hab hids fun _ => trivial
  | cons m todo ih =>
      intro l h hcond
      refine orderly_op_bind (fun l => s' = s → Drained slotOf idOf s a l ∧
          ((l.net b).owner s = some (idOf b) ∨ b ∈ (m :: todo).takeWhile (· ≠ a)))
        h hab hids hcond (fun l l' hl hx hc hs => ?_)
        fun l₁ r net₁ h₁ hcond₁ hr _ => ?_
      · obtain ⟨st, hst⟩ := hc.views b
        refine ⟨(hx hs).1.client hl hab hids hc, ?_⟩
        rw [hst]
        exact (hx hs).2
      · have hset : Routed slotOf idOf entries s a b
            (l₁.onNet fun net => net.modify m (Server.setNode s' (idOf b))) := by
          by_cases hs : s' = s
          · subst hs
            refine h₁.setNode hab hids (fun _ => (hcond₁ rfl).1) fun hm => ?_
            rcases (hcond₁ rfl).2 with hb | hb
            · exact hb
            · simp [hm] at hb
          · refine h₁.modify_other m (fun v => ?_) fun _ => rfl
            have hne : s ≠ s' := Ne.symm hs
            exact ⟨rfl, Function.update_of_ne hne .., Function.update_of_ne hne ..,
              Function.update_of_ne hne ..⟩
        match r with
        | .error e =>
            refine orderly_stop ?_ hab hids fun _ => trivial
            rcases hr with rfl | ⟨_, rfl⟩
            · exact h₁
            · exact hset
        | .ok () =>
            obtain ⟨-, rfl⟩ := hr
            refine ih _ hset fun hs => ?_
            subst hs
            refine ⟨(hcond₁ rfl).1.setNode (fun heq => hab (hids heq)) m, ?_⟩
            by_cases hmb : m = b
            · subst hmb
              left
              simp only [Net.modify_self, Server.owner_setNode]
            · simp only [Net.modify_of_ne _ _ (Ne.symm hmb)]
              refine (hcond₁ rfl).2.imp_right fun hfirst => ?_
              by_cases hma : m = a
              · simp [hma] at hfirst
              · rw [List.takeWhile_cons_of_pos (by simpa using hma)] at hfirst
                exact (List.mem_cons.1 hfirst).resolve_left (Ne.symm hmb)

theorem moveSlot_orderly (hab : clientFor source ≠ clientFor target)
    (hids : Function.Injective idOf) (htid : target.id = idOf (clientFor target))
    (hfirst : clientFor target ∈ masters.takeWhile (· ≠ clientFor source)) (s' : Int)
    (fuel : Nat) {l : Live κ ν}
    (h : Routed slotOf idOf entries s (clientFor source) (clientFor target) l) :
    Orderly slotOf texts idOf entries s (clientFor source) (clientFor target)
      (fun _ _ => True) (moveSlot fuel source target masters s') l := by
  refine orderly_op_bind (fun _ => True) h hab hids trivial (fun _ _ _ _ _ => trivial)
    fun l₁ r net₁ h₁ _ hr hmarked => ?_
  obtain ⟨rfl, hr⟩ := hr
  match r with
  | .error e => exact orderly_stop h₁ hab hids fun _ => trivial
  | .ok probe =>
      have hhanded : Orderly slotOf texts idOf entries s (clientFor source) (clientFor target)
          (Emptied slotOf idOf s s' (clientFor source))
          (if probe.isEmpty then pure (some (.ok ())) else handOver fuel source target s')
          l₁ := by
        cases probe with
        | cons k ks => exact handOver_orderly hab hids htid s' fuel h₁
        | nil =>
            refine orderly_pure (fun l => s' = s → Drained slotOf idOf s (clientFor source) l)
              h₁ hab hids (fun hs => ⟨?_, fun _ => hmarked rfl hs rfl⟩)
              (fun _ _ hl hd hc hs => (hd hs).client hl hab hids hc) fun _ hd _ => hd
            exact hs ▸ (hr [] rfl).2.2 rfl
      refine Prog.wp_bind.2 (hhanded.mono fun handed l₂ hh => ?_)
      match handed with
      | none => exact orderly_stop hh.1 hab hids fun _ => trivial
      | some (.error e) => exact orderly_stop hh.1 hab hids fun _ => trivial
      | some (.ok ()) =>
          rw [htid]
          refine Prog.wp_bind.2 ((assignOwner_orderly hab hids s' masters l₂ hh.1
            fun hs => ⟨hh.2 rfl hs, Or.inr hfirst⟩).mono fun r l₃ h₃ => ?_)
          match r with
          | .error e => exact orderly_stop h₃.1 hab hids fun _ => trivial
          | .ok () => exact orderly_stop h₃.1 hab hids fun _ => trivial

end

/-- Clients write, delete and follow redirects while `MoveSlots` runs, and any command may
fail. As long as the target is listed before the source, and a probe never finds the slot
empty before it is marked, a client that starts at any server that knows of the slot and
follows its redirects reads, at any moment and after four requests at most, what the last
accepted write has left. -/
theorem moveSlots_reads_last_write {slotOf : κ → Int} {texts : Texts κ ν} {l₀ l : Live κ ν}
    {idOf addrOf : String → String} {entries : List String} {s : Int}
    {fuel : Nat} {seed : Endpoint} {fromNodeID toNodeID : String} {n : Int}
    {nodes : List NodeInfo} {source target : NodeInfo}
    {p : RpcProg κ (Option (Nat × Option String))}
    (hnodes : ∀ l, ReflTransGen (Live.ClientOp slotOf) l₀ l →
      parseNodes (texts.nodes l.net (dialAddr seed.host seed.port)) = nodes)
    (hsource : ∀ x ∈ nodeByID nodes fromNodeID, x = source)
    (htarget : ∀ x ∈ nodeByID nodes toNodeID, x = target)
    (hab : clientFor source ≠ clientFor target) (hids : Function.Injective idOf)
    (htid : target.id = idOf (clientFor target))
    (hfirst : clientFor target ∈ (masterClients nodes).takeWhile (· ≠ clientFor source))
    (haddrA : addrOf (idOf (clientFor source)) = clientFor source)
    (haddrB : addrOf (idOf (clientFor target)) = clientFor target)
    (hstart : Routed slotOf idOf entries s (clientFor source) (clientFor target) l₀)
    (hrun : Prog.Reaches (Live.ClientOp slotOf) (Served slotOf texts (clientFor source) s)
      (moveSlots fuel seed fromNodeID toNodeID n, l₀) (p, l))
    {k : κ} (hk : slotOf k = s) {x : String} (hx : x ∈ entries) :
    fetch slotOf addrOf l.net k 4 x false = some (l.reg k) := by
  have hlist : ∀ x (l : Live κ ν) r l',
      Served slotOf texts (clientFor source) s (Rpc.clusterNodes x) l r l' →
      l' = l ∧ ∀ t, r = Except.ok t → t = texts.nodes l.net x := by
    rintro x ⟨net, reg⟩ r ⟨net', reg'⟩ ⟨⟨⟨rfl, hr⟩, -⟩, rfl⟩
    exact ⟨rfl, hr⟩
  have hinv : Routed slotOf idOf entries s (clientFor source) (clientFor target) l :=
    (moveSlots_invariant
      (I := Routed slotOf idOf entries s (clientFor source) (clientFor target))
      (fun _ _ hl hc => hl.client hab hids hc) hlist hnodes hsource htarget
      (fun s' _ l hl => (moveSlot_orderly hab hids htid hfirst s' fuel hl).mono
        fun _ _ h => h.1) hstart).invariant (fun _ _ hl => hl) (fun _ _ hl => hl) hrun
  exact hinv.fetch hk haddrA haddrB (fun heq => hab (hids heq)) hx

/-- Prompt servers, but a probe of an empty slot gets no answer. -/
def shy (slotOf : κ → Int) (texts : Texts κ ν) : Handler (Rpc κ) Rpc.Reply (Live κ ν) := fun c l =>
  match c with
  | .getKeysInSlot x s 1 =>
      if (l.net x).keysIn slotOf s = [] then (Except.error "i/o timeout", l)
      else ((prompt slotOf texts (.getKeysInSlot x s 1) l.net).1, l)
  | c => ((prompt slotOf texts c l.net).1, ⟨(prompt slotOf texts c l.net).2, l.reg⟩)

theorem shy_served (slotOf : κ → Int) (texts : Texts κ ν) (a : String) (s : Int) (c : Rpc κ)
    (l : Live κ ν) :
    Served slotOf texts a s c l (shy slotOf texts c l).1 (shy slotOf texts c l).2 := by
  unfold shy
  split
  · next x s' =>
      split
      · exact ⟨⟨⟨rfl, fun t ht => by cases ht⟩, fun _ _ hr => by cases hr⟩, rfl⟩
      · next hne =>
          have hp := prompt_valkey slotOf texts (.getKeysInSlot x s' 1) l.net
          refine ⟨⟨hp, fun _ _ hr => ?_⟩, rfl⟩
          exact absurd ((hp.2 [] hr).2.2 rfl) hne
  · next hc =>
      refine ⟨⟨prompt_valkey slotOf texts c l.net, ?_⟩, rfl⟩
      unfold Marked
      split
      · exact absurd rfl (hc _ _)
      · trivial

/-- One key on the move, stopped when the target has been told and the source has not; a client
then writes the key at the target. -/
theorem moveSlots_reads_last_write_pair :
    ∃ p l, Prog.Reaches (Live.ClientOp pairSlotOf)
        (Served pairSlotOf (pairTexts pairLineB pairLineA) (clientFor pairA) 0)
        (moveSlots 2 pairSeed "a" "b" 1,
          (⟨pairNet (AList.singleton 0 "v"), fun _ => some "v"⟩ : Live Nat String)) (p, l) ∧
      (l.net (clientFor pairA)).owner 0 = some "a" ∧
      (l.net (clientFor pairB)).owner 0 = some "b" ∧
      ∀ x ∈ [clientFor pairA, clientFor pairB],
        fetch pairSlotOf pairAddr l.net 0 4 x false = some (some "w") := by
  have hrun := Prog.reaches_after (E := Live.ClientOp pairSlotOf)
    (shy_served pairSlotOf (pairTexts pairLineB pairLineA) (clientFor pairA) 0) 8
    (moveSlots 2 pairSeed "a" "b" 1) ⟨pairNet (AList.singleton 0 "v"), fun _ => some "v"⟩
  rw [moveSlots_after (by decide) rfl (parseNodes_pair_swapped _ _) rfl rfl] at hrun
  have hwritten := hrun.tail (.env (.write (x := clientFor pairB) (k := 0) "w"
    ⟨by unfold Server.owns; decide +kernel, Or.inr (by decide +kernel)⟩))
  have hsource : ∀ x ∈ nodeByID [pairB, pairA] "a", x = pairA := by decide
  have htarget : ∀ x ∈ nodeByID [pairB, pairA] "b", x = pairB := by decide
  refine ⟨_, _, hwritten, by decide +kernel, by decide +kernel, fun x hx => ?_⟩
  refine moveSlots_reads_last_write (fun _ _ => parseNodes_pair_swapped _ _) hsource htarget
    (by decide) (pairNet_ids_injective (AList.singleton 0 "v")) (by decide) (by decide)
    (by decide) (by decide) ?_ hwritten rfl hx
  refine Routed.start (by decide) (fun _ => rfl) (fun x hx => pairNet_owns hx) (by decide) rfl
    (by decide) fun k hk => ?_
  obtain rfl : k = 0 := by simpa [pairSlotOf] using hk
  decide

end Valkeyop.Cluster
