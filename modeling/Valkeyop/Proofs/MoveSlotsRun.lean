import Valkeyop.Cluster.Ledger
import Valkeyop.Proofs.RepairSlots

/-!
# What an undisturbed move leaves

When every command is answered, `MoveSlots` ends, reports the slots it selected, and leaves
the servers in one particular state, whatever state it found them in: keys that an earlier
attempt has copied, markers it has set, and owners it has announced to some of the masters
make no difference. `Handed` is that state. A key both servers hold ends with the source's
value.

The effect of each command is a function of the slot alone, so the effects of the slots
compose by appending the lists of slots, and the loop over the slots needs no invariant
beyond that.
-/

namespace Valkeyop.Cluster

open Valkeyop.Lib

variable {κ ν : Type} [DecidableEq κ]

/-! ## Keys -/

/-- The keys of `P` have gone from `a` to `b`, and nothing else has happened. -/
structure Shipped (a b : String) (P : κ → Prop) (net net' : Net κ ν) : Prop where
  views : Net.SameViews net net'
  gone : ∀ k, P k → (net' a).get k = none
  arrived : ∀ k, P k → (net' b).get k = ((net a).get k).or ((net b).get k)
  kept : ∀ k, ¬ P k → (net' a).get k = (net a).get k ∧ (net' b).get k = (net b).get k
  others : ∀ x, x ≠ a → x ≠ b → ∀ k, (net' x).get k = (net x).get k

section

variable {a b : String} {P Q : κ → Prop} {net net₁ net₂ : Net κ ν}

theorem Shipped.of_empty (h : ∀ k, P k → (net a).get k = none) : Shipped a b P net net where
  views := .refl net
  gone := h
  arrived k hk := by rw [h k hk, Option.none_or]
  kept _ _ := ⟨rfl, rfl⟩
  others _ _ _ _ := rfl

theorem Shipped.congr (h : Shipped a b P net net₁) (hPQ : ∀ k, P k ↔ Q k) :
    Shipped a b Q net net₁ where
  views := h.views
  gone k hk := h.gone k ((hPQ k).2 hk)
  arrived k hk := h.arrived k ((hPQ k).2 hk)
  kept k hk := h.kept k fun hp => hk ((hPQ k).1 hp)
  others := h.others

theorem Shipped.trans (h₁ : Shipped a b P net net₁) (h₂ : Shipped a b Q net₁ net₂) :
    Shipped a b (fun k => P k ∨ Q k) net net₂ where
  views := h₁.views.trans h₂.views
  gone k hk := by
    by_cases hq : Q k
    · exact h₂.gone k hq
    · rw [(h₂.kept k hq).1]
      exact h₁.gone k (hk.resolve_right hq)
  arrived k hk := by
    by_cases hp : P k
    · have hb := h₁.arrived k hp
      by_cases hq : Q k
      · rw [h₂.arrived k hq, h₁.gone k hp, Option.none_or, hb]
      · rw [(h₂.kept k hq).2, hb]
    · rw [h₂.arrived k (hk.resolve_left hp), (h₁.kept k hp).1, (h₁.kept k hp).2]
  kept k hk := by
    obtain ⟨hp, hq⟩ := not_or.1 hk
    rw [(h₂.kept k hq).1, (h₂.kept k hq).2]
    exact h₁.kept k hp
  others x hxa hxb k := (h₂.others x hxa hxb k).trans (h₁.others x hxa hxb k)

theorem Shipped.moveKey (hab : a ≠ b) (net : Net κ ν) (k : κ) :
    Shipped a b (· = k) net (net.moveKey a b k) where
  views := .moveKey net a b k
  gone j hj := by rw [hj, Net.moveKey_source _ _ hab, Server.get_drop_self]
  arrived j hj := by
    subst hj
    rw [Net.moveKey_target _ _ hab, Net.copyKey_target_get]
    cases (net a).get j with
    | none => simp
    | some v => simp
  kept j hj := by
    rw [Net.moveKey_source _ _ hab, Net.moveKey_target _ _ hab, Server.get_drop_of_ne _ hj,
      Net.copyKey_target_get, if_neg fun h => hj h.1]
    exact ⟨rfl, rfl⟩
  others x hxa hxb j := by rw [Net.moveKey_of_ne net k hxa hxb]

theorem Shipped.foldl (hab : a ≠ b) :
    ∀ (ks : List κ) (net : Net κ ν),
      Shipped a b (· ∈ ks) net (ks.foldl (Net.moveKey a b) net) := by
  intro ks
  induction ks with
  | nil => exact fun net => .of_empty fun k hk => absurd hk List.not_mem_nil
  | cons k ks ih =>
      intro net
      exact ((Shipped.moveKey hab net k).trans (ih _)).congr fun j => List.mem_cons.symm

end

/-! ## Views -/

/-- The slots `sel` have been handed from `a` to `b` and `id` announced on `ms` as their
owner, and nothing else has happened. -/
structure Handed (slotOf : κ → Int) (a b id : String) (ms : List String) (sel : List Int)
    (net net' : Net κ ν) : Prop where
  ids : ∀ x, (net' x).id = (net x).id
  owner : ∀ x s, (net' x).owner s = if x ∈ ms ∧ s ∈ sel then some id else (net x).owner s
  migrating : ∀ x s, (net' x).migrating s =
    if x ∈ ms ∧ s ∈ sel then none else (net x).migrating s
  importing : ∀ x s, (net' x).importing s =
    if x ∈ ms ∧ s ∈ sel then none else (net x).importing s
  source : ∀ k, (net' a).get k = if slotOf k ∈ sel then none else (net a).get k
  target : ∀ k, (net' b).get k =
    if slotOf k ∈ sel then ((net a).get k).or ((net b).get k) else (net b).get k
  others : ∀ x, x ≠ a → x ≠ b → ∀ k, (net' x).get k = (net x).get k

section

variable {slotOf : κ → Int} {a b id : String} {ms : List String} {sel sel' : List Int}
  {net net₁ net₂ : Net κ ν}

theorem Handed.nil (net : Net κ ν) : Handed slotOf a b id ms [] net net where
  ids _ := rfl
  owner x s := by simp
  migrating x s := by simp
  importing x s := by simp
  source k := by simp
  target k := by simp
  others _ _ _ _ := rfl

theorem Handed.trans (h₁ : Handed slotOf a b id ms sel net net₁)
    (h₂ : Handed slotOf a b id ms sel' net₁ net₂) :
    Handed slotOf a b id ms (sel ++ sel') net net₂ where
  ids x := (h₂.ids x).trans (h₁.ids x)
  owner x s := by
    rw [h₂.owner, h₁.owner]
    grind
  migrating x s := by
    rw [h₂.migrating, h₁.migrating]
    grind
  importing x s := by
    rw [h₂.importing, h₁.importing]
    grind
  source k := by
    rw [h₂.source, h₁.source]
    grind
  target k := by
    rw [h₂.target, h₁.target, h₁.source]
    grind
  others x hxa hxb k := (h₂.others x hxa hxb k).trans (h₁.others x hxa hxb k)

/-- Only markers of `s` have changed, and only on `ms`. -/
structure OnlyMarks (ms : List String) (s : Int) (net net' : Net κ ν) : Prop where
  ids : ∀ x, (net' x).id = (net x).id
  owner : ∀ x, (net' x).owner = (net x).owner
  store : ∀ x, (net' x).store = (net x).store
  migrating : ∀ x s', ¬ (x ∈ ms ∧ s' = s) → (net' x).migrating s' = (net x).migrating s'
  importing : ∀ x s', ¬ (x ∈ ms ∧ s' = s) → (net' x).importing s' = (net x).importing s'

omit [DecidableEq κ] in
theorem OnlyMarks.refl (ms : List String) (s : Int) (net : Net κ ν) : OnlyMarks ms s net net :=
  ⟨fun _ => rfl, fun _ => rfl, fun _ => rfl, fun _ _ _ => rfl, fun _ _ _ => rfl⟩

omit [DecidableEq κ] in
theorem OnlyMarks.trans {s : Int} (h₁ : OnlyMarks ms s net net₁) (h₂ : OnlyMarks ms s net₁ net₂) :
    OnlyMarks ms s net net₂ where
  ids x := (h₂.ids x).trans (h₁.ids x)
  owner x := (h₂.owner x).trans (h₁.owner x)
  store x := (h₂.store x).trans (h₁.store x)
  migrating x s' hx := (h₂.migrating x s' hx).trans (h₁.migrating x s' hx)
  importing x s' hx := (h₂.importing x s' hx).trans (h₁.importing x s' hx)

omit [DecidableEq κ] in
theorem OnlyMarks.setImporting {m : String} (hm : m ∈ ms) (s : Int) (x : String)
    (net : Net κ ν) : OnlyMarks ms s net (net.modify m (Server.setImporting s x)) where
  ids := Net.modify_proj Server.id (Server.setImporting s x) (fun _ => rfl) m
  owner := Net.modify_proj Server.owner (Server.setImporting s x) (fun _ => rfl) m
  store := Net.modify_proj Server.store (Server.setImporting s x) (fun _ => rfl) m
  migrating y s' _ := congrFun
    (Net.modify_proj Server.migrating (Server.setImporting s x) (fun _ => rfl) m y) s'
  importing y s' hy := by
    by_cases hym : y = m
    · subst hym
      rw [Net.modify_self, Server.importing_setImporting, if_neg fun hs => hy ⟨hm, hs⟩]
    · rw [Net.modify_of_ne _ _ hym]

omit [DecidableEq κ] in
theorem OnlyMarks.setMigrating {m : String} (hm : m ∈ ms) (s : Int) (x : String)
    (net : Net κ ν) : OnlyMarks ms s net (net.modify m (Server.setMigrating s x)) where
  ids := Net.modify_proj Server.id (Server.setMigrating s x) (fun _ => rfl) m
  owner := Net.modify_proj Server.owner (Server.setMigrating s x) (fun _ => rfl) m
  store := Net.modify_proj Server.store (Server.setMigrating s x) (fun _ => rfl) m
  migrating y s' hy := by
    by_cases hym : y = m
    · subst hym
      rw [Net.modify_self, Server.migrating_setMigrating, if_neg fun hs => hy ⟨hm, hs⟩]
    · rw [Net.modify_of_ne _ _ hym]
  importing y s' _ := congrFun
    (Net.modify_proj Server.importing (Server.setMigrating s x) (fun _ => rfl) m y) s'

/-- One slot: markers that the announcement will clear, the keys, and the announcement. -/
theorem Handed.of_steps {s : Int} {net₃ : Net κ ν} (hmarks : OnlyMarks ms s net net₁)
    (hship : Shipped a b (fun k => slotOf k = s) net₁ net₂)
    (htold : ∀ x, net₃ x = if x ∈ ms then (net₂ x).setNode s id else net₂ x) :
    Handed slotOf a b id ms [s] net net₃ := by
  have hget : ∀ x k, (net₁ x).get k = (net x).get k := fun x k => by
    rw [Server.get, Server.get, hmarks.store]
  have htoldget : ∀ x k, (net₃ x).get k = (net₂ x).get k := by
    intro x k
    rw [htold]
    split
    · rfl
    · rfl
  have hview : ∀ x, (net₂ x).id = (net₁ x).id ∧ (net₂ x).owner = (net₁ x).owner ∧
      (net₂ x).migrating = (net₁ x).migrating ∧ (net₂ x).importing = (net₁ x).importing := by
    intro x
    obtain ⟨st, hst⟩ := hship.views x
    rw [hst]
    exact ⟨rfl, rfl, rfl, rfl⟩
  refine ⟨fun x => ?_, fun x s' => ?_, fun x s' => ?_, fun x s' => ?_, fun k => ?_, fun k => ?_,
    fun x hxa hxb k => ?_⟩
  · rw [← hmarks.ids, ← (hview x).1, htold]
    split
    · rfl
    · rfl
  · rw [← hmarks.owner, ← (hview x).2.1, htold]
    by_cases hx : x ∈ ms
    · simp [hx, Server.setNode, Server.setStable, Function.update_apply]
    · simp [hx]
  · rw [htold]
    by_cases hx : x ∈ ms
    · by_cases hs : s' = s
      · simp [hx, hs, Server.setNode, Server.setStable]
      · simp [hx, hs, Server.setNode, Server.setStable, (hview x).2.2.1,
          hmarks.migrating x s' fun h => hs h.2]
    · simp [hx, (hview x).2.2.1, hmarks.migrating x s' fun h => hx h.1]
  · rw [htold]
    by_cases hx : x ∈ ms
    · by_cases hs : s' = s
      · simp [hx, hs, Server.setNode, Server.setStable]
      · simp [hx, hs, Server.setNode, Server.setStable, (hview x).2.2.2,
          hmarks.importing x s' fun h => hs h.2]
    · simp [hx, (hview x).2.2.2, hmarks.importing x s' fun h => hx h.1]
  · rw [htoldget, ← hget]
    split
    · next hk => exact hship.gone k (List.mem_singleton.1 hk)
    · next hk => exact (hship.kept k fun hs => hk (List.mem_singleton.2 hs)).1
  · rw [htoldget, ← hget, ← hget]
    split
    · next hk => exact hship.arrived k (List.mem_singleton.1 hk)
    · next hk => exact (hship.kept k fun hs => hk (List.mem_singleton.2 hs)).2
  · rw [htoldget, hship.others x hxa hxb, hget]

theorem Handed.keysIn_length_le (h : Handed slotOf a b id ms sel net net₁) (s : Int) :
    ((net₁ a).keysIn slotOf s).length ≤ ((net a).keysIn slotOf s).length := by
  refine Server.keysIn_length_mono fun k _ hget => ?_
  rw [h.source] at hget
  split at hget
  · exact absurd rfl hget
  · exact hget

/-- A server that would not refuse to be told still would not. -/
theorem Handed.not_refuses (h : Handed slotOf a b id ms sel net net₁) {x : String} (hxa : x ≠ a)
    (hxb : x ≠ b) {s : Int} (hx : ¬ (net x).refuses slotOf s id) :
    ¬ (net₁ x).refuses slotOf s id := by
  rintro ⟨howns, hid, hkeys⟩
  rw [h.owner, h.ids] at howns
  rw [h.ids] at hid
  split at howns
  · exact hid (Option.some.inj howns)
  · refine hx ⟨howns, hid, fun hnil => hkeys ?_⟩
    refine Server.keysIn_eq_nil.2 fun k hk => ?_
    rw [h.others x hxa hxb]
    exact Server.keysIn_eq_nil.1 hnil k hk

end

/-! ## The commands -/

section

variable {slotOf : κ → Int} {texts : Texts κ ν} {source target : NodeInfo}

/-- What a run of `p` against servers that answer ends with. -/
abbrev Ends {α : Type} (slotOf : κ → Int) (texts : Texts κ ν) (Q : α → Net κ ν → Prop)
    (p : RpcProg κ α) (net : Net κ ν) : Prop :=
  Prog.Runs (prompt slotOf texts) (fun _ _ => True) Q p net

theorem ends_op_bind {α : Type} {c : Rpc κ} {f : c.Reply → RpcProg κ α} {Q : α → Net κ ν → Prop}
    {net : Net κ ν} (h : Ends slotOf texts Q (f (prompt slotOf texts c net).1)
      (prompt slotOf texts c net).2) : Ends slotOf texts Q (Prog.op c >>= f) net :=
  Prog.runs_bind.2 (Prog.runs_op.2 ⟨trivial, h⟩)

theorem moveKeys_runs (hab : clientFor source ≠ clientFor target) (hip : target.ip ≠ "")
    (s : Int) :
    ∀ (fuel : Nat) (net : Net κ ν), ((net (clientFor source)).keysIn slotOf s).length < fuel →
      Ends slotOf texts (fun r net' => r = some (.ok ()) ∧
        Shipped (clientFor source) (clientFor target) (fun k => slotOf k = s) net net')
        (moveKeys source target s fuel) net := by
  intro fuel
  induction fuel with
  | zero => exact fun net h => absurd h (Nat.not_lt_zero _)
  | succ fuel ih =>
      intro net hfuel
      refine ends_op_bind ?_
      simp only [prompt, if_neg (show (128 : Nat) ≠ 0 by decide)]
      cases hkeys : ((net (clientFor source)).keysIn slotOf s).take 128 with
      | nil =>
          have hnil : (net (clientFor source)).keysIn slotOf s = [] := by
            simpa using hkeys
          exact Prog.runs_pure.2 ⟨rfl, .of_empty (Server.keysIn_eq_nil.1 hnil)⟩
      | cons k ks =>
          have hmem : ∀ j ∈ k :: ks, j ∈ (net (clientFor source)).keysIn slotOf s := by
            intro j hj
            rw [← hkeys] at hj
            exact List.mem_of_mem_take hj
          refine ends_op_bind ?_
          simp only [prompt, if_neg hip, Bool.true_eq_false, false_and, if_false,
            ← clientFor_of_ip hip]
          have hship := Shipped.foldl hab (k :: ks) net
          have hlt := Net.keysIn_moveKeys_lt hab ks (hmem k (by simp))
          refine (ih _ (by omega)).mono fun r net' hr => ⟨hr.1, ?_⟩
          refine (hship.trans hr.2).congr fun j => ⟨fun hj => ?_, fun hj => Or.inr hj⟩
          rcases hj with hj | hj
          · exact (Server.mem_keysIn.1 (hmem j hj)).2
          · exact hj

theorem assignOwner_runs {id : String} {s : Int} :
    ∀ (todo : List String) (net : Net κ ν), (∀ x ∈ todo, ¬ (net x).refuses slotOf s id) →
      Ends slotOf texts (fun r net' => r = .ok () ∧
        ∀ x, net' x = if x ∈ todo then (net x).setNode s id else net x)
        (assignOwner id s todo) net := by
  intro todo
  induction todo with
  | nil => exact fun net _ => Prog.runs_pure.2 ⟨rfl, fun x => by simp⟩
  | cons m todo ih =>
      intro net hrefuse
      refine ends_op_bind ?_
      simp only [prompt, if_neg (hrefuse m (by simp))]
      refine (ih _ fun x hx => ?_).mono fun r net' hr => ⟨hr.1, fun x => ?_⟩
      · by_cases hxm : x = m
        · -- a server that has been told has no reason left to refuse
          subst hxm
          rw [Net.modify_self]
          rintro ⟨howns, hid, -⟩
          rw [Server.owner_setNode] at howns
          exact hid (Option.some.inj howns)
        · rw [Net.modify_of_ne _ _ hxm]
          exact hrefuse x (by simp [hx])
      · rw [hr.2 x]
        by_cases hxm : x = m
        · subst hxm
          rw [Net.modify_self]
          simp [Server.setNode, Server.setStable]
        · rw [Net.modify_of_ne _ _ hxm]
          simp [hxm]

/-- What the move of the slots `sel` asks of the servers it starts from: the two ends are
listed masters, no third one holds keys of a slot it believes to own, and the keys of a slot
are not more than the rounds of the key loop. -/
structure Transferable (slotOf : κ → Int) (source target : NodeInfo) (masters : List String)
    (fuel : Nat) (sel : List Int) (net : Net κ ν) : Prop where
  sourceListed : clientFor source ∈ masters
  targetListed : clientFor target ∈ masters
  targetID : (net (clientFor target)).id = target.id
  willing : ∀ x ∈ masters, x ≠ clientFor source → x ≠ clientFor target → ∀ s ∈ sel,
    ¬ (net x).refuses slotOf s target.id
  rounds : ∀ s ∈ sel, ((net (clientFor source)).keysIn slotOf s).length < fuel

section

variable {masters : List String} {fuel : Nat} {sel sel' : List Int} {net net' : Net κ ν}

omit [DecidableEq κ] in
theorem Transferable.mono (h : Transferable slotOf source target masters fuel sel net)
    (hsub : ∀ s ∈ sel', s ∈ sel) : Transferable slotOf source target masters fuel sel' net where
  sourceListed := h.sourceListed
  targetListed := h.targetListed
  targetID := h.targetID
  willing x hx hxa hxb s hs := h.willing x hx hxa hxb s (hsub s hs)
  rounds s hs := h.rounds s (hsub s hs)

theorem Transferable.handed (h : Transferable slotOf source target masters fuel sel net)
    (hh : Handed slotOf (clientFor source) (clientFor target) target.id masters sel' net net') :
    Transferable slotOf source target masters fuel sel net' where
  sourceListed := h.sourceListed
  targetListed := h.targetListed
  targetID := (hh.ids _).trans h.targetID
  willing x hx hxa hxb s hs := hh.not_refuses hxa hxb (h.willing x hx hxa hxb s hs)
  rounds s hs := (hh.keysIn_length_le s).trans_lt (h.rounds s hs)

/-- Once the keys of the slot are across, nobody refuses. -/
theorem Transferable.not_refuses {s : Int} {net₁ : Net κ ν}
    (h : Transferable slotOf source target masters fuel [s] net)
    (hmarks : OnlyMarks masters s net net₁)
    (hship : Shipped (clientFor source) (clientFor target) (fun k => slotOf k = s) net₁ net')
    {x : String} (hx : x ∈ masters) : ¬ (net' x).refuses slotOf s target.id := by
  obtain ⟨st, hst⟩ := hship.views x
  have hid : (net' x).id = (net x).id := by rw [hst, ← hmarks.ids]
  have howner : (net' x).owner = (net x).owner := by rw [hst, ← hmarks.owner]
  rintro ⟨howns, hne, hkeys⟩
  by_cases hxa : x = clientFor source
  · exact hkeys (Server.keysIn_eq_nil.2 fun k hk => hxa ▸ hship.gone k hk)
  by_cases hxb : x = clientFor target
  · rw [hid, hxb, h.targetID] at hne
    exact hne rfl
  · refine h.willing x hx hxa hxb s (by simp) ⟨?_, hid ▸ hne, fun hnil => hkeys ?_⟩
    · rw [← howner, ← hid]
      exact howns
    · refine Server.keysIn_eq_nil.2 fun k hk => ?_
      rw [hship.others x hxa hxb, Server.get, hmarks.store]
      exact Server.keysIn_eq_nil.1 hnil k hk

/-- The keys get across, with the handshake or without it. -/
theorem shipped_runs (hab : clientFor source ≠ clientFor target) (hip : target.ip ≠ "")
    {s : Int} (h : Transferable slotOf source target masters fuel [s] net) :
    Ends slotOf texts (fun r net₂ => r = some (.ok ()) ∧ ∃ net₁, OnlyMarks masters s net net₁ ∧
      Shipped (clientFor source) (clientFor target) (fun k => slotOf k = s) net₁ net₂)
      (if (((net (clientFor source)).keysIn slotOf s).take 1).isEmpty then
        pure (some (.ok ())) else handOver fuel source target s) net := by
  split
  · next hempty =>
      have hnil : (net (clientFor source)).keysIn slotOf s = [] := by simpa using hempty
      exact Prog.runs_pure.2 ⟨rfl, net, .refl masters s net,
        .of_empty (Server.keysIn_eq_nil.1 hnil)⟩
  · refine ends_op_bind (ends_op_bind ?_)
    have hmarks := (OnlyMarks.setImporting h.targetListed s source.id net).trans
      (.setMigrating h.sourceListed s target.id _)
    refine (moveKeys_runs hab hip s fuel _ ?_).mono fun r net₂ hr => ⟨hr.1, _, hmarks, hr.2⟩
    have hrounds := h.rounds s (by simp)
    rwa [Server.keysIn, ← hmarks.store] at hrounds

theorem moveSlot_runs (hab : clientFor source ≠ clientFor target) (hip : target.ip ≠ "")
    {s : Int} (h : Transferable slotOf source target masters fuel [s] net) :
    Ends slotOf texts (fun r net' => r = some (.ok ()) ∧
      Handed slotOf (clientFor source) (clientFor target) target.id masters [s] net net')
      (moveSlot fuel source target masters s) net := by
  refine ends_op_bind ?_
  simp only [prompt, if_neg (show (1 : Nat) ≠ 0 by decide)]
  refine Prog.runs_bind.2 ((shipped_runs hab hip h).mono fun handed net₂ hh => ?_)
  obtain ⟨rfl, net₁, hmarks, hship⟩ := hh
  refine Prog.runs_bind.2 ((assignOwner_runs masters net₂ fun x hx =>
    h.not_refuses hmarks hship hx).mono fun r net₃ hr => ?_)
  obtain ⟨rfl, htold⟩ := hr
  exact Prog.runs_pure.2 ⟨rfl, .of_steps hmarks hship htold⟩

theorem moveEach_runs (hab : clientFor source ≠ clientFor target) (hip : target.ip ≠ "") :
    ∀ (slots : List Int) (moved : Nat) (net : Net κ ν),
      Transferable slotOf source target masters fuel slots net →
      Ends slotOf texts (fun r net' => r = some (moved + slots.length, none) ∧
        Handed slotOf (clientFor source) (clientFor target) target.id masters slots net net')
        (moveEach fuel source target masters slots moved) net := by
  intro slots
  induction slots with
  | nil => exact fun moved net _ => Prog.runs_pure.2 ⟨rfl, .nil net⟩
  | cons s slots ih =>
      intro moved net h
      have hone : Transferable slotOf source target masters fuel [s] net := h.mono (by simp)
      refine Prog.runs_bind.2 ((moveSlot_runs hab hip hone).mono fun r net₁ hr => ?_)
      obtain ⟨rfl, hh⟩ := hr
      have hrest : Transferable slotOf source target masters fuel slots net₁ :=
        (h.handed hh).mono fun s' hs' => by simp [hs']
      refine (ih (moved + 1) net₁ hrest).mono fun r net₂ hr => ?_
      refine ⟨?_, hh.trans hr.2⟩
      rw [hr.1, List.length_cons]
      congr 2
      omega

end

end

section

variable {slotOf : κ → Int} {texts : Texts κ ν} {net : Net κ ν} {fuel : Nat} {seed : Endpoint}
  {fromNodeID toNodeID : String} {n : Int} {nodes : List NodeInfo} {source target : NodeInfo}

theorem moveSlots_runs
    (hnodes : parseNodes (texts.nodes net (dialAddr seed.host seed.port)) = nodes)
    (hsource : nodeByID nodes fromNodeID = some source)
    (htarget : nodeByID nodes toNodeID = some target)
    (hab : clientFor source ≠ clientFor target) (hip : target.ip ≠ "")
    (h : Transferable slotOf source target (masterClients nodes) fuel (selected source n) net) :
    ∃ net', (moveSlots fuel seed fromNodeID toNodeID n).run (prompt slotOf texts) net =
        (some ((selected source n).length, none), net') ∧
      Handed slotOf (clientFor source) (clientFor target) target.id (masterClients nodes)
        (selected source n) net net' := by
  have hrun : Ends slotOf texts (fun r net' => r = some ((selected source n).length, none) ∧
      Handed slotOf (clientFor source) (clientFor target) target.id (masterClients nodes)
        (selected source n) net net') (moveSlots fuel seed fromNodeID toNodeID n) net := by
    rw [moveSlots]
    split
    · next hn =>
        have hnil : selected source n = [] := by simp [selected, Int.toNat_of_nonpos hn]
        rw [hnil]
        exact Prog.runs_pure.2 ⟨rfl, .nil net⟩
    · refine ends_op_bind ?_
      simp only [prompt, hnodes, hsource, htarget]
      rw [selectSlots_eq _ _ (Nat.zero_le _), List.nil_append]
      exact (moveEach_runs hab hip _ 0 net h).mono fun r net' hr => ⟨by simpa using hr.1, hr.2⟩
  obtain ⟨hend, -⟩ := Prog.runs_iff.1 hrun
  exact ⟨_, Prod.ext hend.1 rfl, hend.2⟩

/-- Whatever an earlier attempt has left, a `MoveSlots` whose commands are answered ends and
reports the slots it selected. On every listed master the target owns them and no marker of
theirs is left; their keys are with the target, the source's value first; and no other view,
marker or key has changed. -/
theorem moveSlots_answered
    (hnodes : parseNodes (texts.nodes net (dialAddr seed.host seed.port)) = nodes)
    (hsource : nodeByID nodes fromNodeID = some source)
    (htarget : nodeByID nodes toNodeID = some target)
    (hab : clientFor source ≠ clientFor target) (hip : target.ip ≠ "")
    (h : Transferable slotOf source target (masterClients nodes) fuel (selected source n) net) :
    ∃ net', (moveSlots fuel seed fromNodeID toNodeID n).run (prompt slotOf texts) net =
        (some ((selected source n).length, none), net') ∧
      (∀ x ∈ masterClients nodes, ∀ s ∈ selected source n,
        (net' x).owner s = some target.id ∧ ¬ (net' x).marked s) ∧
      (∀ k, slotOf k ∈ selected source n → (net' (clientFor source)).get k = none ∧
        (net' (clientFor target)).get k =
          ((net (clientFor source)).get k).or ((net (clientFor target)).get k)) ∧
      (∀ x s, ¬ (x ∈ masterClients nodes ∧ s ∈ selected source n) →
        SameView s (net x) (net' x)) ∧
      ∀ x k, (x = clientFor source ∨ x = clientFor target → slotOf k ∉ selected source n) →
        (net' x).get k = (net x).get k := by
  obtain ⟨net', hrun, hh⟩ := moveSlots_runs hnodes hsource htarget hab hip h
  refine ⟨net', hrun, fun x hx s hs => ?_, fun k hk => ?_, fun x s hxs => ?_, fun x k hx => ?_⟩
  · refine ⟨by rw [hh.owner, if_pos ⟨hx, hs⟩], ?_⟩
    simp [Server.marked, hh.migrating, hh.importing, hx, hs]
  · rw [hh.source, hh.target, if_pos hk, if_pos hk]
    exact ⟨rfl, rfl⟩
  · exact ⟨hh.ids x, by rw [hh.owner, if_neg hxs], by rw [hh.migrating, if_neg hxs],
      by rw [hh.importing, if_neg hxs]⟩
  · by_cases hxa : x = clientFor source
    · rw [hxa, hh.source, if_neg (hx (Or.inl hxa))]
    by_cases hxb : x = clientFor target
    · rw [hxb, hh.target, if_neg (hx (Or.inr hxb))]
    · exact hh.others x hxa hxb k

end

/-- What a broken attempt has left of one key: an old copy on the target, which imports. -/
def retryNet : Net Nat String :=
  (pairNet (AList.singleton 0 "new")).modify (clientFor pairB) fun v =>
    (v.setImporting 0 "a").put 0 "old"

theorem moveSlots_answered_retry :
    ∃ net', (moveSlots 2 pairSeed "a" "b" 1).run
        (prompt pairSlotOf (pairTexts pairLineA pairLineB)) retryNet = (some (1, none), net') ∧
      (net' (clientFor pairB)).get 0 = some "new" ∧ (net' (clientFor pairA)).get 0 = none ∧
      (net' (clientFor pairA)).owner 0 = some "b" := by
  have hsel : selected pairA 1 = [0] := by decide
  have hlisted : masterClients [pairA, pairB] = [clientFor pairA, clientFor pairB] := by decide
  have h : Transferable pairSlotOf pairA pairB (masterClients [pairA, pairB]) 2
      (selected pairA 1) retryNet := by
    rw [hsel, hlisted]
    refine ⟨by decide, by decide, by decide, fun x hx hxa hxb => ?_, by decide⟩
    rcases List.mem_pair.1 hx with h | h
    · exact absurd h hxa
    · exact absurd h hxb
  have hsource : nodeByID [pairA, pairB] "a" = some pairA := rfl
  have htarget : nodeByID [pairA, pairB] "b" = some pairB := rfl
  obtain ⟨net', hrun, htold, hkeys, -, -⟩ := moveSlots_answered
    (parseNodes_pair _ (dialAddr pairSeed.host pairSeed.port)) hsource htarget (by decide)
    (by decide) h
  refine ⟨net', hrun, ?_, (hkeys 0 (by decide)).1, (htold _ (by decide) 0 (by decide)).1⟩
  rw [(hkeys 0 (by decide)).2]
  decide

/-! ## Servers that stand for a ledger -/

section

variable {slotOf : κ → Int} {source target : NodeInfo} {masters : List String} {fuel : Nat}
  {sel : List Int} {l : Ledger κ ν} {net net' : Net κ ν}

/-- In a settled cluster nobody but the source holds keys of its slots. -/
theorem Settled.transferable (h : Settled slotOf masters l net)
    (hsource : clientFor source ∈ masters) (htarget : clientFor target ∈ masters)
    (hid : (net (clientFor target)).id = target.id)
    (hsel : ∀ s ∈ sel, l.owner s = some (net (clientFor source)).id)
    (hfuel : ∀ s ∈ sel, ((net (clientFor source)).keysIn slotOf s).length < fuel) :
    Transferable slotOf source target masters fuel sel net where
  sourceListed := hsource
  targetListed := htarget
  targetID := hid
  willing x hx hxa _ s hs := by
    rintro ⟨howns, -, -⟩
    rw [h.owner x hx, hsel s hs] at howns
    exact hxa (h.apart x hx _ hsource (Option.some.inj howns).symm)
  rounds := hfuel

/-- Handing slots over is a reassignment. -/
theorem Settled.handed (h : Settled slotOf masters l net) (hab : clientFor source ≠ clientFor target)
    (hsource : clientFor source ∈ masters) (htarget : clientFor target ∈ masters)
    (hid : (net (clientFor target)).id = target.id)
    (hsel : ∀ s ∈ sel, l.owner s = some (net (clientFor source)).id)
    (hh : Handed slotOf (clientFor source) (clientFor target) target.id masters sel net net') :
    Settled slotOf masters (l.reassign sel target.id) net' where
  apart x hx y hy heq := by
    rw [hh.ids, hh.ids] at heq
    exact h.apart x hx y hy heq
  owner x hx s := by
    rw [hh.owner, h.owner x hx]
    simp only [hx, true_and]
    rfl
  migrating x hx s := by
    rw [hh.migrating, h.migrating x hx, ite_self]
  importing x hx s := by
    rw [hh.importing, h.importing x hx, ite_self]
  data x hx k := by
    have hne : ∀ y ∈ masters, y ≠ clientFor target → target.id ≠ (net y).id := by
      intro y hy hyb heq
      exact hyb (h.apart y hy _ htarget (heq.symm.trans hid.symm))
    rw [hh.ids]
    by_cases hk : slotOf k ∈ sel
    · have hold := hsel _ hk
      have hnew : (l.reassign sel target.id).owner (slotOf k) = some target.id := if_pos hk
      rw [hnew]
      by_cases hxa : x = clientFor source
      · rw [hxa, hh.source, if_pos hk,
          if_neg fun heq => hne _ hsource hab (Option.some.inj heq)]
      by_cases hxb : x = clientFor target
      · rw [hxb, hh.target, if_pos hk, if_pos (by rw [hid]), h.data _ hsource, if_pos hold,
          h.data _ htarget, if_neg, Option.or_none]
        · rfl
        · rw [hold]
          exact fun heq => hab (h.apart _ hsource _ htarget (Option.some.inj heq))
      · rw [hh.others x hxa hxb, h.data x hx,
          if_neg fun heq => hne x hx hxb (Option.some.inj heq), if_neg]
        rw [hold]
        exact fun heq => hxa (h.apart _ hsource x hx (Option.some.inj heq)).symm
    · have hsame : (l.reassign sel target.id).owner (slotOf k) = l.owner (slotOf k) := if_neg hk
      have hget : (net' x).get k = (net x).get k := by
        by_cases hxa : x = clientFor source
        · rw [hxa, hh.source, if_neg hk]
        by_cases hxb : x = clientFor target
        · rw [hxb, hh.target, if_neg hk]
        · exact hh.others x hxa hxb k
      rw [hsame, hget]
      exact h.data x hx k

end

/-- On a settled cluster an undisturbed `MoveSlots` is a reassignment and nothing else: the
servers stand for the same data under the new arrangement, and a client that asks any master
for a key whose slot is served reads what it read before. -/
theorem moveSlots_invisible {slotOf : κ → Int} {texts : Texts κ ν} {net : Net κ ν} {fuel : Nat}
    {seed : Endpoint} {fromNodeID toNodeID : String} {n : Int} {nodes : List NodeInfo}
    {source target : NodeInfo} {l : Ledger κ ν} {addrOf : String → String}
    (h : Settled slotOf (masterClients nodes) l net)
    (hnodes : parseNodes (texts.nodes net (dialAddr seed.host seed.port)) = nodes)
    (hsource : nodeByID nodes fromNodeID = some source)
    (htarget : nodeByID nodes toNodeID = some target)
    (hab : clientFor source ≠ clientFor target) (hip : target.ip ≠ "")
    (hA : clientFor source ∈ masterClients nodes) (hB : clientFor target ∈ masterClients nodes)
    (hid : (net (clientFor target)).id = target.id)
    (hsel : ∀ s ∈ selected source n, l.owner s = some (net (clientFor source)).id)
    (hfuel : ∀ s ∈ selected source n, ((net (clientFor source)).keysIn slotOf s).length < fuel)
    (haddr : ∀ y ∈ masterClients nodes, addrOf (net y).id = y) :
    ∃ net', (moveSlots fuel seed fromNodeID toNodeID n).run (prompt slotOf texts) net =
        (some ((selected source n).length, none), net') ∧
      Settled slotOf (masterClients nodes) (l.reassign (selected source n) target.id) net' ∧
      ∀ k, ∀ y ∈ masterClients nodes, l.owner (slotOf k) = some (net y).id →
        ∀ x ∈ masterClients nodes, fetch slotOf addrOf net k 2 x false = some (l.data k) ∧
          fetch slotOf addrOf net' k 2 x false = some (l.data k) := by
  obtain ⟨net', hrun, hh⟩ := moveSlots_runs hnodes hsource htarget hab hip
    (h.transferable hA hB hid hsel hfuel)
  have hafter := h.handed hab hA hB hid hsel hh
  refine ⟨net', hrun, hafter, fun k y hy howner x hx => ⟨h.fetch haddr hy howner hx, ?_⟩⟩
  have haddr' : ∀ y ∈ masterClients nodes, addrOf (net' y).id = y := fun y hy => by
    rw [hh.ids]
    exact haddr y hy
  by_cases hk : slotOf k ∈ selected source n
  · refine hafter.fetch haddr' hB ?_ hx
    rw [hh.ids, hid]
    exact if_pos hk
  · refine hafter.fetch haddr' hy ?_ hx
    rw [hh.ids, ← howner]
    exact if_neg hk

/-- The key of slot 0 is read at either server, and the slot has moved. -/
theorem moveSlots_invisible_pair :
    ∃ net', (moveSlots 2 pairSeed "a" "b" 1).run
        (prompt pairSlotOf (pairTexts pairLineA pairLineB))
        (pairNet (AList.singleton 0 "x")) = (some (1, none), net') ∧
      (net' (clientFor pairA)).owner 0 = some "b" ∧
      fetch pairSlotOf pairAddr net' 0 2 (clientFor pairA) false = some (some "x") := by
  have hlisted : masterClients [pairA, pairB] = [clientFor pairA, clientFor pairB] := by decide
  have hsource : nodeByID [pairA, pairB] "a" = some pairA := rfl
  have htarget : nodeByID [pairA, pairB] "b" = some pairB := rfl
  have haddr : ∀ y ∈ masterClients [pairA, pairB],
      pairAddr (pairNet (AList.singleton 0 "x") y).id = y := by decide
  have hfuel : ∀ s ∈ selected pairA 1, ((pairNet (AList.singleton 0 "x")
      (clientFor pairA)).keysIn pairSlotOf s).length < 2 := by decide
  obtain ⟨net', hrun, hsettled, hread⟩ := moveSlots_invisible (hlisted ▸ settled_pair rfl)
    (parseNodes_pair _ (dialAddr pairSeed.host pairSeed.port)) hsource htarget (by decide)
    (by decide) (by decide) (by decide) (by decide) (by decide) hfuel haddr
  refine ⟨net', hrun, ?_, (hread 0 (clientFor pairA) (by decide) (by decide) _ (by decide)).2⟩
  rw [hsettled.owner _ (by decide)]
  decide

end Valkeyop.Cluster
