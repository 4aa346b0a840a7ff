import Valkeyop.Proofs.Halfway
import Valkeyop.Proofs.RepairRun

/-!
# A move that was cut short, and the repair after it

The operator moves slots in one pass and repairs what it finds half done in the next. This
file puts the two together: on a settled cluster, let `MoveSlots` stop at any point, by an
error or because the operator is gone, and let `RepairSlots` then run undisturbed. Every key
that was stored before is found by every client, under its value.

The repair decides by the seed's list who is to have the slot, the old owner or the new one,
and both decisions are right: while keys are on both sides nobody has been told of the new
owner, and once somebody has been told they are all on one side. Slots that show no marker are
left alone; then the two ends agree, and another master that does not know yet costs a client
one redirect more.
-/

namespace Valkeyop.Cluster

open Valkeyop.Lib Valkeyop.Lib.Text Prog

variable {κ ν : Type} [DecidableEq κ]

/-! ## Finding a key -/

section

variable {slotOf : κ → Int} {addrOf : String → String} {net : Net κ ν} {k : κ} {v : ν}

/-- Whoever owns the slot and has the key answers, in the middle of a move or not. -/
theorem fetch_found {y : String} (howns : (net y).owner (slotOf k) = some (net y).id)
    (hget : (net y).get k = some v) (hops : Nat) :
    fetch slotOf addrOf net k (hops + 1) y false = some (some v) := by
  have hreply : (net y).reply slotOf false k = (net y).holding k := by
    rw [Server.reply, if_pos howns, hget]
  rw [fetch_holding hreply, hget]

end

/-- The masters agree on who has the slot, and that one has its keys. -/
structure Answers (slotOf : κ → Int) (l : Ledger κ ν) (masters : List String) (s : Int) (y : String)
    (net : Net κ ν) : Prop where
  listed : y ∈ masters
  owner : ∀ x ∈ masters, (net x).owner s = some (net y).id
  data : ∀ k v, slotOf k = s → l.data k = some v → (net y).get k = some v

section

variable {slotOf : κ → Int} {l : Ledger κ ν} {masters : List String} {s : Int} {y : String}
  {net net' : Net κ ν}

theorem Answers.agree (h : Answers slotOf l masters s y net) (ha : Agree slotOf s net net') :
    Answers slotOf l masters s y net' where
  listed := h.listed
  owner x hx := by rw [(ha.view x).owner, (ha.view y).id, h.owner x hx]
  data k v hk hv := by rw [ha.keys y k hk, h.data k v hk hv]

theorem Answers.fetch {k : κ} (h : Answers slotOf l masters (slotOf k) y net)
    (hapart : ∀ x ∈ masters, (net x).id = (net y).id → x = y) {addrOf : String → String}
    (haddr : addrOf (net y).id = y) {v : ν} (hk : l.data k = some v) {x : String}
    (hx : x ∈ masters) : Cluster.fetch slotOf addrOf net k 3 x false = some (some v) := by
  have hfound : ∀ hops, Cluster.fetch slotOf addrOf net k (hops + 1) y false = some (some v) :=
    fetch_found (h.owner y h.listed) (h.data k v rfl hk)
  by_cases hid : (net x).id = (net y).id
  · rw [hapart x hx hid]
    exact hfound 2
  · rw [fetch_moved (h.owner x hx) fun heq => hid heq.symm, haddr]
    exact hfound 1

end

/-! ## What the owner gets -/

section

variable {slotOf : κ → Int} {owner : NodeInfo} {s : Int} {k : κ}

/-- The owner keeps what it has. -/
theorem gather_keep {fate : Rpc κ → Fate} {v : ν} :
    ∀ (rest : List NodeInfo) (net : Net κ ν),
      (∀ n ∈ rest, Stray owner n → clientFor n ≠ clientFor owner) →
      (net (clientFor owner)).get k = some v →
      (rest.foldl (gather slotOf fate owner s) net (clientFor owner)).get k = some v := by
  intro rest
  induction rest with
  | nil => exact fun _ _ h => h
  | cons n rest ih =>
      intro net hown hv
      refine ih _ (fun m hm => hown m (List.mem_cons_of_mem n hm)) ?_
      by_cases hn : Stray owner n
      · rw [(gather_left hn (hown n List.mem_cons_self hn) fun htried => ?_).2, hv]
        rw [htried.2.2] at hv
        cases hv
      · rwa [gather, if_neg hn]

/-- A key that only one stray has, and has listed with its other keys of the slot, goes to the
owner. -/
theorem gather_bring {v : ν} {n : NodeInfo} (hn : Stray owner n)
    (hne : clientFor n ≠ clientFor owner) (hk : slotOf k = s) :
    ∀ (rest : List NodeInfo) (net : Net κ ν), n ∈ rest → (rest.map clientFor).Nodup →
      (∀ m ∈ rest, Stray owner m → clientFor m ≠ clientFor owner) →
      (net (clientFor owner)).get k = none → (net (clientFor n)).get k = some v →
      ((net (clientFor n)).keysIn slotOf s).length ≤ 1000 →
      (∀ m ∈ rest, Stray owner m → clientFor m ≠ clientFor n → (net (clientFor m)).get k = none) →
      (rest.foldl (gather slotOf (fun _ => .answered) owner s) net (clientFor owner)).get k =
          some v ∧
        (rest.foldl (gather slotOf (fun _ => .answered) owner s) net (clientFor n)).get k =
          none := by
  intro rest
  induction rest with
  | nil => exact fun _ h => absurd h List.not_mem_nil
  | cons m rest ih =>
      intro net hmem hnodup hown hlacks hv hfew halone
      rw [List.map_cons, List.nodup_cons] at hnodup
      have hown' := fun m' hm' => hown m' (List.mem_cons_of_mem m hm')
      rw [List.foldl_cons]
      by_cases hmn : clientFor m = clientFor n
      · -- its own round; no later one is about the same server
        obtain rfl : n = m := by
          rcases List.mem_cons.1 hmem with h | h
          · exact h
          · exact absurd (hmn ▸ List.mem_map_of_mem h) hnodup.1
        have hlisted : k ∈ listed slotOf (fun _ => .answered) s (clientFor n) net := by
          rw [listed, if_pos rfl, List.take_of_length_le hfew, Server.mem_keysIn]
          exact ⟨by simp [hv], hk⟩
        have htried : Tried slotOf (fun _ => .answered) owner s net n k :=
          ⟨hlisted, by simp, hlacks⟩
        obtain ⟨hgone, hcame⟩ := gather_tried hn hne htried
        refine ⟨gather_keep rest _ hown' (hcame.trans hv), ?_⟩
        rw [gather_foldl_of_ne hne rest _ hnodup.1, hgone]
      · have hmem' : n ∈ rest := (List.mem_cons.1 hmem).resolve_left fun h => hmn (h ▸ rfl)
        have hsame : ∀ x, x ≠ clientFor m →
            (gather slotOf (fun _ => .answered) owner s net m x).get k = (net x).get k ∧
              (x ≠ clientFor owner → gather slotOf (fun _ => .answered) owner s net m x = net x) := by
          intro x hx
          refine ⟨?_, fun hxo => gather_of_ne hx hxo⟩
          by_cases hxo : x = clientFor owner
          · by_cases hms : Stray owner m
            · rw [hxo]
              refine (gather_left hms (hown m List.mem_cons_self hms) fun htried => ?_).2
              exact (Server.mem_keysIn.1 (mem_listed htried.1)).1
                (halone m List.mem_cons_self hms hmn)
            · rw [gather, if_neg hms]
          · rw [gather_of_ne hx hxo]
        have hnn := (hsame (clientFor n) (Ne.symm hmn)).2 hne
        refine ih _ hmem' hnodup.2 hown' ?_ (by rwa [hnn]) (by rwa [hnn]) fun m' hm' hms' hne' => ?_
        · by_cases hmo : clientFor owner = clientFor m
          · by_cases hms : Stray owner m
            · exact absurd hmo.symm (hown m List.mem_cons_self hms)
            · rwa [gather, if_neg hms]
          · rwa [(hsame _ hmo).1]
        · have hne'' : clientFor m' ≠ clientFor m := fun heq =>
            hnodup.1 (heq ▸ List.mem_map_of_mem hm')
          rw [(hsame _ hne'').1]
          exact halone m' (List.mem_cons_of_mem m hm') hms' hne'

end

/-! ## What the masters are told -/

section

variable {slotOf : κ → Int} {texts : Texts κ ν} {owner : NodeInfo} {s : Int}

variable (slotOf texts s) in
/-- `SETSLOT STABLE` and `SETSLOT NODE` on one master. -/
theorem assert_one (a id : String) (net : Net κ ν) :
    let net' := ((setSlotNode a s id).run (fated slotOf texts fun _ => .answered)
      ((setSlotStable a s).run (fated slotOf texts fun _ => .answered) net).2).2
    (∀ x, x ≠ a → net' x = net x) ∧
      (¬ (net a).refuses slotOf s id ∨ (net a).owner s = some id → (net' a).owner s = some id) := by
  intro net'
  have hnet : net' = (prompt slotOf texts (.setSlotNode a s id)
      (net.modify a (Server.setStable s))).2 := rfl
  have hrefuses : (net.modify a (Server.setStable s) a).refuses slotOf s id ↔
      (net a).refuses slotOf s id := by
    rw [Net.modify_self]
    rfl
  rw [hnet, prompt]
  split
  · next hno =>
      refine ⟨fun x hx => Net.modify_of_ne _ _ hx, fun h => ?_⟩
      rw [hrefuses] at hno
      have howner := h.resolve_left (not_not.2 hno)
      dsimp only
      rw [Net.modify_self]
      exact howner
  · dsimp only
    refine ⟨fun x hx => ?_, fun _ => ?_⟩
    · rw [Net.modify_of_ne _ _ hx, Net.modify_of_ne _ _ hx]
    · rw [Net.modify_self, Server.owner_setNode]

/-- Every master that does not refuse ends up with the owner. -/
theorem assertOwner_told {x : String} :
    ∀ (rest : List NodeInfo) (net : Net κ ν),
      (x ∈ masterClients rest ∧ ¬ (net x).refuses slotOf s owner.id ∨
        (net x).owner s = some owner.id) →
      (((assertOwner owner s rest).run (fated slotOf texts fun _ => .answered) net).2 x).owner s =
        some owner.id := by
  intro rest
  induction rest with
  | nil => exact fun _ h => h.resolve_left fun hx => absurd hx.1 List.not_mem_nil
  | cons n rest ih =>
      intro net h
      rw [assertOwner]
      split
      · next hn =>
          rw [Prog.run_bind, Prog.run_bind]
          obtain ⟨hothers, hself⟩ := assert_one slotOf texts s (clientFor n) owner.id net
          refine ih _ ?_
          by_cases hx : x = clientFor n
          · subst hx
            exact .inr (hself (h.imp_left And.right))
          · rw [hothers x hx]
            refine h.imp_left fun hx' => ⟨?_, hx'.2⟩
            have hmem : x = clientFor n ∨ x ∈ masterClients rest := by
              simpa [masterClients, hn] using hx'.1
            exact hmem.resolve_left hx
      · next hn =>
          refine ih net (h.imp_left fun hx => ⟨?_, hx.2⟩)
          simpa [masterClients, hn] using hx.1

/-- One round of the repair, by what it did to the keys. -/
theorem answers_round {l : Ledger κ ν} {nodes : List NodeInfo} {net : Net κ ν}
    (ho : ownerOf nodes s = some owner) (hip : owner.ip ≠ "")
    (hlisted : clientFor owner ∈ masterClients nodes)
    (hid : (net (clientFor owner)).id = owner.id)
    (hdata : ∀ k v, slotOf k = s → l.data k = some v →
      (nodes.foldl (gather slotOf (fun _ => .answered) owner s) net (clientFor owner)).get k =
        some v)
    (hwilling : ∀ x ∈ masterClients nodes,
      ¬ (nodes.foldl (gather slotOf (fun _ => .answered) owner s) net x).refuses slotOf s
        owner.id) :
    Answers slotOf l (masterClients nodes) s (clientFor owner)
      (repairRound slotOf texts (fun _ => .answered) nodes net s) := by
  have hids : ∀ x, (repairRound slotOf texts (fun _ => .answered) nodes net s x).id = (net x).id :=
    (repairRound_cleared s net).id
  refine ⟨hlisted, fun x hx => ?_, fun k v hk hv => ?_⟩
  · rw [hids, hid, repairRound_of_owner ho hip]
    exact assertOwner_told nodes _ (.inl ⟨hx, hwilling x hx⟩)
  · rw [repairRound_of_owner ho hip, Server.get, assertOwner_run_store]
    exact hdata k v hk hv

end

/-! ## A slot that is open -/

/-- The keys of the slot are at its owner and at one other node, and nobody stands in the way of
telling the masters the owner: whoever has the slot by its own account is that other node, and
will have nothing left of it. -/
structure Mendable (slotOf : κ → Int) (l : Ledger κ ν) (nodes : List NodeInfo) (s : Int)
    (owner other : NodeInfo) (net : Net κ ν) : Prop where
  own : ∀ k, slotOf k = s →
    (net (clientFor owner)).get k = l.data k ∨ (net (clientFor owner)).get k = none
  lent : ∀ k, slotOf k = s →
    (net (clientFor other)).get k = l.data k ∨ (net (clientFor other)).get k = none
  either : ∀ k, slotOf k = s → l.data k ≠ none →
    (net (clientFor owner)).get k ≠ none ∨ (net (clientFor other)).get k ≠ none
  others : ∀ m ∈ nodes, Stray owner m → clientFor m ≠ clientFor other →
    ∀ k, slotOf k = s → (net (clientFor m)).get k = none
  few : ((net (clientFor other)).keysIn slotOf s).length ≤ 1000
  willing : ∀ x ∈ masterClients nodes, ¬ (net x).refuses slotOf s owner.id ∨
    x = clientFor other ∧ ∀ k, slotOf k = s → (net (clientFor owner)).get k = none

section

variable {slotOf : κ → Int} {texts : Texts κ ν} {l : Ledger κ ν} {nodes : List NodeInfo} {s : Int}
  {owner other : NodeInfo} {net : Net κ ν}

/-- The primaries of the list are where they are said to be. -/
def Named (nodes : List NodeInfo) (net : Net κ ν) : Prop :=
  ∀ n ∈ nodes, n.isPrimary = true → (net (clientFor n)).id = n.id ∧ n.ip ≠ ""

omit [DecidableEq κ] in
theorem mem_masterClients {x : String} :
    x ∈ masterClients nodes ↔ ∃ n ∈ nodes, n.isPrimary = true ∧ clientFor n = x := by
  simp [masterClients, and_assoc]

theorem Mendable.answers (h : Mendable slotOf l nodes s owner other net)
    (hnodup : (nodes.map clientFor).Nodup) (hnamed : Named nodes net)
    (ho : ownerOf nodes s = some owner) (hprimary : owner.isPrimary = true) (hother : other ∈ nodes)
    (hstray : Stray owner other) :
    Answers slotOf l (masterClients nodes) s (clientFor owner)
      (repairRound slotOf texts (fun _ => .answered) nodes net s) := by
  have homem := ownerOf_mem ho
  obtain ⟨hid, hip⟩ := hnamed owner homem hprimary
  have hown := Stray.clientFor_ne hnodup homem
  have hbring : ∀ k v, slotOf k = s → (net (clientFor owner)).get k = none →
      (net (clientFor other)).get k = some v → _ := fun k v hk hlacks hv =>
    gather_bring hstray (hown other hother hstray) hk nodes net hother hnodup hown hlacks hv h.few
      fun m hm hms hne => h.others m hm hms hne k hk
  refine answers_round ho hip (mem_masterClients.2 ⟨owner, homem, hprimary, rfl⟩) hid
    (fun k v hk hv => ?_) fun x hx hrefuses => ?_
  · rcases h.own k hk with hheld | hlacks
    · exact gather_keep nodes net hown (hheld.trans hv)
    · have hlent := (h.either k hk (by simp [hv])).resolve_left (not_not.2 hlacks)
      exact (hbring k v hk hlacks (((h.lent k hk).resolve_right hlent).trans hv)).1
  · obtain ⟨m, hm, hmp, rfl⟩ := mem_masterClients.1 hx
    obtain ⟨howns, hne, hkeys⟩ := hrefuses
    obtain ⟨st, hst⟩ := gather_sameViews nodes net (clientFor m)
    rw [hst] at howns hne
    have hms : Stray owner m :=
      ⟨fun heq => hne (heq ▸ (hnamed m hm hmp).1.symm), (hnamed m hm hmp).2, hmp⟩
    obtain ⟨k, hk⟩ := List.exists_mem_of_ne_nil _ hkeys
    obtain ⟨hget, hks⟩ := Server.mem_keysIn.1 hk
    have hbefore := (gather_all_conserved k hown nodes net fun _ h => h).back m hm hms hget
    rcases h.willing _ hx with hwilling | ⟨heq, hempty⟩
    · exact hwilling ⟨howns, hne, List.ne_nil_of_mem (Server.mem_keysIn.2 ⟨hbefore, hks⟩)⟩
    · obtain ⟨v, hv⟩ := Option.ne_none_iff_exists'.1 hbefore
      rw [heq] at hget hv
      exact hget (hbring k v hks (hempty k hks) hv).2

end

/-! ## The stages of a move -/

/-- A route between two nodes of a list. -/
structure Route.Joins (r : Route) (nodes : List NodeInfo) (a b : NodeInfo) : Prop where
  masters : r.masters = masterClients nodes
  source : r.source = clientFor a
  sourceID : r.sourceID = a.id
  target : r.target = clientFor b
  targetID : r.targetID = b.id

section

variable {slotOf : κ → Int} {l : Ledger κ ν} {r : Route} {nodes : List NodeInfo} {a b : NodeInfo}
  {s : Int} {net : Net κ ν}

omit [DecidableEq κ] in
/-- A node has the slot by its own account only if it is the one it names. -/
theorem not_refuses_of_owner {v : Server κ ν} {id : String} (h : v.owner s = some id) :
    ¬ v.refuses slotOf s id :=
  fun hrefuses => hrefuses.2.1 (Option.some.inj (h.symm.trans hrefuses.1))

theorem Spread.strays (h : Spread slotOf l r s net) (hj : r.Joins nodes a b) {m : NodeInfo}
    (hm : m ∈ nodes) (hmp : m.isPrimary = true) (hma : clientFor m ≠ clientFor a)
    (hmb : clientFor m ≠ clientFor b) {k : κ} (hk : slotOf k = s) :
    (net (clientFor m)).get k = none :=
  h.others _ (hj.masters ▸ mem_masterClients.2 ⟨m, hm, hmp, rfl⟩) (hj.source ▸ hma)
    (hj.target ▸ hmb) k hk

/-- While keys are on their way everybody names the source, and it gets them back. -/
theorem Copying.mendable (h : Copying slotOf l r s net) (hj : r.Joins nodes a b)
    (hown : ∀ m ∈ nodes, Stray a m → clientFor m ≠ clientFor a)
    (hfew : ((net r.target).keysIn slotOf s).length ≤ 1000) :
    Mendable slotOf l nodes s a b net where
  own := hj.source ▸ h.spread.source
  lent := hj.target ▸ h.spread.target
  either := hj.source ▸ hj.target ▸ h.spread.either
  others m hm hms hmb _ hk := h.spread.strays hj hm hms.2.2 (hown m hm hms) hmb hk
  few := hj.target ▸ hfew
  willing x hx := by
    left
    rw [← hj.sourceID]
    exact not_refuses_of_owner (h.owner x (.inr (hj.masters ▸ hx)))

/-- Afterwards they go back as well, if the seed has not heard of the target. -/
theorem Telling.mendable_source (h : Telling slotOf l r s net) (hj : r.Joins nodes a b)
    (hfits : r.Fits net) (hown : ∀ m ∈ nodes, Stray a m → clientFor m ≠ clientFor a)
    (hfew : ((net r.target).keysIn slotOf s).length ≤ 1000) :
    Mendable slotOf l nodes s a b net where
  own := hj.source ▸ h.spread.source
  lent := hj.target ▸ h.spread.target
  either := hj.source ▸ hj.target ▸ h.spread.either
  others m hm hms hmb _ hk := h.spread.strays hj hm hms.2.2 (hown m hm hms) hmb hk
  few := hj.target ▸ hfew
  willing x hx := by
    have hx' : x ∈ r.masters := hj.masters ▸ hx
    rcases h.owner x (.inr hx') with hsource | htarget
    · left
      rw [← hj.sourceID]
      exact not_refuses_of_owner hsource
    · by_cases hxt : x = r.target
      · exact .inr ⟨hxt.trans hj.target, hj.source ▸ h.across⟩
      · left
        rintro ⟨howns, -, -⟩
        rw [htarget] at howns
        exact hxt ((hfits.targetID x hx').1 (Option.some.inj howns).symm)

/-- And they stay, if it has. -/
theorem Telling.mendable_target (h : Telling slotOf l r s net) (hj : r.Joins nodes a b)
    (hfits : r.Fits net) (hown : ∀ m ∈ nodes, Stray b m → clientFor m ≠ clientFor b) :
    Mendable slotOf l nodes s b a net where
  own := hj.target ▸ h.spread.target
  lent := hj.source ▸ h.spread.source
  either k hk hdata := hj.source ▸ hj.target ▸ (h.spread.either k hk hdata).symm
  others m hm hms hma _ hk := h.spread.strays hj hm hms.2.2 hma (hown m hm hms) hk
  few := by
    rw [← hj.source, Server.keysIn_eq_nil.2 h.across]
    simp
  willing x hx := by
    left
    have hx' : x ∈ r.masters := hj.masters ▸ hx
    rcases h.owner x (.inr hx') with hsource | htarget
    · rintro ⟨howns, -, hkeys⟩
      rw [hsource] at howns
      rw [(hfits.sourceID x hx').1 (Option.some.inj howns).symm] at hkeys
      exact hkeys (Server.keysIn_eq_nil.2 h.across)
    · rw [← hj.targetID]
      exact not_refuses_of_owner htarget

/-- A slot that nothing has happened to is answered for. -/
theorem Still.answers (h : Still slotOf l r s net) {y : String} (hy : y ∈ r.masters)
    (howner : l.owner s = some (net y).id) : Answers slotOf l r.masters s y net where
  listed := hy
  owner x hx := (h.owner x (.inr hx)).trans howner
  data k v hk hv := by rw [h.data y hy k hk, if_pos howner, hv]

/-- So is one whose keys have not left. -/
theorem Copying.answers (h : Copying slotOf l r s net) (hfits : r.Fits net)
    (hall : ∀ k, slotOf k = s → (net r.source).get k = l.data k) :
    Answers slotOf l r.masters s r.source net where
  listed := hfits.source
  owner x hx := by rw [h.owner x (.inr hx), (hfits.sourceID _ hfits.source).2 rfl]
  data k v hk hv := (hall k hk).trans hv

/-- Once both ends have been told, whoever has not been told sends a client to the source. -/
theorem Telling.fetch {k : κ} {v : ν} (h : Telling slotOf l r (slotOf k) net) (hfits : r.Fits net)
    (hsource : (net r.source).owner (slotOf k) = some r.targetID)
    (htarget : (net r.target).owner (slotOf k) = some r.targetID) {addrOf : String → String}
    (haddr : ∀ y ∈ r.masters, addrOf (net y).id = y) (hk : l.data k = some v) {x : String}
    (hx : x ∈ r.masters) : Cluster.fetch slotOf addrOf net k 3 x false = some (some v) := by
  have hsid := (hfits.sourceID _ hfits.source).2 rfl
  have htid := (hfits.targetID _ hfits.target).2 rfl
  have hheld : (net r.target).get k = some v := by
    have hne := (h.spread.either k rfl (by simp [hk])).resolve_left (not_not.2 (h.across k rfl))
    exact ((h.spread.target k rfl).resolve_right hne).trans hk
  have hfound : ∀ hops, Cluster.fetch slotOf addrOf net k (hops + 1) r.target false =
      some (some v) := fetch_found (htid ▸ htarget) hheld
  have hsent : ∀ hops y, y ∈ r.masters → (net y).owner (slotOf k) = some r.targetID →
      Cluster.fetch slotOf addrOf net k (hops + 2) y false = some (some v) := by
    intro hops y hy howner
    by_cases hyt : y = r.target
    · exact hyt ▸ hfound (hops + 1)
    · rw [fetch_moved howner fun heq => hyt ((hfits.targetID y hy).1 heq.symm), ← htid,
        haddr _ hfits.target]
      exact hfound hops
  rcases h.owner x (.inr hx) with howner | howner
  · have hxs : x ≠ r.source := by
      rintro rfl
      have hids : r.sourceID = r.targetID := Option.some.inj (howner.symm.trans hsource)
      exact hfits.apart ((hfits.targetID _ hfits.source).1 (hsid.trans hids))
    rw [fetch_moved howner fun heq => hxs ((hfits.sourceID x hx).1 heq.symm), ← hsid,
      haddr _ hfits.source]
    exact hsent 0 _ hfits.source hsource
  · exact hsent 1 x hx howner

end

/-! ## All rounds -/

section

variable {slotOf : κ → Int} {texts : Texts κ ν} {nodes : List NodeInfo} {s : Int}

/-- The rounds of other slots do not matter. -/
theorem agree_repairRounds (hnodup : (nodes.map clientFor).Nodup) {slots : List Int}
    (hs : s ∉ slots) (net : Net κ ν) :
    Agree slotOf s net (slots.foldl (repairRound slotOf texts (fun _ => .answered) nodes) net) := by
  have hc : Cleared _ net (slots.foldl (repairRound slotOf texts (fun _ => .answered) nodes) net) :=
    repairRounds_cleared slots net
  refine ⟨fun x => ?_, sameSlot_repairRounds hnodup slots net hs⟩
  obtain ⟨hm, hi, ho⟩ := hc.kept x s fun h => hs h.1
  exact ⟨hc.id x, ho, hm, hi⟩

/-- So that a slot's own round decides. -/
theorem answers_repairRounds {l : Ledger κ ν} {masters : List String} {y : String}
    (hnodup : (nodes.map clientFor).Nodup) {slots : List Int} (hslots : slots.Nodup)
    (hs : s ∈ slots) {net : Net κ ν}
    (hround : ∀ net', Agree slotOf s net net' → Answers slotOf l masters s y
      (repairRound slotOf texts (fun _ => .answered) nodes net' s)) :
    Answers slotOf l masters s y
      (slots.foldl (repairRound slotOf texts (fun _ => .answered) nodes) net) := by
  obtain ⟨before, later, rfl⟩ := List.append_of_mem hs
  obtain ⟨hbefore, hlater⟩ : s ∉ before ∧ s ∉ later := by
    rw [List.nodup_append, List.nodup_cons] at hslots
    exact ⟨fun h => hslots.2.2 s h s List.mem_cons_self rfl, hslots.2.1.1⟩
  rw [List.foldl_append, List.foldl_cons]
  exact (hround _ (agree_repairRounds hnodup hbefore net)).agree
    (agree_repairRounds hnodup hlater _)

end

/-! ## The move and the repair -/

/-- A cluster in order, as the operator sees it through the seed. -/
structure Intact (slotOf : κ → Int) (p : Printer κ ν) (seed : Endpoint) (nodes : List NodeInfo)
    (l : Ledger κ ν) (net : Net κ ν) : Prop where
  listing : parseNodes (p.texts.nodes net (dialAddr seed.host seed.port)) = nodes
  legible : p.Legible seed net
  settled : Settled slotOf (masterClients nodes) l net
  /-- The seed agrees with the masters, whether it is one of them or not. -/
  seedOwner : ∀ s, (net (p.home (dialAddr seed.host seed.port))).owner s = l.owner s
  unmarked : ∀ x, Reachable p.texts (fun _ => .answered) seed net x → ∀ s, ¬ (net x).marked s
  reachable : ∀ x ∈ masterClients nodes, Reachable p.texts (fun _ => .answered) seed net x
  named : Named nodes net
  addresses : (nodes.map clientFor).Nodup
  ids : (nodes.map (·.id)).Nodup

section

variable {slotOf : κ → Int} {p : Printer κ ν} {seed : Endpoint} {nodes : List NodeInfo}
  {l : Ledger κ ν} {net₀ net : Net κ ν} {source target : NodeInfo}

omit [DecidableEq κ] in
theorem Printer.Sound.id_noSpace {x : String} (h : p.Sound net x) {n : NodeInfo}
    (hn : n ∈ parseNodes (p.texts.nodes net x)) : ∀ c ∈ n.id.toList, isSpace c = false := by
  rw [h.parsed, List.mem_map] at hn
  obtain ⟨line, hline, rfl⟩ := hn
  rw [NodeInfo.id_withSlots]
  simp only [NodeLine.decoded]
  exact ((h.lines line hline).head line.id (by simp [NodeLine.head])).1.2

/-- No two primaries answer to one name. -/
theorem Intact.id_iff (h : Intact slotOf p seed nodes l net) {n : NodeInfo} (hn : n ∈ nodes)
    {x : String} (hx : x ∈ masterClients nodes) : (net x).id = n.id ↔ x = clientFor n := by
  obtain ⟨m, hm, hmp, rfl⟩ := mem_masterClients.1 hx
  rw [(h.named m hm hmp).1]
  constructor
  · exact fun heq => congrArg clientFor (List.inj_on_of_nodup_map h.ids hm hn heq)
  · exact fun heq => congrArg NodeInfo.id (List.inj_on_of_nodup_map h.addresses hm hn heq)

variable (hsource : source ∈ nodes) (htarget : target ∈ nodes) (hsp : source.isPrimary = true)
  (htp : target.isPrimary = true) (hne : source.id ≠ target.id)

include hsource htarget hsp htp hne in
theorem Intact.fits (h : Intact slotOf p seed nodes l net) (z : String) :
    (routeOf nodes source target z).Fits net where
  source := mem_masterClients.2 ⟨source, hsource, hsp, rfl⟩
  target := mem_masterClients.2 ⟨target, htarget, htp, rfl⟩
  apart heq := hne (congrArg NodeInfo.id
    (List.inj_on_of_nodup_map h.addresses hsource htarget heq))
  sourceID _ hx := h.id_iff hsource hx
  targetID _ hx := h.id_iff htarget hx

/-- A move that has not begun. -/
theorem Intact.halfway (h : Intact slotOf p seed nodes l net) :
    Halfway slotOf l (routeOf nodes source target (p.home (dialAddr seed.host seed.port))) net
      net where
  ids _ := rfl
  traced _ _ _ hid := .inl hid
  stage s := by
    refine .inr (.inl ⟨fun x hx => ?_, fun x hx => ?_, fun x hx k hk => ?_⟩)
    · rcases hx with rfl | hx
      · exact h.seedOwner s
      · exact h.settled.owner x hx s
    · rw [Server.marked, h.settled.migrating x hx, h.settled.importing x hx]
      simp
    · rw [h.settled.data x hx, hk]

/-- The slots that are selected are the source's. -/
theorem Intact.selected (h : Intact slotOf p seed nodes l net) (hsource : source ∈ nodes) {n s : Int}
    (hs : s ∈ selected source n) : l.owner s = some source.id := by
  have hslots := h.legible.atSeed.listed.2 source (h.listing ▸ hsource)
  have hmem := List.mem_of_mem_take hs
  rw [hslots, Server.slotsOf, List.mem_filter, decide_eq_true_iff] at hmem
  rw [← h.seedOwner]
  exact hmem.2

/-- Where the move has stopped, every page can still be read. -/
theorem Intact.legible_stop {z : String} (h : Intact slotOf p seed nodes l net₀)
    (hsource : source ∈ nodes) (htarget : target ∈ nodes)
    (hstop : Halfway slotOf l (routeOf nodes source target z) net₀ net) :
    p.Legible seed net ∧ ∀ x, Reachable p.texts (fun _ => .answered) seed net x ↔
      Reachable p.texts (fun _ => .answered) seed net₀ x := by
  refine h.legible.of_marks hstop.ids fun x s id hid => ?_
  refine (hstop.traced x s id hid).imp_right fun hset => ?_
  rcases hset.2 with rfl | rfl
  · exact h.legible.atSeed.id_noSpace (h.listing ▸ hsource)
  · exact h.legible.atSeed.id_noSpace (h.listing ▸ htarget)

/-- A list of the same nodes with other slots. -/
structure Relisted (nodes nodes' : List NodeInfo) : Prop where
  clients : nodes'.map clientFor = nodes.map clientFor
  masters : masterClients nodes' = masterClients nodes
  there : ∀ n ∈ nodes, ∃ n' ∈ nodes', n' = n.withSlots n'.slots
  back : ∀ n' ∈ nodes', ∃ n ∈ nodes, n' = n.withSlots n'.slots

theorem Intact.relisted (h : Intact slotOf p seed nodes l net₀) (h' : p.Legible seed net) :
    Relisted nodes (parseNodes (p.texts.nodes net (dialAddr seed.host seed.port))) where
  clients := by rw [← h.listing, h'.atSeed.clients_eq, h.legible.atSeed.clients_eq]
  masters := by rw [← h.listing, h'.atSeed.masterClients_eq, h.legible.atSeed.masterClients_eq]
  there n hn := by
    obtain ⟨n', hn', heq⟩ := h'.atSeed.relisted h.legible.atSeed (h.listing ▸ hn)
    refine ⟨n', hn', ?_⟩
    rw [heq, NodeInfo.withSlots_withSlots, NodeInfo.withSlots_self]
  back n' hn' := by
    obtain ⟨n, hn, heq⟩ := h.legible.atSeed.relisted h'.atSeed hn'
    exact ⟨n, h.listing ▸ hn, heq⟩

/-- A slot that the repair finds open ends up with the node the seed names, if it can be mended
that way. -/
theorem Intact.mended {a b : NodeInfo} {s : Int} {order : List Int → List Int}
    (h : Intact slotOf p seed nodes l net₀) (h' : p.Legible seed net)
    (hids : ∀ x, (net x).id = (net₀ x).id) (horder : ∀ l, (order l).Perm l) (ha : a ∈ nodes)
    (hap : a.isPrimary = true) (hb : b ∈ nodes) (hbp : b.isPrimary = true) (hab : a.id ≠ b.id)
    (hs : s ∈ allSlots)
    (hopen : ∃ x, Reachable p.texts (fun _ => .answered) seed net x ∧ (net x).marked s)
    (howner : (net (p.home (dialAddr seed.host seed.port))).owner s = some a.id)
    (hmend : ∀ net' : Net κ ν, Agree slotOf s net net' → ∀ slots slots',
      Mendable slotOf l (parseNodes (p.texts.nodes net (dialAddr seed.host seed.port))) s
        (a.withSlots slots) (b.withSlots slots') net') :
    Answers slotOf l (masterClients nodes) s (clientFor a) (sweep slotOf p order seed net) := by
  have hre : Relisted nodes _ := h.relisted h'
  have hnodup := hre.clients ▸ h.addresses
  obtain ⟨a', ha', haeq⟩ := hre.there a ha
  obtain ⟨b', hb', hbeq⟩ := hre.there b hb
  obtain ⟨o, ho, hoid⟩ := h'.atSeed.ownerOf_some hs ha' (by rw [howner, haeq, NodeInfo.id_withSlots])
  -- the owner that is found is the node of that name
  have hoeq : o = a.withSlots o.slots := by
    obtain ⟨m, hm, hmeq⟩ := hre.back o (ownerOf_mem ho)
    have hmid : m.id = a.id := by
      rw [hmeq, haeq, NodeInfo.id_withSlots, NodeInfo.id_withSlots] at hoid
      exact hoid
    rwa [List.inj_on_of_nodup_map h.ids hm ha hmid] at hmeq
  have hround : ∀ net', Agree slotOf s net net' → Answers slotOf l
      (masterClients (parseNodes (p.texts.nodes net (dialAddr seed.host seed.port)))) s
      (clientFor o) (repairRound slotOf p.texts (fun _ => .answered)
        (parseNodes (p.texts.nodes net (dialAddr seed.host seed.port))) net' s) := by
    intro net' hagree
    have hnamed : Named (parseNodes (p.texts.nodes net (dialAddr seed.host seed.port))) net' := by
      intro n' hn' hp
      obtain ⟨n, hn, heq⟩ := hre.back n' hn'
      rw [heq, NodeInfo.isPrimary_withSlots] at hp
      rw [heq, clientFor_withSlots, NodeInfo.id_withSlots, NodeInfo.ip_withSlots,
        (hagree.view _).id, hids]
      exact h.named n hn hp
    have hmendable := hmend net' hagree o.slots b'.slots
    rw [← hoeq, ← hbeq] at hmendable
    refine hmendable.answers hnodup hnamed ho ?_ hb' ?_
    · rw [hoeq, NodeInfo.isPrimary_withSlots, hap]
    · rw [hoeq, hbeq]
      exact ⟨hab.symm, (h.named b hb hbp).2, hbp⟩
  rw [← hre.masters, sweep, repairSlots_run rfl rfl]
  have hclient : clientFor a = clientFor o := by rw [hoeq, clientFor_withSlots]
  rw [hclient]
  refine answers_repairRounds hnodup (collectOpenSlots_nodup horder _ net) ?_ hround
  obtain ⟨x, hx, hmarked⟩ := hopen
  exact (h'.mem_open horder).2 ⟨x, hx, hs, hmarked⟩

/-- Slots that are not seen open are left as they are. -/
theorem Intact.agree_sweep {s : Int} {order : List Int → List Int}
    (h : Intact slotOf p seed nodes l net₀) (h' : p.Legible seed net)
    (horder : ∀ l, (order l).Perm l)
    (hopen : ¬ ∃ x, Reachable p.texts (fun _ => .answered) seed net x ∧ (net x).marked s) :
    Agree slotOf s net (sweep slotOf p order seed net) := by
  have hre : Relisted nodes _ := h.relisted h'
  rw [sweep, repairSlots_run rfl rfl]
  refine agree_repairRounds (hre.clients ▸ h.addresses) (fun hmem => hopen ?_) net
  obtain ⟨x, hx, -, hmarked⟩ := (h'.mem_open horder).1 hmem
  exact ⟨x, hx, hmarked⟩

/-- The target never has more keys of a slot than the source had. -/
theorem Intact.few {s : Int} {net' : Net κ ν} {z : String} (h : Intact slotOf p seed nodes l net₀)
    (hsource : source ∈ nodes) (hsp : source.isPrimary = true)
    (hspread : Spread slotOf l (routeOf nodes source target z) s net')
    (hgiven : l.owner s = some source.id) :
    ((net' (clientFor target)).keysIn slotOf s).length ≤
      ((net₀ (clientFor source)).keysIn slotOf s).length := by
  refine Server.keysIn_length_mono fun k hk hget => ?_
  have hdata := (hspread.target k hk).resolve_right hget
  rw [h.settled.data _ (mem_masterClients.2 ⟨source, hsource, hsp, rfl⟩), hk, hgiven,
    (h.named source hsource hsp).1, if_pos rfl, ← hdata]
  exact hget

/-- A marker that is seen was set by the move. -/
theorem Intact.traced {s : Int} {z x : String} (h : Intact slotOf p seed nodes l net₀)
    (hstop : Halfway slotOf l (routeOf nodes source target z) net₀ net)
    (hx : Reachable p.texts (fun _ => .answered) seed net₀ x) (hmarked : (net x).marked s) :
    x = clientFor source ∨ x = clientFor target := by
  have hid : ∃ id, (net x).migrating s = some id ∨ (net x).importing s = some id := by
    simpa only [Server.marked, Option.isSome_iff_exists, ← exists_or] using hmarked
  obtain ⟨id, hid⟩ := hid
  rcases hstop.traced x s id hid with hbefore | hset
  · refine absurd ?_ (h.unmarked x hx s)
    simp only [Server.marked, Option.isSome_iff_exists]
    exact hbefore.imp (fun h => ⟨id, h⟩) fun h => ⟨id, h⟩
  · exact hset.1

/-- A slot that is found open is answered for afterwards. -/
theorem Intact.answers_open {order : List Int → List Int} {s : Int}
    (h : Intact slotOf p seed nodes l net₀) (hsource : source ∈ nodes) (htarget : target ∈ nodes)
    (hsp : source.isPrimary = true) (htp : target.isPrimary = true) (hne : source.id ≠ target.id)
    (hfew : ∀ s, ((net₀ (clientFor source)).keysIn slotOf s).length ≤ 1000)
    (hstop : Halfway slotOf l
      (routeOf nodes source target (p.home (dialAddr seed.host seed.port))) net₀ net)
    (horder : ∀ l, (order l).Perm l) (hs : s ∈ allSlots) (hkeys : ¬ Bare slotOf l s)
    (hopen : ∃ x, Reachable p.texts (fun _ => .answered) seed net x ∧ (net x).marked s) :
    ∃ y, Answers slotOf l (masterClients nodes) s y (sweep slotOf p order seed net) := by
  obtain ⟨h', hreach⟩ := h.legible_stop hsource htarget hstop
  have hfits := (h.fits hsource htarget hsp htp hne
    (p.home (dialAddr seed.host seed.port))).of_ids hstop.ids
  have hre : Relisted nodes _ := h.relisted h'
  have hjoins : ∀ slots slots', (routeOf nodes source target
      (p.home (dialAddr seed.host seed.port))).Joins
      (parseNodes (p.texts.nodes net (dialAddr seed.host seed.port)))
      (source.withSlots slots) (target.withSlots slots') := fun slots slots' =>
    ⟨hre.masters.symm, rfl, rfl, rfl, rfl⟩
  have hown : ∀ a ∈ nodes, ∀ slots, ∀ m ∈ parseNodes (p.texts.nodes net
      (dialAddr seed.host seed.port)), Stray (a.withSlots slots) m →
      clientFor m ≠ clientFor (a.withSlots slots) := by
    intro a ha slots m hm hstray heq
    obtain ⟨m₀, hm₀, hmeq⟩ := hre.back m hm
    rw [hmeq, clientFor_withSlots, clientFor_withSlots] at heq
    refine hstray.1 ?_
    rw [hmeq, NodeInfo.id_withSlots, NodeInfo.id_withSlots,
      List.inj_on_of_nodup_map h.addresses hm₀ ha heq]
  have hagreed : ∀ {net'}, Agree slotOf s net net' → ∀ x, (net' x).id = (net x).id :=
    fun hagree x => (hagree.view x).id
  rcases hstop.stage s with hbare | hstill | hcopy | htell
  · exact absurd hbare hkeys
  · -- nothing would have been seen
    obtain ⟨x, hx, hmarked⟩ := hopen
    rcases h.traced hstop ((hreach x).1 hx) hmarked with rfl | rfl
    · exact absurd hmarked (hstill.unmarked _ hfits.source)
    · exact absurd hmarked (hstill.unmarked _ hfits.target)
  · refine ⟨_, h.mended h' hstop.ids horder hsource hsp htarget htp hne hs hopen
      (hcopy.owner _ (.inl rfl)) fun net' hagree slots slots' => ?_⟩
    have hcopy' := hcopy.agree hagree
    exact hcopy'.mendable (hjoins slots slots') (hown source hsource slots)
      ((h.few hsource hsp hcopy'.spread hcopy.given).trans (hfew s))
  · rcases htell.owner _ (.inl rfl) with howner | howner
    · refine ⟨_, h.mended h' hstop.ids horder hsource hsp htarget htp hne hs hopen howner
        fun net' hagree slots slots' => ?_⟩
      have htell' := htell.agree hagree
      exact htell'.mendable_source (hjoins slots slots') (hfits.of_ids (hagreed hagree))
        (hown source hsource slots)
        ((h.few hsource hsp htell'.spread htell.given).trans (hfew s))
    · refine ⟨_, h.mended h' hstop.ids horder htarget htp hsource hsp hne.symm hs hopen howner
        fun net' hagree slots slots' => ?_⟩
      exact (htell.agree hagree).mendable_target (hjoins slots' slots)
        (hfits.of_ids (hagreed hagree)) (hown target htarget slots)

/-- Whatever stage a slot with keys was left at, the repair makes its keys known again. -/
theorem Intact.recovers {order : List Int → List Int} (h : Intact slotOf p seed nodes l net₀)
    (hsource : source ∈ nodes) (htarget : target ∈ nodes) (hsp : source.isPrimary = true)
    (htp : target.isPrimary = true) (hne : source.id ≠ target.id)
    (hfew : ∀ s, ((net₀ (clientFor source)).keysIn slotOf s).length ≤ 1000)
    (hstop : Halfway slotOf l
      (routeOf nodes source target (p.home (dialAddr seed.host seed.port))) net₀ net)
    (horder : ∀ l, (order l).Perm l) {addrOf : String → String}
    (haddr : ∀ y ∈ masterClients nodes, addrOf (net₀ y).id = y) {k : κ} {v : ν}
    (hs : slotOf k ∈ allSlots) {y : String} (hy : y ∈ masterClients nodes)
    (howner : l.owner (slotOf k) = some (net₀ y).id) (hk : l.data k = some v) {x : String}
    (hx : x ∈ masterClients nodes) :
    fetch slotOf addrOf (sweep slotOf p order seed net) k 3 x false = some (some v) := by
  obtain ⟨h', hreach⟩ := h.legible_stop hsource htarget hstop
  have hfits₀ := h.fits hsource htarget hsp htp hne (p.home (dialAddr seed.host seed.port))
  have hfits := hfits₀.of_ids hstop.ids
  have hids : ∀ x, (sweep slotOf p order seed net x).id = (net₀ x).id := fun x =>
    ((sweep_cleared horder h').id x).trans (hstop.ids x)
  have hre : Relisted nodes _ := h.relisted h'
  -- all that is left to show is who has the slot
  have hanswers : ∀ {y}, Answers slotOf l (masterClients nodes) (slotOf k) y
      (sweep slotOf p order seed net) →
      fetch slotOf addrOf (sweep slotOf p order seed net) k 3 x false = some (some v) := by
    intro y hanswers
    refine hanswers.fetch (fun x hx hid => ?_) ?_ hk hx
    · rw [hids, hids] at hid
      exact h.settled.apart x hx y hanswers.listed hid
    · rw [hids, haddr y hanswers.listed]
  have hmasters : ∀ x ∈ masterClients nodes, (net x).marked (slotOf k) →
      ∃ x, Reachable p.texts (fun _ => .answered) seed net x ∧ (net x).marked (slotOf k) :=
    fun x hx hmarked => ⟨x, (hreach x).2 (h.reachable x hx), hmarked⟩
  have hsmem := hfits.source
  have htmem := hfits.target
  by_cases hopen : ∃ x, Reachable p.texts (fun _ => .answered) seed net x ∧
      (net x).marked (slotOf k)
  · have hkeys : ¬ Bare slotOf l (slotOf k) := fun hbare => by
      rw [hbare k rfl] at hk
      cases hk
    obtain ⟨y, hy⟩ := h.answers_open hsource htarget hsp htp hne hfew hstop horder hs hkeys hopen
    exact hanswers hy
  · have hagree : Agree slotOf (slotOf k) net (sweep slotOf p order seed net) :=
      h.agree_sweep h' horder hopen
    rcases hstop.stage (slotOf k) with hbare | hstill | hcopy | htell
    · rw [hbare k rfl] at hk
      cases hk
    · exact hanswers ((hstill.answers hy (by rw [howner, hstop.ids])).agree hagree)
    · refine hanswers ((hcopy.answers hfits (hcopy.marks.resolve_right fun hm => ?_)).agree hagree)
      exact hopen (hmasters _ hsmem hm.1)
    · have htell' := htell.agree hagree
      have hsource' := htell.source.resolve_left fun hm => hopen (hmasters _ hsmem hm)
      have htarget' := htell.target.resolve_left fun hm => hopen (hmasters _ htmem hm)
      refine htell'.fetch (hfits₀.of_ids hids) ?_ ?_ (fun y hy => ?_) hk hx
      · rw [(hagree.view _).owner, hsource']
      · rw [(hagree.view _).owner, htarget']
      · rw [hids, haddr y hy]

/-- On an intact cluster, let `MoveSlots` be stopped anywhere: by an error, by a command whose
fate is unknown, or because the operator is gone. After one undisturbed `RepairSlots` every key
that a master held before is found, under its value, by a client that asks any master, after two
redirects at most. The source must not have had more keys of a slot than the repair lists. -/
theorem moveSlots_crash_repaired {fuel : Nat} {fromNodeID toNodeID : String} {n : Int}
    {q : RpcProg κ (Option (Nat × Option String))} {order : List Int → List Int}
    (h : Intact slotOf p seed nodes l net₀) (hsource : nodeByID nodes fromNodeID = some source)
    (htarget : nodeByID nodes toNodeID = some target) (hsp : source.isPrimary = true)
    (htp : target.isPrimary = true) (hne : fromNodeID ≠ toNodeID)
    (hfew : ∀ s, ((net₀ (clientFor source)).keysIn slotOf s).length ≤ 1000)
    (hslots : ∀ k, slotOf k ∈ allSlots) {addrOf : String → String}
    (haddr : ∀ y ∈ masterClients nodes, addrOf (net₀ y).id = y)
    (hrun : Reaches Quiet (Valkey slotOf p.texts) (moveSlots fuel seed fromNodeID toNodeID n, net₀)
      (q, net)) (horder : ∀ l, (order l).Perm l) {k : κ} {v : ν} {y : String}
    (hy : y ∈ masterClients nodes) (hk : (net₀ y).get k = some v) {x : String}
    (hx : x ∈ masterClients nodes) :
    fetch slotOf addrOf (sweep slotOf p order seed net) k 3 x false = some (some v) := by
  have hnode : ∀ {id : String} {m : NodeInfo}, nodeByID nodes id = some m → m ∈ nodes ∧ m.id = id :=
    fun hm => ⟨List.mem_reverse.1 (List.mem_of_find?_eq_some hm), by simpa using List.find?_some hm⟩
  obtain ⟨hsmem, rfl⟩ := hnode hsource
  obtain ⟨htmem, rfl⟩ := hnode htarget
  have hstop := moveSlots_halfway h.listing hsource htarget (h.fits hsmem htmem hsp htp hne _)
    (fun s hs => h.selected hsmem hs) h.halfway hrun
  have hdata := h.settled.data y hy k
  rw [hk] at hdata
  split at hdata
  · next howner =>
      exact h.recovers hsmem htmem hsp htp hne hfew hstop horder haddr (hslots k) hy howner
        hdata.symm hx
  · cases hdata

end

/-- Two slots for all keys. -/
def parity (k : Nat) : Int := (k % 2 : Nat)

/-- The first server of the smallest cluster as `pairPrinter` lists it, with some slots. -/
def printedA (slots : List SlotRange) : NodeInfo :=
  ⟨"a", "10.0.0.1", "10.0.0.1", 6379, ["master"], "", slots, true⟩

def printedB (slots : List SlotRange) : NodeInfo :=
  ⟨"b", "10.0.0.2", "10.0.0.2", 6379, ["master"], "", slots, true⟩

theorem pairPrinter_nodes {net : Net Nat String} {x : String} (h : pairPrinter.Sound net x) :
    ∃ slots slots', parseNodes (pairPrinter.texts.nodes net x) =
      [printedA slots, printedB slots'] := by
  obtain ⟨slots, hparsed⟩ : ∃ slots : NodeLine → List SlotRange,
      parseNodes (pairPrinter.texts.nodes net x) =
        (pairPrinter.roster x).map fun n => n.decoded.withSlots (slots n) := ⟨_, h.parsed⟩
  have hdecoded : [(⟨"a", "10.0.0.1:6379@16379", ["master"], none, "0", "0", "1", "connected", []⟩ :
      NodeLine), ⟨"b", "10.0.0.2:6379@16379", ["master"], none, "0", "0", "2", "connected", []⟩].map
      NodeLine.decoded = [printedA [], printedB []] := by decide +kernel
  simp only [List.map_cons, List.map_nil, List.cons.injEq, and_true] at hdecoded
  simp only [pairPrinter, List.map_cons, List.map_nil, hdecoded.1, hdecoded.2] at hparsed
  exact ⟨_, _, hparsed⟩

theorem clientFor_printed (slots : List SlotRange) :
    clientFor (printedA slots) = "10.0.0.1:6379" ∧ clientFor (printedB slots) = "10.0.0.2:6379" := by
  have hclients : clientFor (printedA []) = "10.0.0.1:6379" ∧
      clientFor (printedB []) = "10.0.0.2:6379" := by decide
  exact hclients

/-- It is in order while the first server has the only key. -/
theorem intact_pair : ∃ slots slots', Intact parity pairPrinter pairSeed
      [printedA slots, printedB slots'] pairLedger (pairNet (AList.singleton 0 "x")) ∧
    masterClients [printedA slots, printedB slots'] = ["10.0.0.1:6379", "10.0.0.2:6379"] := by
  have hsound : ∀ x, x = "10.0.0.1:6379" ∨ x = "10.0.0.2:6379" →
      pairPrinter.Sound (pairNet (AList.singleton 0 "x")) x := by
    rintro x (rfl | rfl)
    · exact pairPrinter_sound (.inl (by decide)) fun _ _ h => by simp [pairNet] at h
    · exact pairPrinter_sound (.inr (by decide)) fun _ _ h => by simp [pairNet] at h
  have hseed : dialAddr pairSeed.host pairSeed.port = "10.0.0.1:6379" := by decide
  have hatSeed := hsound _ (.inl hseed)
  obtain ⟨slots, slots', hnodes⟩ := pairPrinter_nodes hatSeed
  have hmasters : masterClients [printedA slots, printedB slots'] =
      ["10.0.0.1:6379", "10.0.0.2:6379"] := by
    rw [← (clientFor_printed slots).1, ← (clientFor_printed slots').2]
    rfl
  have hreach : ∀ x, Reachable pairPrinter.texts (fun _ => .answered) pairSeed
      (pairNet (AList.singleton 0 "x")) x ↔ x = "10.0.0.1:6379" ∨ x = "10.0.0.2:6379" := by
    intro x
    simp only [Reachable, hnodes, List.mem_cons, List.not_mem_nil, or_false, exists_eq_or_imp,
      exists_eq_left, clientFor_printed]
    simp [printedA, printedB, NodeInfo.hasFlag, eq_comm]
  refine ⟨slots, slots', ⟨hnodes, ⟨fun _ _ => hatSeed.more, hatSeed,
    fun x hx => hsound x ((hreach x).1 hx), fun _ _ => rfl⟩, ?_, fun _ => rfl,
    fun x _ s => by simp [Server.marked, pairNet], fun x hx => ?_, ?_, ?_, ?_⟩, hmasters⟩
  · rw [hmasters]
    exact settled_pair rfl
  · rw [hmasters] at hx
    exact (hreach x).2 (by simpa using hx)
  · intro n hn _
    simp only [List.mem_cons, List.not_mem_nil, or_false] at hn
    rcases hn with rfl | rfl
    · rw [(clientFor_printed slots).1]
      exact ⟨rfl, by simp [printedA]⟩
    · rw [(clientFor_printed slots').2]
      exact ⟨rfl, by simp [printedB]⟩
  · simp [clientFor_printed]
  · simp [printedA, printedB]

/-- The operator is gone after the `MIGRATE`: the key is where nobody has been told it is. -/
theorem moveSlots_crash_repaired_pair :
    fetch parity pairAddr (sweep parity pairPrinter id pairSeed
      ((moveSlots 2 pairSeed "a" "b" 1).after (fated parity pairPrinter.texts fun _ => .answered) 6
        (pairNet (AList.singleton 0 "x"))).2) 0 3 "10.0.0.2:6379" false = some (some "x") := by
  obtain ⟨slots, slots', hintact, hmasters⟩ := intact_pair
  have hrun := reaches_after (E := Quiet) (fun c net => fated_valkey parity pairPrinter.texts
    (fun _ => .answered) c net) 6 (moveSlots 2 pairSeed "a" "b" 1)
    (pairNet (AList.singleton 0 "x"))
  generalize (moveSlots 2 pairSeed "a" "b" 1).after (fated parity pairPrinter.texts
    fun _ => .answered) 6 (pairNet (AList.singleton 0 "x")) = stop at hrun ⊢
  obtain ⟨q, net⟩ := stop
  have hsource : nodeByID [printedA slots, printedB slots'] "a" = some (printedA slots) := rfl
  have htarget : nodeByID [printedA slots, printedB slots'] "b" = some (printedB slots') := rfl
  have hfew : ∀ s, ((pairNet (AList.singleton 0 "x") (clientFor (printedA slots))).keysIn
      parity s).length ≤ 1000 := by
    intro s
    refine (Server.keysIn_length_le parity _ s).trans ?_
    rw [(clientFor_printed slots).1]
    decide
  have hslots : ∀ k, parity k ∈ allSlots := fun k => mem_allSlots.2 (by
    simp only [parity, totalSlots]
    omega)
  have haddr : ∀ y ∈ masterClients [printedA slots, printedB slots'],
      pairAddr (pairNet (AList.singleton 0 "x") y).id = y := by
    rw [hmasters]
    decide
  have hheld : (pairNet (AList.singleton 0 "x") "10.0.0.1:6379").get 0 = some "x" := by decide
  exact moveSlots_crash_repaired hintact hsource htarget rfl rfl (by decide) hfew hslots haddr hrun
    (fun l => .refl l) (hmasters ▸ by simp) hheld (hmasters ▸ by simp)

end Valkeyop.Cluster
