import Mathlib.Data.Set.Basic
import Valkeyop.Cluster.Admin
import Valkeyop.Proofs.NodeLines

/-!
# Whom a command goes to

`MoveSlots` and `RepairSlots` dial the nodes they find in `CLUSTER NODES`. The address
of a node is cut at its first colon, so that of an IPv6 node is lost. A slot is given
away by a `SETSLOT NODE` to every primary, and a node without a master is taken for
one, though it may be a replica that does not know its master yet.
-/

namespace Valkeyop.Cluster

open Valkeyop.Lib Valkeyop.Lib.Text

/-! ## Addresses -/

/-- The address of a node as a server writes it; a node without a hostname has no comma. -/
def nodeAddr (ip : String) (port cport : Nat) (hostname : String) : String :=
  ip ++ ":" ++ toString port ++ "@" ++ toString cport ++
    if hostname = "" then "" else "," ++ hostname

/-- An IP without a colon is read back, and the port as far as an `int` goes. -/
theorem parseAddr_nodeAddr {ip : String} (hip : ',' ∉ ip.toList ∧ '@' ∉ ip.toList)
    (hcolon : ':' ∉ ip.toList) (port cport : Nat) (hostname : String) :
    parseAddr (nodeAddr ip port cport hostname) = (ip, min maxInt port, hostname) := by
  have hat : '@' ∉ (ip ++ ":" ++ toString port).toList := by
    intro hmem
    simp only [String.toList_append, List.mem_append] at hmem
    rcases hmem with (hmem | hmem) | hmem
    · exact hip.2 hmem
    · exact absurd hmem (by decide)
    · exact not_mem_toString (by decide) hmem
  have hcomma : ',' ∉ (ip ++ ":" ++ toString port ++ "@" ++ toString cport).toList := by
    intro hmem
    simp only [String.toList_append, List.mem_append] at hmem
    rcases hmem with (((hmem | hmem) | hmem) | hmem) | hmem
    · exact hip.1 hmem
    · exact absurd hmem (by decide)
    · exact not_mem_toString (by decide) hmem
    · exact absurd hmem (by decide)
    · exact not_mem_toString (by decide) hmem
  have hcut : (cut ',' (nodeAddr ip port cport hostname)).getD
      (nodeAddr ip port cport hostname, "") =
      (ip ++ ":" ++ toString port ++ "@" ++ toString cport, hostname) := by
    unfold nodeAddr
    split
    · next hnone => rw [hnone, String.append_empty, cut_eq_none hcomma, Option.getD_none]
    · rw [← String.append_assoc]
      exact congrArg (Option.getD · _) (cut_append hcomma)
  have hcut' : cut '@' (ip ++ ":" ++ toString port ++ "@" ++ toString cport) =
      some (ip ++ ":" ++ toString port, toString cport) := cut_append hat
  have hcut'' : cut ':' (ip ++ ":" ++ toString port) = some (ip, toString port) :=
    cut_append hcolon
  simp only [parseAddr, hcut, hcut', hcut'', Option.map_some, Option.getD_some,
    atoiValue_toString]

/-- No address that is read has a colon. -/
theorem colon_not_mem_parseAddr (s : String) : ':' ∉ (parseAddr s).1.toList := by
  unfold parseAddr
  generalize (cut ',' s).getD (s, "") = named
  obtain ⟨text, hostname⟩ := named
  simp only []
  generalize ((cut '@' text).map Prod.fst).getD text = addr
  have hcut := not_mem_fst_cut ':' addr
  generalize (cut ':' addr).getD (addr, "") = parts at hcut ⊢
  exact hcut

theorem parseNode_addr (id addr : String) {rest : List String} (hrest : 6 ≤ rest.length) :
    ∃ info, parseNode (id :: addr :: rest) = some info ∧ info.ip = (parseAddr addr).1 ∧
      info.port = (parseAddr addr).2.1 ∧
      info.host = if (parseAddr addr).2.2 = "" then (parseAddr addr).1
        else (parseAddr addr).2.2 := by
  rcases rest with _ | ⟨flags, _ | ⟨master, _ | ⟨ping, _ | ⟨pong, _ | ⟨epoch, _ | ⟨link, toks⟩⟩⟩⟩⟩⟩
  · simp at hrest
  · simp at hrest
  · simp at hrest
  · simp at hrest
  · simp at hrest
  · simp at hrest
  · simp only [parseNode]
    generalize parseAddr addr = parts
    obtain ⟨ip, port, hostname⟩ := parts
    exact ⟨_, rfl, rfl, rfl, rfl⟩

theorem parseNodes_line {line : String} (hline : '\n' ∉ line.toList) :
    parseNodes line = (parseNode (fields line)).toList := by
  have hnodes := parseNodes_intercalate (List.forall_mem_singleton.2 hline) (by simp)
  rw [String.intercalate_singleton, List.filterMap_cons, List.filterMap_nil] at hnodes
  rw [hnodes]
  cases parseNode (fields line) with
  | none => rfl
  | some info => rfl

/-- The address of a node is read back, and dialled, exactly when its IP has no colon and its
port fits an `int`, as every port does. -/
theorem addr_decoded_iff (line id ip hostname : String) (port cport : Nat)
    (rest : List String) (hline : '\n' ∉ line.toList)
    (hfields : fields line = id :: nodeAddr ip port cport hostname :: rest)
    (hrest : 6 ≤ rest.length) (hip : ',' ∉ ip.toList ∧ '@' ∉ ip.toList) :
    (∃ info, parseNodes line = [info] ∧ info.ip = ip ∧ info.port = port ∧
      info.host = (if hostname = "" then ip else hostname) ∧
      clientFor info = dialAddr (if ip = "" then hostname else ip) port) ↔
    ':' ∉ ip.toList ∧ (port : Int) ≤ maxInt := by
  obtain ⟨info, hinfo, hreadip, hreadport, hreadhost⟩ :=
    parseNode_addr id (nodeAddr ip port cport hostname) hrest
  have hnodes : parseNodes line = [info] := by
    rw [parseNodes_line hline, hfields, hinfo]
    rfl
  constructor
  · intro ⟨info', hinfo', hip', hport', _⟩
    rw [hnodes, List.singleton_inj] at hinfo'
    subst hinfo'
    have hcolon : ':' ∉ ip.toList := by
      rw [← hip', hreadip]
      exact colon_not_mem_parseAddr _
    rw [hport', parseAddr_nodeAddr hip hcolon] at hreadport
    exact ⟨hcolon, hreadport ▸ min_le_left ..⟩
  · intro ⟨hcolon, hfits⟩
    rw [parseAddr_nodeAddr hip hcolon, min_eq_right hfits] at hreadip hreadport hreadhost
    refine ⟨info, hnodes, hreadip, hreadport, hreadhost, ?_⟩
    rw [clientFor, hreadip, hreadport, hreadhost]
    by_cases hnone : ip = ""
    · by_cases hname : hostname = ""
      · simp [hnone, hname]
      · simp [hnone, hname]
    · simp [hnone]

theorem addr_decoded_ipv4 :
    ∃ info, parseNodes "a1 10.0.0.1:6379@16379,pod-0 master - 0 0 1 connected 0-16383" = [info] ∧
      info.ip = "10.0.0.1" ∧ info.port = 6379 ∧ info.host = "pod-0" ∧
      clientFor info = "10.0.0.1:6379" := by
  obtain ⟨info, hinfo, hip, hport, hhost, hclient⟩ :=
    (addr_decoded_iff "a1 10.0.0.1:6379@16379,pod-0 master - 0 0 1 connected 0-16383"
      "a1" "10.0.0.1" "pod-0" 6379 16379 ["master", "-", "0", "0", "1", "connected", "0-16383"]
      (not_mem_literal (by decide)) (by decide +kernel) (by decide)
      ⟨not_mem_literal (by decide), not_mem_literal (by decide)⟩).2
      ⟨not_mem_literal (by decide), by decide⟩
  exact ⟨info, hinfo, hip, hport, hhost, hclient⟩

/-- The address ends at the first colon, and the port is lost with the rest. -/
theorem ipv6_addr_lost :
    (parseNodes "a1 2001:db8::1:6379@16379 master - 0 0 1 connected").map
      (fun info => (info.ip, info.port)) = [("2001", 0)] ∧
    nodeAddr "2001:db8::1" 6379 16379 "" = "2001:db8::1:6379@16379" := by
  decide +kernel

/-! ## Giving a slot away -/

section

variable {κ S α β : Type} {h : Handler (Rpc κ) Rpc.Reply S} {s : S}

/-- The addresses a run sends a `SETSLOT NODE` for the slot to. -/
def nodeRecipients (h : Handler (Rpc κ) Rpc.Reply S) (p : RpcProg κ α) (s : S) (slot : Int) :
    Set String :=
  {x | ∃ owner t, (Rpc.setSlotNode x slot owner, t) ∈ p.trace h s}

theorem nodeRecipients_bind (p : RpcProg κ α) (f : α → RpcProg κ β) (slot : Int) :
    nodeRecipients h (p >>= f) s slot = nodeRecipients h p s slot ∪
      nodeRecipients h (f (p.run h s).1) (p.run h s).2 slot := by
  ext x
  simp only [nodeRecipients, Prog.trace_bind, List.mem_append, Set.mem_ofPred_eq, Set.mem_union,
    exists_or]

/-- A `SETSLOT NODE` goes to one of these. -/
def NodeOnlyTo (cls : List String) : Rpc κ → Prop
  | .setSlotNode x _ _ => x ∈ cls
  | _ => True

theorem nodeRecipients_subset {cls : List String} {p : RpcProg κ α} (hp : p.Only (NodeOnlyTo cls))
    (slot : Int) : nodeRecipients h p s slot ⊆ {x | x ∈ cls} := by
  intro x hx
  obtain ⟨owner, t, hmem⟩ := hx
  exact hp.mem_trace _ hmem

theorem nodeRecipients_eq_empty {p : RpcProg κ α} (hp : p.Only (NodeOnlyTo [])) (slot : Int) :
    nodeRecipients h p s slot = ∅ := by
  refine Set.eq_empty_of_forall_notMem fun x hx => ?_
  exact List.not_mem_nil (nodeRecipients_subset hp slot hx)

theorem nodeRecipients_clusterNodes (x : String) (slot : Int) :
    nodeRecipients h (clusterNodes x) s slot = ∅ := by
  have honly : (clusterNodes x : RpcProg κ _).Only (NodeOnlyTo []) := Prog.only_op.2 trivial
  exact nodeRecipients_eq_empty honly slot

/-! ### Moving -/

section

variable {cls : List String} {source target : NodeInfo} {fuel : Nat}

theorem only_assignOwner {all : List String} (id : String) (slot : Int)
    (hcls : ∀ x ∈ cls, x ∈ all) :
    (assignOwner id slot cls : RpcProg κ _).Only (NodeOnlyTo all) := by
  induction cls with
  | nil => exact Prog.only_pure _
  | cons x cls ih =>
      refine Prog.Only.bind (Prog.only_op.2 (hcls x (by simp))) fun r => ?_
      cases r with
      | error e => exact Prog.only_pure _
      | ok u => exact ih fun y hy => hcls y (by simp [hy])

theorem only_moveKeys (slot : Int) :
    (moveKeys source target slot fuel : RpcProg κ _).Only (NodeOnlyTo cls) := by
  induction fuel with
  | zero => exact Prog.only_pure _
  | succ fuel ih =>
      refine Prog.Only.bind (Prog.only_op.2 trivial) fun r => ?_
      rcases r with e | _ | ⟨k, ks⟩
      · exact Prog.only_pure _
      · exact Prog.only_pure _
      · refine Prog.Only.bind (Prog.only_op.2 trivial) fun r => ?_
        cases r with
        | error e => exact Prog.only_pure _
        | ok u => exact ih

theorem only_handOver (slot : Int) :
    (handOver fuel source target slot : RpcProg κ _).Only (NodeOnlyTo cls) := by
  refine Prog.Only.bind (Prog.only_op.2 trivial) fun r => ?_
  cases r with
  | error e => exact Prog.only_pure _
  | ok u =>
      refine Prog.Only.bind (Prog.only_op.2 trivial) fun r => ?_
      cases r with
      | error e => exact Prog.only_pure _
      | ok u => exact only_moveKeys slot

theorem only_moveSlot (slot : Int) :
    (moveSlot fuel source target cls slot : RpcProg κ _).Only (NodeOnlyTo cls) := by
  refine Prog.Only.bind (Prog.only_op.2 trivial) fun r => ?_
  cases r with
  | error e => exact Prog.only_pure _
  | ok probe =>
      refine Prog.Only.bind ?_ fun handed => ?_
      · split
        · exact Prog.only_pure _
        · exact only_handOver slot
      rcases handed with _ | e | u
      · exact Prog.only_pure _
      · exact Prog.only_pure _
      · refine Prog.Only.bind (only_assignOwner _ slot fun x hx => hx) fun r => ?_
        cases r with
        | error e => exact Prog.only_pure _
        | ok u => exact Prog.only_pure _

theorem only_moveEach (slots : List Int) (moved : Nat) :
    (moveEach fuel source target cls slots moved : RpcProg κ _).Only (NodeOnlyTo cls) := by
  induction slots generalizing moved with
  | nil => exact Prog.only_pure _
  | cons slot slots ih =>
      refine Prog.Only.bind (only_moveSlot slot) fun r => ?_
      rcases r with _ | e | u
      · exact Prog.only_pure _
      · exact Prog.only_pure _
      · exact ih (moved + 1)

/-- An assignment that went through reached everybody. -/
theorem assignOwner_recipients {id : String} {slot : Int}
    (hok : ((assignOwner id slot cls).run h s).1 = .ok ()) :
    {x | x ∈ cls} ⊆ nodeRecipients h (assignOwner id slot cls) s slot := by
  induction cls generalizing s with
  | nil => intro x hx; cases hx
  | cons y cls ih =>
      intro x hx
      rw [assignOwner, Prog.run_bind] at hok
      rw [assignOwner, nodeRecipients_bind]
      rcases List.mem_cons.1 hx with rfl | hx
      · exact Or.inl ⟨id, s, List.mem_singleton_self _⟩
      · refine Or.inr ?_
        revert hok
        cases ((setSlotNode y slot id : RpcProg κ _).run h s).1 with
        | error e => exact nofun
        | ok u => exact fun hok => ih hok hx

theorem moveSlot_recipients {slot : Int}
    (hok : ((moveSlot fuel source target cls slot).run h s).1 = some (.ok ())) :
    {x | x ∈ cls} ⊆ nodeRecipients h (moveSlot fuel source target cls slot) s slot := by
  rw [moveSlot, Prog.run_bind] at hok
  rw [moveSlot, nodeRecipients_bind]
  refine Set.subset_union_of_subset_right ?_ _
  revert hok
  cases ((getKeysInSlot (clientFor source) slot 1 : RpcProg κ _).run h s).1 with
  | error e => exact nofun
  | ok probe =>
      simp only []
      rw [Prog.run_bind, nodeRecipients_bind]
      generalize Prog.run h (if probe.isEmpty = true then _ else _) _ = handed
      obtain ⟨handed, s₁⟩ := handed
      intro hok
      refine Set.subset_union_of_subset_right ?_ _
      revert hok
      rcases handed with _ | e | u
      · exact nofun
      · exact nofun
      · simp only []
        rw [Prog.run_bind, nodeRecipients_bind]
        intro hok
        refine Set.subset_union_of_subset_left (assignOwner_recipients ?_) _
        revert hok
        cases ((assignOwner target.id slot cls).run h s₁).1 with
        | error e => exact nofun
        | ok u => exact fun _ => rfl

/-- Every slot that is counted was given away on all of them. -/
theorem moveEach_recipients {slots : List Int} {moved moved' : Nat} {e : Option String}
    (hrun : ((moveEach fuel source target cls slots moved).run h s).1 = some (moved', e))
    {slot : Int} (hslot : slot ∈ slots.take (moved' - moved)) :
    {x | x ∈ cls} ⊆ nodeRecipients h (moveEach fuel source target cls slots moved) s slot := by
  induction slots generalizing s moved with
  | nil => rw [List.take_nil] at hslot; cases hslot
  | cons y slots ih =>
      rw [moveEach, Prog.run_bind] at hrun
      rw [moveEach, nodeRecipients_bind]
      cases hr : ((moveSlot fuel source target cls y).run h s).1 with
      | none => rw [hr] at hrun; cases hrun
      | some r =>
          cases r with
          | error e' =>
              rw [hr] at hrun
              cases hrun
              rw [Nat.sub_self, List.take_zero] at hslot
              cases hslot
          | ok u =>
              rw [hr] at hrun
              cases hcount : moved' - moved with
              | zero => rw [hcount] at hslot; cases hslot
              | succ k =>
                  rw [hcount, List.take_succ_cons] at hslot
                  rcases List.mem_cons.1 hslot with rfl | hslot
                  · exact Set.subset_union_of_subset_left (moveSlot_recipients hr) _
                  · have hk : k = moved' - (moved + 1) := by omega
                    exact Set.subset_union_of_subset_right (ih hrun (hk ▸ hslot)) _

end

/-! ### Repairing -/

section

variable {nodes : List NodeInfo} {owner : NodeInfo}

theorem only_openSlotsSeen {P : Rpc κ → Prop} (hP : ∀ x, P (.clusterNodes x)) :
    (openSlotsSeen nodes : RpcProg κ _).Only P := by
  induction nodes with
  | nil => exact Prog.only_pure _
  | cons n nodes ih =>
      rw [openSlotsSeen]
      split
      · exact ih
      · refine Prog.Only.bind (Prog.only_op.2 (hP _)) fun r => ?_
        cases r with
        | error e => exact ih
        | ok raw => exact ih.bind fun _ => Prog.only_pure _

theorem only_migrateStrays {cls : List String} (x : String) (keys : List κ) :
    (migrateStrays x owner keys).Only (NodeOnlyTo cls) := by
  induction keys with
  | nil => exact Prog.only_pure _
  | cons k keys ih => exact Prog.Only.bind (Prog.only_op.2 trivial) fun _ => ih

theorem only_collectStrays {cls : List String} (slot : Int) :
    (collectStrays owner slot nodes : RpcProg κ _).Only (NodeOnlyTo cls) := by
  induction nodes with
  | nil => exact Prog.only_pure _
  | cons n nodes ih =>
      rw [collectStrays]
      split
      · exact ih
      · exact Prog.Only.bind (Prog.only_op.2 trivial) fun _ =>
          (only_migrateStrays _ _).bind fun _ => ih

theorem only_assertOwner {cls : List String} (slot : Int)
    (hcls : ∀ x ∈ masterClients nodes, x ∈ cls) :
    (assertOwner owner slot nodes : RpcProg κ _).Only (NodeOnlyTo cls) := by
  induction nodes with
  | nil => exact Prog.only_pure _
  | cons n nodes ih =>
      rw [assertOwner]
      rw [masterClients, List.filter_cons] at hcls
      split
      · next hn =>
          rw [if_pos hn, List.map_cons] at hcls
          refine Prog.Only.bind (Prog.only_op.2 trivial) fun _ =>
            Prog.Only.bind (Prog.only_op.2 (hcls _ (by simp))) fun _ => ih fun x hx => ?_
          exact hcls x (List.mem_cons_of_mem _ hx)
      · next hn =>
          rw [if_neg hn] at hcls
          exact ih hcls

theorem only_repairEach (slots : List Int) (repaired : Nat) :
    (repairEach nodes slots repaired : RpcProg κ _).Only (NodeOnlyTo (masterClients nodes)) := by
  induction slots generalizing repaired with
  | nil => exact Prog.only_pure _
  | cons slot slots ih =>
      rw [repairEach]
      split
      · exact ih repaired
      · split
        · exact ih repaired
        · exact (only_collectStrays slot).bind fun _ =>
            (only_assertOwner slot fun x hx => hx).bind fun _ => ih _

/-- Whatever the replies, everybody is told. -/
theorem assertOwner_recipients (slot : Int) :
    {x | x ∈ masterClients nodes} ⊆ nodeRecipients h (assertOwner owner slot nodes) s slot := by
  induction nodes generalizing s with
  | nil => intro x hx; cases hx
  | cons n nodes ih =>
      intro x hx
      rw [assertOwner]
      rw [Set.mem_ofPred_eq, masterClients, List.filter_cons] at hx
      split
      · next hn =>
          rw [if_pos hn, List.map_cons, List.mem_cons] at hx
          rw [nodeRecipients_bind, nodeRecipients_bind]
          rcases hx with rfl | hx
          · exact Or.inr (Or.inl ⟨owner.id, _, List.mem_singleton_self _⟩)
          · exact Or.inr (Or.inr (ih hx))
      · next hn =>
          rw [if_neg hn] at hx
          exact ih hx

/-- Every slot with an owner that can be addressed is asserted on all of them. -/
theorem repairEach_recipients {slots : List Int} {repaired : Nat} {slot : Int}
    (hslot : slot ∈ slots) (howner : ownerOf nodes slot = some owner) (hip : owner.ip ≠ "") :
    {x | x ∈ masterClients nodes} ⊆ nodeRecipients h (repairEach nodes slots repaired) s slot := by
  induction slots generalizing s repaired with
  | nil => cases hslot
  | cons y slots ih =>
      rw [repairEach]
      rcases List.mem_cons.1 hslot with rfl | hslot
      · rw [howner]
        simp only [if_neg hip]
        rw [nodeRecipients_bind, nodeRecipients_bind]
        exact Set.subset_union_of_subset_right
          (Set.subset_union_of_subset_left (assertOwner_recipients slot) _) _
      · split
        · exact ih hslot
        · split
          · exact ih hslot
          · rw [nodeRecipients_bind, nodeRecipients_bind]
            exact Set.subset_union_of_subset_right
              (Set.subset_union_of_subset_right (ih hslot) _) _

end

/-! ### Who is told -/

section

variable {seed : Endpoint} {lines : List NodeLine}

/-- The slot was moved: it is one of those counted. -/
def MoveFinalises (h : Handler (Rpc κ) Rpc.Reply S) (s : S) (fuel : Nat) (seed : Endpoint)
    (nodes : List NodeInfo) (fromNodeID toNodeID : String) (n slot : Int) : Prop :=
  ∃ source moved e, nodeByID nodes fromNodeID = some source ∧
    ((moveSlots fuel seed fromNodeID toNodeID n).run h s).1 = some (moved, e) ∧
    slot ∈ (selectSlots n source.slots []).take moved

/-- The slot was repaired: it was found open, with an owner that can be addressed. -/
def RepairFinalises (h : Handler (Rpc κ) Rpc.Reply S) (s : S) (order : List Int → List Int)
    (seed : Endpoint) (nodes : List NodeInfo) (slot : Int) : Prop :=
  slot ∈ ((collectOpenSlots order nodes).run h
      (h (.clusterNodes (dialAddr seed.host seed.port)) s).2).1 ∧
    ∃ owner, ownerOf nodes slot = some owner ∧ owner.ip ≠ ""

variable {raw : String}
  (hraw : (h (.clusterNodes (dialAddr seed.host seed.port)) s).1 = Except.ok raw)

include hraw

theorem run_clusterNodes :
    Prog.run h (clusterNodes (dialAddr seed.host seed.port)) s =
      (.ok raw, (h (.clusterNodes (dialAddr seed.host seed.port)) s).2) :=
  Prod.ext hraw rfl

theorem run_moveSlots {fuel : Nat} {fromNodeID toNodeID : String} {n : Int}
    {source target : NodeInfo} (hn : ¬ n ≤ 0)
    (hsource : nodeByID (parseNodes raw) fromNodeID = some source)
    (htarget : nodeByID (parseNodes raw) toNodeID = some target) :
    (moveSlots fuel seed fromNodeID toNodeID n).run h s =
      (moveEach fuel source target (masterClients (parseNodes raw))
        (selectSlots n source.slots []) 0).run h
        (h (.clusterNodes (dialAddr seed.host seed.port)) s).2 := by
  rw [moveSlots, if_neg hn, Prog.run_bind, run_clusterNodes hraw]
  simp only [hsource, htarget]

theorem moveSlots_recipients {fuel : Nat} {fromNodeID toNodeID : String} {n slot : Int}
    (hmoved : MoveFinalises h s fuel seed (parseNodes raw) fromNodeID toNodeID n slot) :
    nodeRecipients h (moveSlots fuel seed fromNodeID toNodeID n) s slot =
      {x | x ∈ masterClients (parseNodes raw)} := by
  obtain ⟨source, moved, e, hsource, hrun, hslot⟩ := hmoved
  have hnone : slot ∉ (selectSlots n source.slots []).take 0 := by simp
  have hpos : ¬ n ≤ 0 := by
    intro hn
    rw [moveSlots, if_pos hn] at hrun
    cases hrun
    exact hnone hslot
  rw [moveSlots, if_neg hpos, Prog.run_bind, run_clusterNodes hraw] at hrun
  rw [moveSlots, if_neg hpos, nodeRecipients_bind, run_clusterNodes hraw,
    nodeRecipients_clusterNodes, Set.empty_union]
  simp only [hsource] at hrun ⊢
  cases htarget : nodeByID (parseNodes raw) toNodeID with
  | none =>
      rw [htarget] at hrun
      cases hrun
      exact absurd hslot hnone
  | some target =>
      rw [htarget] at hrun
      exact (nodeRecipients_subset (only_moveEach _ _) slot).antisymm
        (moveEach_recipients hrun hslot)

theorem repairSlots_recipients {order : List Int → List Int} {slot : Int}
    (hrepaired : RepairFinalises h s order seed (parseNodes raw) slot) :
    nodeRecipients h (repairSlots order seed) s slot =
      {x | x ∈ masterClients (parseNodes raw)} := by
  obtain ⟨hopen, owner, howner, hip⟩ := hrepaired
  have hquiet : (collectOpenSlots order (parseNodes raw) : RpcProg κ _).Only (NodeOnlyTo []) :=
    (only_openSlotsSeen fun _ => trivial).bind fun _ => Prog.only_pure _
  rw [repairSlots, nodeRecipients_bind, run_clusterNodes hraw,
    nodeRecipients_clusterNodes, Set.empty_union]
  simp only []
  rw [nodeRecipients_bind, nodeRecipients_eq_empty hquiet, Set.empty_union]
  generalize (collectOpenSlots order (parseNodes raw)).run h _ = found at hopen ⊢
  have hsome : ¬ found.1.isEmpty = true := by
    rw [List.isEmpty_iff]
    exact List.ne_nil_of_mem hopen
  rw [if_neg hsome, nodeRecipients_bind, nodeRecipients_eq_empty (Prog.only_pure _),
    Set.union_empty]
  exact (nodeRecipients_subset (only_repairEach _ _) slot).antisymm
    (repairEach_recipients hopen howner hip)

omit hraw

theorem isPrimary_decoded {l : NodeLine} (hl : l.Valid) :
    l.decoded.isPrimary = true ↔ "master" ∈ l.flags ∨ l.master = none := by
  have hread : l.decoded.flags = l.flags ∧ l.decoded.masterID = l.master.getD "" := by
    unfold NodeLine.decoded
    generalize parseAddr l.addr = parts
    exact ⟨rfl, rfl⟩
  rw [NodeInfo.isPrimary, hread.1, hread.2]
  cases hmaster : l.master with
  | none => simp
  | some m =>
      have htoken := (hl.head (l.master.getD "-") (by simp [NodeLine.head])).1.1
      rw [hmaster, Option.getD_some] at htoken
      simp [htoken]

/-- The addresses of the nodes listed with the flag. -/
def masterAddrs (lines : List NodeLine) : Set String :=
  {x | ∃ l ∈ lines, "master" ∈ l.flags ∧ clientFor l.decoded = x}

theorem masterClients_eq_iff (hlines : ∀ l ∈ lines, l.Valid) :
    {x | x ∈ masterClients (lines.map NodeLine.decoded)} = masterAddrs lines ↔
      ∀ l ∈ lines, "master" ∉ l.flags → l.master = none →
        ∃ m ∈ lines, "master" ∈ m.flags ∧ clientFor m.decoded = clientFor l.decoded := by
  have hmem : ∀ x, x ∈ masterClients (lines.map NodeLine.decoded) ↔
      ∃ l ∈ lines, l.decoded.isPrimary = true ∧ clientFor l.decoded = x := by
    intro x
    simp only [masterClients, List.mem_map, List.mem_filter]
    constructor
    · intro hx
      obtain ⟨n, ⟨⟨l, hl, rfl⟩, hprimary⟩, hclient⟩ := hx
      exact ⟨l, hl, hprimary, hclient⟩
    · intro hx
      obtain ⟨l, hl, hprimary, hclient⟩ := hx
      exact ⟨_, ⟨⟨l, hl, rfl⟩, hprimary⟩, hclient⟩
  constructor
  · intro heq l hl _ hmaster
    have hprimary := (isPrimary_decoded (hlines l hl)).2 (Or.inr hmaster)
    exact heq.subset ((hmem _).2 ⟨l, hl, hprimary, rfl⟩)
  · intro hshared
    refine Set.Subset.antisymm ?_ ?_
    · intro x hx
      obtain ⟨l, hl, hprimary, rfl⟩ := (hmem x).1 hx
      by_cases hflag : "master" ∈ l.flags
      · exact ⟨l, hl, hflag, rfl⟩
      · exact hshared l hl hflag (((isPrimary_decoded (hlines l hl)).1 hprimary).resolve_left hflag)
    · intro x hx
      obtain ⟨l, hl, hflag, rfl⟩ := hx
      exact (hmem _).2 ⟨l, hl, (isPrimary_decoded (hlines l hl)).2 (Or.inl hflag), rfl⟩

/-- A slot is given away on exactly the nodes flagged as masters, as long as every other
node that shows no master shares its address with one of them. -/
theorem setSlotNode_masters_iff (hlines : ∀ l ∈ lines, l.Valid) (terminated : Bool)
    (hraw : (h (.clusterNodes (dialAddr seed.host seed.port)) s).1 =
      Except.ok (renderNodes lines terminated)) :
    (∀ fuel fromNodeID toNodeID n slot,
      MoveFinalises h s fuel seed (lines.map NodeLine.decoded) fromNodeID toNodeID n slot →
      (nodeRecipients h (moveSlots fuel seed fromNodeID toNodeID n) s slot = masterAddrs lines ↔
        ∀ l ∈ lines, "master" ∉ l.flags → l.master = none →
          ∃ m ∈ lines, "master" ∈ m.flags ∧ clientFor m.decoded = clientFor l.decoded)) ∧
    ∀ order slot, RepairFinalises h s order seed (lines.map NodeLine.decoded) slot →
      (nodeRecipients h (repairSlots order seed) s slot = masterAddrs lines ↔
        ∀ l ∈ lines, "master" ∉ l.flags → l.master = none →
          ∃ m ∈ lines, "master" ∈ m.flags ∧ clientFor m.decoded = clientFor l.decoded) := by
  have hnodes : parseNodes (renderNodes lines terminated) = lines.map NodeLine.decoded :=
    parseNodes_render hlines terminated
  constructor
  · intro fuel fromNodeID toNodeID n slot hmoved
    rw [← hnodes] at hmoved
    rw [moveSlots_recipients hraw hmoved, hnodes, masterClients_eq_iff hlines]
  · intro order slot hrepaired
    rw [← hnodes] at hrepaired
    rw [repairSlots_recipients hraw hrepaired, hnodes, masterClients_eq_iff hlines]

end

end

/-- The pod that is asked first. -/
def listingSeed : Endpoint := ⟨"pod", 6379, "pod", "default"⟩

/-- Servers that do what they are told: the first lists these nodes, the others show
a slot as open. -/
def listing (lines : List NodeLine) : Handler (Rpc Nat) Rpc.Reply Unit
  | .clusterInfo _, _ => (.ok "cluster_state:ok", ())
  | .clusterNodes x, _ =>
      (.ok (if x = "pod:6379" then renderNodes lines true else "[0->-b]"), ())
  | .getKeysInSlot .., _ => (.ok [], ())
  | .setSlotImporting .., _ => (.ok (), ())
  | .setSlotMigrating .., _ => (.ok (), ())
  | .setSlotStable .., _ => (.ok (), ())
  | .setSlotNode .., _ => (.ok (), ())
  | .migrate .., _ => (.ok (), ())

theorem listing_clusterNodes (lines : List NodeLine) :
    (listing lines (.clusterNodes (dialAddr listingSeed.host listingSeed.port)) ()).1 =
      Except.ok (renderNodes lines true) :=
  congrArg Except.ok (if_pos (by decide))

/-- A primary that is giving its slot to another one. -/
def givingLines : List NodeLine :=
  [⟨"a", "10.0.0.1:6379@16379", ["myself", "master"], none, "0", "0", "1", "connected",
      [.range ⟨0, 0⟩, .migrating 0 "b"]⟩,
    ⟨"b", "10.0.0.2:6379@16379", ["master"], none, "0", "0", "2", "connected", []⟩]

/-- A replica that has just joined, and does not know its master. -/
def lostReplica : NodeLine :=
  ⟨"c", "10.0.0.3:6379@16379", ["slave"], none, "0", "0", "0", "connected", []⟩

theorem valid_givingLines : ∀ l ∈ lostReplica :: givingLines, l.Valid := by
  intro l hl
  simp only [givingLines, List.mem_cons, List.not_mem_nil, or_false] at hl
  rcases hl with rfl | rfl | rfl
  · exact ⟨head_of_all (by decide +kernel), by decide, by decide, by simp [lostReplica]⟩
  · refine ⟨head_of_all (by decide +kernel), by decide, by decide, ?_⟩
    intro item hitem
    simp only [List.mem_cons, List.not_mem_nil, or_false] at hitem
    rcases hitem with rfl | rfl
    · exact ⟨by decide, by decide, by decide⟩
    · exact ⟨by decide, noSpace_of_all (by decide +kernel)⟩
  · exact ⟨head_of_all (by decide +kernel), by decide, by decide, by simp⟩

theorem moved_listing {lines : List NodeLine} (hlines : ∀ l ∈ lines, l.Valid)
    {source target : NodeInfo}
    (hsource : nodeByID (lines.map NodeLine.decoded) "a" = some source)
    (htarget : nodeByID (lines.map NodeLine.decoded) "b" = some target)
    (hrun : ((moveEach 1 source target (masterClients (lines.map NodeLine.decoded))
      (selectSlots 1 source.slots []) 0).run (listing lines) ()).1 = some (1, none))
    {slot : Int} (hslot : slot ∈ (selectSlots 1 source.slots []).take 1) :
    MoveFinalises (listing lines) () 1 listingSeed (lines.map NodeLine.decoded) "a" "b" 1 slot := by
  refine ⟨source, 1, none, hsource, ?_, hslot⟩
  rw [← parseNodes_render hlines true] at hsource htarget hrun
  rw [run_moveSlots (listing_clusterNodes lines) (by decide) hsource htarget]
  exact hrun

/-- A replica that knows its master. -/
def loyalReplica : NodeLine := { lostReplica with master := some "a" }

theorem setSlotNode_masters_giving :
    (∃ l ∈ loyalReplica :: givingLines, "master" ∉ l.flags) ∧
    nodeRecipients (listing (loyalReplica :: givingLines)) (moveSlots 1 listingSeed "a" "b" 1) ()
      0 = masterAddrs (loyalReplica :: givingLines) ∧
    nodeRecipients (listing (loyalReplica :: givingLines)) (repairSlots id listingSeed) () 0 =
      masterAddrs (loyalReplica :: givingLines) := by
  have hloyal : loyalReplica.Valid :=
    ⟨head_of_all (by decide +kernel), by decide, by decide, by simp [loyalReplica, lostReplica]⟩
  have hvalid : ∀ l ∈ loyalReplica :: givingLines, l.Valid := by
    intro l hl
    rcases List.mem_cons.1 hl with rfl | hl
    · exact hloyal
    · exact valid_givingLines l (List.mem_cons_of_mem _ hl)
  have hcond : ∀ l ∈ loyalReplica :: givingLines, "master" ∉ l.flags → l.master = none →
      ∃ m ∈ loyalReplica :: givingLines, "master" ∈ m.flags ∧
        clientFor m.decoded = clientFor l.decoded := by
    decide +kernel
  obtain ⟨hmove, hrepair⟩ := setSlotNode_masters_iff hvalid true
    (listing_clusterNodes (loyalReplica :: givingLines))
  refine ⟨⟨loyalReplica, List.mem_cons_self .., by decide⟩, (hmove 1 "a" "b" 1 0 ?_).2 hcond,
    (hrepair id 0 ?_).2 hcond⟩
  · exact moved_listing hvalid rfl rfl (by decide +kernel) (by decide +kernel)
  · exact ⟨by decide +kernel, _, rfl, by decide +kernel⟩

/-- The replica is told too. -/
theorem setSlotNode_to_replica :
    (∀ l ∈ lostReplica :: givingLines, l.Valid) ∧
    "10.0.0.3:6379" ∉ masterAddrs (lostReplica :: givingLines) ∧
    "10.0.0.3:6379" ∈ nodeRecipients (listing (lostReplica :: givingLines))
      (moveSlots 1 listingSeed "a" "b" 1) () 0 ∧
    "10.0.0.3:6379" ∈ nodeRecipients (listing (lostReplica :: givingLines))
      (repairSlots id listingSeed) () 0 := by
  have hnodes := parseNodes_render valid_givingLines true
  have hmoved : MoveFinalises (listing (lostReplica :: givingLines)) () 1 listingSeed
      ((lostReplica :: givingLines).map NodeLine.decoded) "a" "b" 1 0 :=
    moved_listing valid_givingLines rfl rfl (by decide +kernel) (by decide +kernel)
  have hrepaired : RepairFinalises (listing (lostReplica :: givingLines)) () id listingSeed
      ((lostReplica :: givingLines).map NodeLine.decoded) 0 :=
    ⟨by decide +kernel, _, rfl, by decide +kernel⟩
  have htold : "10.0.0.3:6379" ∈
      masterClients ((lostReplica :: givingLines).map NodeLine.decoded) := by decide +kernel
  rw [← hnodes] at hmoved hrepaired htold
  refine ⟨valid_givingLines, ?_, ?_, ?_⟩
  · rw [masterAddrs, Set.mem_ofPred_eq]
    decide +kernel
  · rw [moveSlots_recipients (listing_clusterNodes _) hmoved]
    exact htold
  · rw [repairSlots_recipients (listing_clusterNodes _) hrepaired]
    exact htold

end Valkeyop.Cluster
