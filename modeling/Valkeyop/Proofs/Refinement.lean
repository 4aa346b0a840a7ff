import Valkeyop.Controller.Site
import Valkeyop.Lib.Keyed
import Valkeyop.Lib.Simulation
import Valkeyop.Proofs.MoveSlotsRun
import Valkeyop.Proofs.Recovery

/-!
# Servers behind the admin are a ledger

A cluster in order stands for a ledger, and every method that observes it or moves its slots
keeps it so: the answer of the production admin, got by commands to the servers and read off
their pages, is the entry in the ledger. A program that sees the cluster through these methods
cannot tell the two apart, so whatever the controller does to the servers can be worked out on
the ledger, and its clients notice nothing.
-/

namespace Valkeyop.Cluster

open Valkeyop.Lib Valkeyop.Lib.Text

variable {κ ν : Type} [DecidableEq κ]

/-! ## What the ledger lists -/

section

variable {nodes : List NodeInfo} {l l' : Ledger κ ν} {id : String} {n : Int}

omit [DecidableEq κ]

theorem Ledger.map_listed : (l.listed nodes).map (fun m => m.withSlots
    (slotRuns (l'.slotsOf m.id))) = l'.listed nodes := by
  simp [Ledger.listed]

theorem masterClients_listed : masterClients (l.listed nodes) = masterClients nodes := by
  simp only [masterClients, Ledger.listed, List.filter_map, List.map_map, Function.comp_def,
    NodeInfo.isPrimary_withSlots, clientFor_withSlots]

theorem map_id_listed : (l.listed nodes).map (·.id) = nodes.map (·.id) := by
  simp [Ledger.listed, Function.comp_def]

theorem map_clientFor_listed : (l.listed nodes).map clientFor = nodes.map clientFor := by
  simp [Ledger.listed, Function.comp_def]

theorem selected_listed (m : NodeInfo) :
    selected (m.withSlots (slotRuns (l.slotsOf m.id))) n = l.chosen m.id n := by
  rw [selected, NodeInfo.slots_withSlots, flatMap_slotRuns, Ledger.chosen]

theorem Ledger.owner_chosen {s : Int} (hs : s ∈ l.chosen id n) : l.owner s = some id := by
  have hmem := (List.mem_filter.1 (List.mem_of_mem_take hs)).2
  exact of_decide_eq_true hmem

theorem Ledger.owner_reassign (sel : List Int) (s : Int) :
    (l.reassign sel id).owner s = if s ∈ sel then some id else l.owner s := rfl

theorem nodeByID_listed (hnodup : (nodes.map (·.id)).Nodup) {m : NodeInfo} (hm : m ∈ nodes) :
    nodeByID (l.listed nodes) m.id = some (m.withSlots (slotRuns (l.slotsOf m.id))) := by
  have hids : ((l.listed nodes).reverse.map (·.id)).Nodup := by
    rwa [List.map_reverse, List.nodup_reverse, map_id_listed]
  have hmem : m.withSlots (slotRuns (l.slotsOf m.id)) ∈ l.listed nodes := List.mem_map_of_mem hm
  rw [nodeByID, find?_key hids]
  exact ⟨List.mem_reverse.2 hmem, NodeInfo.id_withSlots m _⟩

theorem Transferable.withSlots {slotOf : κ → Int} {source target : NodeInfo} {ms : List String}
    {fuel : Nat} {sel : List Int} {net : Net κ ν} (slots slots' : List SlotRange)
    (h : Transferable slotOf source target ms fuel sel net) :
    Transferable slotOf (source.withSlots slots) (target.withSlots slots') ms fuel sel net :=
  ⟨h.sourceListed, h.targetListed, h.targetID, h.willing, h.rounds⟩

theorem named_listed {net : Net κ ν} : Named (l.listed nodes) net ↔ Named nodes net := by
  simp only [Named, Ledger.listed, List.forall_mem_map, NodeInfo.isPrimary_withSlots,
    clientFor_withSlots, NodeInfo.id_withSlots, NodeInfo.ip_withSlots]

/-- The page of a server that agrees with the ledger. -/
theorem Printer.Sound.listing {p : Printer κ ν} {net : Net κ ν} {x : String} (h : p.Sound net x)
    (howner : ∀ s, (net (p.home x)).owner s = l.owner s) :
    parseNodes (p.texts.nodes net x) = l.listed ((p.roster x).map NodeLine.decoded) := by
  have hid : ∀ line : NodeLine, line.decoded.id = line.id := fun line => by
    simp only [NodeLine.decoded]
  have hslots : ∀ id, (net (p.home x)).slotsOf id = l.slotsOf id := fun id => by
    simp only [Server.slotsOf, Ledger.slotsOf, howner]
  simp only [h.parsed, Ledger.listed, List.map_map, Function.comp_def, filterMap_owned, hslots, hid]

end

/-! ## One call -/

/-- The servers stand for the ledger: they are in order, the seed is a listed master and calls
the cluster healthy when every slot has an owner, and no slot has more keys than a move has
rounds for. -/
structure Stands (slotOf : κ → Int) (p : Printer κ ν) (seed : Endpoint) (fuel : Nat)
    (nodes : List NodeInfo) (idAt : String → String) (l : Ledger κ ν) (net : Net κ ν) : Prop where
  intact : Intact slotOf p seed (l.listed nodes) l net
  ids : ∀ x, (net (p.home x)).id = idAt x
  seedListed : p.home (dialAddr seed.host seed.port) ∈ masterClients nodes
  healthy : ∀ net' : Net κ ν,
    (∀ s ∈ allSlots, (net' (p.home (dialAddr seed.host seed.port))).owner s ≠ none) →
    p.healthy net' (dialAddr seed.host seed.port) = true
  rounds : ∀ s (ks : List κ), ks.Nodup → (∀ k ∈ ks, slotOf k = s ∧ l.data k ≠ none) →
    ks.length < fuel

section

variable {slotOf : κ → Int} {p : Printer κ ν} {seed : Endpoint} {fuel : Nat}
  {nodes : List NodeInfo} {idAt : String → String} {l : Ledger κ ν} {net net' : Net κ ν}
  {order : List Int → List Int}

theorem prompt_eq (texts : Texts κ ν) :
    prompt slotOf texts = fated slotOf texts fun _ => .answered := rfl

/-- Nothing is seen open. -/
theorem Intact.collectOpenSlots {ns : List NodeInfo} (h : Intact slotOf p seed ns l net)
    (horder : ∀ l, (order l).Perm l) :
    ((collectOpenSlots order (parseNodes (p.texts.nodes net
      (dialAddr seed.host seed.port)))).run
        (fated slotOf p.texts fun _ => .answered) net).1 = [] := by
  refine List.eq_nil_iff_forall_not_mem.2 fun s hs => ?_
  obtain ⟨x, hx, -, hmarked⟩ := (h.legible.mem_open horder).1 hs
  exact h.unmarked x hx s hmarked

theorem Stands.state (h : Stands slotOf p seed fuel nodes idAt l net)
    (horder : ∀ l, (order l).Perm l) :
    (Cluster.state order seed).run (prompt slotOf p.texts) net = (.ok (l.state nodes), net) := by
  obtain ⟨hstate, hcount⟩ := h.intact.legible.atSeed.info
  obtain ⟨hsome, hall⟩ := assigned_length (net (p.home (dialAddr seed.host seed.port)))
  have hhealthy := h.healthy net
  simp only [h.intact.seedOwner] at hsome hall hhealthy
  have hformed : decide (0 < (net (p.home (dialAddr seed.host seed.port))).assigned.length) =
      allSlots.any fun s => (l.owner s).isSome := by
    rw [Bool.eq_iff_iff, decide_eq_true_iff, hsome, List.any_eq_true]
    simp only [Option.isSome_iff_ne_none]
  have hcovered :
      ((if p.healthy net (dialAddr seed.host seed.port) then "ok" else "fail") == "ok" &&
      (((net (p.home (dialAddr seed.host seed.port))).assigned.length : Int) == totalSlots)) =
      allSlots.all fun s => (l.owner s).isSome := by
    rw [Bool.eq_iff_iff, Bool.and_eq_true, beq_iff_eq, beq_iff_eq, hall, List.all_eq_true]
    simp only [Option.isSome_iff_ne_none]
    refine ⟨And.right, fun hevery => ⟨?_, hevery⟩⟩
    rw [hhealthy hevery, if_pos rfl]
  rw [prompt_eq, state_run rfl rfl, h.intact.collectOpenSlots horder, h.intact.listing, hstate,
    hcount, atoiValue_assigned]
  have hlisted : ∀ healthy : Bool, ((if healthy then "ok" else "fail") != "") = true := by decide
  simp only [hcovered, hlisted, Bool.true_and, Int.natCast_pos, hformed]
  rfl

theorem Stands.repairSlots (h : Stands slotOf p seed fuel nodes idAt l net)
    (horder : ∀ l, (order l).Perm l) :
    (Cluster.repairSlots order seed).run (prompt slotOf p.texts) net = ((0, none), net) := by
  rw [prompt_eq, repairSlots_run rfl rfl, h.intact.collectOpenSlots horder]
  rfl

/-- Slots that are handed over are handed over in the books. -/
theorem Stands.handed {source target : NodeInfo} {sel : List Int}
    (h : Stands slotOf p seed fuel nodes idAt l net)
    (hsettled : Settled slotOf (masterClients nodes) (l.reassign sel target.id) net')
    (hh : Handed slotOf (clientFor source) (clientFor target) target.id (masterClients nodes) sel
      net net') :
    Stands slotOf p seed fuel nodes idAt (l.reassign sel target.id) net' := by
  have hmarks : ∀ x s id, (net' x).migrating s = some id ∨ (net' x).importing s = some id →
      (net x).migrating s = some id ∨ (net x).importing s = some id := by
    intro x s id hid
    rw [hh.migrating, hh.importing] at hid
    split at hid
    · simp at hid
    · exact hid
  obtain ⟨hlegible, hreach⟩ := h.intact.legible.of_marks hh.ids fun x s id hid =>
    .inl (hmarks x s id hid)
  have hseed : ∀ s, (net' (p.home (dialAddr seed.host seed.port))).owner s =
      (l.reassign sel target.id).owner s := hsettled.owner _ h.seedListed
  -- the page lists the same nodes, and shows the seed's new view of their slots
  have hlisting : parseNodes (p.texts.nodes net' (dialAddr seed.host seed.port)) =
      (l.reassign sel target.id).listed nodes := by
    have hpage := h.intact.listing
    rw [h.intact.legible.atSeed.listing h.intact.seedOwner] at hpage
    rw [hlegible.atSeed.listing hseed, ← Ledger.map_listed (l := l), hpage, Ledger.map_listed]
  refine ⟨⟨hlisting, hlegible, ?_, hseed, ?_, ?_, ?_, ?_, ?_⟩, ?_, h.seedListed, h.healthy,
    h.rounds⟩
  · rwa [masterClients_listed]
  · intro x hx s hmarked
    refine h.intact.unmarked x ((hreach x).1 hx) s ?_
    simp only [Server.marked, Option.isSome_iff_exists, ← exists_or] at hmarked ⊢
    exact hmarked.imp (hmarks x s)
  · have hbefore := h.intact.reachable
    rw [masterClients_listed] at hbefore ⊢
    exact fun x hx => (hreach x).2 (hbefore x hx)
  · rw [named_listed]
    intro n hn hp
    rw [hh.ids]
    exact named_listed.1 h.intact.named n hn hp
  · rw [map_clientFor_listed, ← map_clientFor_listed (l := l)]
    exact h.intact.addresses
  · rw [map_id_listed, ← map_id_listed (l := l)]
    exact h.intact.ids
  · intro x
    rw [hh.ids, h.ids]

theorem Stands.nodup_ids (h : Stands slotOf p seed fuel nodes idAt l net) :
    (nodes.map (·.id)).Nodup := map_id_listed (l := l) ▸ h.intact.ids

/-- Nodes have names. -/
theorem Stands.names (h : Stands slotOf p seed fuel nodes idAt l net) :
    ∀ m ∈ nodes, m.id ≠ "" := by
  have hroster := h.intact.legible.atSeed.listed.1
  rw [h.intact.listing, map_id_listed] at hroster
  intro m hm hempty
  have hmem : m.id ∈ (p.roster (dialAddr seed.host seed.port)).map (·.id) :=
    hroster ▸ List.mem_map_of_mem hm
  obtain ⟨line, hline, hid⟩ := List.mem_map.1 hmem
  have htoken := ((h.intact.legible.atSeed.lines line hline).head line.id
    (by simp [NodeLine.head])).1
  exact htoken.1 (hid.trans hempty)

/-- A move between two masters does what it does in the books. -/
theorem Stands.moveSlots (h : Stands slotOf p seed fuel nodes idAt l net) {source target : NodeInfo}
    (hsource : source ∈ nodes) (hsp : source.isPrimary = true) (htarget : target ∈ nodes)
    (htp : target.isPrimary = true) (hne : source.id ≠ target.id) (n : Int) :
    ∃ net', (Cluster.moveSlots fuel seed source.id target.id n).run (prompt slotOf p.texts) net =
        (some ((l.chosen source.id n).length, none), net') ∧
      Stands slotOf p seed fuel nodes idAt (l.reassign (l.chosen source.id n) target.id) net' := by
  have hnamed := named_listed.1 h.intact.named
  have haddr : (nodes.map clientFor).Nodup := map_clientFor_listed (l := l) ▸ h.intact.addresses
  have hsettled : Settled slotOf (masterClients nodes) l net :=
    masterClients_listed (l := l) ▸ h.intact.settled
  have hA := mem_masterClients.2 ⟨source, hsource, hsp, rfl⟩
  have hB := mem_masterClients.2 ⟨target, htarget, htp, rfl⟩
  have hab : clientFor source ≠ clientFor target := fun heq =>
    hne (congrArg NodeInfo.id (List.inj_on_of_nodup_map haddr hsource htarget heq))
  have hsel : ∀ s ∈ l.chosen source.id n, l.owner s = some (net (clientFor source)).id := by
    intro s hs
    rw [(hnamed source hsource hsp).1]
    exact Ledger.owner_chosen hs
  have hfuel : ∀ s ∈ l.chosen source.id n,
      ((net (clientFor source)).keysIn slotOf s).length < fuel := by
    intro s hs
    refine h.rounds s _ (Server.keysIn_nodup _ _ _) fun k hk => ?_
    obtain ⟨hget, hk⟩ := Server.mem_keysIn.1 hk
    rw [hsettled.data _ hA, hk, hsel s hs, if_pos rfl] at hget
    exact ⟨hk, hget⟩
  have htransfer := hsettled.transferable hA hB (hnamed target htarget htp).1 hsel hfuel
  obtain ⟨slots, hslots⟩ : ∃ slots, slots = slotRuns (l.slotsOf source.id) := ⟨_, rfl⟩
  obtain ⟨slots', hslots'⟩ : ∃ slots', slots' = slotRuns (l.slotsOf target.id) := ⟨_, rfl⟩
  have hfind := nodeByID_listed (l := l) h.nodup_ids hsource
  have hfind' := nodeByID_listed (l := l) h.nodup_ids htarget
  have hchosen := selected_listed (l := l) (n := n) source
  rw [← hslots] at hfind hchosen
  rw [← hslots'] at hfind'
  obtain ⟨net', hrun, hh⟩ := moveSlots_runs h.intact.listing hfind hfind' hab
    (hnamed target htarget htp).2
    (by rw [hchosen, masterClients_listed]; exact htransfer.withSlots ..)
  rw [hchosen, masterClients_listed] at hh
  rw [hchosen] at hrun
  exact ⟨net', hrun, h.handed (hsettled.handed hab hA hB (hnamed target htarget htp).1 hsel hh) hh⟩

/-- What clients read while the servers stand for the ledger. -/
theorem Stands.fetch (h : Stands slotOf p seed fuel nodes idAt l net) {addrOf : String → String}
    (haddr : ∀ m ∈ nodes, addrOf m.id = clientFor m) {k : κ} {m : NodeInfo} (hm : m ∈ nodes)
    (hmp : m.isPrimary = true) (howner : l.owner (slotOf k) = some m.id) {x : String}
    (hx : x ∈ masterClients nodes) :
    Cluster.fetch slotOf addrOf net k 2 x false = some (l.data k) := by
  have hnamed := named_listed.1 h.intact.named
  have hsettled : Settled slotOf (masterClients nodes) l net :=
    masterClients_listed (l := l) ▸ h.intact.settled
  refine hsettled.fetch (fun y hy => ?_) (mem_masterClients.2 ⟨m, hm, hmp, rfl⟩) ?_ hx
  · obtain ⟨m', hm', hmp', rfl⟩ := mem_masterClients.1 hy
    rw [(hnamed m' hm' hmp').1, haddr m' hm']
  · rw [(hnamed m hm hmp).1, howner]

end

end Valkeyop.Cluster

/-! ## Whole programs -/

namespace Valkeyop.Controller

open Valkeyop.Lib Valkeyop.Cluster Valkeyop.Api

variable {κ ν : Type} [DecidableEq κ]

def ListedPrimary (nodes : List NodeInfo) (id : String) : Prop :=
  ∃ m ∈ nodes, m.isPrimary = true ∧ m.id = id

/-- What the books have an entry for: observing the cluster through the seed, and moves between
two masters. Nothing is asked of what goes to the API server. -/
def Booked (nodes : List NodeInfo) (seed : Endpoint) : Call → Prop
  | .admin (.state ep) | .admin (.repairSlots ep) => ep = seed
  | .admin (.moveSlots ep source target _) =>
      ep = seed ∧ ListedPrimary nodes source ∧ ListedPrimary nodes target ∧ source ≠ target
  | .admin (.myID _) | .kube _ | .rangeOver _ => True
  | .admin _ => False

section

variable {slotOf : κ → Int} {p : Printer κ ν} {seed : Endpoint} {fuel : Nat}
  {nodes : List NodeInfo} {idAt : String → String} {order : List Int → List Int}
  {orders : RangeOrders} {v : Site (Net κ ν)} {w : Site (Ledger κ ν)}

/-- Two sites that differ in what the cluster is made of only. -/
structure Mirrored (slotOf : κ → Int) (p : Printer κ ν) (seed : Endpoint) (fuel : Nat)
    (nodes : List NodeInfo) (idAt : String → String) (data : κ → Option ν) (v : Site (Net κ ν))
    (w : Site (Ledger κ ν)) : Prop where
  stands : Stands slotOf p seed fuel nodes idAt w.cluster v.cluster
  kube : v.kube = w.kube
  ranges : v.ranges = w.ranges
  data : w.cluster.data = data

theorem Mirrored.swap {data : κ → Option ν} (h : Mirrored slotOf p seed fuel nodes idAt data v w) :
    w.swap v.cluster = v := by
  rw [Site.swap, ← h.kube, ← h.ranges]

theorem Mirrored.answer {data : κ → Option ν} (horder : ∀ l, (order l).Perm l) {c : Call}
    (h : Mirrored slotOf p seed fuel nodes idAt data v w) (hc : Booked nodes seed c) :
    (Site.answer (Net.answer slotOf p order fuel) orders c v).1 =
        (Site.answer (Ledger.answer nodes idAt) orders c w).1 ∧
      Mirrored slotOf p seed fuel nodes idAt data
        (Site.answer (Net.answer slotOf p order fuel) orders c v).2
        (Site.answer (Ledger.answer nodes idAt) orders c w).2 := by
  cases c with
  | kube c =>
      simp only [Site.answer, h.kube]
      exact ⟨trivial, h.stands, rfl, h.ranges, h.data⟩
  | rangeOver m =>
      simp only [Site.answer, h.ranges]
      exact ⟨trivial, h.stands, h.kube, rfl, h.data⟩
  | admin c =>
      cases c with
      | state ep =>
          obtain rfl : ep = seed := hc
          simp only [Site.answer, Net.answer, h.stands.state horder]
          exact ⟨rfl, h⟩
      | myID ep =>
          simp only [Site.answer, Net.answer, Ledger.answer, h.stands.ids]
          exact ⟨trivial, h⟩
      | repairSlots ep =>
          obtain rfl : ep = seed := hc
          simp only [Site.answer, Net.answer, h.stands.repairSlots horder]
          exact ⟨rfl, h⟩
      | moveSlots ep source target n =>
          obtain ⟨rfl, ⟨a, ha, hap, rfl⟩, ⟨b, hb, hbp, rfl⟩, hne⟩ := hc
          obtain ⟨net', hrun, hstands⟩ := h.stands.moveSlots ha hap hb hbp hne n
          simp only [Site.answer, Net.answer, Ledger.answer, hrun]
          exact ⟨rfl, hstands, h.kube, h.ranges, h.data⟩
      | _ => exact hc.elim

theorem Mirrored.run {data : κ → Option ν} (horder : ∀ l, (order l).Perm l) {α : Type}
    {prog : Ctl α}
    (h : Mirrored slotOf p seed fuel nodes idAt data v w)
    (hbooked : ∀ e ∈ prog.trace (Site.answer (Ledger.answer nodes idAt) orders) w,
      Booked nodes seed e.1) :
    (prog.run (Site.answer (Net.answer slotOf p order fuel) orders) v).1 =
        (prog.run (Site.answer (Ledger.answer nodes idAt) orders) w).1 ∧
      Mirrored slotOf p seed fuel nodes idAt data
        (prog.run (Site.answer (Net.answer slotOf p order fuel) orders) v).2
        (prog.run (Site.answer (Ledger.answer nodes idAt) orders) w).2 := by
  have hstep : ∀ c v w, Mirrored slotOf p seed fuel nodes idAt data v w → Booked nodes seed c →
      (Site.answer (Net.answer slotOf p order fuel) orders c v).1 =
          (Site.answer (Ledger.answer nodes idAt) orders c w).1 ∧
        Mirrored slotOf p seed fuel nodes idAt data
          (Site.answer (Net.answer slotOf p order fuel) orders c v).2
          (Site.answer (Ledger.answer nodes idAt) orders c w).2 :=
    fun _ _ _ hvw hc => hvw.answer horder hc
  exact Prog.run_simulated hstep hbooked h

end

/-- The controller cannot tell servers in order from a ledger: a program that only observes the
cluster and moves its slots between masters gets the same answers from both, does the same to
the API server, and ends with servers that stand for what the ledger has become. What clients
have stored is never part of it, and wherever they ask for it they find it. -/
theorem servers_refine_ledger {slotOf : κ → Int} {p : Printer κ ν} {seed : Endpoint} {fuel : Nat}
    {nodes : List NodeInfo} {idAt : String → String} {order : List Int → List Int}
    (horder : ∀ l, (order l).Perm l) {orders : RangeOrders} {α : Type} {prog : Ctl α}
    {w : Site (Ledger κ ν)} {net : Net κ ν}
    (h : Stands slotOf p seed fuel nodes idAt w.cluster net)
    (hbooked : ∀ e ∈ prog.trace (Site.answer (Ledger.answer nodes idAt) orders) w,
      Booked nodes seed e.1)
    {addrOf : String → String} (haddr : ∀ m ∈ nodes, addrOf m.id = clientFor m) :
    ∃ a w' net', prog.run (Site.answer (Ledger.answer nodes idAt) orders) w = (a, w') ∧
      prog.run (Site.answer (Net.answer slotOf p order fuel) orders) (w.swap net) =
        (a, w'.swap net') ∧
      Stands slotOf p seed fuel nodes idAt w'.cluster net' ∧ w'.cluster.data = w.cluster.data ∧
      ∀ k, ∀ m ∈ nodes, m.isPrimary = true → w'.cluster.owner (slotOf k) = some m.id →
        ∀ x ∈ masterClients nodes,
          fetch slotOf addrOf net' k 2 x false = some (w.cluster.data k) := by
  have hstart : Mirrored slotOf p seed fuel nodes idAt w.cluster.data (w.swap net) w :=
    ⟨h, rfl, rfl, rfl⟩
  obtain ⟨hresult, hend⟩ := hstart.run horder hbooked
  refine ⟨_, _, _, rfl, Prod.ext hresult ?_, hend.stands, hend.data,
    fun k m hm hmp howner x hx => ?_⟩
  · exact hend.swap.symm
  · rw [hend.stands.fetch haddr hm hmp howner hx, hend.data]

/-! ## Two servers

Two pods of a deployment without replicas. The first has the slots `first` is true of, the second
has the others, and there is a single key. -/

def twin (shards : Nat) : ValkeyCluster where
  name := "twin"
  nspace := "default"
  spec := { shards, replicasPerShard := 0 }

def twinLines : List NodeLine :=
  [⟨"a", "10.0.0.1:6379@16379,twin-shard-0-0.twin-nodes.default.svc", ["master"], none, "0", "0",
      "1", "connected", []⟩,
    ⟨"b", "10.0.0.2:6379@16379,twin-shard-1-0.twin-nodes.default.svc", ["master"], none, "0", "0",
      "2", "connected", []⟩]

def twinA : NodeInfo :=
  ⟨"a", "twin-shard-0-0.twin-nodes.default.svc", "10.0.0.1", 6379, ["master"], "", [], true⟩

def twinB : NodeInfo :=
  ⟨"b", "twin-shard-1-0.twin-nodes.default.svc", "10.0.0.2", 6379, ["master"], "", [], true⟩

def twinNodes : List NodeInfo := [twinA, twinB]

def twinPrinter : Printer Nat String where
  home x :=
    if x = "twin-shard-0-0.twin-nodes.default.svc:6379" then "10.0.0.1:6379"
    else if x = "twin-shard-1-0.twin-nodes.default.svc:6379" then "10.0.0.2:6379" else x
  roster _ := twinLines
  healthy _ _ := true
  more _ _ := []

def twinName (x : String) : String :=
  if x = "10.0.0.1:6379" then "a" else if x = "10.0.0.2:6379" then "b" else "@" ++ x

def twinLedger (first : Int → Bool) : Ledger Nat String where
  owner s := some (if first s then "a" else "b")
  data k := if k = 0 then some "x" else none

def twinNet (first : Int → Bool) : Net Nat String := fun x =>
  { id := twinName x
    store := if twinName x = (if first 0 then "a" else "b") then AList.singleton 0 "x" else ∅
    owner := (twinLedger first).owner
    migrating := fun _ => none
    importing := fun _ => none }

def twinAddr (id : String) : String := if id = "a" then "10.0.0.1:6379" else "10.0.0.2:6379"

theorem mem_twinNodes : twinA ∈ twinNodes ∧ twinB ∈ twinNodes :=
  ⟨List.mem_cons_self .., List.mem_cons_of_mem _ (List.mem_cons_self ..)⟩

theorem twinNodes_clients : twinNodes.map clientFor = ["10.0.0.1:6379", "10.0.0.2:6379"] ∧
    masterClients twinNodes = ["10.0.0.1:6379", "10.0.0.2:6379"] := by decide

theorem twinA_master : "10.0.0.1:6379" ∈ masterClients twinNodes :=
  twinNodes_clients.2 ▸ List.mem_cons_self ..

theorem dialAddr_seed_twin (shards : Nat) :
    dialAddr (seed (twin shards)).host (seed (twin shards)).port =
      "twin-shard-0-0.twin-nodes.default.svc:6379" := by
  have hseed : dialAddr (seed (twin 0)).host (seed (twin 0)).port =
    "twin-shard-0-0.twin-nodes.default.svc:6379" := by decide
  exact hseed

theorem sound_twin (first : Int → Bool) {x : String}
    (hx : twinPrinter.home x = "10.0.0.1:6379" ∨ twinPrinter.home x = "10.0.0.2:6379") :
    twinPrinter.Sound (twinNet first) x where
  lines := by
    intro n hn
    simp only [twinPrinter, twinLines, List.mem_cons, List.not_mem_nil, or_false] at hn
    rcases hn with rfl | rfl
    · exact ⟨head_of_all (by decide +kernel), by decide, by decide, by simp⟩
    · exact ⟨head_of_all (by decide +kernel), by decide, by decide, by simp⟩
  self := by
    rcases hx with hx | hx
    · exact ⟨_, List.mem_cons_self .., by rw [hx]; rfl⟩
    · exact ⟨_, List.mem_cons_of_mem _ (List.mem_cons_self ..), by rw [hx]; rfl⟩
  marks s id hid := by simp [twinNet] at hid
  more e he := absurd he List.not_mem_nil

theorem settled_twin (first : Int → Bool) :
    Settled (fun _ => 0) ["10.0.0.1:6379", "10.0.0.2:6379"] (twinLedger first)
      (twinNet first) where
  apart := by
    have hnames : ∀ x ∈ ["10.0.0.1:6379", "10.0.0.2:6379"],
        ∀ y ∈ ["10.0.0.1:6379", "10.0.0.2:6379"],
        twinName x = twinName y → x = y := by decide
    exact hnames
  owner _ _ _ := rfl
  migrating _ _ _ := rfl
  importing _ _ _ := rfl
  data x _ k := by
    have hheld : (AList.singleton 0 "x" : AList fun _ : Nat => String).lookup k =
        (twinLedger first).data k := by
      by_cases hk : k = 0
      · rw [hk]
        rfl
      · have hnone : (twinLedger first).data k = none := if_neg hk
        rw [hnone]
        exact AList.lookup_eq_none.2 (by simpa [AList.mem_keys] using hk)
    rw [← hheld]
    obtain ⟨owner, howner⟩ : ∃ owner, owner = if first 0 then "a" else "b" := ⟨_, rfl⟩
    simp only [Server.get, twinNet, twinLedger, ← howner, Option.some.injEq,
      eq_comm (a := owner)]
    split
    · rfl
    · rfl

theorem stands_twin (shards : Nat) (first : Int → Bool) :
    Stands (fun _ => 0) twinPrinter (seed (twin shards)) 2 twinNodes
      (fun x => twinName (twinPrinter.home x)) (twinLedger first) (twinNet first) := by
  have hseed := dialAddr_seed_twin shards
  have hhome : twinPrinter.home "twin-shard-0-0.twin-nodes.default.svc:6379" = "10.0.0.1:6379" := by
    decide
  have hdecoded : twinLines.map NodeLine.decoded = twinNodes := by decide +kernel
  have hatSeed := sound_twin first (.inl hhome)
  have hlisting : parseNodes (twinPrinter.texts.nodes (twinNet first)
      "twin-shard-0-0.twin-nodes.default.svc:6379") = (twinLedger first).listed twinNodes := by
    have hview : ∀ s, (twinNet first (twinPrinter.home
        "twin-shard-0-0.twin-nodes.default.svc:6379")).owner s = (twinLedger first).owner s :=
      fun _ => rfl
    rw [hatSeed.listing hview, ← hdecoded]
    rfl
  have hmasters := twinNodes_clients.2
  have hreach : ∀ x, Cluster.Reachable twinPrinter.texts (fun _ => .answered) (seed (twin shards))
      (twinNet first) x ↔ x ∈ twinNodes.map clientFor := by
    have halive : ∀ n ∈ twinNodes, n.connected = true ∧ n.hasFlag "fail" = false ∧
        n.hasFlag "fail?" = false ∧ n.hasFlag "noaddr" = false := by decide
    intro x
    rw [Cluster.Reachable, hseed, hlisting, Ledger.listed, List.mem_map]
    simp only [true_and, List.mem_map, exists_exists_and_eq_and, clientFor_withSlots,
      NodeInfo.connected_withSlots, NodeInfo.hasFlag_withSlots]
    constructor
    · rintro ⟨n, hn, hx, -⟩
      exact ⟨n, hn, hx⟩
    · rintro ⟨n, hn, hx⟩
      exact ⟨n, hn, hx, halive n hn⟩
  have hhomes : ∀ x ∈ twinNodes.map clientFor, twinPrinter.home x = x := by
    rw [twinNodes_clients.1]
    decide
  refine ⟨⟨?_, ⟨fun _ _ e he => absurd he List.not_mem_nil, ?_, fun x hx => ?_, fun x hx => ?_⟩, ?_,
    fun _ => rfl, fun x _ s => ?_, fun x hx => ?_, ?_, ?_, ?_⟩, fun _ => rfl, ?_, fun _ _ => rfl,
    fun s ks hnodup hks => ?_⟩
  · rw [hseed, hlisting]
  · rw [hseed]
    exact hatSeed
  · have hx := (hreach x).1 hx
    have hhomex := hhomes x hx
    rw [twinNodes_clients.1, List.mem_pair] at hx
    exact sound_twin first (hhomex.symm ▸ hx)
  · exact hhomes x ((hreach x).1 hx)
  · rw [masterClients_listed, hmasters]
    exact settled_twin first
  · simp [Server.marked, twinNet]
  · rw [masterClients_listed, hmasters] at hx
    rw [hreach, twinNodes_clients.1]
    exact hx
  · rw [named_listed]
    have hnamed : ∀ n ∈ twinNodes, n.isPrimary = true →
        twinName (clientFor n) = n.id ∧ n.ip ≠ "" := by decide
    exact hnamed
  · rw [map_clientFor_listed, twinNodes_clients.1]
    decide
  · rw [map_id_listed]
    decide
  · rw [hseed, hhome, hmasters]
    exact List.mem_cons_self ..
  · have hzero : ∀ k ∈ ks, k = 0 := by
      intro k hk
      by_contra hne
      exact (hks k hk).2 (if_neg hne)
    have hsub : ks ⊆ [0] := fun k hk => List.mem_singleton.2 (hzero k hk)
    have hle := (hnodup.subperm hsub).length_le
    simp only [List.length_singleton] at hle
    omega

/-- A slot changes hands, and its key is read at the server that gave it away. -/
theorem servers_refine_ledger_twin :
    ∃ v : Site (Net Nat String), (Admin.moveSlots (seed (twin 2)) "a" "b" 1).run
        (Site.answer (Net.answer (fun _ => 0) twinPrinter id 2) fun _ => asWritten)
        ⟨twinNet fun _ => true, { cluster := some (twin 2) }, 0⟩ = ((1, none), v) ∧
      fetch (fun _ => 0) twinAddr v.cluster 0 2 "10.0.0.1:6379" false = some (some "x") := by
  let w : Site (Ledger Nat String) := ⟨twinLedger fun _ => true, { cluster := some (twin 2) }, 0⟩
  have hbooked : ∀ e ∈ (Admin.moveSlots (seed (twin 2)) "a" "b" 1).trace (Site.answer
      (Ledger.answer twinNodes fun x => twinName (twinPrinter.home x)) fun _ => asWritten) w,
      Booked twinNodes (seed (twin 2)) e.1 := by
    intro e he
    obtain rfl := List.mem_singleton.1 he
    exact ⟨rfl, ⟨twinA, mem_twinNodes.1, by decide, rfl⟩, ⟨twinB, mem_twinNodes.2, by decide, rfl⟩,
      by decide⟩
  have haddr : ∀ m ∈ twinNodes, twinAddr m.id = clientFor m := by decide
  have hmoved : (((twinLedger fun _ => true).chosen "a" 1).length : Int) = 1 := by
    simp [Ledger.chosen, Ledger.slotsOf, twinLedger, allSlots]
  have horder : ∀ l : List Int, (id l).Perm l := fun l => .refl l
  obtain ⟨a, w', net', hledger, hrun, -, -, hread⟩ := servers_refine_ledger (w := w) horder
    (stands_twin 2 fun _ => true) hbooked haddr
  have hbooks : (((((twinLedger fun _ => true).chosen "a" 1).length : Int), none),
      { w with cluster := w.cluster.reassign (w.cluster.chosen "a" 1) "b" }) = (a, w') := hledger
  rw [hmoved, Prod.mk.injEq] at hbooks
  obtain ⟨rfl, rfl⟩ := hbooks
  refine ⟨_, hrun, ?_⟩
  -- whoever has the slot now, it is one of the two
  obtain ⟨sel, hsel⟩ : ∃ sel, sel = w.cluster.chosen "a" 1 := ⟨_, rfl⟩
  rw [← hsel] at hread
  by_cases hgiven : (0 : Int) ∈ sel
  · refine hread 0 twinB mem_twinNodes.2 (by decide) ?_ _ twinA_master
    rw [Ledger.owner_reassign, if_pos hgiven]
    rfl
  · refine hread 0 twinA mem_twinNodes.1 (by decide) ?_ _ twinA_master
    rw [Ledger.owner_reassign, if_neg hgiven]
    rfl

end Valkeyop.Controller
