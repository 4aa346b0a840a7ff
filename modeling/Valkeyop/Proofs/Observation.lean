import Valkeyop.Cluster.Printed
import Valkeyop.Proofs.OpenSlots

/-!
# What `State` observes

`State` puts three things together: the two counters it looks for in the seed's
`CLUSTER INFO`, the seed's list of nodes, and the markers that every node shows on its own
page only. On pages as servers print them it gets all of them right: the counters are the
seed's, each node has exactly the slots the seed believes it to own, and a slot is open
exactly if a node that is listed as alive and answers shows a marker.
-/

namespace Valkeyop.Cluster

open Valkeyop.Lib Valkeyop.Lib.Text Valkeyop.Api Valkeyop.Controller Valkeyop.Topology

variable {κ ν : Type} [DecidableEq κ]

/-! ## `CLUSTER INFO` -/

/-- A line that comes apart at its colon. -/
structure CleanLine (e : String × String) : Prop where
  colon : ':' ∉ e.1.toList
  key : ∀ c ∈ e.1.toList, isSpace c = false
  value : ∀ c ∈ e.2.toList, isSpace c = false

theorem CleanLine.newline {e : String × String} (h : CleanLine e) :
    '\n' ∉ (e.1 ++ ":" ++ e.2 ++ "\r").toList := by
  have hspace : ∀ {s : String}, (∀ c ∈ s.toList, isSpace c = false) → '\n' ∉ s.toList :=
    fun hs hmem => absurd (hs _ hmem) (by decide)
  exact not_mem_append (not_mem_append (not_mem_append (hspace h.key) (by decide))
    (hspace h.value)) (by decide)

theorem CleanLine.cut {e : String × String} (h : CleanLine e) :
    cut ':' (trimSpace (e.1 ++ ":" ++ e.2 ++ "\r")) = some e := by
  have hspace : ∀ c ∈ (e.1 ++ ":" ++ e.2).toList, isSpace c = false := by
    intro c hc
    simp only [String.toList_append, List.mem_append] at hc
    rcases hc with (hc | hc) | hc
    · exact h.key c hc
    · rw [List.mem_singleton.1 hc]
      decide
    · exact h.value c hc
  rw [trimSpace_append_cr hspace]
  exact cut_append h.colon

/-- `CLUSTER INFO` is read back line by line. -/
theorem parseInfo_render {kv : List (String × String)} (h : ∀ e ∈ kv, CleanLine e) :
    parseInfo (renderInfo kv) = kv := by
  have hlines : ∀ line ∈ kv.map (fun e => e.1 ++ ":" ++ e.2 ++ "\r") ++ [""],
      '\n' ∉ line.toList := by
    intro line hline
    rcases List.mem_append.1 hline with hline | hline
    · obtain ⟨e, he, rfl⟩ := List.mem_map.1 hline
      exact (h e he).newline
    · rw [List.mem_singleton.1 hline]
      exact List.not_mem_nil
  have hlast : Text.cut ':' (trimSpace "") = none := by decide
  have hread : kv.filterMap (fun e => Text.cut ':' (trimSpace (e.1 ++ ":" ++ e.2 ++ "\r"))) =
      kv.filterMap some := List.filterMap_congr fun e he => (h e he).cut
  rw [parseInfo, renderInfo, split_intercalate rfl hlines (by simp), List.filterMap_append,
    List.filterMap_map]
  simp only [Function.comp_def, hread, List.filterMap_some, List.filterMap_cons, hlast,
    List.filterMap_nil, List.append_nil]

/-! ## Pages -/

/-- The page of the server at `x` can be read: the fields of its lines are fields, it lists
itself, and its other counters are called something else. -/
structure Printer.Sound (p : Printer κ ν) (net : Net κ ν) (x : String) : Prop where
  lines : ∀ n ∈ p.roster x, NodeLine.Valid { n with items := [] }
  self : ∃ n ∈ p.roster x, n.id = (net (p.home x)).id
  marks : ∀ s id, (net (p.home x)).migrating s = some id ∨ (net (p.home x)).importing s = some id →
    ∀ c ∈ id.toList, isSpace c = false
  more : ∀ e ∈ p.more net x, CleanLine e ∧ e.1 ≠ "cluster_state" ∧
    e.1 ≠ "cluster_slots_assigned"

section

variable {p : Printer κ ν} {net : Net κ ν} {x : String}

omit [DecidableEq κ] in
theorem cleanLine_summary (v : Server κ ν) (healthy : Bool) :
    ∀ e ∈ v.summary healthy, CleanLine e := by
  have hdigits : ∀ n : Nat, ∀ c ∈ (toString n).toList, isSpace c = false := fun n c hc =>
    isSpace_digit (isDigit_of_mem_toString hc)
  intro e he
  simp only [Server.summary, List.mem_cons, List.not_mem_nil, or_false] at he
  have hkeys : ∀ key ∈ ["cluster_state", "cluster_slots_assigned"],
      ':' ∉ key.toList ∧ (key.toList.all fun c => !isSpace c) = true := by decide
  rcases he with rfl | rfl
  · obtain ⟨hcolon, hkey⟩ := hkeys "cluster_state" (by simp)
    refine ⟨hcolon, noSpace_of_all hkey, ?_⟩
    cases healthy with
    | true => exact noSpace_of_all rfl
    | false => exact noSpace_of_all rfl
  · obtain ⟨hcolon, hkey⟩ := hkeys "cluster_slots_assigned" (by simp)
    exact ⟨hcolon, noSpace_of_all hkey, hdigits _⟩

omit [DecidableEq κ] in
/-- The counters are read back, whatever else the page shows. -/
theorem Printer.Sound.info (h : p.Sound net x) :
    infoValue (parseInfo (p.texts.info net x)) "cluster_state" =
        (if p.healthy net x then "ok" else "fail") ∧
      infoValue (parseInfo (p.texts.info net x)) "cluster_slots_assigned" =
        toString (net (p.home x)).assigned.length := by
  have hclean : ∀ e ∈ (net (p.home x)).summary (p.healthy net x) ++ p.more net x, CleanLine e := by
    intro e he
    rcases List.mem_append.1 he with he | he
    · exact cleanLine_summary _ _ e he
    · exact (h.more e he).1
  have hskip : ∀ key, (∀ e ∈ p.more net x, e.1 ≠ key) →
      (p.more net x).reverse.find? (fun e => e.1 == key) = none := by
    intro key hkey
    rw [List.find?_eq_none]
    intro e he
    simpa using hkey e (List.mem_reverse.1 he)
  change infoValue (parseInfo (renderInfo _)) _ = _ ∧ infoValue (parseInfo (renderInfo _)) _ = _
  rw [parseInfo_render hclean]
  simp only [infoValue, List.reverse_append, List.find?_append,
    hskip "cluster_state" fun e he => (h.more e he).2.1,
    hskip "cluster_slots_assigned" fun e he => (h.more e he).2.2, Option.none_or]
  exact ⟨rfl, rfl⟩

omit [DecidableEq κ] in
theorem mem_markers {v : Server κ ν} {item : SlotItem} :
    item ∈ v.markers ↔ ∃ s < 16384, (∃ id, v.migrating (s : Nat) = some id ∧
        item = .migrating s id) ∨ ∃ id, v.importing (s : Nat) = some id ∧
        item = .importing s id := by
  simp only [Server.markers, Server.markersAt, List.mem_flatMap, List.mem_range, List.mem_append,
    List.mem_map, Option.mem_toList, eq_comm (b := item)]

omit [DecidableEq κ] in
/-- The slots of a line are valid items. -/
theorem valid_runs (v : Server κ ν) (id : String) :
    ∀ item ∈ (slotRuns (v.slotsOf id)).map SlotItem.range, item.Valid := by
  intro item hitem
  obtain ⟨r, hr, rfl⟩ := List.mem_map.1 hitem
  obtain ⟨hstart, hstop, hle⟩ := mem_slotRuns hr
  have h₁ := mem_allSlots.1 (List.mem_filter.1 hstart).1
  have h₂ := mem_allSlots.1 (List.mem_filter.1 hstop).1
  simp only [totalSlots] at h₁ h₂
  exact ⟨h₁.1, hle, by omega⟩

theorem NodeLine.Valid.withItems {n : NodeLine} {items items' : List SlotItem}
    (h : NodeLine.Valid { n with items := items }) (hitems : ∀ item ∈ items', item.Valid) :
    NodeLine.Valid { n with items := items' } :=
  ⟨h.head, h.flags, h.master, hitems⟩

omit [DecidableEq κ] in
theorem Printer.Sound.table (h : p.Sound net x) :
    ∀ n ∈ (net (p.home x)).table (p.roster x), n.Valid := by
  intro n hn
  rw [Server.table, List.mem_map] at hn
  obtain ⟨n, hn, rfl⟩ := hn
  refine (h.lines n hn).withItems fun item hitem => ?_
  rw [Server.items, List.mem_append] at hitem
  rcases hitem with hitem | hitem
  · exact valid_runs _ _ item hitem
  · split at hitem
    · obtain ⟨s, hs, ⟨id, hid, rfl⟩ | ⟨id, hid, rfl⟩⟩ := mem_markers.1 hitem
      · exact ⟨by omega, h.marks s id (.inl hid)⟩
      · exact ⟨by omega, h.marks s id (.inr hid)⟩
    · cases hitem

omit [DecidableEq κ] in
theorem Printer.Sound.nodes (h : p.Sound net x) :
    parseNodes (p.texts.nodes net x) = ((net (p.home x)).table (p.roster x)).map NodeLine.decoded :=
  parseNodes_render h.table true

omit [DecidableEq κ] in
/-- The markers of a page are on the line of its server. -/
theorem mem_marked_table {roster : List NodeLine} {v : Server κ ν}
    (hself : ∃ n ∈ roster, n.id = v.id) {slot : Nat} :
    (∃ n ∈ v.table roster, slot ∈ n.marked) ↔ slot < 16384 ∧ v.marked slot := by
  have hruns : ∀ id, slot ∉ ((slotRuns (v.slotsOf id)).map SlotItem.range).filterMap
      SlotItem.marked? := by
    intro id hmem
    obtain ⟨item, hitem, hslot⟩ := List.mem_filterMap.1 hmem
    obtain ⟨r, -, rfl⟩ := List.mem_map.1 hitem
    cases hslot
  have hmarkers : slot ∈ v.markers.filterMap SlotItem.marked? ↔ slot < 16384 ∧ v.marked slot := by
    simp only [List.mem_filterMap, mem_markers, Server.marked, Option.isSome_iff_exists]
    constructor
    · rintro ⟨item, ⟨s, hs, ⟨id, hid, rfl⟩ | ⟨id, hid, rfl⟩⟩, hslot⟩
      · cases hslot
        exact ⟨hs, .inl ⟨id, hid⟩⟩
      · cases hslot
        exact ⟨hs, .inr ⟨id, hid⟩⟩
    · rintro ⟨hs, ⟨id, hid⟩ | ⟨id, hid⟩⟩
      · exact ⟨_, ⟨slot, hs, .inl ⟨id, hid, rfl⟩⟩, rfl⟩
      · exact ⟨_, ⟨slot, hs, .inr ⟨id, hid, rfl⟩⟩, rfl⟩
  simp only [Server.table, List.mem_map, exists_exists_and_eq_and, NodeLine.marked, Server.items,
    List.filterMap_append, List.mem_append, hruns, false_or]
  constructor
  · rintro ⟨n, -, hslot⟩
    split at hslot
    · exact hmarkers.1 hslot
    · cases hslot
  · intro hslot
    obtain ⟨n, hn, hid⟩ := hself
    exact ⟨n, hn, by rw [if_pos hid]; exact hmarkers.2 hslot⟩

omit [DecidableEq κ] in
/-- The open slots on a page are those of the server it is the page of. -/
theorem Printer.Sound.mem_open (h : p.Sound net x) (s : Int) :
    s ∈ parseOpenSlots (p.texts.nodes net x) ↔ s ∈ allSlots ∧ (net (p.home x)).marked s := by
  have hpage : s ∈ parseOpenSlots (p.texts.nodes net x) ↔
      ∃ slot : Nat, (slot < 16384 ∧ (net (p.home x)).marked slot) ∧ s = slot := by
    have hrender : p.texts.nodes net x = renderNodes ((net (p.home x)).table (p.roster x)) true := rfl
    simp only [← mem_marked_table h.self]
    rw [hrender, mem_parseOpenSlots_render h.table]
    constructor
    · rintro ⟨n, hn, slot, hslot, heq⟩
      exact ⟨slot, ⟨n, hn, hslot⟩, heq⟩
    · rintro ⟨slot, ⟨n, hn, hslot⟩, heq⟩
      exact ⟨n, hn, slot, hslot, heq⟩
  rw [hpage, mem_allSlots]
  constructor
  · rintro ⟨slot, ⟨hlt, hmarked⟩, rfl⟩
    exact ⟨⟨Int.natCast_nonneg slot, by simp only [totalSlots]; omega⟩, hmarked⟩
  · rintro ⟨⟨h₀, hlt⟩, hmarked⟩
    have hs : s = (s.toNat : Int) := (Int.toNat_of_nonneg h₀).symm
    simp only [totalSlots] at hlt
    exact ⟨s.toNat, ⟨by omega, hs ▸ hmarked⟩, hs⟩

omit [DecidableEq κ] in
/-- A line shows the slots its node is believed to own. -/
theorem filterMap_owned {v : Server κ ν} (id : String) :
    (v.items id).filterMap SlotItem.owned? = slotRuns (v.slotsOf id) := by
  have hranges : ∀ l : List SlotRange, (l.map SlotItem.range).filterMap SlotItem.owned? = l :=
    fun l => by rw [List.filterMap_map]; exact List.filterMap_some
  have hmarkers : v.markers.filterMap SlotItem.owned? = [] := by
    rw [List.filterMap_eq_nil_iff]
    intro item hitem
    obtain ⟨s, -, ⟨id, -, rfl⟩ | ⟨id, -, rfl⟩⟩ := mem_markers.1 hitem
    · rfl
    · rfl
  rw [Server.items, List.filterMap_append, hranges]
  split
  · rw [hmarkers, List.append_nil]
  · rw [List.filterMap_nil, List.append_nil]

omit [DecidableEq κ] in
theorem flatMap_owned {v : Server κ ν} (id : String) :
    ((v.items id).filterMap SlotItem.owned?).flatMap SlotRange.slots = v.slotsOf id := by
  rw [filterMap_owned, flatMap_slotRuns]

omit [DecidableEq κ] in
/-- The listed nodes are those of the roster, each with the slots the server believes it to
own. -/
theorem Printer.Sound.listed (h : p.Sound net x) :
    (parseNodes (p.texts.nodes net x)).map (·.id) = (p.roster x).map (·.id) ∧
      ∀ n ∈ parseNodes (p.texts.nodes net x),
        n.slots.flatMap SlotRange.slots = (net (p.home x)).slotsOf n.id := by
  have hdecoded : ∀ n : NodeLine, n.decoded.slots = n.owned ∧ n.decoded.id = n.id := by
    intro n
    simp only [NodeLine.decoded, and_self]
  rw [h.nodes, Server.table]
  constructor
  · simp only [List.map_map, Function.comp_def, hdecoded]
  · intro n hn
    simp only [List.mem_map, exists_exists_and_eq_and] at hn
    obtain ⟨line, -, rfl⟩ := hn
    simp only [hdecoded, NodeLine.owned]
    exact flatMap_owned line.id

end

/-! ## The whole answer -/

section

variable {slotOf : κ → Int} {texts : Texts κ ν} {fate : Rpc κ → Fate} {net : Net κ ν}
  {seed : Endpoint}

theorem answered_of_clusterNodes {x t : String}
    (h : ((clusterNodes x).run (fated slotOf texts fate) net).1 = .ok t) :
    fate (.clusterNodes x) = .answered := by
  change (fated slotOf texts fate (.clusterNodes x) net).1 = _ at h
  cases hfate : fate (.clusterNodes x) with
  | answered => rfl
  | lost =>
      simp only [fated, hfate] at h
      cases h
  | unheard =>
      simp only [fated, hfate] at h
      cases h

/-- Nothing is seen that some listed, answering server does not report. -/
theorem exists_of_mem_openSlotsSeen {s : Int} {nodes : List NodeInfo}
    (hs : s ∈ ((openSlotsSeen nodes).run (fated slotOf texts fate) net).1) :
    ∃ n ∈ nodes, (n.connected = true ∧ n.hasFlag "fail" = false ∧ n.hasFlag "fail?" = false ∧
      n.hasFlag "noaddr" = false) ∧ fate (.clusterNodes (clientFor n)) = .answered ∧
      s ∈ parseOpenSlots (texts.nodes net (clientFor n)) := by
  induction nodes with
  | nil => cases hs
  | cons m nodes ih =>
      have hlater : s ∈ ((openSlotsSeen nodes).run (fated slotOf texts fate) net).1 →
          ∃ n ∈ m :: nodes, (n.connected = true ∧ n.hasFlag "fail" = false ∧
            n.hasFlag "fail?" = false ∧ n.hasFlag "noaddr" = false) ∧
            fate (.clusterNodes (clientFor n)) = .answered ∧
            s ∈ parseOpenSlots (texts.nodes net (clientFor n)) := fun hs =>
        (ih hs).imp fun _ hn => ⟨List.mem_cons_of_mem _ hn.1, hn.2⟩
      rw [openSlotsSeen] at hs
      split at hs
      · exact hlater hs
      · next halive =>
          rw [Prog.run_bind, (clusterNodes_run _ net).1] at hs
          split at hs
          · exact hlater hs
          · next raw hraw =>
              have hans := answered_of_clusterNodes hraw
              rw [clusterNodes_answered hans, Except.ok.injEq] at hraw
              simp only [Prog.run_bind, Prog.run_pure, List.mem_append] at hs
              rcases hs with hs | hs
              · exact ⟨m, List.mem_cons_self .., by simpa [and_assoc] using halive, hans, hraw ▸ hs⟩
              · exact hlater hs

theorem state_run {order : List Int → List Int}
    (hinfo : fate (.clusterInfo (dialAddr seed.host seed.port)) = .answered)
    (hnodes : fate (.clusterNodes (dialAddr seed.host seed.port)) = .answered) :
    (state order seed).run (fated slotOf texts fate) net = (.ok
      { formed := infoValue (parseInfo (texts.info net (dialAddr seed.host seed.port)))
          "cluster_state" != "" && decide (0 < atoiValue (infoValue (parseInfo
            (texts.info net (dialAddr seed.host seed.port))) "cluster_slots_assigned"))
        slotsCovered := infoValue (parseInfo (texts.info net (dialAddr seed.host seed.port)))
          "cluster_state" == "ok" && atoiValue (infoValue (parseInfo
            (texts.info net (dialAddr seed.host seed.port))) "cluster_slots_assigned") ==
              totalSlots
        openSlots := decide (0 < ((collectOpenSlots order (parseNodes (texts.nodes net
          (dialAddr seed.host seed.port)))).run (fated slotOf texts fate) net).1.length)
        nodes := parseNodes (texts.nodes net (dialAddr seed.host seed.port)) }, net) := by
  rw [state, Prog.run_bind, clusterInfo_answered hinfo]
  simp only [Prog.run_bind, clusterNodes_answered hnodes, Prog.run_pure, collectOpenSlots_run]

/-- The open slots that are collected are those some reachable server shows. -/
theorem mem_collectOpenSlots {order : List Int → List Int} (horder : ∀ l, (order l).Perm l)
    {s : Int} :
    s ∈ ((collectOpenSlots order (parseNodes (texts.nodes net
        (dialAddr seed.host seed.port)))).run (fated slotOf texts fate) net).1 ↔
      ∃ x, Reachable texts fate seed net x ∧ s ∈ parseOpenSlots (texts.nodes net x) := by
  rw [collectOpenSlots, Prog.run_bind, Prog.run_pure, (horder _).mem_iff, List.mem_dedup]
  constructor
  · intro hs
    obtain ⟨n, hn, halive, hans, hs⟩ := exists_of_mem_openSlotsSeen hs
    exact ⟨clientFor n, ⟨hans, n, hn, rfl, halive⟩, hs⟩
  · rintro ⟨x, ⟨hans, n, hn, rfl, halive⟩, hs⟩
    exact mem_openSlotsSeen halive hans hs _ hn

omit [DecidableEq κ] in
/-- The number of assigned slots is read as it was printed. -/
theorem atoiValue_assigned (v : Server κ ν) :
    atoiValue (toString v.assigned.length) = v.assigned.length := by
  have hsub : v.assigned.Sublist allSlots := List.filter_sublist
  have hle : v.assigned.length ≤ 16384 := hsub.length_le.trans (by simp [allSlots])
  have hmax : (16384 : Int) ≤ maxInt := by decide
  rw [atoiValue_toString]
  omega

omit [DecidableEq κ] in
theorem assigned_length (v : Server κ ν) :
    (0 < v.assigned.length ↔ ∃ s ∈ allSlots, v.owner s ≠ none) ∧
      ((v.assigned.length : Int) = totalSlots ↔ ∀ s ∈ allSlots, v.owner s ≠ none) := by
  have htotal : allSlots.length = 16384 := by simp [allSlots]
  have hsome : ∀ s, (v.owner s).isSome = true ↔ v.owner s ≠ none := fun s =>
    Option.isSome_iff_ne_none
  constructor
  · simp only [Server.assigned, List.length_pos_iff_exists_mem, List.mem_filter, hsome]
  · simp only [← hsome, ← List.filter_eq_self, totalSlots]
    constructor
    · intro hlen
      have hsub : v.assigned.Sublist allSlots := List.filter_sublist
      exact hsub.eq_of_length (by omega)
    · intro heq
      rw [Server.assigned, heq, htotal]
      rfl

variable {p : Printer κ ν}

/-- The plan that follows from what `State` answers. -/
theorem state_plan {order : List Int → List Int} (horder : ∀ l, (order l).Perm l)
    (hinfo : fate (.clusterInfo (dialAddr seed.host seed.port)) = .answered)
    (hnodes : fate (.clusterNodes (dialAddr seed.host seed.port)) = .answered)
    (hseed : p.Sound net (dialAddr seed.host seed.port))
    (hpages : ∀ x, Reachable p.texts fate seed net x → p.Sound net x) :
    ∃ st, (state order seed).run (fated slotOf p.texts fate) net = (.ok st, net) ∧
      st.nodes = parseNodes (p.texts.nodes net (dialAddr seed.host seed.port)) ∧
      ∀ (cr : ValkeyCluster) (d : Desired),
        ((Topology.decide d (summarize cr st)).kind = .form ↔
          ∀ s ∈ allSlots, (net (p.home (dialAddr seed.host seed.port))).owner s = none) ∧
        ((Topology.decide d (summarize cr st)).kind = .repair ↔
          (∃ s ∈ allSlots, (net (p.home (dialAddr seed.host seed.port))).owner s ≠ none) ∧
          (p.healthy net (dialAddr seed.host seed.port) = false ∨
            (∃ s ∈ allSlots, (net (p.home (dialAddr seed.host seed.port))).owner s = none) ∨
            ∃ x, Reachable p.texts fate seed net x ∧ ∃ s ∈ allSlots, (net (p.home x)).marked s)) := by
  obtain ⟨hstate, hcount⟩ := hseed.info
  obtain ⟨hsome, hall⟩ := assigned_length (net (p.home (dialAddr seed.host seed.port)))
  have hopen : 0 < ((collectOpenSlots order (parseNodes (p.texts.nodes net
      (dialAddr seed.host seed.port)))).run (fated slotOf p.texts fate) net).1.length ↔
      ∃ x, Reachable p.texts fate seed net x ∧ ∃ s ∈ allSlots, (net (p.home x)).marked s := by
    rw [List.length_pos_iff_exists_mem]
    constructor
    · rintro ⟨s, hs⟩
      obtain ⟨x, hx, hs⟩ := (mem_collectOpenSlots horder).1 hs
      exact ⟨x, hx, s, ((hpages x hx).mem_open s).1 hs⟩
    · rintro ⟨x, hx, s, hs⟩
      exact ⟨s, (mem_collectOpenSlots horder).2 ⟨x, hx, ((hpages x hx).mem_open s).2 hs⟩⟩
  have hlisted : ∀ healthy : Bool, ((if healthy then "ok" else "fail") != "") = true := by decide
  have hhealthy : ∀ healthy : Bool, ((if healthy then "ok" else "fail") == "ok") = healthy := by
    decide
  refine ⟨_, state_run hinfo hnodes, rfl, fun cr d => ?_⟩
  rw [decide_form_iff, decide_repair_iff]
  simp only [summarize, hstate, hcount, atoiValue_assigned, hlisted, hhealthy,
    Bool.true_and]
  constructor
  · simp only [decide_eq_false_iff_not, Int.natCast_pos, hsome, not_exists, not_and, not_not]
  · simp only [decide_eq_true_eq, Int.natCast_pos, hsome, Bool.and_eq_false_iff, beq_eq_false_iff_ne,
      ne_eq, hall, Bool.not_eq_false', hopen, not_forall, not_not, or_assoc, exists_prop]

/-- What `State` answers about servers that print their pages, and what the operator then does
about it. Whatever becomes of the other probes, the answer lists the seed's nodes with exactly
the slots the seed believes each of them to own. The plan is to form a cluster exactly if the
seed knows no owner of any slot; it is to repair exactly if the cluster has been formed, and
the seed calls it unhealthy, or lacks an owner of a slot, or a reachable server is in the
middle of a move. -/
theorem state_observed {order : List Int → List Int} (horder : ∀ l, (order l).Perm l)
    (hinfo : fate (.clusterInfo (dialAddr seed.host seed.port)) = .answered)
    (hnodes : fate (.clusterNodes (dialAddr seed.host seed.port)) = .answered)
    (hseed : p.Sound net (dialAddr seed.host seed.port))
    (hpages : ∀ x, Reachable p.texts fate seed net x → p.Sound net x) :
    ∃ st, (state order seed).run (fated slotOf p.texts fate) net = (.ok st, net) ∧
      st.nodes.map (·.id) = (p.roster (dialAddr seed.host seed.port)).map (·.id) ∧
      (∀ n ∈ st.nodes, n.slots.flatMap SlotRange.slots =
        (net (p.home (dialAddr seed.host seed.port))).slotsOf n.id) ∧
      ∀ (cr : ValkeyCluster) (d : Desired),
        ((Topology.decide d (summarize cr st)).kind = .form ↔
          ∀ s ∈ allSlots, (net (p.home (dialAddr seed.host seed.port))).owner s = none) ∧
        ((Topology.decide d (summarize cr st)).kind = .repair ↔
          (∃ s ∈ allSlots, (net (p.home (dialAddr seed.host seed.port))).owner s ≠ none) ∧
          (p.healthy net (dialAddr seed.host seed.port) = false ∨
            (∃ s ∈ allSlots, (net (p.home (dialAddr seed.host seed.port))).owner s = none) ∨
            ∃ x, Reachable p.texts fate seed net x ∧ ∃ s ∈ allSlots, (net (p.home x)).marked s)) := by
  obtain ⟨st, hrun, hst, hplan⟩ := state_plan horder hinfo hnodes hseed hpages
  exact ⟨st, hrun, hst ▸ hseed.listed.1, hst ▸ hseed.listed.2, hplan⟩

/-- The two nodes of the smallest cluster, as they list each other. -/
def pairPrinter : Printer Nat String where
  home := id
  roster _ :=
    [⟨"a", "10.0.0.1:6379@16379", ["master"], none, "0", "0", "1", "connected", []⟩,
      ⟨"b", "10.0.0.2:6379@16379", ["master"], none, "0", "0", "2", "connected", []⟩]
  healthy _ _ := true
  more _ _ := [("cluster_known_nodes", "2")]

theorem pairPrinter_sound {net : Net Nat String} {x : String}
    (hid : (net x).id = "a" ∨ (net x).id = "b")
    (hmarks : ∀ s id, (net x).migrating s = some id ∨ (net x).importing s = some id →
      ∀ c ∈ id.toList, isSpace c = false) : pairPrinter.Sound net x where
  lines := by
    intro n hn
    simp only [pairPrinter, List.mem_cons, List.not_mem_nil, or_false] at hn
    rcases hn with rfl | rfl
    · exact ⟨head_of_all (by decide +kernel), by decide, by decide, by simp⟩
    · exact ⟨head_of_all (by decide +kernel), by decide, by decide, by simp⟩
  self := by simpa [pairPrinter, eq_comm] using hid
  marks := hmarks
  more := by
    intro e he
    simp only [pairPrinter, List.mem_singleton] at he
    subst he
    exact ⟨⟨by decide, noSpace_of_all (by decide), noSpace_of_all (by decide)⟩, by decide,
      by decide⟩

/-- Nobody but the seed answers. -/
def seedOnly : Rpc Nat → Fate
  | .clusterInfo x | .clusterNodes x => if x = "10.0.0.1:6379" then .answered else .lost
  | _ => .lost

/-- The seed is giving slot 0 away. -/
def givingNet : Net Nat String := (pairNet ∅).modify "10.0.0.1:6379" (Server.setMigrating 0 "b")

theorem state_observed_giving :
    ∃ st, (state id pairSeed).run (fated pairSlotOf pairPrinter.texts seedOnly) givingNet =
        (.ok st, givingNet) ∧
      ∀ (cr : ValkeyCluster) (d : Desired),
        (Topology.decide d (summarize cr st)).kind = .repair := by
  have hseed : dialAddr pairSeed.host pairSeed.port = "10.0.0.1:6379" := by decide
  have hmarks : ∀ s id, (givingNet "10.0.0.1:6379").migrating s = some id ∨
      (givingNet "10.0.0.1:6379").importing s = some id → id = "b" := by
    intro s id hid
    simp only [givingNet, Net.modify_self, Server.setMigrating, pairNet, Function.update_apply] at hid
    grind
  have hsound : pairPrinter.Sound givingNet (dialAddr pairSeed.host pairSeed.port) := by
    rw [hseed]
    refine pairPrinter_sound (.inl (by decide)) fun s id hid => ?_
    rw [hmarks s id hid]
    exact noSpace_of_all rfl
  have horder : ∀ l : List Int, (id l).Perm l := fun l => .refl l
  have hinfo : seedOnly (.clusterInfo (dialAddr pairSeed.host pairSeed.port)) = .answered := by
    decide
  have hnodes : seedOnly (.clusterNodes (dialAddr pairSeed.host pairSeed.port)) = .answered := by
    decide
  have hpages : ∀ x, Reachable pairPrinter.texts seedOnly pairSeed givingNet x →
      pairPrinter.Sound givingNet x := by
    intro x hx
    have hans := hx.1
    simp only [seedOnly, ite_eq_left_iff, reduceCtorEq, imp_false, not_not] at hans
    rw [hans, ← hseed]
    exact hsound
  refine (state_observed horder hinfo hnodes hsound hpages).imp fun st hst =>
    ⟨hst.1, fun cr d => (hst.2.2.2 cr d).2.2 ⟨⟨0, mem_allSlots.2 (by decide), ?_⟩, .inr (.inl
      ⟨2, mem_allSlots.2 (by decide), ?_⟩)⟩⟩
  · decide
  · decide

end

end Valkeyop.Cluster
