import Valkeyop.Cluster.Parse

/-!
# Reading back what a server writes

The records of `CLUSTER NODES` as a server writes them, one to a line: eight fields, and
then, in any order, the slots the node owns and the markers of those in migration. The
parsers cut this text up in different ways. `parseNodes` goes by lines, and drops a token
that starts with a bracket; `parseOpenSlots` goes by fields of the whole text, and keeps
only those; `hasOpenSlots` does not cut it up at all and looks for an arrow, wherever it
may stand.
-/

namespace Valkeyop.Cluster

open Valkeyop.Lib.Text

/-- What follows the eight fields. -/
inductive SlotItem where
  | range (r : SlotRange)
  | migrating (slot : Nat) (id : String)
  | importing (slot : Nat) (id : String)
deriving DecidableEq, Repr

namespace SlotItem

def token : SlotItem → String
  | range r =>
      if r.start = r.stop then toString r.start else toString r.start ++ "-" ++ toString r.stop
  | migrating slot id => migratingField slot id
  | importing slot id => importingField slot id

def Valid : SlotItem → Prop
  | range r => 0 ≤ r.start ∧ r.start ≤ r.stop ∧ r.stop ≤ 16383
  | migrating slot id | importing slot id => slot ≤ 16383 ∧ ∀ c ∈ id.toList, isSpace c = false

/-- The slots that are owned. -/
def owned? : SlotItem → Option SlotRange
  | range r => some r
  | _ => none

/-- The slot that is in migration. -/
def marked? : SlotItem → Option Nat
  | range _ => none
  | migrating slot _ | importing slot _ => some slot

end SlotItem

/-- A record, as a server has it. -/
structure NodeLine where
  id : String
  addr : String
  flags : List String
  master : Option String
  ping : String
  pong : String
  epoch : String
  link : String
  items : List SlotItem
deriving DecidableEq, Repr

namespace NodeLine

/-- The eight fields. -/
def head (n : NodeLine) : List String :=
  [n.id, n.addr, ",".intercalate n.flags, n.master.getD "-", n.ping, n.pong, n.epoch, n.link]

def render (n : NodeLine) : String := " ".intercalate (n.head ++ n.items.map SlotItem.token)

/-- The fields are tokens that do not start with a bracket, no flag holds a comma, no
master is called like the lack of one. -/
structure Valid (n : NodeLine) : Prop where
  head : ∀ tok ∈ n.head, Token tok ∧ tok.toList.head? ≠ some '['
  flags : ∀ flag ∈ n.flags, ',' ∉ flag.toList
  master : n.master ≠ some "-"
  items : ∀ item ∈ n.items, item.Valid

def owned (n : NodeLine) : List SlotRange := n.items.filterMap SlotItem.owned?

def marked (n : NodeLine) : List Nat := n.items.filterMap SlotItem.marked?

/-- What is to be read. -/
def decoded (n : NodeLine) : NodeInfo :=
  let (ip, port, hostname) := parseAddr n.addr
  { id := n.id
    host := if hostname = "" then ip else hostname
    ip := ip
    port := port
    flags := n.flags
    masterID := n.master.getD ""
    slots := n.owned
    connected := n.link == "connected" }

end NodeLine

/-- The lines, with or without a newline after the last. -/
def renderNodes (nodes : List NodeLine) (terminated : Bool) : String :=
  "\n".intercalate (nodes.map NodeLine.render ++ if terminated then [""] else [])

/-! ## Slots and markers -/

section

variable {item : SlotItem} {r : SlotRange} {n : NodeLine} {nodes : List NodeLine}
  {terminated : Bool}

theorem head_of_all (h : n.head.all (fun tok =>
      decide (tok ≠ "" ∧ tok.toList.head? ≠ some '[') && tok.toList.all (!isSpace ·)) = true) :
    ∀ tok ∈ n.head, Token tok ∧ tok.toList.head? ≠ some '[' := by
  intro tok htok
  have htok := List.all_eq_true.1 h tok htok
  rw [Bool.and_eq_true, decide_eq_true_iff] at htok
  exact ⟨⟨htok.1.1, noSpace_of_all htok.2⟩, htok.1.2⟩

/-- A range is written with digits and at most a dash. -/
theorem token_range (h : (SlotItem.range r).Valid) :
    ∃ a b : Nat, r = ⟨a, b⟩ ∧ (SlotItem.range r).token =
      if a = b then toString a else toString a ++ "-" ++ toString b := by
  obtain ⟨a, ha⟩ := Int.eq_ofNat_of_zero_le h.1
  obtain ⟨b, hb⟩ := Int.eq_ofNat_of_zero_le (h.1.trans h.2.1)
  obtain ⟨start, stop⟩ := r
  simp only at ha hb
  subst ha hb
  refine ⟨a, b, rfl, ?_⟩
  simp only [SlotItem.token, Int.natCast_inj]
  rfl

theorem parseSlotToken_range (h : (SlotItem.range r).Valid) :
    parseSlotToken (SlotItem.range r).token = some (r.start, r.stop) := by
  obtain ⟨a, b, rfl, htoken⟩ := token_range h
  have ha : atoi (toString a) = some (a : Int) :=
    atoi_toString (slot_le_maxInt (h.2.1.trans h.2.2))
  have hb : atoi (toString b) = some (b : Int) := atoi_toString (slot_le_maxInt h.2.2)
  rw [htoken]
  by_cases hab : a = b
  · rw [if_pos hab, parseSlotToken, cut_eq_none (not_mem_toString (by decide))]
    simp only [hb, hab, Option.map_some]
  · have hcut : cut '-' (toString a ++ "-" ++ toString b) = some (toString a, toString b) :=
      cut_append (not_mem_toString (by decide))
    rw [if_neg hab, parseSlotToken, hcut]
    simp only [ha, hb]

theorem mem_token_range (h : (SlotItem.range r).Valid) {c : Char}
    (hc : c ∈ (SlotItem.range r).token.toList) : c.isDigit = true ∨ c = '-' := by
  obtain ⟨a, b, rfl, htoken⟩ := token_range h
  rw [htoken] at hc
  split at hc
  · exact .inl (isDigit_of_mem_toString hc)
  · simp only [String.toList_append, List.mem_append] at hc
    rcases hc with (hc | hc) | hc
    · exact .inl (isDigit_of_mem_toString hc)
    · exact .inr (List.mem_singleton.1 hc)
    · exact .inl (isDigit_of_mem_toString hc)

theorem head_token_range (h : (SlotItem.range r).Valid) :
    (SlotItem.range r).token.toList.head? ≠ some '[' := by
  intro hhead
  rcases mem_token_range h (List.mem_of_head? hhead) with hdigit | hdash
  · exact absurd hdigit (by decide)
  · exact absurd hdash (by decide)

theorem token_range_ne_empty (h : (SlotItem.range r).Valid) :
    (SlotItem.range r).token ≠ "" := by
  obtain ⟨a, b, rfl, htoken⟩ := token_range h
  intro hnil
  have hlist := congrArg String.toList (htoken.symm.trans hnil)
  split at hlist
  · exact toString_ne_nil a hlist
  · simp only [String.toList_append] at hlist
    exact toString_ne_nil a (List.append_eq_nil_iff.1 (List.append_eq_nil_iff.1 hlist).1).1

/-- A marker is a bracket, the digits of the slot, an arrow and a node ID. -/
theorem space_marker {slot : Nat} {id arrow : String}
    (harrow : ∀ c ∈ arrow.toList, isSpace c = false) (hid : ∀ c ∈ id.toList, isSpace c = false)
    {c : Char} (hc : c ∈ ("[" ++ toString slot ++ arrow ++ id ++ "]").toList) :
    isSpace c = false := by
  simp only [String.toList_append, List.mem_append] at hc
  rcases hc with (((hc | hc) | hc) | hc) | hc
  · rw [List.mem_singleton.1 hc]
    rfl
  · exact isSpace_digit (isDigit_of_mem_toString hc)
  · exact harrow c hc
  · exact hid c hc
  · rw [List.mem_singleton.1 hc]
    rfl

theorem SlotItem.Valid.token (h : item.Valid) : Token item.token := by
  cases item with
  | range r =>
      refine ⟨token_range_ne_empty h, fun c hc => ?_⟩
      rcases mem_token_range h hc with hdigit | rfl
      · exact isSpace_digit hdigit
      · rfl
  | migrating slot id =>
      refine ⟨fun hnil => ?_, fun c => space_marker (noSpace_of_all rfl) h.2⟩
      exact absurd (congrArg String.toList hnil) (by simp [SlotItem.token, migratingField])
  | importing slot id =>
      refine ⟨fun hnil => ?_, fun c => space_marker (noSpace_of_all rfl) h.2⟩
      exact absurd (congrArg String.toList hnil) (by simp [SlotItem.token, importingField])

/-- The ranges are read, and the markers dropped. -/
theorem parseSlots_items {items : List SlotItem} (h : ∀ item ∈ items, item.Valid) :
    parseSlots (items.map SlotItem.token) = items.filterMap SlotItem.owned? := by
  rw [parseSlots, List.filterMap_map]
  refine List.filterMap_congr fun item hitem => ?_
  simp only [Function.comp_apply]
  cases item with
  | range r =>
      rw [if_neg (head_token_range (h _ hitem)), parseSlotToken_range (h _ hitem)]
      rfl
  | migrating slot id => exact if_pos (by simp [SlotItem.token, migratingField])
  | importing slot id => exact if_pos (by simp [SlotItem.token, importingField])

theorem markedSlot_eq_none {s : String} (h : s.toList.head? ≠ some '[') : markedSlot s = none := by
  unfold markedSlot
  split
  · next heq =>
      rw [heq] at h
      exact absurd rfl h
  · rfl

/-- The markers are read, and the ranges dropped. -/
theorem markedSlot_token (h : item.Valid) :
    markedSlot item.token = item.marked?.map Int.ofNat := by
  cases item with
  | range r => exact markedSlot_eq_none (head_token_range h)
  | migrating slot id =>
      exact markedSlot_migratingField (slot_le_maxInt (Int.ofNat_le.2 h.1)) id
  | importing slot id =>
      exact markedSlot_importingField (slot_le_maxInt (Int.ofNat_le.2 h.1)) id

/-! ## Lines -/

theorem NodeLine.Valid.tokens (h : n.Valid) :
    ∀ tok ∈ n.head ++ n.items.map SlotItem.token, Token tok := by
  intro tok htok
  rcases List.mem_append.1 htok with hhead | hitem
  · exact (h.head tok hhead).1
  · obtain ⟨item, hmem, rfl⟩ := List.mem_map.1 hitem
    exact (h.items item hmem).token

theorem NodeLine.Valid.fields_render (h : n.Valid) :
    fields n.render = n.head ++ n.items.map SlotItem.token :=
  fields_intercalate_tokens rfl rfl h.tokens

theorem NodeLine.Valid.newline (h : n.Valid) : '\n' ∉ n.render.toList := by
  intro hmem
  rcases mem_toList_intercalate rfl hmem with hspace | ⟨tok, htok, hmem⟩
  · exact absurd hspace (by decide)
  · exact absurd ((h.tokens tok htok).2 _ hmem) (by decide)

theorem NodeLine.Valid.parseNode_render (h : n.Valid) :
    parseNode (fields n.render) = some n.decoded := by
  have hflags : split ',' (",".intercalate n.flags) = n.flags := by
    refine split_intercalate rfl h.flags fun hnil => ?_
    have htoken := (h.head (",".intercalate n.flags) (by simp [NodeLine.head])).1.1
    exact htoken (by rw [hnil]; rfl)
  have hmaster : (if n.master.getD "-" = "-" then "" else n.master.getD "-") =
      n.master.getD "" := by
    cases hm : n.master with
    | none => rfl
    | some m => exact if_neg fun heq => h.master (hm.trans (congrArg some heq))
  rw [h.fields_render]
  simp only [NodeLine.head, List.cons_append, List.nil_append, parseNode, hflags, hmaster,
    parseSlots_items h.items, NodeLine.decoded, NodeLine.owned]

/-- What is not a line is empty. -/
theorem split_renderNodes (h : ∀ n ∈ nodes, n.Valid) (terminated : Bool) :
    ∃ rest, (∀ line ∈ rest, line = "") ∧
      split '\n' (renderNodes nodes terminated) = nodes.map NodeLine.render ++ rest := by
  have hempty : ∀ line ∈ (if terminated then [""] else [] : List String), line = "" := by
    cases terminated <;> simp
  by_cases hnil : nodes.map NodeLine.render ++ (if terminated then [""] else []) = []
  · refine ⟨[""], by simp, ?_⟩
    rw [renderNodes, hnil, (List.append_eq_nil_iff.1 hnil).1]
    rfl
  · refine ⟨if terminated then [""] else [], hempty, split_intercalate rfl ?_ hnil⟩
    intro line hline
    rcases List.mem_append.1 hline with hline | hline
    · obtain ⟨n, hn, rfl⟩ := List.mem_map.1 hline
      exact (h n hn).newline
    · rw [hempty line hline]
      exact List.not_mem_nil

theorem parseNodes_render (h : ∀ n ∈ nodes, n.Valid) (terminated : Bool) :
    parseNodes (renderNodes nodes terminated) = nodes.map NodeLine.decoded := by
  obtain ⟨rest, hrest, hsplit⟩ := split_renderNodes h terminated
  have hnone : rest.filterMap (fun line => parseNode (fields line)) = [] := by
    rw [List.filterMap_eq_nil_iff]
    intro line hline
    rw [hrest line hline]
    rfl
  rw [parseNodes, hsplit, List.filterMap_append, hnone, List.append_nil, List.filterMap_map,
    ← List.filterMap_eq_map']
  exact List.filterMap_congr fun n hn => (h n hn).parseNode_render

theorem slots_decoded (n : NodeLine) : n.decoded.slots = n.owned := by
  unfold NodeLine.decoded
  generalize parseAddr n.addr = address
  rfl

/-- The slots of a node are counted as they are listed. -/
theorem slotCount_decoded (h : n.Valid) :
    n.decoded.slotCount = (n.owned.flatMap SlotRange.slots).length := by
  rw [NodeInfo.slotCount, slots_decoded]
  refine (length_flatMap_slots _ fun r hr => ?_).symm
  obtain ⟨item, hitem, howned⟩ := List.mem_filterMap.1 hr
  have hvalid := h.items item hitem
  cases item with
  | range r' =>
      cases howned
      exact hvalid.2.1
  | migrating slot id => cases howned
  | importing slot id => cases howned

/-! ## The whole text -/

theorem fields_renderNodes (h : ∀ n ∈ nodes, n.Valid) (terminated : Bool) :
    fields (renderNodes nodes terminated) =
      nodes.flatMap fun n => n.head ++ n.items.map SlotItem.token := by
  have hnone : (if terminated then [""] else [] : List String).flatMap fields = [] := by
    cases terminated <;> rfl
  rw [renderNodes, fields_intercalate rfl rfl, List.flatMap_append, hnone, List.append_nil,
    List.flatMap_map]
  exact List.flatMap_congr fun n hn => (h n hn).fields_render

theorem mem_parseOpenSlots_render (h : ∀ n ∈ nodes, n.Valid) (terminated : Bool) (s : Int) :
    s ∈ parseOpenSlots (renderNodes nodes terminated) ↔
      ∃ n ∈ nodes, ∃ slot ∈ n.marked, s = (slot : Int) := by
  rw [parseOpenSlots, List.mem_dedup, fields_renderNodes h]
  simp only [List.mem_filterMap, List.mem_flatMap, List.mem_append, List.mem_map,
    NodeLine.marked]
  constructor
  · intro hs
    obtain ⟨tok, ⟨n, hn, htok⟩, hs⟩ := hs
    rcases htok with htok | ⟨item, hitem, rfl⟩
    · rw [markedSlot_eq_none ((h n hn).head tok htok).2] at hs
      cases hs
    · rw [markedSlot_token ((h n hn).items item hitem)] at hs
      obtain ⟨slot, hslot, rfl⟩ := Option.map_eq_some_iff.1 hs
      exact ⟨n, hn, slot, ⟨item, hitem, hslot⟩, rfl⟩
  · intro hs
    obtain ⟨n, hn, slot, ⟨item, hitem, hslot⟩, hs⟩ := hs
    refine ⟨item.token, ⟨n, hn, .inr ⟨item, hitem, rfl⟩⟩, ?_⟩
    rw [markedSlot_token ((h n hn).items item hitem), hslot, hs]
    rfl

/-- The text has an arrow. -/
def Arrow (s : String) : Prop := contains s "->-" = true ∨ contains s "-<-" = true

theorem arrow_token (h : item.Valid) : Arrow item.token ↔ item.marked?.isSome = true := by
  cases item with
  | range r =>
      refine ⟨fun harrow => ?_, fun hsome => nomatch hsome⟩
      simp only [Arrow, contains, decide_eq_true_iff] at harrow
      rcases harrow with harrow | harrow
      · have hchar : '>' ∈ (SlotItem.range r).token.toList := harrow.subset (by decide)
        exact absurd (mem_token_range h hchar) (by decide)
      · have hchar : '<' ∈ (SlotItem.range r).token.toList := harrow.subset (by decide)
        exact absurd (mem_token_range h hchar) (by decide)
  | migrating slot id =>
      refine ⟨fun _ => rfl, fun _ => .inl (decide_eq_true ?_)⟩
      refine ⟨("[" ++ toString slot).toList, (id ++ "]").toList, ?_⟩
      simp [SlotItem.token, migratingField]
  | importing slot id =>
      refine ⟨fun _ => rfl, fun _ => .inr (decide_eq_true ?_)⟩
      refine ⟨("[" ++ toString slot).toList, (id ++ "]").toList, ?_⟩
      simp [SlotItem.token, importingField]

/-- What is found in the text is found in a token of a line. -/
theorem contains_renderNodes (nodes : List NodeLine) (terminated : Bool) {sub : String}
    (hsub : sub ≠ "") (hline : '\n' ∉ sub.toList) (hspace : ' ' ∉ sub.toList) :
    contains (renderNodes nodes terminated) sub = true ↔
      ∃ n ∈ nodes, ∃ tok ∈ n.head ++ n.items.map SlotItem.token, contains tok sub = true := by
  have hempty : contains "" sub = false := by
    refine decide_eq_false fun hinfix => hsub (String.toList_inj.1 ?_)
    exact List.infix_nil.1 hinfix
  have hrender : ∀ n : NodeLine, contains n.render sub = true ↔
      ∃ tok ∈ n.head ++ n.items.map SlotItem.token, contains tok sub = true :=
    fun n => contains_intercalate rfl hsub hspace
  rw [renderNodes, contains_intercalate rfl hsub hline]
  constructor
  · intro ⟨line, hline, hfound⟩
    rcases List.mem_append.1 hline with hline | hline
    · obtain ⟨n, hn, rfl⟩ := List.mem_map.1 hline
      exact ⟨n, hn, (hrender n).1 hfound⟩
    · cases terminated with
      | false => cases hline
      | true =>
          rw [List.mem_singleton.1 hline, hempty] at hfound
          cases hfound
  · intro ⟨n, hn, hfound⟩
    exact ⟨n.render, List.mem_append_left _ (List.mem_map_of_mem hn), (hrender n).2 hfound⟩

theorem hasOpenSlots_render (h : ∀ n ∈ nodes, n.Valid) (terminated : Bool)
    (hhead : ∀ n ∈ nodes, ∀ tok ∈ n.head, ¬ Arrow tok) :
    hasOpenSlots (renderNodes nodes terminated) = true ↔ ∃ n ∈ nodes, n.marked ≠ [] := by
  rw [hasOpenSlots, Bool.or_eq_true,
    contains_renderNodes nodes terminated (by decide) (by decide) (by decide),
    contains_renderNodes nodes terminated (by decide) (by decide) (by decide)]
  constructor
  · intro hfound
    obtain ⟨n, hn, tok, htok, harrow⟩ : ∃ n ∈ nodes,
        ∃ tok ∈ n.head ++ n.items.map SlotItem.token, Arrow tok := by
      rcases hfound with ⟨n, hn, tok, htok, harrow⟩ | ⟨n, hn, tok, htok, harrow⟩
      · exact ⟨n, hn, tok, htok, .inl harrow⟩
      · exact ⟨n, hn, tok, htok, .inr harrow⟩
    rcases List.mem_append.1 htok with htok | hitem
    · exact absurd harrow (hhead n hn tok htok)
    · obtain ⟨item, hmem, rfl⟩ := List.mem_map.1 hitem
      obtain ⟨slot, hslot⟩ :=
        Option.isSome_iff_exists.1 ((arrow_token ((h n hn).items item hmem)).1 harrow)
      exact ⟨n, hn, List.ne_nil_of_mem (List.mem_filterMap.2 ⟨item, hmem, hslot⟩)⟩
  · intro ⟨n, hn, hmarked⟩
    obtain ⟨slot, hslot⟩ := List.exists_mem_of_ne_nil _ hmarked
    obtain ⟨item, hitem, hslot⟩ := List.mem_filterMap.1 hslot
    have htok : item.token ∈ n.head ++ n.items.map SlotItem.token :=
      List.mem_append_right _ (List.mem_map_of_mem hitem)
    have harrow := (arrow_token ((h n hn).items item hitem)).2 (by rw [hslot]; rfl)
    exact harrow.imp (fun h => ⟨n, hn, _, htok, h⟩) fun h => ⟨n, hn, _, htok, h⟩

theorem nodes_decoded (nodes : List NodeLine) (h : ∀ n ∈ nodes, n.Valid) (terminated : Bool) :
    parseNodes (renderNodes nodes terminated) = nodes.map NodeLine.decoded ∧
    (∀ n ∈ nodes, n.decoded.slotCount = (n.owned.flatMap SlotRange.slots).length) ∧
    (parseOpenSlots (renderNodes nodes terminated)).Nodup ∧
    (∀ s, s ∈ parseOpenSlots (renderNodes nodes terminated) ↔
      ∃ n ∈ nodes, ∃ slot ∈ n.marked, s = (slot : Int)) ∧
    ((∀ n ∈ nodes, ∀ tok ∈ n.head, ¬ Arrow tok) →
      (hasOpenSlots (renderNodes nodes terminated) = true ↔ ∃ n ∈ nodes, n.marked ≠ [])) :=
  ⟨parseNodes_render h terminated, fun n hn => slotCount_decoded (h n hn), List.nodup_dedup _,
    mem_parseOpenSlots_render h terminated, hasOpenSlots_render h terminated⟩

end

/-- A primary that is giving a slot away. -/
def migratingLine : NodeLine where
  id := "a1"
  addr := "10.0.0.1:6379@16379"
  flags := ["myself", "master"]
  master := none
  ping := "0"
  pong := "0"
  epoch := "1"
  link := "connected"
  items := [.range ⟨0, 780⟩, .migrating 781 "b2", .range ⟨900, 900⟩]

theorem valid_migratingLine : migratingLine.Valid where
  head := head_of_all (by decide +kernel)
  flags := by decide
  master := by decide
  items := by
    intro item hitem
    simp only [migratingLine, List.mem_cons, List.not_mem_nil, or_false] at hitem
    rcases hitem with rfl | rfl | rfl
    · exact ⟨by decide, by decide, by decide⟩
    · exact ⟨by decide, noSpace_of_all (by decide +kernel)⟩
    · exact ⟨by decide, by decide, by decide⟩

theorem nodes_decoded_migrating :
    parseNodes (renderNodes [migratingLine] true) = [migratingLine.decoded] ∧
      migratingLine.decoded.slotCount = 782 ∧
      (781 : Int) ∈ parseOpenSlots (renderNodes [migratingLine] true) := by
  have hvalid : ∀ n ∈ [migratingLine], n.Valid := by
    intro n hn
    rw [List.mem_singleton.1 hn]
    exact valid_migratingLine
  obtain ⟨hnodes, hcount, -, hopen, -⟩ := nodes_decoded [migratingLine] hvalid true
  have hcount := hcount migratingLine (List.mem_singleton_self _)
  refine ⟨hnodes, hcount.trans (by decide +kernel), (hopen 781).2 ?_⟩
  exact ⟨migratingLine, List.mem_singleton_self _, 781, by decide +kernel, rfl⟩

/-- An arrow in a flag is taken for a marker. -/
theorem flag_taken_for_marker :
    let n : NodeLine := ⟨"a1", "10.0.0.1:6379@16379", ["->-"], none, "0", "0", "1", "connected", []⟩
    n.Valid ∧ ¬ Arrow n.id ∧ ¬ Arrow n.addr ∧ n.marked = [] ∧
      hasOpenSlots (renderNodes [n] false) = true := by
  intro n
  have hvalid : n.Valid :=
    ⟨head_of_all (by decide +kernel), by decide, by decide, fun _ hitem => nomatch hitem⟩
  refine ⟨hvalid, ?_, ?_, rfl, by decide +kernel⟩
  · unfold Arrow
    decide +kernel
  · unfold Arrow
    decide +kernel

end Valkeyop.Cluster
