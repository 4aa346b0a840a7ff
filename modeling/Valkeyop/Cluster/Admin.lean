import Valkeyop.Cluster.Parse
import Valkeyop.Cluster.Valkey

/-!
# The production admin

`State`, `MoveSlots` and `RepairSlots` of `internal/cluster/goredis.go`, as the
commands they send. Everything else an `Admin` does is one command, or a
`valkey-cli` run inside a pod.

`MoveSlots` drains a slot in a loop that stops only on an empty batch or an
error, so it runs on fuel here: out of fuel it answers `none`, which stands for
"still moving keys" and is a place the operator can be stopped like any other.
-/

namespace Valkeyop.Cluster

open Valkeyop.Lib Valkeyop.Lib.Text

variable {κ : Type}

/-- The client of a node: by IP, or by host when no IP is known. -/
def clientFor (nd : NodeInfo) : String :=
  dialAddr (if nd.ip = "" then nd.host else nd.ip) nd.port

/-! ## Observing -/

/-- The open slots each reachable node reports about itself, one after the
other; a node that does not answer is passed over. -/
def openSlotsSeen : List NodeInfo → RpcProg κ (List Int)
  | [] => pure []
  | n :: rest => do
      if !n.connected || n.hasFlag "fail" || n.hasFlag "fail?" || n.hasFlag "noaddr" then
        openSlotsSeen rest
      else
        match ← clusterNodes (clientFor n) with
        | .error _ => openSlotsSeen rest
        | .ok raw => do
            let more ← openSlotsSeen rest
            pure (parseOpenSlots raw ++ more)

/-- Every open slot of the cluster, once. `order` is the order in which the Go
map of slots is ranged over. -/
def collectOpenSlots (order : List Int → List Int) (nodes : List NodeInfo) :
    RpcProg κ (List Int) := do
  let seen ← openSlotsSeen nodes
  pure (order seen.dedup)

def state (order : List Int → List Int) (seed : Endpoint) :
    RpcProg κ (Except String ClusterState) := do
  match ← clusterInfo (dialAddr seed.host seed.port) with
  | .error e => pure (.error ("cluster info: " ++ e))
  | .ok info =>
      match ← clusterNodes (dialAddr seed.host seed.port) with
      | .error e => pure (.error ("cluster nodes: " ++ e))
      | .ok nodesRaw => do
          let kv := parseInfo info
          let assigned := atoiValue (infoValue kv "cluster_slots_assigned")
          let nodes := parseNodes nodesRaw
          let seen ← collectOpenSlots order nodes
          pure (.ok {
            formed := infoValue kv "cluster_state" != "" && decide (0 < assigned)
            slotsCovered := infoValue kv "cluster_state" == "ok" && assigned == totalSlots
            openSlots := decide (0 < seen.length)
            nodes := nodes })

/-! ## Moving slots -/

/-- The inner loop of the slot selection: up to `k` slots from `s` on, while
fewer than `n` are selected. -/
def selectFrom (n : Int) : Nat → Int → List Int → List Int
  | 0, _, acc => acc
  | k + 1, s, acc =>
      if (acc.length : Int) < n then selectFrom n k (s + 1) (acc ++ [s]) else acc

/-- The first `n` slots of the ranges. -/
def selectSlots (n : Int) : List SlotRange → List Int → List Int
  | [], acc => acc
  | r :: rest, acc =>
      let acc' := selectFrom n r.size.toNat r.start acc
      if n ≤ (acc'.length : Int) then acc' else selectSlots n rest acc'

/-- `SETSLOT s NODE id` on every master, stopping at the first that fails. -/
def assignOwner (id : String) (s : Int) : List String → RpcProg κ (Except String Unit)
  | [] => pure (.ok ())
  | cl :: rest => do
      match ← setSlotNode cl s id with
      | .error e => pure (.error e)
      | .ok () => assignOwner id s rest

/-- Move a slot's keys in batches of 128 until the source has none. -/
def moveKeys (source target : NodeInfo) (s : Int) :
    Nat → RpcProg κ (Option (Except String Unit))
  | 0 => pure none
  | fuel + 1 => do
      match ← getKeysInSlot (clientFor source) s 128 with
      | .error e => pure (some (.error ("getkeysinslot " ++ toString s ++ ": " ++ e)))
      | .ok [] => pure (some (.ok ()))
      | .ok (k :: ks) =>
          match ← migrate (clientFor source) target.ip target.port (k :: ks) true with
          | .error e => pure (some (.error ("migrate slot " ++ toString s ++ ": " ++ e)))
          | .ok () => moveKeys source target s fuel

/-- The handshake and the key moves of a slot that holds keys. -/
def handOver (fuel : Nat) (source target : NodeInfo) (s : Int) :
    RpcProg κ (Option (Except String Unit)) := do
  match ← setSlotImporting (clientFor target) s source.id with
  | .error e => pure (some (.error ("setslot importing " ++ toString s ++ ": " ++ e)))
  | .ok () =>
      match ← setSlotMigrating (clientFor source) s target.id with
      | .error e => pure (some (.error ("setslot migrating " ++ toString s ++ ": " ++ e)))
      | .ok () => moveKeys source target s fuel

/-- One slot. An empty slot skips the handshake and goes straight to the
assignment. -/
def moveSlot (fuel : Nat) (source target : NodeInfo) (masterCls : List String) (s : Int) :
    RpcProg κ (Option (Except String Unit)) := do
  match ← getKeysInSlot (clientFor source) s 1 with
  | .error e => pure (some (.error ("getkeysinslot " ++ toString s ++ ": " ++ e)))
  | .ok probe => do
      let handed ← (if probe.isEmpty then pure (some (.ok ()))
        else handOver fuel source target s)
      match handed with
      | some (.ok ()) =>
          match ← assignOwner target.id s masterCls with
          | .error e => pure (some (.error ("setslot node " ++ toString s ++ ": " ++ e)))
          | .ok () => pure (some (.ok ()))
      | stopped => pure stopped

/-- The slots one after the other; the count is of those that were finished. -/
def moveEach (fuel : Nat) (source target : NodeInfo) (masterCls : List String) :
    List Int → Nat → RpcProg κ (Option (Nat × Option String))
  | [], moved => pure (some (moved, none))
  | s :: rest, moved => do
      match ← moveSlot fuel source target masterCls s with
      | none => pure none
      | some (.error e) => pure (some (moved, some e))
      | some (.ok ()) => moveEach fuel source target masterCls rest (moved + 1)

/-- The last node of the list with the given id. -/
def nodeByID (nodes : List NodeInfo) (id : String) : Option NodeInfo :=
  nodes.reverse.find? fun n => n.id == id

/-- The clients of the nodes the snapshot shows as primaries. -/
def masterClients (nodes : List NodeInfo) : List String :=
  (nodes.filter NodeInfo.isPrimary).map clientFor

def moveSlots (fuel : Nat) (seed : Endpoint) (fromNodeID toNodeID : String) (n : Int) :
    RpcProg κ (Option (Nat × Option String)) := do
  if n ≤ 0 then pure (some (0, none)) else
  match ← clusterNodes (dialAddr seed.host seed.port) with
  | .error e => pure (some (0, some e))
  | .ok nodesRaw =>
      let nodes := parseNodes nodesRaw
      match nodeByID nodes fromNodeID, nodeByID nodes toNodeID with
      | some source, some target =>
          moveEach fuel source target (masterClients nodes)
            (selectSlots n source.slots []) 0
      | _, _ => pure (some (0, some "move slots: from/to node not found"))

/-! ## Repairing slots -/

/-- The first node listed with a range that holds the slot. -/
def ownerOf (nodes : List NodeInfo) (slot : Int) : Option NodeInfo :=
  nodes.find? fun n => n.slots.any fun r => decide (r.start ≤ slot ∧ slot ≤ r.stop)

/-- Migrate the listed keys to the owner one by one; a failure is ignored. -/
def migrateStrays (cl : String) (owner : NodeInfo) : List κ → RpcProg κ Unit
  | [] => pure ()
  | k :: ks => do
      let _ ← migrate cl owner.ip owner.port [k] false
      migrateStrays cl owner ks

/-- Collect the strays of a slot from every other primary with a known IP, at
most 1000 keys from each. -/
def collectStrays (owner : NodeInfo) (slot : Int) : List NodeInfo → RpcProg κ Unit
  | [] => pure ()
  | n :: rest => do
      if n.id = owner.id ∨ n.ip = "" ∨ n.isPrimary = false then
        collectStrays owner slot rest
      else do
        let keys ← getKeysInSlot (dialAddr n.ip n.port) slot 1000
        migrateStrays (dialAddr n.ip n.port) owner (keys.toOption.getD [])
        collectStrays owner slot rest

/-- Clear the markers and assert the owner on every primary; failures are
ignored. -/
def assertOwner (owner : NodeInfo) (slot : Int) : List NodeInfo → RpcProg κ Unit
  | [] => pure ()
  | n :: rest => do
      if n.isPrimary then do
        let _ ← setSlotStable (clientFor n) slot
        let _ ← setSlotNode (clientFor n) slot owner.id
        assertOwner owner slot rest
      else assertOwner owner slot rest

/-- The open slots one after the other, counting those that have an owner with
a known IP. -/
def repairEach (nodes : List NodeInfo) : List Int → Nat → RpcProg κ Nat
  | [], repaired => pure repaired
  | slot :: rest, repaired =>
      match ownerOf nodes slot with
      | none => repairEach nodes rest repaired
      | some owner => do
          if owner.ip = "" then repairEach nodes rest repaired
          else do
            collectStrays owner slot nodes
            assertOwner owner slot nodes
            repairEach nodes rest (repaired + 1)

def repairSlots (order : List Int → List Int) (seed : Endpoint) :
    RpcProg κ (Nat × Option String) := do
  match ← clusterNodes (dialAddr seed.host seed.port) with
  | .error e => pure (0, some e)
  | .ok nodesRaw => do
      let nodes := parseNodes nodesRaw
      let seen ← collectOpenSlots order nodes
      if seen.isEmpty then pure (0, none)
      else do
        let repaired ← repairEach nodes seen 0
        pure (repaired, none)

/-! ## Where a move stands after its first command -/

section

variable {S : Type} {h : Handler (Rpc κ) Rpc.Reply S} {fuel : Nat} {seed : Endpoint}
  {fromNodeID toNodeID : String} {n : Int} {raw : String} {nodes : List NodeInfo}
  {source target : NodeInfo} {s : S}

theorem moveSlots_after (hn : 0 < n)
    (hraw : h (Rpc.clusterNodes (dialAddr seed.host seed.port)) s = (Except.ok raw, s))
    (hnodes : parseNodes raw = nodes) (hsource : nodeByID nodes fromNodeID = some source)
    (htarget : nodeByID nodes toNodeID = some target) (m : Nat) :
    (moveSlots fuel seed fromNodeID toNodeID n).after h (m + 1) s =
      (moveEach fuel source target (masterClients nodes) (selectSlots n source.slots [])
        0).after h m s := by
  rw [moveSlots, if_neg (by omega)]
  refine (Prog.after_op_bind h m _ _ s).trans ?_
  rw [hraw]
  simp only [hnodes, hsource, htarget]

theorem moveSlots_step {E : S → S → Prop} {H : Service (Rpc κ) Rpc.Reply S} (hn : 0 < n)
    (hraw : H (Rpc.clusterNodes (dialAddr seed.host seed.port)) s (Except.ok raw) s)
    (hnodes : parseNodes raw = nodes) (hsource : nodeByID nodes fromNodeID = some source)
    (htarget : nodeByID nodes toNodeID = some target) :
    Prog.Step E H (moveSlots fuel seed fromNodeID toNodeID n, s)
      (moveEach fuel source target (masterClients nodes) (selectSlots n source.slots []) 0,
        s) := by
  rw [moveSlots, if_neg (by omega)]
  exact Prog.Step.op_bind hraw (by simp only [hnodes, hsource, htarget])

end

/-! ## Two servers

The smallest cluster a slot can move in, for the concrete runs: `a` owns slot 0
and `b` owns slot 1, a key is its own slot, and `held` are the keys of `a`. -/

def pairNet (held : AList fun _ : Nat => String) : Net Nat String := fun x =>
  { id := if x = "10.0.0.1:6379" then "a" else if x = "10.0.0.2:6379" then "b" else "@" ++ x
    store := if x = "10.0.0.1:6379" then held else ∅
    owner := fun s => if s = 0 then some "a" else if s = 1 then some "b" else none
    migrating := fun _ => none
    importing := fun _ => none }

def pairSlotOf (k : Nat) : Int := k

def pairA : NodeInfo :=
  ⟨"a", "10.0.0.1", "10.0.0.1", 6379, ["myself", "master"], "", [⟨0, 0⟩], true⟩

def pairB : NodeInfo :=
  ⟨"b", "10.0.0.2", "10.0.0.2", 6379, ["master"], "", [⟨1, 1⟩], true⟩

def pairSeed : Endpoint := ⟨"10.0.0.1", 6379, "cluster-shard-0-0", "default"⟩

def pairLineA : String := "a 10.0.0.1:6379@16379 myself,master - 0 0 1 connected 0"

def pairLineB : String := "b 10.0.0.2:6379@16379 master - 0 0 2 connected 1"

/-- Servers that list the two nodes in the given order, whatever happens. -/
def pairTexts (first second : String) : Texts Nat String where
  info _ _ := "cluster_state:ok"
  nodes _ _ := first ++ "\n" ++ second

/-- The line is read as the node. -/
structure Lists (line : String) (n : NodeInfo) : Prop where
  newline : '\n' ∉ line.toList
  node : parseNode (fields line) = some n

theorem lists_pairLineA : Lists pairLineA pairA :=
  ⟨not_mem_literal (by decide), by decide +kernel⟩

theorem lists_pairLineB : Lists pairLineB pairB :=
  ⟨not_mem_literal (by decide), by decide +kernel⟩

theorem parseNodes_lines {first second : String} {m n : NodeInfo} (hm : Lists first m)
    (hn : Lists second n) (net : Net Nat String) (x : String) :
    parseNodes ((pairTexts first second).nodes net x) = [m, n] := by
  have htext : (pairTexts first second).nodes net x = "\n".intercalate [first, second] := by
    rw [String.intercalate_cons_cons, String.intercalate_singleton]
    rfl
  have hlines : ∀ s ∈ [first, second], '\n' ∉ s.toList := by
    simp only [List.mem_cons, List.not_mem_nil, or_false, forall_eq_or_imp, forall_eq]
    exact ⟨hm.newline, hn.newline⟩
  rw [htext, parseNodes_intercalate hlines (by simp)]
  simp [hm.node, hn.node]

theorem parseNodes_pair (net : Net Nat String) (x : String) :
    parseNodes ((pairTexts pairLineA pairLineB).nodes net x) = [pairA, pairB] :=
  parseNodes_lines lists_pairLineA lists_pairLineB net x

/-- The listing read the other way round. -/
theorem parseNodes_pair_swapped (net : Net Nat String) (x : String) :
    parseNodes ((pairTexts pairLineB pairLineA).nodes net x) = [pairB, pairA] :=
  parseNodes_lines lists_pairLineB lists_pairLineA net x

end Valkeyop.Cluster
