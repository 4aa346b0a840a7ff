import Mathlib.Data.List.Dedup
import Valkeyop.Lib.Text
import Valkeyop.Cluster.Types

/-!
# Reading `CLUSTER INFO` and `CLUSTER NODES`

The parsers at the bottom of `internal/cluster/goredis.go`. A node line is

    <id> <ip:port@cport[,hostname]> <flags> <master> <ping> <pong> <epoch> <link> [slots...]

where a slot token is a number, a range, or a bracketed marker of a slot in
migration. `parseNodes` skips the markers, `parseOpenSlots` reads nothing else.
-/

namespace Valkeyop.Cluster

open Valkeyop.Lib.Text

def parseSlotToken (tok : String) : Option (Int × Int) :=
  match cut '-' tok with
  | some (lo, hi) =>
      match atoi lo, atoi hi with
      | some s, some e => some (s, e)
      | _, _ => none
  | none => (atoi tok).map fun s => (s, s)

/-- The ip, client port and announced hostname of `ip:port@cport[,hostname]`.
The ip ends at the first colon, and the error of a port that does not parse is
ignored. -/
def parseAddr (s : String) : String × Int × String :=
  let (s, hostname) := (cut ',' s).getD (s, "")
  let s := ((cut '@' s).map Prod.fst).getD s
  let (host, portStr) := (cut ':' s).getD (s, "")
  (host, atoiValue portStr, hostname)

/-- The slot ranges among a line's trailing tokens, markers skipped. -/
def parseSlots (toks : List String) : List SlotRange :=
  toks.filterMap fun tok =>
    if tok.toList.head? = some '[' then none
    else (parseSlotToken tok).map fun (s, e) => ⟨s, e⟩

/-- One line, already cut into fields; a line of fewer than eight is skipped. -/
def parseNode : List String → Option NodeInfo
  | id :: addr :: flags :: master :: _ :: _ :: _ :: link :: toks =>
      let (ip, port, hostname) := parseAddr addr
      some {
        id := id
        host := if hostname = "" then ip else hostname
        ip := ip
        port := port
        flags := split ',' flags
        masterID := if master = "-" then "" else master
        slots := parseSlots toks
        connected := link == "connected" }
  | _ => none

def parseNodes (s : String) : List NodeInfo :=
  (split '\n' s).filterMap fun line => parseNode (fields line)

/-- The slot number of a migration marker, `[781->-id]` or `[781-<-id]`. -/
def markedSlot (f : String) : Option Int :=
  match f.toList with
  | '[' :: body => atoi (String.ofList (body.takeWhile Char.isDigit))
  | _ => none

/-- The distinct slots with a migration marker anywhere in the text. -/
def parseOpenSlots (nodesRaw : String) : List Int :=
  ((fields nodesRaw).filterMap markedSlot).dedup

/-- Whether the text shows a slot in migration, by the arrow of a marker. -/
def hasOpenSlots (nodesRaw : String) : Bool :=
  contains nodesRaw "->-" || contains nodesRaw "-<-"

/-- The `key:value` lines of `CLUSTER INFO`, in order. -/
def parseInfo (s : String) : List (String × String) :=
  (split '\n' s).filterMap fun line => cut ':' (trimSpace line)

/-- The value a Go map built from the lines holds for `key`: the last line
wins, and a missing key reads as the empty string. -/
def infoValue (kv : List (String × String)) (key : String) : String :=
  ((kv.reverse.find? fun e => e.1 == key).map Prod.snd).getD ""

/-! ## Markers are found -/

/-- `[slot->-id]`, which a node shows on its own line for a slot it is
migrating. -/
def migratingField (slot : Nat) (id : String) : String :=
  "[" ++ toString slot ++ "->-" ++ id ++ "]"

/-- `[slot-<-id]`, for a slot it is importing. -/
def importingField (slot : Nat) (id : String) : String :=
  "[" ++ toString slot ++ "-<-" ++ id ++ "]"

/-- The number of a slot fits an `int`. -/
theorem slot_le_maxInt {s : Int} (h : s ≤ 16383) : s ≤ maxInt := Int.le_trans h (by decide)

/-- A slot printed after the bracket is read as far as its digits go. -/
theorem markedSlot_of_digits {f : String} {slot : Nat} (hslot : (slot : Int) ≤ maxInt)
    (rest : List Char) (hf : f.toList = '[' :: ((toString slot).toList ++ '-' :: rest)) :
    markedSlot f = some (slot : Int) := by
  rw [markedSlot, hf]
  simp only
  rw [takeWhile_digits slot (by decide), String.ofList_toList, atoi_toString hslot]

theorem markedSlot_migratingField {slot : Nat} (hslot : (slot : Int) ≤ maxInt) (id : String) :
    markedSlot (migratingField slot id) = some (slot : Int) :=
  markedSlot_of_digits hslot ('>' :: '-' :: (id.toList ++ [']'])) (by simp [migratingField])

theorem markedSlot_importingField {slot : Nat} (hslot : (slot : Int) ≤ maxInt) (id : String) :
    markedSlot (importingField slot id) = some (slot : Int) :=
  markedSlot_of_digits hslot ('<' :: '-' :: (id.toList ++ [']'])) (by simp [importingField])

theorem parseNodes_intercalate {lines : List String} (hlines : ∀ s ∈ lines, '\n' ∉ s.toList)
    (hne : lines ≠ []) :
    parseNodes ("\n".intercalate lines) = lines.filterMap fun line => parseNode (fields line) := by
  rw [parseNodes, split_intercalate rfl hlines hne]

theorem mem_parseOpenSlots {raw f : String} {s : Int} (hf : f ∈ fields raw)
    (hs : markedSlot f = some s) : s ∈ parseOpenSlots raw := by
  rw [parseOpenSlots, List.mem_dedup, List.mem_filterMap]
  exact ⟨f, hf, hs⟩

end Valkeyop.Cluster
