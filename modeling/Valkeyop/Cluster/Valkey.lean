import Mathlib.Data.List.AList
import Valkeyop.Lib.Prog
import Valkeyop.Cluster.Types

/-!
# Valkey servers, and the commands the operator sends them

What the operator's slot movers rely on of a Valkey server, and nothing more.
A server holds keys, and for each slot it has its own opinion of who owns it
and its own migration markers; no server learns anything from another here, so
nothing proved over this model leans on gossip.

`Valkey` says which replies a command may get and what it may leave behind.
Every command may fail, and a command that failed may still have been carried
out before its reply was lost. A failed `MIGRATE` may have moved some of its
keys, and copied others without removing them.
-/

namespace Valkeyop.Cluster

open Valkeyop.Lib

/-- The address a client dials. -/
def dialAddr (host : String) (port : Int) : String := host ++ ":" ++ toString port

/-- The commands of `go-redis` the slot movers use; every one is sent to the
server at `addr`. -/
inductive Rpc (κ : Type) where
  | clusterInfo (addr : String)
  | clusterNodes (addr : String)
  | getKeysInSlot (addr : String) (slot : Int) (count : Nat)
  | setSlotImporting (addr : String) (slot : Int) (source : String)
  | setSlotMigrating (addr : String) (slot : Int) (target : String)
  | setSlotStable (addr : String) (slot : Int)
  | setSlotNode (addr : String) (slot : Int) (owner : String)
  | migrate (addr : String) (host : String) (port : Int) (keys : List κ) (replace : Bool)

@[reducible] def Rpc.Reply {κ : Type} : Rpc κ → Type
  | .clusterInfo _ | .clusterNodes _ => Except String String
  | .getKeysInSlot .. => Except String (List κ)
  | .setSlotImporting .. | .setSlotMigrating .. | .setSlotStable .. | .setSlotNode ..
  | .migrate .. => Except String Unit

/-- A program that sends commands to Valkey servers. -/
abbrev RpcProg (κ : Type) := Prog (Rpc κ) Rpc.Reply

section Commands

variable {κ : Type}

def clusterInfo (addr : String) : RpcProg κ (Except String String) :=
  Prog.op (Rpc.clusterInfo addr)

def clusterNodes (addr : String) : RpcProg κ (Except String String) :=
  Prog.op (Rpc.clusterNodes addr)

def getKeysInSlot (addr : String) (slot : Int) (count : Nat) :
    RpcProg κ (Except String (List κ)) :=
  Prog.op (Rpc.getKeysInSlot addr slot count)

def setSlotImporting (addr : String) (slot : Int) (source : String) :
    RpcProg κ (Except String Unit) :=
  Prog.op (Rpc.setSlotImporting addr slot source)

def setSlotMigrating (addr : String) (slot : Int) (target : String) :
    RpcProg κ (Except String Unit) :=
  Prog.op (Rpc.setSlotMigrating addr slot target)

def setSlotStable (addr : String) (slot : Int) : RpcProg κ (Except String Unit) :=
  Prog.op (Rpc.setSlotStable addr slot)

def setSlotNode (addr : String) (slot : Int) (owner : String) :
    RpcProg κ (Except String Unit) :=
  Prog.op (Rpc.setSlotNode addr slot owner)

def migrate (addr : String) (host : String) (port : Int) (keys : List κ)
    (replace : Bool) : RpcProg κ (Except String Unit) :=
  Prog.op (Rpc.migrate addr host port keys replace)

end Commands

/-! ## Servers -/

/-- One Valkey server: its own id, the keys it holds, and its own view of each
slot. -/
structure Server (κ ν : Type) where
  id : String
  store : AList fun _ : κ => ν
  owner : Int → Option String
  migrating : Int → Option String
  importing : Int → Option String

/-- Every server, by the address it listens on. -/
abbrev Net (κ ν : Type) := String → Server κ ν

variable {κ ν : Type}

namespace Net

def modify (net : Net κ ν) (a : String) (f : Server κ ν → Server κ ν) : Net κ ν :=
  Function.update net a (f (net a))

@[simp] theorem modify_self (net : Net κ ν) (a : String) (f : Server κ ν → Server κ ν) :
    net.modify a f a = f (net a) := by
  rw [modify, Function.update_self]

theorem modify_of_ne (net : Net κ ν) {a x : String} (f : Server κ ν → Server κ ν)
    (hx : x ≠ a) : net.modify a f x = net x := by
  rw [modify, Function.update_of_ne hx]

/-- What a change leaves alone on the server it is made on, it leaves alone
everywhere. -/
theorem modify_proj {β : Type} (g : Server κ ν → β) (f : Server κ ν → Server κ ν)
    {net : Net κ ν} (hf : ∀ v, g (f v) = g v) (x y : String) :
    g (net.modify x f y) = g (net y) := by
  by_cases h : y = x
  · subst h
    rw [modify_self, hf]
  · rw [modify_of_ne _ _ h]

/-- Only the stores differ: every server has the same id and the same view of
every slot. -/
def SameViews (net net' : Net κ ν) : Prop :=
  ∀ x, ∃ st, net' x = { net x with store := st }

theorem SameViews.refl (net : Net κ ν) : SameViews net net := fun x => ⟨(net x).store, rfl⟩

theorem SameViews.trans {net₁ net₂ net₃ : Net κ ν} (h₁ : SameViews net₁ net₂)
    (h₂ : SameViews net₂ net₃) : SameViews net₁ net₃ := by
  intro x
  obtain ⟨st₁, hst₁⟩ := h₁ x
  obtain ⟨st₂, hst₂⟩ := h₂ x
  exact ⟨st₂, by rw [hst₂, hst₁]⟩

theorem sameViews_modify (net : Net κ ν) (x : String) {f : Server κ ν → Server κ ν}
    (hf : ∀ v, ∃ st, f v = { v with store := st }) : SameViews net (net.modify x f) := by
  intro y
  by_cases hy : y = x
  · subst hy
    rw [modify_self]
    exact hf _
  · rw [modify_of_ne _ _ hy]
    exact ⟨_, rfl⟩

theorem SameViews.owner {net net' : Net κ ν} (h : SameViews net net') (x : String) :
    (net' x).owner = (net x).owner := by
  obtain ⟨st, hst⟩ := h x
  rw [hst]

end Net

variable [DecidableEq κ]

namespace Server

/-- The keys of a slot a server holds. -/
def keysIn (slotOf : κ → Int) (v : Server κ ν) (s : Int) : List κ :=
  v.store.keys.filter fun k => slotOf k = s

def get (v : Server κ ν) (k : κ) : Option ν := v.store.lookup k

def put (k : κ) (x : ν) (v : Server κ ν) : Server κ ν :=
  { v with store := v.store.insert k x }

def drop (k : κ) (v : Server κ ν) : Server κ ν :=
  { v with store := v.store.erase k }

/-- A migration marker, either way. -/
def marked (v : Server κ ν) (s : Int) : Prop :=
  (v.migrating s).isSome ∨ (v.importing s).isSome

def setImporting (s : Int) (source : String) (v : Server κ ν) : Server κ ν :=
  { v with importing := Function.update v.importing s (some source) }

def setMigrating (s : Int) (target : String) (v : Server κ ν) : Server κ ν :=
  { v with migrating := Function.update v.migrating s (some target) }

def setStable (s : Int) (v : Server κ ν) : Server κ ν :=
  { v with
    migrating := Function.update v.migrating s none
    importing := Function.update v.importing s none }

/-- `SETSLOT s NODE x` records the owner and clears the server's own marker. -/
def setNode (s : Int) (x : String) (v : Server κ ν) : Server κ ν :=
  { v.setStable s with owner := Function.update v.owner s (some x) }

/-- An owner that still holds keys of a slot refuses to hand it over. -/
def refuses (slotOf : κ → Int) (v : Server κ ν) (s : Int) (x : String) : Prop :=
  v.owner s = some v.id ∧ x ≠ v.id ∧ v.keysIn slotOf s ≠ []

end Server

namespace Net

/-- `MIGRATE .. REPLACE` of one key that got as far as the target. -/
def copyKey (a b : String) (net : Net κ ν) (k : κ) : Net κ ν :=
  match (net a).get k with
  | none => net
  | some x => net.modify b (Server.put k x)

/-- `MIGRATE .. REPLACE` of one key; a key the source does not hold is passed
over. -/
def moveKey (a b : String) (net : Net κ ν) (k : κ) : Net κ ν :=
  (net.copyKey a b k).modify a (Server.drop k)

/-- What a failed `MIGRATE .. REPLACE` may have done: each key is untouched,
copied, or moved. -/
inductive MovedPart (a b : String) : List κ → Net κ ν → Net κ ν → Prop
  | nil (net : Net κ ν) : MovedPart a b [] net net
  | left {k : κ} {ks : List κ} {net net' : Net κ ν} :
      MovedPart a b ks net net' → MovedPart a b (k :: ks) net net'
  | copied {k : κ} {ks : List κ} {net net' : Net κ ν} :
      MovedPart a b ks (net.copyKey a b k) net' → MovedPart a b (k :: ks) net net'
  | moved {k : κ} {ks : List κ} {net net' : Net κ ν} :
      MovedPart a b ks (net.moveKey a b k) net' → MovedPart a b (k :: ks) net net'

/-- A `MIGRATE` that went through moved every key. -/
theorem MovedPart.all (a b : String) :
    ∀ (ks : List κ) (net : Net κ ν), MovedPart a b ks net (ks.foldl (moveKey a b) net)
  | [], net => .nil net
  | _ :: ks, _ => .moved (all a b ks _)

end Net

/-! ## What the commands do -/

/-- A command that is carried out only when `can`: acknowledged, it was; in
error, it may have been. -/
def Carried (can : Prop) (net done : Net κ ν) : Except String Unit → Net κ ν → Prop
  | .ok _, net' => can ∧ net' = done
  | .error _, net' => net' = net ∨ can ∧ net' = done

/-- What the servers print: the text of `CLUSTER INFO` and of `CLUSTER NODES`
at an address, as far as the operator can tell any function of the servers. -/
structure Texts (κ ν : Type) where
  info : Net κ ν → String → String
  nodes : Net κ ν → String → String

/-- The documented behaviour of the commands, each of which may fail. -/
def Valkey (slotOf : κ → Int) (texts : Texts κ ν) : Service (Rpc κ) Rpc.Reply (Net κ ν)
  | .clusterInfo a, net, r, net' => net' = net ∧ ∀ t, r = Except.ok t → t = texts.info net a
  | .clusterNodes a, net, r, net' => net' = net ∧ ∀ t, r = Except.ok t → t = texts.nodes net a
  | .getKeysInSlot a s c, net, r, net' =>
      net' = net ∧ ∀ l : List κ, r = Except.ok l →
        l.length ≤ c ∧ (∀ k ∈ l, k ∈ (net a).keysIn slotOf s) ∧
          (l = [] → (net a).keysIn slotOf s = [])
  | .setSlotImporting a s source, net, r, net' =>
      Carried True net (net.modify a (Server.setImporting s source)) r net'
  | .setSlotMigrating a s target, net, r, net' =>
      Carried True net (net.modify a (Server.setMigrating s target)) r net'
  | .setSlotStable a s, net, r, net' =>
      Carried True net (net.modify a (Server.setStable s)) r net'
  | .setSlotNode a s x, net, r, net' =>
      Carried (¬ (net a).refuses slotOf s x) net (net.modify a (Server.setNode s x)) r net'
  | .migrate a host port keys true, net, r, net' =>
      match r with
      | Except.ok _ => host ≠ "" ∧ net' = keys.foldl (Net.moveKey a (dialAddr host port)) net
      | Except.error _ =>
          net' = net ∨ host ≠ "" ∧ Net.MovedPart a (dialAddr host port) keys net net'
  | .migrate a host port keys false, net, r, net' =>
      Carried (host ≠ "" ∧ ∀ k ∈ keys, (net (dialAddr host port)).get k = none) net
        (keys.foldl (Net.moveKey a (dialAddr host port)) net) r net'

omit [DecidableEq κ] in
theorem Carried.cases {can : Prop} {net done net' : Net κ ν} {r : Except String Unit}
    (h : Carried can net done r net') :
    (∃ e, r = .error e) ∧ net' = net ∨ can ∧ net' = done := by
  cases r with
  | ok u => exact Or.inr h
  | error e =>
      rcases h with h | h
      · exact Or.inl ⟨⟨e, rfl⟩, h⟩
      · exact Or.inr h

/-- Acknowledged or not, `MIGRATE .. REPLACE` did some part of its work. -/
theorem Valkey.migrate_cases {slotOf : κ → Int} {texts : Texts κ ν} {a host : String}
    {port : Int} {keys : List κ} {net net' : Net κ ν} {r : Except String Unit}
    (h : Valkey slotOf texts (.migrate a host port keys true) net r net') :
    net' = net ∨ host ≠ "" ∧ Net.MovedPart a (dialAddr host port) keys net net' := by
  cases r with
  | ok u => exact Or.inr ⟨h.1, h.2 ▸ .all ..⟩
  | error e => exact h

instance (slotOf : κ → Int) (v : Server κ ν) (s : Int) (x : String) :
    Decidable (v.refuses slotOf s x) :=
  inferInstanceAs (Decidable (_ ∧ _ ∧ _))

/-- Servers that answer, and carry out what they can at once. -/
def prompt (slotOf : κ → Int) (texts : Texts κ ν) :
    Handler (Rpc κ) Rpc.Reply (Net κ ν)
  | .clusterInfo a, net => (Except.ok (texts.info net a), net)
  | .clusterNodes a, net => (Except.ok (texts.nodes net a), net)
  | .getKeysInSlot a s c, net =>
      if c = 0 then (Except.error "ERR Invalid number of keys", net)
      else (Except.ok (((net a).keysIn slotOf s).take c), net)
  | .setSlotImporting a s source, net =>
      (Except.ok (), net.modify a (Server.setImporting s source))
  | .setSlotMigrating a s target, net =>
      (Except.ok (), net.modify a (Server.setMigrating s target))
  | .setSlotStable a s, net => (Except.ok (), net.modify a (Server.setStable s))
  | .setSlotNode a s x, net =>
      if (net a).refuses slotOf s x then (Except.error "ERR Slot still holds keys", net)
      else (Except.ok (), net.modify a (Server.setNode s x))
  | .migrate a host port keys replace, net =>
      if host = "" then (Except.error "IOERR", net)
      else if replace = false ∧ ∃ k ∈ keys, (net (dialAddr host port)).get k ≠ none then
        (Except.error "BUSYKEY", net)
      else (Except.ok (), keys.foldl (Net.moveKey a (dialAddr host port)) net)

theorem prompt_valkey (slotOf : κ → Int) (texts : Texts κ ν) (c : Rpc κ) (net : Net κ ν) :
    Valkey slotOf texts c net (prompt slotOf texts c net).1
      (prompt slotOf texts c net).2 := by
  match c with
  | .clusterInfo a => exact ⟨rfl, fun t ht => (Except.ok.inj ht).symm⟩
  | .clusterNodes a => exact ⟨rfl, fun t ht => (Except.ok.inj ht).symm⟩
  | .getKeysInSlot a s c =>
      simp only [prompt]
      split
      · exact ⟨rfl, fun l hl => nomatch hl⟩
      · next hc =>
          refine ⟨rfl, fun l hl => ?_⟩
          obtain rfl := Except.ok.inj hl
          refine ⟨List.length_take_le .., fun k hk => List.mem_of_mem_take hk, fun hnil => ?_⟩
          rcases List.take_eq_nil_iff.1 hnil with h | h
          · exact absurd h hc
          · exact h
  | .setSlotImporting .. | .setSlotMigrating .. | .setSlotStable .. => exact ⟨trivial, rfl⟩
  | .setSlotNode a s x =>
      simp only [prompt]
      split
      · exact Or.inl rfl
      · next h => exact ⟨h, rfl⟩
  | .migrate a host port keys replace =>
      simp only [prompt]
      split
      · cases replace <;> exact Or.inl rfl
      · next hhost =>
          split
          · next h => obtain ⟨rfl, _⟩ := h; exact Or.inl rfl
          · next h =>
              cases replace with
              | true => exact ⟨hhost, rfl⟩
              | false =>
                  refine ⟨⟨hhost, fun k hk => ?_⟩, rfl⟩
                  by_contra hne
                  exact h ⟨rfl, k, hk, hne⟩

/-! ## Outcomes fixed in advance -/

/-- What becomes of a command: it is answered, it never arrives, or it is
carried out and its reply is lost. -/
inductive Fate where
  | answered
  | lost
  | unheard
deriving DecidableEq

/-- The reply of a command that failed on the way. -/
def Rpc.failed {κ : Type} : (c : Rpc κ) → c.Reply
  | .clusterInfo _ | .clusterNodes _ => Except.error "i/o timeout"
  | .getKeysInSlot .. => Except.error "i/o timeout"
  | .setSlotImporting .. | .setSlotMigrating .. | .setSlotStable .. | .setSlotNode ..
  | .migrate .. => Except.error "i/o timeout"

/-- Prompt servers behind a network that decides each command's fate. -/
def fated (slotOf : κ → Int) (texts : Texts κ ν) (fate : Rpc κ → Fate) :
    Handler (Rpc κ) Rpc.Reply (Net κ ν) := fun c net =>
  match fate c with
  | .answered => prompt slotOf texts c net
  | .lost => (c.failed, net)
  | .unheard => (c.failed, (prompt slotOf texts c net).2)

theorem fated_valkey (slotOf : κ → Int) (texts : Texts κ ν) (fate : Rpc κ → Fate)
    (c : Rpc κ) (net : Net κ ν) :
    Valkey slotOf texts c net (fated slotOf texts fate c net).1
      (fated slotOf texts fate c net).2 := by
  have hp := prompt_valkey slotOf texts c net
  unfold fated
  split
  · exact hp
  · match c with
    | .clusterInfo a | .clusterNodes a => exact ⟨rfl, fun t ht => nomatch ht⟩
    | .getKeysInSlot a s c => exact ⟨rfl, fun t ht => nomatch ht⟩
    | .setSlotImporting .. | .setSlotMigrating .. | .setSlotStable .. | .setSlotNode ..
    | .migrate _ _ _ _ true | .migrate _ _ _ _ false => exact Or.inl rfl
  · match c with
    | .clusterInfo a | .clusterNodes a => exact ⟨rfl, fun t ht => nomatch ht⟩
    | .getKeysInSlot a s c => exact ⟨hp.1, fun t ht => nomatch ht⟩
    | .setSlotImporting .. | .setSlotMigrating .. | .setSlotStable .. =>
        exact Or.inr ⟨trivial, rfl⟩
    | .setSlotNode a s x | .migrate a _ _ _ false =>
        rcases Carried.cases hp with ⟨_, h⟩ | h
        · exact Or.inl h
        · exact Or.inr h
    | .migrate _ _ _ _ true => exact Valkey.migrate_cases hp

/-! ## Small facts

What one update does to what the rest of the development reads: the key a
server holds under a name, and its view of a slot. -/

namespace Server

theorem mem_keysIn {slotOf : κ → Int} {v : Server κ ν} {s : Int} {k : κ} :
    k ∈ v.keysIn slotOf s ↔ v.get k ≠ none ∧ slotOf k = s := by
  rw [keysIn, List.mem_filter, decide_eq_true_eq, get, ← Option.isSome_iff_ne_none,
    AList.lookup_isSome]
  rfl

theorem keysIn_eq_nil {slotOf : κ → Int} {v : Server κ ν} {s : Int} :
    v.keysIn slotOf s = [] ↔ ∀ k, slotOf k = s → v.get k = none := by
  rw [List.eq_nil_iff_forall_not_mem]
  constructor
  · intro h k hk
    by_contra hne
    exact h k (mem_keysIn.2 ⟨hne, hk⟩)
  · intro h k hk
    obtain ⟨hne, hs⟩ := mem_keysIn.1 hk
    exact hne (h k hs)

@[simp] theorem get_put_self (k : κ) (x : ν) (v : Server κ ν) :
    (v.put k x).get k = some x := AList.lookup_insert _

theorem get_put_of_ne {j k : κ} (x : ν) (v : Server κ ν) (h : j ≠ k) :
    (v.put k x).get j = v.get j := AList.lookup_insert_ne h

@[simp] theorem get_drop_self (k : κ) (v : Server κ ν) : (v.drop k).get k = none :=
  AList.lookup_erase k _

theorem get_drop_of_ne {j k : κ} (v : Server κ ν) (h : j ≠ k) :
    (v.drop k).get j = v.get j := AList.lookup_erase_ne h

omit [DecidableEq κ] in
theorem importing_setImporting (v : Server κ ν) (s s' : Int) (x : String) :
    (v.setImporting s' x).importing s = if s = s' then some x else v.importing s :=
  Function.update_apply ..

omit [DecidableEq κ] in
theorem migrating_setMigrating (v : Server κ ν) (s s' : Int) (x : String) :
    (v.setMigrating s' x).migrating s = if s = s' then some x else v.migrating s :=
  Function.update_apply ..

omit [DecidableEq κ] in
theorem owner_setNode (v : Server κ ν) (s : Int) (x : String) :
    (v.setNode s x).owner s = some x :=
  Function.update_self ..

end Server

namespace Net

theorem get_modify {net : Net κ ν} {f : Server κ ν → Server κ ν}
    (hf : ∀ v, (f v).store = v.store) (x y : String) (k : κ) :
    (net.modify x f y).get k = (net y).get k := by
  rw [Server.get, Server.get, modify_proj Server.store f hf]

theorem copyKey_of_ne {a b x : String} (net : Net κ ν) (k : κ) (hb : x ≠ b) :
    net.copyKey a b k x = net x := by
  unfold copyKey
  cases (net a).get k with
  | none => rfl
  | some y => exact modify_of_ne net _ hb

theorem moveKey_of_ne {a b x : String} (net : Net κ ν) (k : κ) (ha : x ≠ a) (hb : x ≠ b) :
    net.moveKey a b k x = net x := by
  rw [moveKey, modify_of_ne _ _ ha, copyKey_of_ne net k hb]

/-- The source drops the key. -/
theorem moveKey_source {a b : String} (net : Net κ ν) (k : κ) (hab : a ≠ b) :
    net.moveKey a b k a = (net a).drop k := by
  rw [moveKey, modify_self, copyKey_of_ne _ _ hab]

theorem moveKey_target {a b : String} (net : Net κ ν) (k : κ) (hab : a ≠ b) :
    net.moveKey a b k b = net.copyKey a b k b := by
  rw [moveKey, modify_of_ne _ _ hab.symm]

theorem SameViews.copyKey (net : Net κ ν) (a b : String) (k : κ) :
    SameViews net (net.copyKey a b k) := by
  unfold Net.copyKey
  cases (net a).get k with
  | none => exact .refl net
  | some y => exact sameViews_modify net b fun _ => ⟨_, rfl⟩

theorem SameViews.moveKey (net : Net κ ν) (a b : String) (k : κ) :
    SameViews net (net.moveKey a b k) :=
  (SameViews.copyKey net a b k).trans (sameViews_modify _ a fun _ => ⟨_, rfl⟩)

theorem copyKey_target_get {a b : String} (net : Net κ ν) (k j : κ) :
    (net.copyKey a b k b).get j =
      if j = k ∧ (net a).get k ≠ none then (net a).get k else (net b).get j := by
  rw [copyKey]
  cases hk : (net a).get k with
  | none => simp
  | some x =>
      simp only [modify_self]
      by_cases hj : j = k
      · subst hj; simp
      · rw [Server.get_put_of_ne _ _ hj]; simp [hj]

end Net

/-! ## Views of one slot -/

/-- The server is the same, as far as the slot is concerned, but for its keys. -/
structure SameView (s : Int) (v v' : Server κ ν) : Prop where
  id : v'.id = v.id
  owner : v'.owner s = v.owner s
  migrating : v'.migrating s = v.migrating s
  importing : v'.importing s = v.importing s

omit [DecidableEq κ] in
theorem SameView.refl (s : Int) (v : Server κ ν) : SameView s v v := ⟨rfl, rfl, rfl, rfl⟩

omit [DecidableEq κ] in
theorem SameView.of_store (s : Int) {v v' : Server κ ν} (h : ∃ st, v' = { v with store := st }) :
    SameView s v v' := by
  obtain ⟨st, rfl⟩ := h
  exact ⟨rfl, rfl, rfl, rfl⟩

omit [DecidableEq κ] in
theorem Net.sameView_modify (net : Net κ ν) (s : Int) (x : String) {f : Server κ ν → Server κ ν}
    (hf : ∀ v, SameView s v (f v)) (y : String) : SameView s (net y) (net.modify x f y) := by
  by_cases hy : y = x
  · subst hy
    rw [Net.modify_self]
    exact hf _
  · rw [Net.modify_of_ne _ _ hy]
    exact .refl s _

end Valkeyop.Cluster
