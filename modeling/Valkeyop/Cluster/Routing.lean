import Valkeyop.Proofs.SingleWriter

/-!
# How clients find a key

A client knows some server and asks it. A server answers for the slots it owns in its own
view; while it migrates a slot it sends the client on for the keys it no longer holds, and
the node that imports the slot answers for them if the client says it was sent. Whoever
does not own the slot names the owner it knows.

`Live` is a set of servers with the clients' side of the story: the value of each key that
the last accepted write left. A redirect is followed at once, so a request takes effect
when a server accepts it.
-/

namespace Valkeyop.Cluster

open Valkeyop.Lib

variable {κ ν : Type}

/-! ## Asking a server -/

inductive Answer (ν : Type) where
  | found (v : ν)
  | missing
  /-- Another node owns the slot. -/
  | moved (id : String)
  /-- Another node has the key, if anybody has. -/
  | ask (id : String)
  /-- Nobody is known to own the slot. -/
  | down

variable [DecidableEq κ] (slotOf : κ → Int)

/-- The answer about a key the server would know. -/
def Server.holding (v : Server κ ν) (k : κ) : Answer ν :=
  match v.get k with
  | some x => .found x
  | none => .missing

/-- A read of `k`, by a client that was sent here by an `ASK` or not. -/
def Server.reply (v : Server κ ν) (asking : Bool) (k : κ) : Answer ν :=
  if v.owner (slotOf k) = some v.id then
    match v.get k, v.migrating (slotOf k) with
    | none, some id => .ask id
    | _, _ => v.holding k
  else if asking = true ∧ v.importing (slotOf k) ≠ none then v.holding k
  else
    match v.owner (slotOf k) with
    | some id => .moved id
    | none => .down

/-- Follow the redirects, `hops` requests at most; `addrOf` is where a node listens. -/
def fetch (addrOf : String → String) (net : Net κ ν) (k : κ) :
    Nat → String → Bool → Option (Option ν)
  | 0, _, _ => none
  | hops + 1, x, asking =>
      match (net x).reply slotOf asking k with
      | .found v => some (some v)
      | .missing => some none
      | .moved id => fetch addrOf net k hops (addrOf id) false
      | .ask id => fetch addrOf net k hops (addrOf id) true
      | .down => none

variable {slotOf}

theorem fetch_more {addrOf : String → String} {net : Net κ ν} {k : κ} {v : Option ν} :
    ∀ {hops : Nat} {x : String} {asking : Bool},
      fetch slotOf addrOf net k hops x asking = some v →
      fetch slotOf addrOf net k (hops + 1) x asking = some v := by
  intro hops
  induction hops with
  | zero => intro x asking h; cases h
  | succ hops ih =>
      intro x asking h
      rw [fetch] at h ⊢
      revert h
      cases (net x).reply slotOf asking k with
      | found y => exact fun h => h
      | missing => exact fun h => h
      | moved id => exact fun h => ih h
      | ask id => exact fun h => ih h
      | down => exact fun h => h

theorem fetch_holding {addrOf : String → String} {net : Net κ ν} {k : κ} {hops : Nat} {x : String}
    {asking : Bool} (h : (net x).reply slotOf asking k = (net x).holding k) :
    fetch slotOf addrOf net k (hops + 1) x asking = some ((net x).get k) := by
  rw [fetch, h, Server.holding]
  cases (net x).get k with
  | none => rfl
  | some y => rfl

theorem fetch_moved {addrOf : String → String} {net : Net κ ν} {k : κ} {hops : Nat} {x id : String}
    (howner : (net x).owner (slotOf k) = some id) (hid : id ≠ (net x).id) :
    fetch slotOf addrOf net k (hops + 1) x false =
      fetch slotOf addrOf net k hops (addrOf id) false := by
  have hne : (net x).owner (slotOf k) ≠ some (net x).id := by
    rw [howner]
    exact fun h => hid (Option.some.inj h)
  rw [fetch, Server.reply, if_neg hne, if_neg (fun h => absurd h.1 (by simp)), howner]

theorem fetch_ask {addrOf : String → String} {net : Net κ ν} {k : κ} {hops : Nat} {x id : String}
    (howns : (net x).owner (slotOf k) = some (net x).id) (hget : (net x).get k = none)
    (hmig : (net x).migrating (slotOf k) = some id) :
    fetch slotOf addrOf net k (hops + 1) x false =
      fetch slotOf addrOf net k hops (addrOf id) true := by
  rw [fetch, Server.reply, if_pos howns, hget, hmig]

variable (slotOf)

/-! ## Clients that read and write -/

/-- The servers, and what each key was last set to. -/
structure Live (κ ν : Type) where
  net : Net κ ν
  reg : κ → Option ν

namespace Live

/-- A write that was accepted at `x`. -/
def write (x : String) (k : κ) (v : ν) (l : Live κ ν) : Live κ ν where
  net := l.net.modify x (Server.put k v)
  reg := Function.update l.reg k (some v)

def delete (x : String) (k : κ) (l : Live κ ν) : Live κ ν where
  net := l.net.modify x (Server.drop k)
  reg := Function.update l.reg k none

/-- `y` sends a client on to `x` for this key, and `x` takes it. -/
def Asks (net : Net κ ν) (y x : String) (k : κ) : Prop :=
  (net y).owns (slotOf k) ∧ (net y).get k = none ∧
    (net y).migrating (slotOf k) = some (net x).id ∧ (net x).importing (slotOf k) ≠ none

/-- What clients do. A key is deleted only while a single server holds it: one that a broken
`MIGRATE` has left on both sides comes back when it is deleted on one of them. -/
inductive ClientOp : Live κ ν → Live κ ν → Prop
  | write {l : Live κ ν} {x : String} {k : κ} (v : ν) :
      (l.net x).accepts slotOf k → ClientOp l (l.write x k v)
  | delete {l : Live κ ν} {x : String} {k : κ} :
      (l.net x).accepts slotOf k → (∀ y, y ≠ x → (l.net y).get k = none) →
      ClientOp l (l.delete x k)
  | askWrite {l : Live κ ν} {y x : String} {k : κ} (v : ν) :
      Asks slotOf l.net y x k → ClientOp l (l.write x k v)
  | askDelete {l : Live κ ν} {y x : String} {k : κ} :
      Asks slotOf l.net y x k → ClientOp l (l.delete x k)

/-- Commands change servers, not what clients have written. -/
def served (H : Service (Rpc κ) Rpc.Reply (Net κ ν)) : Service (Rpc κ) Rpc.Reply (Live κ ν) :=
  fun c l r l' => H c l.net r l'.net ∧ l'.reg = l.reg

end Live

/-- Where the two nodes of the smallest cluster listen. -/
def pairAddr (id : String) : String := if id = "a" then clientFor pairA else clientFor pairB

end Valkeyop.Cluster
