import Valkeyop.Proofs.MoveSlotsKeys

/-!
# Who accepts a write while a slot moves

A node takes a write directly when its own view says it owns the slot, unless
it is migrating the slot and does not hold the key. `SETSLOT NODE` only ever
names the target, so besides the source the target is the only node that can
come to own a selected slot, and the whole question is whether the source has
been muted by the time the target is told.

The handshake mutes it: a migrating source without keys refuses every write,
and no client can change that. The assignment mutes it too, if it reaches the
source first. What is left is the empty slot, which skips the handshake: there
the order in which the masters are listed decides, and `moveSlots_two_writers`
is the listing that decides it the wrong way.
-/

namespace Valkeyop.Cluster

open Valkeyop.Lib Relation

variable {κ ν : Type}

/-! ## Owning a slot, and being muted -/

/-- The server's own view says the slot is its own. -/
def Server.owns (v : Server κ ν) (s : Int) : Prop := v.owner s = some v.id

/-- The server accepts no write to the slot, and no client can change that. -/
def Server.Muted (slotOf : κ → Int) (v : Server κ ν) (s : Int) : Prop :=
  ¬ v.owns s ∨ v.migrating s ≠ none ∧ v.keysIn slotOf s = []

/-- Muting survives a change that leaves the view alone and brings no key of
the slot. -/
theorem Server.Muted.of_store {slotOf : κ → Int} {v v' : Server κ ν} {s : Int}
    (h : v.Muted slotOf s) (hv : ∃ st, v' = { v with store := st })
    (hkeys : v.keysIn slotOf s = [] → v'.keysIn slotOf s = []) : v'.Muted slotOf s := by
  obtain ⟨st, rfl⟩ := hv
  rcases h with h | ⟨hmig, hempty⟩
  · exact Or.inl h
  · exact Or.inr ⟨hmig, hkeys hempty⟩

/-! ## The invariant -/

section

variable (slotOf : κ → Int) (sel : List Int) (a b : String) (net₀ : Net κ ν)

/-- Of the selected slots, only the source `a` and the target `b` are ever
owned by a server in its own view, and `b` owns one only once `a` is muted. -/
structure WriterInv (net : Net κ ν) : Prop where
  ids : ∀ x, (net x).id = (net₀ x).id
  owners : ∀ s ∈ sel, ∀ x, (net x).owns s → x = a ∨ x = b
  muted : ∀ s ∈ sel, (net b).owns s → (net a).Muted slotOf s
  importing : ∀ s ∈ sel, (net a).importing s = none

end

section

variable {slotOf : κ → Int} {sel : List Int} {a b : String} {net₀ net net' : Net κ ν}

/-- A change that leaves every owner as it was keeps the invariant, if it
leaves a muted source muted and a source that imports nothing alone. -/
theorem WriterInv.of_owner (h : WriterInv slotOf sel a b net₀ net)
    (hid : ∀ x, (net' x).id = (net x).id) (hown : ∀ x, (net' x).owner = (net x).owner)
    (himp : (net' a).importing = (net a).importing)
    (hmuted : ∀ s ∈ sel, (net a).Muted slotOf s → (net' a).Muted slotOf s) :
    WriterInv slotOf sel a b net₀ net' := by
  have howns : ∀ x s, (net' x).owns s ↔ (net x).owns s := by
    intro x s
    rw [Server.owns, Server.owns, hown, hid]
  refine ⟨fun x => (hid x).trans (h.ids x), fun s hs x hx => ?_, fun s hs hb => ?_,
    fun s hs => ?_⟩
  · exact h.owners s hs x ((howns x s).1 hx)
  · exact hmuted s hs (h.muted s hs ((howns b s).1 hb))
  · rw [himp]
    exact h.importing s hs

theorem WriterInv.of_store (h : WriterInv slotOf sel a b net₀ net)
    (hv : Net.SameViews net net')
    (hmuted : ∀ s ∈ sel, (net a).Muted slotOf s → (net' a).Muted slotOf s) :
    WriterInv slotOf sel a b net₀ net' := by
  refine h.of_owner (fun x => ?_) hv.owner ?_ hmuted
  · obtain ⟨st, hst⟩ := hv x
    rw [hst]
  · obtain ⟨st, hst⟩ := hv a
    rw [hst]

theorem WriterInv.setImporting (h : WriterInv slotOf sel a b net₀ net) (hab : a ≠ b)
    (s : Int) (x : String) :
    WriterInv slotOf sel a b net₀ (net.modify b (Server.setImporting s x)) := by
  have ha : net.modify b (Server.setImporting s x) a = net a := Net.modify_of_ne _ _ hab
  exact h.of_owner (Net.modify_proj Server.id (Server.setImporting s x) (fun _ => rfl) b)
    (Net.modify_proj Server.owner (Server.setImporting s x) (fun _ => rfl) b) (by rw [ha])
    fun _ _ hm => by rwa [ha]

theorem WriterInv.setMigrating (h : WriterInv slotOf sel a b net₀ net)
    (s : Int) (x : String) :
    WriterInv slotOf sel a b net₀ (net.modify a (Server.setMigrating s x)) := by
  refine h.of_owner (Net.modify_proj Server.id (Server.setMigrating s x) (fun _ => rfl) a)
    (Net.modify_proj Server.owner (Server.setMigrating s x) (fun _ => rfl) a)
    (Net.modify_proj Server.importing (Server.setMigrating s x) (fun _ => rfl) a a)
    fun s' _ hm => ?_
  rw [Net.modify_self]
  rcases hm with hm | ⟨hmig, hempty⟩
  · exact Or.inl hm
  · refine Or.inr ⟨?_, hempty⟩
    by_cases hs : s' = s
    · subst hs
      simp [Server.setMigrating]
    · simpa [Server.setMigrating, hs] using hmig

/-- Telling a server that the target owns a slot mutes the source, if that
server is the source, and never wakes it. -/
theorem Server.Muted.setNode (hid : (net a).id ≠ (net₀ b).id) {s s' : Int} {m : String}
    (h : (net a).Muted slotOf s' ∨ m = a ∧ s' = s) :
    ((net.modify m (Server.setNode s (net₀ b).id)) a).Muted slotOf s' := by
  by_cases hm : a = m
  · subst hm
    rw [Net.modify_self]
    by_cases hs : s' = s
    · subst hs
      refine Or.inl fun hown => hid ?_
      simpa [Server.owns, Server.setNode, Server.setStable] using hown.symm
    · rcases h with (h | ⟨hmig, hempty⟩) | ⟨_, h⟩
      · refine Or.inl fun hown => h ?_
        simpa [Server.owns, Server.setNode, Server.setStable, hs] using hown
      · refine Or.inr ⟨?_, hempty⟩
        simpa [Server.setNode, Server.setStable, hs] using hmig
      · exact absurd h hs
  · rw [Net.modify_of_ne _ _ hm]
    rcases h with h | ⟨h, _⟩
    · exact h
    · exact absurd h.symm hm

/-- Telling a server that the target owns a slot keeps the invariant; if that
server is the target itself, the source has to be muted first. -/
theorem WriterInv.setNode (h : WriterInv slotOf sel a b net₀ net) (hab : a ≠ b)
    (hids : Function.Injective fun x => (net₀ x).id) {s : Int} {m : String}
    (hm : m = b → (net a).Muted slotOf s) :
    WriterInv slotOf sel a b net₀ (net.modify m (Server.setNode s (net₀ b).id)) := by
  have hid : (net a).id ≠ (net₀ b).id := fun heq => hab (hids ((h.ids a).symm.trans heq))
  -- The only server that can come to own the slot by this is the target.
  have howns : ∀ x s', ((net.modify m (Server.setNode s (net₀ b).id)) x).owns s' →
      (net x).owns s' ∨ x = b ∧ m = b ∧ s' = s := by
    intro x s' hx
    by_cases hxm : x = m
    · subst hxm
      rw [Net.modify_self] at hx
      by_cases hs : s' = s
      · subst hs
        have hbx : (net₀ b).id = (net x).id := by
          simpa [Server.owns, Server.setNode, Server.setStable] using hx
        have : b = x := hids (hbx.trans (h.ids x))
        exact Or.inr ⟨this.symm, this.symm, rfl⟩
      · exact Or.inl (by simpa [Server.owns, Server.setNode, Server.setStable, hs] using hx)
    · rw [Net.modify_of_ne _ _ hxm] at hx
      exact Or.inl hx
  refine ⟨fun x => ?_, fun s' hs' x hx => ?_, fun s' hs' hb => ?_, fun s' hs' => ?_⟩
  · rw [Net.modify_proj Server.id (Server.setNode s (net₀ b).id) fun _ => rfl]
    exact h.ids x
  · rcases howns x s' hx with hx | ⟨hx, _⟩
    · exact h.owners s' hs' x hx
    · exact Or.inr hx
  · refine Server.Muted.setNode hid (Or.inl ?_)
    rcases howns b s' hb with hb | ⟨_, hmb, rfl⟩
    · exact h.muted s' hs' hb
    · exact hm hmb
  · by_cases hma : a = m
    · subst hma
      rw [Net.modify_self]
      by_cases hs : s' = s
      · subst hs
        simp [Server.setNode, Server.setStable]
      · simpa [Server.setNode, Server.setStable, hs] using h.importing s' hs'
    · rw [Net.modify_of_ne _ _ hma]
      exact h.importing s' hs'

end

/-! ## Clients -/

variable [DecidableEq κ]

/-- The server takes a write to `k` without a redirect. -/
def Server.accepts (slotOf : κ → Int) (v : Server κ ν) (k : κ) : Prop :=
  v.owns (slotOf k) ∧ (v.migrating (slotOf k) = none ∨ v.get k ≠ none)

/-- What clients do meanwhile: they write and delete keys where they are
accepted, and follow `ASK` redirects to a node that imports the slot. -/
inductive Client (slotOf : κ → Int) : Net κ ν → Net κ ν → Prop
  | write {net : Net κ ν} {x : String} {k : κ} (v : ν) :
      (net x).accepts slotOf k → Client slotOf net (net.modify x (Server.put k v))
  | delete {net : Net κ ν} {x : String} {k : κ} :
      (net x).accepts slotOf k → Client slotOf net (net.modify x (Server.drop k))
  | askWrite {net : Net κ ν} {x y : String} {k : κ} (v : ν) :
      (net y).migrating (slotOf k) ≠ none → (net x).importing (slotOf k) ≠ none →
      Client slotOf net (net.modify x (Server.put k v))
  | askDelete {net : Net κ ν} {x y : String} {k : κ} :
      (net y).migrating (slotOf k) ≠ none → (net x).importing (slotOf k) ≠ none →
      Client slotOf net (net.modify x (Server.drop k))

theorem Client.sameViews {slotOf : κ → Int} {net net' : Net κ ν}
    (h : Client slotOf net net') : Net.SameViews net net' := by
  cases h with
  | write v _ => exact Net.sameViews_modify net _ fun _ => ⟨_, rfl⟩
  | delete _ => exact Net.sameViews_modify net _ fun _ => ⟨_, rfl⟩
  | askWrite v _ _ => exact Net.sameViews_modify net _ fun _ => ⟨_, rfl⟩
  | askDelete _ _ => exact Net.sameViews_modify net _ fun _ => ⟨_, rfl⟩

theorem Server.Muted.not_accepts {slotOf : κ → Int} {v : Server κ ν} {k : κ}
    (h : v.Muted slotOf (slotOf k)) : ¬ v.accepts slotOf k := by
  rintro ⟨hown, hacc⟩
  rcases h with h | ⟨hmig, hempty⟩
  · exact h hown
  · rcases hacc with h | h
    · exact hmig h
    · exact h (Server.keysIn_eq_nil.1 hempty k rfl)

theorem Net.keysIn_put {slotOf : κ → Int} {net : Net κ ν} {a x : String} {s : Int} {k : κ}
    (v : ν) (hk : a = x → slotOf k ≠ s) (h : (net a).keysIn slotOf s = []) :
    (net.modify x (Server.put k v) a).keysIn slotOf s = [] := by
  by_cases hx : a = x
  · subst hx
    rw [Net.modify_self]
    rw [Server.keysIn_eq_nil] at h ⊢
    intro j hj
    have hjk : j ≠ k := fun hjk => hk rfl (hjk ▸ hj)
    rw [Server.get_put_of_ne _ _ hjk]
    exact h j hj
  · rwa [Net.modify_of_ne _ _ hx]

theorem Net.keysIn_drop {slotOf : κ → Int} {net : Net κ ν} {a : String} {s : Int}
    (x : String) (k : κ) (h : (net a).keysIn slotOf s = []) :
    (net.modify x (Server.drop k) a).keysIn slotOf s = [] := by
  by_cases hx : a = x
  · subst hx
    rw [Net.modify_self]
    rw [Server.keysIn_eq_nil] at h ⊢
    intro j hj
    by_cases hjk : j = k
    · rw [hjk, Server.get_drop_self]
    · rw [Server.get_drop_of_ne _ hjk]
      exact h j hj
  · rwa [Net.modify_of_ne _ _ hx]

/-- Clients cannot wake a muted source that imports nothing. -/
theorem Client.muted {slotOf : κ → Int} {net net' : Net κ ν} {a : String} {s : Int}
    (hc : Client slotOf net net') (himp : (net a).importing s = none)
    (h : (net a).Muted slotOf s) : (net' a).Muted slotOf s := by
  refine h.of_store (hc.sameViews a) fun hempty => ?_
  cases hc with
  | write v hacc =>
      -- An accepted key is not one of the muted slot.
      exact Net.keysIn_put v (fun hx hks => (hks ▸ hx ▸ h).not_accepts (hx ▸ hacc)) hempty
  | delete _ => exact Net.keysIn_drop _ _ hempty
  | askWrite v _ hask =>
      exact Net.keysIn_put v (fun hx hks => hask (hks ▸ hx ▸ himp)) hempty
  | askDelete _ _ => exact Net.keysIn_drop _ _ hempty

/-- `MIGRATE` brings no key back to the source. -/
theorem Net.MovedPart.keysIn_source {slotOf : κ → Int} {a b : String} (hab : a ≠ b)
    {ks : List κ} {net net' : Net κ ν} (h : Net.MovedPart a b ks net net') {s : Int}
    (hempty : (net a).keysIn slotOf s = []) : (net' a).keysIn slotOf s = [] := by
  induction h with
  | nil net => exact hempty
  | left _ ih => exact ih hempty
  | copied _ ih => exact ih (by rwa [Net.copyKey_of_ne _ _ hab])
  | moved _ ih => exact ih (Net.keysIn_drop a _ (by rwa [Net.copyKey_of_ne _ _ hab]))

theorem Net.MovedPart.sameViews {a b : String} {ks : List κ} {net net' : Net κ ν}
    (h : Net.MovedPart a b ks net net') : Net.SameViews net net' := by
  induction h with
  | nil net => exact .refl net
  | left _ ih => exact ih
  | copied _ ih => exact Net.SameViews.trans (.copyKey _ _ _ _) ih
  | moved _ ih => exact Net.SameViews.trans (.moveKey _ _ _ _) ih

section

variable {slotOf : κ → Int} {sel : List Int} {a b : String} {net₀ net net' : Net κ ν}

theorem WriterInv.single (h : WriterInv slotOf sel a b net₀ net) {k : κ}
    (hk : slotOf k ∈ sel) {x y : String} (hx : (net x).accepts slotOf k)
    (hy : (net y).accepts slotOf k) : x = y := by
  have hmuted : (net b).accepts slotOf k → ¬ (net a).accepts slotOf k := fun hb =>
    (h.muted _ hk hb.1).not_accepts
  rcases h.owners _ hk x hx.1 with rfl | rfl <;> rcases h.owners _ hk y hy.1 with rfl | rfl
  · rfl
  · exact absurd hx (hmuted hy)
  · exact absurd hy (hmuted hx)
  · rfl

theorem WriterInv.client (h : WriterInv slotOf sel a b net₀ net)
    (hc : Client slotOf net net') : WriterInv slotOf sel a b net₀ net' :=
  h.of_store hc.sameViews fun s hs => hc.muted (h.importing s hs)

theorem WriterInv.movedPart (h : WriterInv slotOf sel a b net₀ net) (hab : a ≠ b)
    {ks : List κ} (hp : Net.MovedPart a b ks net net') :
    WriterInv slotOf sel a b net₀ net' :=
  h.of_store hp.sameViews fun _ _ hm =>
    hm.of_store (hp.sameViews a) (hp.keysIn_source hab)

end

/-! ## The commands of a move, among clients -/

/-- The probe that skips the handshake is safe: if the target is told before
the source, the slot is already marked as migrating on the source. -/
def ProbeOk (a b : String) (masters : List String) : (c : Rpc κ) → Net κ ν → c.Reply → Prop
  | .getKeysInSlot x s 1, net, r =>
      x = a → r = Except.ok [] → b ∈ masters.takeWhile (· ≠ a) → (net a).migrating s ≠ none
  | _, _, _ => True

/-- The servers, watched for as long as every probe is safe. -/
abbrev Probed (slotOf : κ → Int) (texts : Texts κ ν) (a b : String) (masters : List String) :
    Service (Rpc κ) Rpc.Reply (Net κ ν) :=
  (Valkey slotOf texts).restrict (ProbeOk a b masters)

section

variable {slotOf : κ → Int} {texts : Texts κ ν} {sel : List Int} {source target : NodeInfo}
  {masters : List String} {net₀ : Net κ ν}

/-- One command, from the invariant and an assertion clients cannot break. -/
theorem writer_op_bind {α : Type} {a b : String} {c : Rpc κ} {f : c.Reply → RpcProg κ α}
    {Q : α → Net κ ν → Prop} {net : Net κ ν} (X : Net κ ν → Prop)
    (h : WriterInv slotOf sel a b net₀ net) (hX : X net)
    (hstable : ∀ n n', WriterInv slotOf sel a b net₀ n → X n → Client slotOf n n' → X n')
    (hf : ∀ n r n', WriterInv slotOf sel a b net₀ n → X n → Valkey slotOf texts c n r n' →
      ProbeOk a b masters c n r →
      (f r).Wp (Client slotOf) (Probed slotOf texts a b masters)
        (fun _ => WriterInv slotOf sel a b net₀) Q n') :
    (Prog.op c >>= f).Wp (Client slotOf)
      (Probed slotOf texts a b masters)
      (fun _ => WriterInv slotOf sel a b net₀) Q net :=
  Prog.wp_call (fun n => WriterInv slotOf sel a b net₀ n ∧ X n) ⟨h, hX⟩
    (fun n n' hn hc => ⟨hn.1.client hc, hstable n n' hn.1 hn.2 hc⟩) (fun _ hn => hn.1)
    fun n r n' hn hr => hf n r n' hn.1 hn.2 hr.1 hr.2

theorem writer_pure {α : Type} {a b : String} {H : Service (Rpc κ) Rpc.Reply (Net κ ν)}
    {r : α} {Q : α → Net κ ν → Prop} {net : Net κ ν} (X : Net κ ν → Prop)
    (h : WriterInv slotOf sel a b net₀ net) (hX : X net)
    (hstable : ∀ n n', WriterInv slotOf sel a b net₀ n → X n → Client slotOf n n' → X n')
    (hQ : ∀ n, WriterInv slotOf sel a b net₀ n → X n → Q r n) :
    (pure r : RpcProg κ α).Wp (Client slotOf) H (fun _ => WriterInv slotOf sel a b net₀) Q
      net :=
  Prog.wp_ret (fun n => WriterInv slotOf sel a b net₀ n ∧ X n) ⟨h, hX⟩
    (fun n n' hn hc => ⟨hn.1.client hc, hstable n n' hn.1 hn.2 hc⟩) fun n hn => hQ n hn.1 hn.2

theorem Client.migrating {a : String} {s : Int} {net net' : Net κ ν}
    (hc : Client slotOf net net') (h : (net a).migrating s ≠ none) :
    (net' a).migrating s ≠ none := by
  obtain ⟨st, hst⟩ := hc.sameViews a
  rw [hst]
  exact h

section

variable (slotOf sel net₀)

/-- What the key moves of a slot leave behind: the invariant, and a muted
source `a` if they went through. -/
def SourceMuted (a b : String) (s : Int) (r : Option (Except String Unit)) (net : Net κ ν) :
    Prop :=
  WriterInv slotOf sel a b net₀ net ∧ (r = some (.ok ()) → (net a).Muted slotOf s)

end

theorem SourceMuted.stopped {a b : String} {s : Int}
    {H : Service (Rpc κ) Rpc.Reply (Net κ ν)} {r : Option (Except String Unit)}
    {net : Net κ ν} (hr : r ≠ some (.ok ())) (h : WriterInv slotOf sel a b net₀ net) :
    (pure r : RpcProg κ (Option (Except String Unit))).Wp (Client slotOf) H
      (fun _ => WriterInv slotOf sel a b net₀) (SourceMuted slotOf sel net₀ a b s) net :=
  writer_pure (fun _ => True) h trivial (fun _ _ _ _ _ => trivial)
    fun _ hn _ => ⟨hn, fun hok => absurd hok hr⟩

theorem SourceMuted.muted {a b : String} {s : Int} (hs : s ∈ sel)
    {H : Service (Rpc κ) Rpc.Reply (Net κ ν)} {net : Net κ ν}
    (h : WriterInv slotOf sel a b net₀ net) (hm : (net a).Muted slotOf s) :
    (pure (some (.ok ())) : RpcProg κ (Option (Except String Unit))).Wp (Client slotOf) H
      (fun _ => WriterInv slotOf sel a b net₀) (SourceMuted slotOf sel net₀ a b s) net :=
  writer_pure (fun n => (n a).Muted slotOf s) h hm
    (fun _ _ hn hm hc => hc.muted (hn.importing s hs) hm) fun _ hn hm => ⟨hn, fun _ => hm⟩

/-- The key loop of a slot that is marked on the source: once it reports the
slot empty, the source is muted. -/
theorem moveKeys_writer (hab : clientFor source ≠ clientFor target) {s : Int} (hs : s ∈ sel) :
    ∀ (fuel : Nat) (net : Net κ ν),
      WriterInv slotOf sel (clientFor source) (clientFor target) net₀ net →
      (net (clientFor source)).migrating s ≠ none →
      (moveKeys source target s fuel).Wp (Client slotOf)
        (Probed slotOf texts (clientFor source) (clientFor target) masters)
        (fun _ => WriterInv slotOf sel (clientFor source) (clientFor target) net₀)
        (SourceMuted slotOf sel net₀ (clientFor source) (clientFor target) s) net := by
  intro fuel
  induction fuel with
  | zero => exact fun net h _ => SourceMuted.stopped (by simp) h
  | succ fuel ih =>
      intro net h hmig
      refine writer_op_bind (fun n => (n (clientFor source)).migrating s ≠ none) h hmig
        (fun _ _ _ hm hc => hc.migrating hm) fun net₁ r net₂ h₁ hmig₁ hr _ => ?_
      obtain ⟨rfl, hr⟩ := hr
      match r with
      | .error e => exact SourceMuted.stopped (by simp) h₁
      | .ok [] => exact SourceMuted.muted hs h₁ (Or.inr ⟨hmig₁, (hr [] rfl).2.2 rfl⟩)
      | .ok (k :: ks) =>
          refine writer_op_bind (fun n => (n (clientFor source)).migrating s ≠ none) h₁ hmig₁
            (fun _ _ _ hm hc => hc.migrating hm) fun net₃ r₃ net₄ h₃ hmig₃ hr₃ _ => ?_
          have hpart : WriterInv slotOf sel (clientFor source) (clientFor target) net₀ net₄ ∧
              (net₄ (clientFor source)).migrating s ≠ none := by
            rcases Valkey.migrate_cases hr₃ with rfl | ⟨hip, hp⟩
            · exact ⟨h₃, hmig₃⟩
            · rw [← clientFor_of_ip hip] at hp
              obtain ⟨st, hst⟩ := hp.sameViews (clientFor source)
              exact ⟨h₃.movedPart hab hp, by rw [hst]; exact hmig₃⟩
          match r₃ with
          | .error e => exact SourceMuted.stopped (by simp) hpart.1
          | .ok () => exact ih net₄ hpart.1 hpart.2

theorem handOver_writer (hab : clientFor source ≠ clientFor target) {s : Int} (hs : s ∈ sel)
    (fuel : Nat) {net : Net κ ν}
    (h : WriterInv slotOf sel (clientFor source) (clientFor target) net₀ net) :
    (handOver fuel source target s).Wp (Client slotOf)
      (Probed slotOf texts (clientFor source) (clientFor target) masters)
      (fun _ => WriterInv slotOf sel (clientFor source) (clientFor target) net₀)
      (SourceMuted slotOf sel net₀ (clientFor source) (clientFor target) s) net := by
  refine writer_op_bind (fun _ => True) h trivial (fun _ _ _ _ _ => trivial)
    fun net₁ r net₂ h₁ _ hr _ => ?_
  match r with
  | .error e =>
      refine SourceMuted.stopped (by simp) ?_
      rcases hr with rfl | ⟨_, rfl⟩
      · exact h₁
      · exact h₁.setImporting hab s source.id
  | .ok () =>
      obtain ⟨-, rfl⟩ := hr
      refine writer_op_bind (fun _ => True) (h₁.setImporting hab s source.id) trivial
        (fun _ _ _ _ _ => trivial) fun net₃ r₃ net₄ h₃ _ hr₃ _ => ?_
      match r₃ with
      | .error e =>
          refine SourceMuted.stopped (by simp) ?_
          rcases hr₃ with rfl | ⟨_, rfl⟩
          · exact h₃
          · exact h₃.setMigrating s target.id
      | .ok () =>
          obtain ⟨-, rfl⟩ := hr₃
          refine moveKeys_writer hab hs fuel _ (h₃.setMigrating s target.id) ?_
          rw [Net.modify_self]
          simp [Server.setMigrating]

/-- The assignment loop: the source is muted already, or it is told before the
target. -/
theorem assignOwner_writer {a b : String} (hab : a ≠ b)
    (hids : Function.Injective fun x => (net₀ x).id) {s : Int} (hs : s ∈ sel) :
    ∀ (todo : List String) (net : Net κ ν), WriterInv slotOf sel a b net₀ net →
      ((net a).Muted slotOf s ∨ b ∉ todo.takeWhile (· ≠ a)) →
      (assignOwner (net₀ b).id s todo).Wp (Client slotOf)
        (Probed slotOf texts a b masters)
        (fun _ => WriterInv slotOf sel a b net₀)
        (fun _ => WriterInv slotOf sel a b net₀) net := by
  intro todo
  induction todo with
  | nil =>
      intro net h _
      exact writer_pure (fun _ => True) h trivial (fun _ _ _ _ _ => trivial) fun _ hn _ => hn
  | cons m todo ih =>
      intro net h hcond
      refine writer_op_bind
        (fun n => (n a).Muted slotOf s ∨ b ∉ (m :: todo).takeWhile (· ≠ a)) h hcond
        (fun _ _ hn hm hc => hm.imp_left (hc.muted (hn.importing s hs)))
        fun net₁ r net₂ h₁ hcond₁ hr _ => ?_
      have hm : m = b → (net₁ a).Muted slotOf s := by
        rintro rfl
        rcases hcond₁ with h | h
        · exact h
        · simp [hab.symm] at h
      have hid : (net₁ a).id ≠ (net₀ b).id := fun heq =>
        hab (hids ((h₁.ids a).symm.trans heq))
      match r with
      | .error e =>
          refine writer_pure (fun _ => True) ?_ trivial (fun _ _ _ _ _ => trivial)
            fun _ hn _ => hn
          rcases hr with rfl | ⟨_, rfl⟩
          · exact h₁
          · exact h₁.setNode hab hids hm
      | .ok () =>
          obtain ⟨-, rfl⟩ := hr
          refine ih _ (h₁.setNode hab hids hm) ?_
          by_cases hma : m = a
          · exact Or.inl (Server.Muted.setNode hid (Or.inr ⟨hma, rfl⟩))
          · rcases hcond₁ with h | h
            · exact Or.inl (Server.Muted.setNode hid (Or.inl h))
            · refine Or.inr fun hb => h ?_
              rw [List.takeWhile_cons_of_pos (by simpa using hma)]
              exact List.mem_cons_of_mem _ hb

theorem moveSlot_writer (hab : clientFor source ≠ clientFor target)
    (hids : Function.Injective fun x => (net₀ x).id)
    (htid : (net₀ (clientFor target)).id = target.id) {s : Int} (hs : s ∈ sel) (fuel : Nat)
    {net : Net κ ν}
    (h : WriterInv slotOf sel (clientFor source) (clientFor target) net₀ net) :
    (moveSlot fuel source target masters s).Wp (Client slotOf)
      (Probed slotOf texts (clientFor source) (clientFor target) masters)
      (fun _ => WriterInv slotOf sel (clientFor source) (clientFor target) net₀)
      (fun _ => WriterInv slotOf sel (clientFor source) (clientFor target) net₀) net := by
  refine writer_op_bind (fun _ => True) h trivial (fun _ _ _ _ _ => trivial)
    fun net₁ r net₂ h₁ _ hr hprobe => ?_
  obtain ⟨rfl, hr⟩ := hr
  have hstop : ∀ (r : Option (Except String Unit)) (net : Net κ ν),
      WriterInv slotOf sel (clientFor source) (clientFor target) net₀ net →
      (pure r : RpcProg κ (Option (Except String Unit))).Wp (Client slotOf)
        (Probed slotOf texts (clientFor source) (clientFor target) masters)
        (fun _ => WriterInv slotOf sel (clientFor source) (clientFor target) net₀)
        (fun _ => WriterInv slotOf sel (clientFor source) (clientFor target) net₀) net :=
    fun r net hn => writer_pure (fun _ => True) hn trivial (fun _ _ _ _ _ => trivial)
      fun _ hn _ => hn
  match r with
  | .error e => exact hstop _ _ h₁
  | .ok probe =>
      have hhanded : (if probe.isEmpty then pure (some (.ok ()))
          else handOver fuel source target s).Wp (Client slotOf)
          (Probed slotOf texts (clientFor source) (clientFor target) masters)
          (fun _ => WriterInv slotOf sel (clientFor source) (clientFor target) net₀)
          (fun r net' =>
            WriterInv slotOf sel (clientFor source) (clientFor target) net₀ net' ∧
            (r = some (.ok ()) → (net' (clientFor source)).Muted slotOf s ∨
              clientFor target ∉ masters.takeWhile (· ≠ clientFor source))) net₂ := by
        cases probe with
        | cons k ks =>
            refine (handOver_writer hab hs fuel h₁).mono fun r n hn => ?_
            exact ⟨hn.1, fun hok => Or.inl (hn.2 hok)⟩
        | nil =>
            -- The shortcut: either the listing protects it, or the probe was safe.
            refine writer_pure (fun n => (n (clientFor source)).Muted slotOf s ∨
                clientFor target ∉ masters.takeWhile (· ≠ clientFor source)) h₁ ?_
              (fun _ _ hn hm hc => hm.imp_left (hc.muted (hn.importing s hs)))
              fun _ hn hm => ⟨hn, fun _ => hm⟩
            by_cases hfirst : clientFor target ∈ masters.takeWhile (· ≠ clientFor source)
            · exact Or.inl (Or.inr ⟨hprobe rfl rfl hfirst, (hr [] rfl).2.2 rfl⟩)
            · exact Or.inr hfirst
      refine Prog.wp_bind.2 (hhanded.mono fun handed net₃ hh => ?_)
      match handed with
      | none => exact hstop _ _ hh.1
      | some (.error e) => exact hstop _ _ hh.1
      | some (.ok ()) =>
          rw [← htid]
          refine Prog.wp_bind.2 ((assignOwner_writer hab hids hs masters net₃ hh.1
            (hh.2 rfl)).mono fun r net₄ h₄ => ?_)
          match r with
          | .error e => exact hstop _ _ h₄
          | .ok () => exact hstop _ _ h₄

end

/-! ## All slots -/

section

variable {S : Type} {E : S → S → Prop} {H : Service (Rpc κ) Rpc.Reply S} {I : S → Prop}
  {fuel : Nat} {source target : NodeInfo} {masters : List String}

omit [DecidableEq κ] in
/-- What every slot keeps, the loop over the slots keeps. -/
theorem moveEach_invariant (hE : ∀ n n', I n → E n n' → I n') :
    ∀ (slots : List Int) (moved : Nat) (net : S),
      (∀ s ∈ slots, ∀ n, I n →
        (moveSlot fuel source target masters s).Wp E H (fun _ => I) (fun _ => I) n) →
      I net →
      (moveEach fuel source target masters slots moved).Wp E H (fun _ => I) (fun _ => I)
        net := by
  intro slots
  induction slots with
  | nil => exact fun moved net _ h => Prog.wp_ret I h hE fun _ hn => hn
  | cons s slots ih =>
      intro moved net hslot h
      refine Prog.wp_bind.2 ((hslot s (by simp) net h).mono fun r net₁ h₁ => ?_)
      match r with
      | none => exact Prog.wp_ret I h₁ hE fun _ hn => hn
      | some (.error e) => exact Prog.wp_ret I h₁ hE fun _ hn => hn
      | some (.ok ()) => exact ih _ net₁ (fun s' hs' => hslot s' (by simp [hs'])) h₁

omit [DecidableEq κ] in
/-- What every selected slot keeps, `MoveSlots` keeps. -/
theorem moveSlots_invariant {printed : S → String → String} {seed : Endpoint}
    {fromNodeID toNodeID : String} {n : Int} {net₀ : S} {nodes : List NodeInfo}
    (hE : ∀ n n', I n → E n n' → I n')
    (hH : ∀ x net r net', H (Rpc.clusterNodes x) net r net' →
      net' = net ∧ ∀ t, r = Except.ok t → t = printed net x)
    (hnodes : ∀ net, ReflTransGen E net₀ net →
      parseNodes (printed net (dialAddr seed.host seed.port)) = nodes)
    (hsource : ∀ x ∈ nodeByID nodes fromNodeID, x = source)
    (htarget : ∀ x ∈ nodeByID nodes toNodeID, x = target)
    (hslot : ∀ s ∈ selected source n, ∀ net, I net →
      (moveSlot fuel source target (masterClients nodes) s).Wp E H (fun _ => I) (fun _ => I)
        net)
    (h : I net₀) :
    (moveSlots fuel seed fromNodeID toNodeID n).Wp E H (fun _ => I) (fun _ => I) net₀ := by
  have hstop : ∀ r net, I net → (pure r : RpcProg κ (Option (Nat × Option String))).Wp E H
      (fun _ => I) (fun _ => I) net := fun r net hn => Prog.wp_ret I hn hE fun _ hn => hn
  rw [moveSlots]
  split
  · exact hstop _ _ h
  · refine Prog.wp_op_bind (fun net => I net ∧ ReflTransGen E net₀ net) ⟨h, .refl⟩
      (fun _ _ hn he => ⟨hE _ _ hn.1 he, hn.2.tail he⟩) (fun _ hn => hn.1)
      fun net₁ r net₂ h₁ hr => ?_
    obtain ⟨rfl, hr⟩ := hH _ _ _ _ hr
    cases r with
    | error e => exact hstop _ _ h₁.1
    | ok raw =>
        obtain rfl := hr raw rfl
        simp only [hnodes _ h₁.2]
        split
        · next x y hx hy =>
            obtain rfl := hsource x hx
            obtain rfl := htarget y hy
            rw [selectSlots_eq _ _ (Nat.zero_le _), List.nil_append]
            exact moveEach_invariant hE _ _ _ hslot h₁.1
        · exact hstop _ _ h₁.1

end

/-- Among clients that write and delete what they like, no two servers ever
accept a write to the same key of a slot that is being moved, as long as every
empty slot is either told to the source first or already marked there. At the
start the source owns the selected slots, imports none of them, and no other
server believes it owns one. -/
theorem moveSlots_single_writer {slotOf : κ → Int} {texts : Texts κ ν} {net₀ net : Net κ ν}
    {fuel : Nat} {seed : Endpoint} {fromNodeID toNodeID : String} {n : Int}
    {nodes : List NodeInfo} {source target : NodeInfo}
    {p : RpcProg κ (Option (Nat × Option String))}
    (hnodes : ∀ net, ReflTransGen (Client slotOf) net₀ net →
      parseNodes (texts.nodes net (dialAddr seed.host seed.port)) = nodes)
    (hsource : ∀ x ∈ nodeByID nodes fromNodeID, x = source)
    (htarget : ∀ x ∈ nodeByID nodes toNodeID, x = target)
    (hab : clientFor source ≠ clientFor target)
    (hids : Function.Injective fun x => (net₀ x).id)
    (htid : (net₀ (clientFor target)).id = target.id)
    (hown : ∀ s ∈ selected source n, ∀ x, (net₀ x).owns s → x = clientFor source)
    (himp : ∀ s ∈ selected source n, (net₀ (clientFor source)).importing s = none)
    (hrun : Prog.Reaches (Client slotOf)
      (Probed slotOf texts (clientFor source) (clientFor target) (masterClients nodes))
      (moveSlots fuel seed fromNodeID toNodeID n, net₀) (p, net))
    {k : κ} (hk : slotOf k ∈ selected source n) {x y : String}
    (hx : (net x).accepts slotOf k) (hy : (net y).accepts slotOf k) : x = y := by
  have hstart : WriterInv slotOf (selected source n) (clientFor source) (clientFor target)
      net₀ net₀ := by
    refine ⟨fun _ => rfl, fun s hs x hx => Or.inl (hown s hs x hx), fun s hs hb => ?_, himp⟩
    exact absurd (hown s hs _ hb).symm hab
  have hinv : WriterInv slotOf (selected source n) (clientFor source) (clientFor target)
      net₀ net :=
    (moveSlots_invariant (fun _ _ hn hc => hn.client hc) (fun _ _ _ _ hr => hr.1) hnodes
      hsource htarget (fun s hs _ hn => moveSlot_writer hab hids htid hs fuel hn)
      hstart).invariant (fun _ _ hn => hn) (fun _ _ hn => hn) hrun
  exact hinv.single hk hx hy

theorem pairNet_ids_injective (held : AList fun _ : Nat => String) :
    Function.Injective fun x => (pairNet held x).id := by
  have ha : ∀ x : String, "a" ≠ "@" ++ x := fun x h => by
    simpa using congrArg String.toList h
  have hb : ∀ x : String, "b" ≠ "@" ++ x := fun x h => by
    simpa using congrArg String.toList h
  have hat : ∀ x y : String, "@" ++ x = "@" ++ y → x = y := fun x y h =>
    String.toList_inj.1 (by simpa using congrArg String.toList h)
  intro x y hxy
  simp only [pairNet] at hxy
  grind

theorem pairNet_owns {held : AList fun _ : Nat => String} {x : String}
    (h : (pairNet held x).owns 0) : x = clientFor pairA := by
  have hid : (pairNet held (clientFor pairA)).id = (pairNet held x).id :=
    Option.some.inj h
  exact (pairNet_ids_injective held hid).symm

/-- An empty slot, with the source listed first: stopped right after the source
was told. -/
theorem moveSlots_single_writer_pair :
    ∃ p net, Prog.Reaches (Client pairSlotOf)
        (Probed pairSlotOf (pairTexts pairLineA pairLineB) (clientFor pairA)
          (clientFor pairB) (masterClients [pairA, pairB]))
        (moveSlots 1 pairSeed "a" "b" 1, pairNet ∅) (p, net) ∧
      (net (clientFor pairA)).owner 0 = some "b" ∧
      ∀ x y, (net x).accepts pairSlotOf 0 → (net y).accepts pairSlotOf 0 → x = y := by
  have hprobe : ∀ c (net : Net Nat String),
      Probed pairSlotOf (pairTexts pairLineA pairLineB) (clientFor pairA) (clientFor pairB)
        (masterClients [pairA, pairB]) c net
        (prompt pairSlotOf (pairTexts pairLineA pairLineB) c net).1
        (prompt pairSlotOf (pairTexts pairLineA pairLineB) c net).2 := by
    intro c net
    refine ⟨prompt_valkey _ _ c net, ?_⟩
    unfold ProbeOk
    split
    · exact fun _ _ hfirst => absurd hfirst (by decide)
    · trivial
  have hrun := Prog.reaches_after (E := Client pairSlotOf) hprobe 3
    (moveSlots 1 pairSeed "a" "b" 1) (pairNet ∅)
  rw [moveSlots_after (by decide) rfl (parseNodes_pair _ _) rfl rfl] at hrun
  have hsource : ∀ x ∈ nodeByID [pairA, pairB] "a", x = pairA := by decide
  have htarget : ∀ x ∈ nodeByID [pairA, pairB] "b", x = pairB := by decide
  have hsel : selected pairA 1 = [0] := by decide
  refine ⟨_, _, hrun, by decide +kernel, fun x y hx hy => ?_⟩
  refine moveSlots_single_writer (fun _ _ => parseNodes_pair _ _) hsource htarget (by decide)
    (pairNet_ids_injective ∅) (by decide) (fun s hs x hx => ?_) (fun s hs => rfl) hrun
    (by decide) hx hy
  rw [hsel, List.mem_singleton] at hs
  exact pairNet_owns (hs ▸ hx)

/-- The same slot, with the target listed first: right after the target was
told, both servers accept every key of the slot. -/
theorem moveSlots_two_writers :
    (∀ x, (pairNet ∅ x).owns 0 → x = clientFor pairA) ∧
    ∃ p net, Prog.Reaches (Client pairSlotOf)
        (Valkey pairSlotOf (pairTexts pairLineB pairLineA))
        (moveSlots 1 pairSeed "a" "b" 1, pairNet ∅) (p, net) ∧
      pairSlotOf 0 ∈ selected pairA 1 ∧
      (net (clientFor pairA)).accepts pairSlotOf 0 ∧
      (net (clientFor pairB)).accepts pairSlotOf 0 := by
  have hrun := Prog.reaches_after (E := Client pairSlotOf)
    (prompt_valkey pairSlotOf (pairTexts pairLineB pairLineA)) 3
    (moveSlots 1 pairSeed "a" "b" 1) (pairNet ∅)
  rw [moveSlots_after (by decide) rfl (parseNodes_pair_swapped _ _) rfl rfl] at hrun
  refine ⟨fun x hx => pairNet_owns hx, _, _, hrun, by decide, ?_, ?_⟩
  · exact ⟨by rw [Server.owns]; decide +kernel, by decide +kernel⟩
  · exact ⟨by rw [Server.owns]; decide +kernel, by decide +kernel⟩

end Valkeyop.Cluster
