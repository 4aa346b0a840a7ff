import Mathlib.Data.List.Perm.Subperm
import Valkeyop.Cluster.Admin

/-!
# When `RepairSlots` may finalise a slot

`RepairSlots` fetches up to a thousand stray keys from each other primary,
migrates them one by one, ignores what fails, and clears the markers either
way. Whether that was safe is decided by what it found and by the fate of its
commands, and this file says exactly when: `Repairable` is read off the servers
before the call, `Repaired` off the servers after it, and the two are
equivalent for every slot that is counted.

A run is a function of the fates here, so nothing is left to chance: a command
is answered, never arrives, or is carried out unheard. The keys of one slot are
only ever touched by that slot's own round, which is why a slot can be judged
by the servers the call started with.
-/

namespace Valkeyop.Cluster

open Valkeyop.Lib

variable {κ ν : Type}

/-! ## Strays -/

/-- A primary with a known IP that is not the owner. -/
def Stray (owner n : NodeInfo) : Prop :=
  n.id ≠ owner.id ∧ n.ip ≠ "" ∧ n.isPrimary = true

instance (owner n : NodeInfo) : Decidable (Stray owner n) :=
  inferInstanceAs (Decidable (_ ∧ _ ∧ _))

theorem Stray.dialAddr_eq {owner n : NodeInfo} (h : Stray owner n) :
    dialAddr n.ip n.port = clientFor n := by
  rw [clientFor, if_neg h.2.1]

variable [DecidableEq κ]

section

variable (slotOf : κ → Int) (nodes : List NodeInfo) (owner : NodeInfo) (s : Int)

/-- No other primary holds a key of the slot, and every key of it that existed
is with the owner. -/
structure Repaired (net₀ net : Net κ ν) : Prop where
  strays : ∀ n ∈ nodes, Stray owner n → (net (clientFor n)).keysIn slotOf s = []
  kept : ∀ x k, slotOf k = s → (net₀ x).get k ≠ none →
    (net (clientFor owner)).get k ≠ none

/-- What has to hold before: each stray's keys can be fetched in one batch and
arrive, no key is in two places, and none is out of reach. -/
structure Repairable (fate : Rpc κ → Fate) (net : Net κ ν) : Prop where
  fetched : ∀ n ∈ nodes, Stray owner n → (net (clientFor n)).keysIn slotOf s ≠ [] →
    fate (.getKeysInSlot (clientFor n) s 1000) = .answered ∧
      ((net (clientFor n)).keysIn slotOf s).length ≤ 1000
  arrive : ∀ n ∈ nodes, Stray owner n → ∀ k ∈ (net (clientFor n)).keysIn slotOf s,
    fate (.migrate (clientFor n) owner.ip owner.port [k] false) ≠ .lost ∧
      (net (clientFor owner)).get k = none
  apart : nodes.Pairwise fun n m => Stray owner n → Stray owner m →
    ∀ k ∈ (net (clientFor n)).keysIn slotOf s, k ∉ (net (clientFor m)).keysIn slotOf s
  found : ∀ x k, slotOf k = s → (net x).get k ≠ none →
    (net (clientFor owner)).get k ≠ none ∨
      ∃ n ∈ nodes, Stray owner n ∧ (net (clientFor n)).get k ≠ none

end

/-! ## One stray -/

/-- Migrating one stray key from `a` to the owner at `b`: it stays when the
command is lost or the owner has the key already. -/
def carry (lost : κ → Prop) [DecidablePred lost] (a b : String) (net : Net κ ν) (k : κ) :
    Net κ ν :=
  if lost k ∨ (net b).get k ≠ none then net else net.moveKey a b k

section

variable {lost : κ → Prop} [DecidablePred lost] {a b : String}

theorem carry_get_tried (hab : a ≠ b) {net : Net κ ν} {j : κ} (hlost : ¬ lost j)
    (hb : (net b).get j = none) :
    (carry lost a b net j a).get j = none ∧
      (carry lost a b net j b).get j = (net a).get j := by
  rw [carry, if_neg (by simp [hlost, hb]), Net.moveKey_source _ _ hab,
    Net.moveKey_target _ _ hab, Server.get_drop_self, Net.copyKey_target_get]
  refine ⟨rfl, ?_⟩
  by_cases h : (net a).get j = none
  · rw [if_neg (by simp [h]), hb, h]
  · rw [if_pos ⟨rfl, h⟩]

theorem carry_get_left (hab : a ≠ b) {net : Net κ ν} {j k : κ}
    (h : ¬ (j = k ∧ ¬ lost j ∧ (net b).get j = none)) :
    (carry lost a b net k a).get j = (net a).get j ∧
      (carry lost a b net k b).get j = (net b).get j := by
  unfold carry
  split
  · exact ⟨rfl, rfl⟩
  · next hk =>
      have hjk : j ≠ k := by
        rintro rfl
        simp only [not_or, ne_eq, not_not] at hk
        exact h ⟨rfl, hk.1, hk.2⟩
      rw [Net.moveKey_source _ _ hab, Net.moveKey_target _ _ hab,
        Server.get_drop_of_ne _ hjk, Net.copyKey_target_get, if_neg (by simp [hjk])]
      exact ⟨rfl, rfl⟩

/-- What a round of single migrations does to a key: it is gone from `a`, and
with `b` if `a` had it, when it was tried, not lost, and `b` had none; and
untouched otherwise. -/
theorem carry_foldl (hab : a ≠ b) (j : κ) :
    ∀ (ks : List κ) (net : Net κ ν),
      (j ∈ ks ∧ ¬ lost j ∧ (net b).get j = none →
        (ks.foldl (carry lost a b) net a).get j = none ∧
          (ks.foldl (carry lost a b) net b).get j = (net a).get j) ∧
      (¬ (j ∈ ks ∧ ¬ lost j ∧ (net b).get j = none) →
        (ks.foldl (carry lost a b) net a).get j = (net a).get j ∧
          (ks.foldl (carry lost a b) net b).get j = (net b).get j) := by
  intro ks
  induction ks with
  | nil => intro net; simp
  | cons k ks ih =>
      intro net
      obtain ⟨ihTried, ihLeft⟩ := ih (carry lost a b net k)
      rw [List.foldl_cons]
      by_cases hk : j = k ∧ ¬ lost j ∧ (net b).get j = none
      · obtain ⟨rfl, hlost, hb⟩ := hk
        obtain ⟨h₁, h₂⟩ := carry_get_tried hab hlost hb
        refine ⟨fun _ => ?_, fun hn => absurd ⟨by simp, hlost, hb⟩ hn⟩
        -- A second try of the same key finds nothing left to move.
        by_cases hagain : j ∈ ks ∧ ¬ lost j ∧ (carry lost a b net j b).get j = none
        · rw [(ihTried hagain).1, (ihTried hagain).2, h₁, ← h₂, hagain.2.2]
          exact ⟨rfl, rfl⟩
        · rw [(ihLeft hagain).1, (ihLeft hagain).2, h₁, h₂]
          exact ⟨rfl, rfl⟩
      · obtain ⟨h₁, h₂⟩ := carry_get_left hab hk
        have hiff : (j ∈ k :: ks ∧ ¬ lost j ∧ (net b).get j = none) ↔
            (j ∈ ks ∧ ¬ lost j ∧ (carry lost a b net k b).get j = none) := by
          rw [h₂, List.mem_cons]
          tauto
        rw [hiff, ← h₁, ← h₂]
        exact ⟨ihTried, ihLeft⟩

theorem carry_of_ne {net : Net κ ν} {x : String} (ha : x ≠ a) (hb : x ≠ b) (k : κ) :
    carry lost a b net k x = net x := by
  unfold carry
  split
  · rfl
  · exact Net.moveKey_of_ne net k ha hb

theorem carry_foldl_of_ne {x : String} (ha : x ≠ a) (hb : x ≠ b) :
    ∀ (ks : List κ) (net : Net κ ν), ks.foldl (carry lost a b) net x = net x := by
  intro ks
  induction ks with
  | nil => exact fun _ => rfl
  | cons k ks ih =>
      intro net
      rw [List.foldl_cons, ih, carry_of_ne ha hb]

end

/-! ## The commands of one stray -/

section

variable {slotOf : κ → Int} {texts : Texts κ ν} {fate : Rpc κ → Fate} {owner : NodeInfo}
  {s : Int}

section

variable (slotOf fate s)

/-- The keys a stray at `a` is found to hold. -/
def listed (a : String) (net : Net κ ν) : List κ :=
  if fate (.getKeysInSlot a s 1000) = .answered then
    ((net a).keysIn slotOf s).take 1000 else []

end

variable (slotOf texts fate s) in
theorem getKeysInSlot_run (a : String) (net : Net κ ν) :
    ((getKeysInSlot a s 1000).run (fated slotOf texts fate) net).1.toOption.getD [] =
        listed slotOf fate s a net ∧
      ((getKeysInSlot a s 1000).run (fated slotOf texts fate) net).2 = net := by
  unfold listed
  rw [getKeysInSlot, Prog.run_op]
  cases hf : fate (.getKeysInSlot a s 1000) with
  | answered => simp [fated, hf, prompt]; rfl
  | lost => simp [fated, hf]; rfl
  | unheard => simp [fated, hf, prompt]; rfl

theorem migrate_run (hip : owner.ip ≠ "") (a : String) (k : κ) (net : Net κ ν) :
    ((migrate a owner.ip owner.port [k] false).run (fated slotOf texts fate) net).2 =
      carry (fun k => fate (.migrate a owner.ip owner.port [k] false) = .lost) a
        (clientFor owner) net k := by
  have hb : dialAddr owner.ip owner.port = clientFor owner := by
    rw [clientFor, if_neg hip]
  rw [migrate, Prog.run_op, carry]
  cases hf : fate (.migrate a owner.ip owner.port [k] false) with
  | lost => simp [fated, hf]
  | answered =>
      by_cases hk : (net (clientFor owner)).get k = none
      · simp [fated, hf, prompt, hip, hb, hk]
      · simp [fated, hf, prompt, hip, hb, hk]
  | unheard =>
      by_cases hk : (net (clientFor owner)).get k = none
      · simp [fated, hf, prompt, hip, hb, hk]
      · simp [fated, hf, prompt, hip, hb, hk]

theorem migrateStrays_run (hip : owner.ip ≠ "") (a : String) :
    ∀ (ks : List κ) (net : Net κ ν),
      ((migrateStrays a owner ks).run (fated slotOf texts fate) net).2 =
        ks.foldl (carry (fun k => fate (.migrate a owner.ip owner.port [k] false) = .lost) a
          (clientFor owner)) net := by
  intro ks
  induction ks with
  | nil => exact fun _ => rfl
  | cons k ks ih =>
      intro net
      rw [migrateStrays, Prog.run_bind, ih, migrate_run hip, List.foldl_cons]

section

variable (slotOf fate owner s)

/-- One node of the collecting loop: its listed keys, one by one. -/
def gather (net : Net κ ν) (n : NodeInfo) : Net κ ν :=
  if Stray owner n then
    (listed slotOf fate s (clientFor n) net).foldl
      (carry (fun k => fate (.migrate (clientFor n) owner.ip owner.port [k] false) = .lost)
        (clientFor n) (clientFor owner)) net
  else net

end

theorem collectStrays_run (hip : owner.ip ≠ "") :
    ∀ (nodes : List NodeInfo) (net : Net κ ν),
      ((collectStrays owner s nodes).run (fated slotOf texts fate) net).2 =
        nodes.foldl (gather slotOf fate owner s) net := by
  intro nodes
  induction nodes with
  | nil => exact fun _ => rfl
  | cons n nodes ih =>
      intro net
      rw [collectStrays, List.foldl_cons]
      by_cases hn : Stray owner n
      · have hskip : ¬ (n.id = owner.id ∨ n.ip = "" ∨ n.isPrimary = false) := by
          simpa [Stray] using hn
        obtain ⟨hlist, hnet⟩ := getKeysInSlot_run slotOf texts fate s (clientFor n) net
        rw [if_neg hskip, hn.dialAddr_eq, Prog.run_bind, Prog.run_bind, hlist, hnet, ih,
          migrateStrays_run hip, gather, if_pos hn]
      · have hskip : n.id = owner.id ∨ n.ip = "" ∨ n.isPrimary = false := by
          simpa [Stray, or_iff_not_imp_left] using hn
        rw [if_pos hskip, ih, gather, if_neg hn]

/-! ## What a round does to the keys of the slot -/

/-- A stray's key that a round moves: it is listed, its migration is not lost,
and the owner has no such key. -/
def Tried (slotOf : κ → Int) (fate : Rpc κ → Fate) (owner : NodeInfo) (s : Int)
    (net : Net κ ν) (n : NodeInfo) (k : κ) : Prop :=
  k ∈ listed slotOf fate s (clientFor n) net ∧
    ¬ fate (.migrate (clientFor n) owner.ip owner.port [k] false) = .lost ∧
    (net (clientFor owner)).get k = none

/-- The stray's keys are all listed, arrive, and are new to the owner. -/
def Movable (slotOf : κ → Int) (fate : Rpc κ → Fate) (owner : NodeInfo) (s : Int)
    (net : Net κ ν) (n : NodeInfo) : Prop :=
  ((net (clientFor n)).keysIn slotOf s ≠ [] →
    fate (.getKeysInSlot (clientFor n) s 1000) = .answered ∧
      ((net (clientFor n)).keysIn slotOf s).length ≤ 1000) ∧
  ∀ k ∈ (net (clientFor n)).keysIn slotOf s,
    fate (.migrate (clientFor n) owner.ip owner.port [k] false) ≠ .lost ∧
      (net (clientFor owner)).get k = none

omit [DecidableEq κ] in
theorem Server.keysIn_nodup (slotOf : κ → Int) (v : Server κ ν) (s : Int) :
    (v.keysIn slotOf s).Nodup :=
  v.store.keys_nodup.filter _

theorem Server.keysIn_length_mono {v v' : Server κ ν}
    (h : ∀ k, slotOf k = s → v.get k ≠ none → v'.get k ≠ none) :
    (v.keysIn slotOf s).length ≤ (v'.keysIn slotOf s).length := by
  refine ((keysIn_nodup slotOf v s).subperm fun k hk => ?_).length_le
  obtain ⟨hget, hs⟩ := Server.mem_keysIn.1 hk
  exact Server.mem_keysIn.2 ⟨h k hs hget, hs⟩

omit [DecidableEq κ] in
/-- A batch without repetitions holds everything as soon as it is long enough,
and only then. -/
theorem forall_mem_take_iff {l : List κ} (hl : l.Nodup) (c : Nat) :
    (∀ k ∈ l, k ∈ l.take c) ↔ l.length ≤ c := by
  constructor
  · intro h
    have := (List.subperm_of_subset hl h).length_le
    rw [List.length_take] at this
    omega
  · intro h k hk
    rwa [List.take_of_length_le h]

theorem movable_iff {net : Net κ ν} {n : NodeInfo} :
    Movable slotOf fate owner s net n ↔
      ∀ k ∈ (net (clientFor n)).keysIn slotOf s, Tried slotOf fate owner s net n k := by
  have hnodup := (net (clientFor n)).keysIn_nodup slotOf s
  unfold Movable Tried listed
  constructor
  · rintro ⟨hfetch, hmove⟩ k hk
    obtain ⟨hans, hlen⟩ := hfetch (List.ne_nil_of_mem hk)
    rw [if_pos hans]
    exact ⟨(forall_mem_take_iff hnodup 1000).2 hlen k hk, hmove k hk⟩
  · intro h
    refine ⟨fun hne => ?_, fun k hk => (h k hk).2⟩
    obtain ⟨k, hk⟩ := List.exists_mem_of_ne_nil _ hne
    by_cases hans : fate (.getKeysInSlot (clientFor n) s 1000) = .answered
    · refine ⟨hans, (forall_mem_take_iff hnodup 1000).1 fun j hj => ?_⟩
      have := (h j hj).1
      rwa [if_pos hans] at this
    · have := (h k hk).1
      rw [if_neg hans] at this
      exact absurd this List.not_mem_nil

omit [DecidableEq κ] in
theorem mem_listed {a : String} {net : Net κ ν} {k : κ} (h : k ∈ listed slotOf fate s a net) :
    k ∈ (net a).keysIn slotOf s := by
  unfold listed at h
  split at h
  · exact List.mem_of_mem_take h
  · exact absurd h List.not_mem_nil

section Round

variable {net : Net κ ν} {n : NodeInfo} (hn : Stray owner n)
  (hab : clientFor n ≠ clientFor owner)

include hn hab

theorem gather_tried {k : κ} (h : Tried slotOf fate owner s net n k) :
    (gather slotOf fate owner s net n (clientFor n)).get k = none ∧
      (gather slotOf fate owner s net n (clientFor owner)).get k =
        (net (clientFor n)).get k := by
  rw [gather, if_pos hn]
  exact (carry_foldl hab k _ net).1 h

theorem gather_left {k : κ} (h : ¬ Tried slotOf fate owner s net n k) :
    (gather slotOf fate owner s net n (clientFor n)).get k = (net (clientFor n)).get k ∧
      (gather slotOf fate owner s net n (clientFor owner)).get k =
        (net (clientFor owner)).get k := by
  rw [gather, if_pos hn]
  exact (carry_foldl hab k _ net).2 h

/-- The keys of the slot are all gone from the stray exactly when they could
all be moved. -/
theorem gather_emptied_iff :
    (gather slotOf fate owner s net n (clientFor n)).keysIn slotOf s = [] ↔
      Movable slotOf fate owner s net n := by
  rw [movable_iff, Server.keysIn_eq_nil]
  constructor
  · intro h k hk
    obtain ⟨hne, hks⟩ := Server.mem_keysIn.1 hk
    by_contra hnot
    exact hne ((gather_left hn hab hnot).1.symm.trans (h k hks))
  · intro h k hks
    by_cases htried : Tried slotOf fate owner s net n k
    · exact (gather_tried hn hab htried).1
    · rw [(gather_left hn hab htried).1]
      by_contra hne
      exact htried (h k (Server.mem_keysIn.2 ⟨hne, hks⟩))

/-- After a round that moved everything, the owner lacks what it lacked before,
less what the stray held. -/
theorem gather_owner_of_movable (hmov : Movable slotOf fate owner s net n) {k : κ}
    (hks : slotOf k = s) :
    (gather slotOf fate owner s net n (clientFor owner)).get k = none ↔
      (net (clientFor owner)).get k = none ∧ (net (clientFor n)).get k = none := by
  by_cases htried : Tried slotOf fate owner s net n k
  · rw [(gather_tried hn hab htried).2, and_iff_right htried.2.2]
  · rw [(gather_left hn hab htried).2, and_iff_left]
    by_contra hne
    exact htried (movable_iff.1 hmov k (Server.mem_keysIn.2 ⟨hne, hks⟩))

end Round

theorem gather_of_ne {net : Net κ ν} {n : NodeInfo} {x : String} (hx : x ≠ clientFor n)
    (hb : x ≠ clientFor owner) : gather slotOf fate owner s net n x = net x := by
  unfold gather
  split
  · exact carry_foldl_of_ne hx hb _ net
  · rfl

/-- A round leaves the keys of every other slot alone. -/
theorem gather_other_slot {net : Net κ ν} {n : NodeInfo} (hab : Stray owner n →
    clientFor n ≠ clientFor owner) {k : κ} (hk : slotOf k ≠ s) (x : String) :
    (gather slotOf fate owner s net n x).get k = (net x).get k := by
  by_cases hn : Stray owner n
  · have hleft : ¬ Tried slotOf fate owner s net n k :=
      fun h => hk (Server.mem_keysIn.1 (mem_listed h.1)).2
    by_cases hx : x = clientFor n
    · rw [hx, (gather_left hn (hab hn) hleft).1]
    · by_cases hb : x = clientFor owner
      · rw [hb, (gather_left hn (hab hn) hleft).2]
      · rw [gather_of_ne hx hb]
  · rw [gather, if_neg hn]

/-! ## All strays of a slot -/

theorem gather_foldl_of_ne {x : String} (hb : x ≠ clientFor owner) :
    ∀ (nodes : List NodeInfo) (net : Net κ ν), x ∉ nodes.map clientFor →
      nodes.foldl (gather slotOf fate owner s) net x = net x := by
  intro nodes
  induction nodes with
  | nil => exact fun _ _ => rfl
  | cons n nodes ih =>
      intro net hx
      rw [List.map_cons, List.mem_cons, not_or] at hx
      rw [List.foldl_cons, ih _ hx.2, gather_of_ne hx.1 hb]

/-- Once `n` has been emptied, another stray can be emptied exactly when it
could before and shares no key with `n`. -/
theorem movable_after {net : Net κ ν} {n m : NodeInfo} (hn : Stray owner n)
    (hab : clientFor n ≠ clientFor owner) (hmn : clientFor m ≠ clientFor n)
    (hmb : clientFor m ≠ clientFor owner) (hmov : Movable slotOf fate owner s net n) :
    Movable slotOf fate owner s (gather slotOf fate owner s net n) m ↔
      Movable slotOf fate owner s net m ∧
        ∀ k ∈ (net (clientFor n)).keysIn slotOf s,
          k ∉ (net (clientFor m)).keysIn slotOf s := by
  unfold Movable
  rw [gather_of_ne hmn hmb, and_assoc]
  refine and_congr_right fun _ => ?_
  constructor
  · intro h
    have hown : ∀ k ∈ (net (clientFor m)).keysIn slotOf s,
        (net (clientFor owner)).get k = none ∧ (net (clientFor n)).get k = none :=
      fun k hk => (gather_owner_of_movable hn hab hmov (Server.mem_keysIn.1 hk).2).1
        (h k hk).2
    refine ⟨fun k hk => ⟨(h k hk).1, (hown k hk).1⟩, fun k hkn hkm => ?_⟩
    exact (Server.mem_keysIn.1 hkn).1 (hown k hkm).2
  · rintro ⟨h, hapart⟩ k hk
    have hks := (Server.mem_keysIn.1 hk).2
    refine ⟨(h k hk).1, (gather_owner_of_movable hn hab hmov hks).2 ⟨(h k hk).2, ?_⟩⟩
    by_contra hne
    exact hapart k (Server.mem_keysIn.2 ⟨hne, hks⟩) hk

/-- All strays are emptied exactly when each could be, and no two of them held
the same key. -/
theorem gather_all_emptied_iff :
    ∀ (nodes : List NodeInfo) (net : Net κ ν), (nodes.map clientFor).Nodup →
      (∀ n ∈ nodes, Stray owner n → clientFor n ≠ clientFor owner) →
      ((∀ n ∈ nodes, Stray owner n →
          (nodes.foldl (gather slotOf fate owner s) net (clientFor n)).keysIn slotOf s = []) ↔
        (∀ n ∈ nodes, Stray owner n → Movable slotOf fate owner s net n) ∧
          nodes.Pairwise fun n m => Stray owner n → Stray owner m →
            ∀ k ∈ (net (clientFor n)).keysIn slotOf s,
              k ∉ (net (clientFor m)).keysIn slotOf s) := by
  intro nodes
  induction nodes with
  | nil => simp
  | cons n nodes ih =>
      intro net hnodup hown
      rw [List.map_cons, List.nodup_cons] at hnodup
      have hown' : ∀ m ∈ nodes, Stray owner m → clientFor m ≠ clientFor owner :=
        fun m hm => hown m (List.mem_cons_of_mem n hm)
      have hne : ∀ m ∈ nodes, clientFor m ≠ clientFor n := fun m hm heq =>
        hnodup.1 (heq ▸ List.mem_map_of_mem hm)
      rw [List.foldl_cons, List.forall_mem_cons, List.forall_mem_cons, List.pairwise_cons,
        ih _ hnodup.2 hown']
      by_cases hn : Stray owner n
      · have hab := hown n (by simp) hn
        have hfinal : nodes.foldl (gather slotOf fate owner s)
            (gather slotOf fate owner s net n) (clientFor n) =
            gather slotOf fate owner s net n (clientFor n) :=
          gather_foldl_of_ne hab nodes _ hnodup.1
        -- The keys of the later strays are untouched by this round.
        have hkeys : ∀ m ∈ nodes, Stray owner m →
            gather slotOf fate owner s net n (clientFor m) = net (clientFor m) :=
          fun m hm hms => gather_of_ne (hne m hm) (hown' m hm hms)
        have hpair : (nodes.Pairwise fun m m' => Stray owner m → Stray owner m' →
              ∀ k ∈ (gather slotOf fate owner s net n (clientFor m)).keysIn slotOf s,
                k ∉ (gather slotOf fate owner s net n (clientFor m')).keysIn slotOf s) ↔
            nodes.Pairwise fun m m' => Stray owner m → Stray owner m' →
              ∀ k ∈ (net (clientFor m)).keysIn slotOf s,
                k ∉ (net (clientFor m')).keysIn slotOf s := by
          refine List.Pairwise.iff_of_mem fun {m m'} hm hm' => ?_
          refine forall_congr' fun hms => forall_congr' fun hms' => ?_
          rw [hkeys m hm hms, hkeys m' hm' hms']
        rw [hfinal, gather_emptied_iff hn hab, hpair]
        constructor
        · rintro ⟨hmov, hrest, hp⟩
          have hafter : ∀ m ∈ nodes, Stray owner m → _ := fun m hm hms =>
            (movable_after hn hab (hne m hm) (hown' m hm hms) (hmov hn)).1 (hrest m hm hms)
          exact ⟨⟨hmov, fun m hm hms => (hafter m hm hms).1⟩,
            fun m hm _ hms => (hafter m hm hms).2, hp⟩
        · rintro ⟨⟨hmov, hrest⟩, hapart, hp⟩
          refine ⟨hmov, fun m hm hms => ?_, hp⟩
          exact (movable_after hn hab (hne m hm) (hown' m hm hms) (hmov hn)).2
            ⟨hrest m hm hms, hapart m hm hn hms⟩
      · have hskip : gather slotOf fate owner s net n = net := by rw [gather, if_neg hn]
        rw [hskip]
        constructor
        · rintro ⟨_, hrest, hp⟩
          exact ⟨⟨fun h => absurd h hn, hrest⟩, fun _ _ h => absurd h hn, hp⟩
        · rintro ⟨⟨_, hrest⟩, _, hp⟩
          exact ⟨fun h => absurd h hn, hrest, hp⟩

/-- What collecting does to a key, whatever fails: the owner keeps it, gains it
only from a stray, and a stray only loses it to the owner. -/
structure Conserved (nodes : List NodeInfo) (owner : NodeInfo) (k : κ) (net net' : Net κ ν) :
    Prop where
  keep : (net (clientFor owner)).get k ≠ none → (net' (clientFor owner)).get k ≠ none
  gain : (net' (clientFor owner)).get k ≠ none → (net (clientFor owner)).get k ≠ none ∨
    ∃ n ∈ nodes, Stray owner n ∧ (net (clientFor n)).get k ≠ none
  lose : ∀ n ∈ nodes, Stray owner n → (net (clientFor n)).get k ≠ none →
    (net' (clientFor n)).get k ≠ none ∨ (net' (clientFor owner)).get k ≠ none
  back : ∀ n ∈ nodes, Stray owner n → (net' (clientFor n)).get k ≠ none →
    (net (clientFor n)).get k ≠ none

theorem Conserved.refl {nodes : List NodeInfo} {k : κ} {net : Net κ ν} :
    Conserved nodes owner k net net :=
  ⟨id, Or.inl, fun _ _ _ => Or.inl, fun _ _ _ => id⟩

theorem Conserved.trans {nodes : List NodeInfo} {k : κ} {net₁ net₂ net₃ : Net κ ν}
    (h₁ : Conserved nodes owner k net₁ net₂) (h₂ : Conserved nodes owner k net₂ net₃) :
    Conserved nodes owner k net₁ net₃ := by
  refine ⟨fun h => h₂.keep (h₁.keep h), fun h => ?_, fun n hn hs h => ?_,
    fun n hn hs h => h₁.back n hn hs (h₂.back n hn hs h)⟩
  · rcases h₂.gain h with h | ⟨n, hn, hs, h⟩
    · exact h₁.gain h
    · exact Or.inr ⟨n, hn, hs, h₁.back n hn hs h⟩
  · rcases h₁.lose n hn hs h with h | h
    · exact h₂.lose n hn hs h
    · exact Or.inr (h₂.keep h)

theorem gather_conserved {nodes : List NodeInfo} {n : NodeInfo} {net : Net κ ν} (k : κ)
    (hn : n ∈ nodes) (hown : ∀ m ∈ nodes, Stray owner m → clientFor m ≠ clientFor owner) :
    Conserved nodes owner k net (gather slotOf fate owner s net n) := by
  by_cases hns : Stray owner n
  · have hab := hown n hn hns
    by_cases htried : Tried slotOf fate owner s net n k
    · obtain ⟨h₁, h₂⟩ := gather_tried hns hab htried
      refine ⟨fun h => absurd htried.2.2 h, fun h => ?_, fun m hm hms h => ?_,
        fun m hm hms h => ?_⟩
      · exact Or.inr ⟨n, hn, hns, h₂ ▸ h⟩
      · by_cases hmn : clientFor m = clientFor n
        · exact Or.inr (by rw [h₂, ← hmn]; exact h)
        · exact Or.inl (by rw [gather_of_ne hmn (hown m hm hms)]; exact h)
      · by_cases hmn : clientFor m = clientFor n
        · exact absurd h₁ (hmn ▸ h)
        · rwa [gather_of_ne hmn (hown m hm hms)] at h
    · have hleft : ∀ x, (gather slotOf fate owner s net n x).get k = (net x).get k := by
        intro x
        by_cases hx : x = clientFor n
        · rw [hx, (gather_left hns hab htried).1]
        · by_cases hb : x = clientFor owner
          · rw [hb, (gather_left hns hab htried).2]
          · rw [gather_of_ne hx hb]
      refine ⟨fun h => by rwa [hleft], fun h => Or.inl (by rwa [hleft] at h),
        fun m _ _ h => Or.inl (by rwa [hleft]), fun m _ _ h => by rwa [hleft] at h⟩
  · rw [gather, if_neg hns]
    exact .refl

theorem gather_all_conserved {nodes : List NodeInfo} (k : κ)
    (hown : ∀ m ∈ nodes, Stray owner m → clientFor m ≠ clientFor owner) :
    ∀ (rest : List NodeInfo) (net : Net κ ν), (∀ n ∈ rest, n ∈ nodes) →
      Conserved nodes owner k net (rest.foldl (gather slotOf fate owner s) net) := by
  intro rest
  induction rest with
  | nil => exact fun _ _ => .refl
  | cons n rest ih =>
      intro net hrest
      exact (gather_conserved k (hrest n (by simp)) hown).trans
        (ih _ fun m hm => hrest m (by simp [hm]))

/-! ## One slot -/

/-- The slot's own round, judged from the servers it started with. -/
theorem gather_repaired_iff {nodes : List NodeInfo} {net : Net κ ν}
    (hnodup : (nodes.map clientFor).Nodup)
    (hown : ∀ n ∈ nodes, Stray owner n → clientFor n ≠ clientFor owner) :
    Repaired slotOf nodes owner s net (nodes.foldl (gather slotOf fate owner s) net) ↔
      Repairable slotOf nodes owner s fate net := by
  have hall : (∀ n ∈ nodes, Stray owner n →
      (nodes.foldl (gather slotOf fate owner s) net (clientFor n)).keysIn slotOf s = []) ↔ _ :=
    gather_all_emptied_iff nodes net hnodup hown
  have hcons : ∀ k, Conserved nodes owner k net
      (nodes.foldl (gather slotOf fate owner s) net) := fun k =>
    gather_all_conserved k hown nodes net fun _ h => h
  constructor
  · rintro ⟨hstrays, hkept⟩
    obtain ⟨hmov, hapart⟩ := hall.1 hstrays
    exact ⟨fun n hn hs => (hmov n hn hs).1, fun n hn hs => (hmov n hn hs).2, hapart,
      fun x k hks hx => (hcons k).gain (hkept x k hks hx)⟩
  · intro h
    have hstrays := hall.2 ⟨fun n hn hs => ⟨h.fetched n hn hs, h.arrive n hn hs⟩, h.apart⟩
    refine ⟨hstrays, fun x k hks hx => ?_⟩
    rcases h.found x k hks hx with hb | ⟨n, hn, hs, hnk⟩
    · exact (hcons k).keep hb
    · rcases (hcons k).lose n hn hs hnk with hleft | hb
      · exact absurd (Server.keysIn_eq_nil.1 (hstrays n hn hs) k hks) hleft
      · exact hb

end

/-! ## The keys of one slot -/

/-- The same keys of a slot, on every server. -/
def SameSlot (slotOf : κ → Int) (s : Int) (net net' : Net κ ν) : Prop :=
  ∀ x k, slotOf k = s → (net' x).get k = (net x).get k

section

variable {slotOf : κ → Int} {fate : Rpc κ → Fate} {owner : NodeInfo} {s : Int}
  {nodes : List NodeInfo} {net₀ net₁ net₂ : Net κ ν}

theorem SameSlot.trans (h₁ : SameSlot slotOf s net₀ net₁) (h₂ : SameSlot slotOf s net₁ net₂) :
    SameSlot slotOf s net₀ net₂ := fun x k hk => (h₂ x k hk).trans (h₁ x k hk)

theorem SameSlot.mem_keysIn (h : SameSlot slotOf s net₀ net₁) (x : String) (k : κ) :
    k ∈ (net₁ x).keysIn slotOf s ↔ k ∈ (net₀ x).keysIn slotOf s := by
  rw [Server.mem_keysIn, Server.mem_keysIn]
  refine and_congr_left fun hk => ?_
  rw [h x k hk]

theorem SameSlot.keysIn_perm (h : SameSlot slotOf s net₀ net₁) (x : String) :
    ((net₁ x).keysIn slotOf s).Perm ((net₀ x).keysIn slotOf s) :=
  (List.perm_ext_iff_of_nodup (Server.keysIn_nodup ..) (Server.keysIn_nodup ..)).2
    (h.mem_keysIn x)

theorem SameSlot.symm (h : SameSlot slotOf s net₀ net₁) : SameSlot slotOf s net₁ net₀ :=
  fun x k hk => (h x k hk).symm

theorem Repairable.of_sameSlot (h : SameSlot slotOf s net₀ net₁)
    (hr : Repairable slotOf nodes owner s fate net₀) :
    Repairable slotOf nodes owner s fate net₁ := by
  refine ⟨fun n hn hs hne => ?_, fun n hn hs k hk => ?_, ?_, fun x k hks hx => ?_⟩
  · have hperm := h.keysIn_perm (clientFor n)
    rw [hperm.length_eq]
    exact hr.fetched n hn hs fun hnil => hne (hnil ▸ hperm).eq_nil
  · rw [h _ k (Server.mem_keysIn.1 hk).2]
    exact hr.arrive n hn hs k ((h.mem_keysIn _ k).1 hk)
  · refine hr.apart.imp fun hnm hn hm k hk hk' => ?_
    exact hnm hn hm k ((h.mem_keysIn _ k).1 hk) ((h.mem_keysIn _ k).1 hk')
  · rw [h x k hks] at hx
    rcases hr.found x k hks hx with hb | ⟨n, hn, hs, hnk⟩
    · exact Or.inl (by rwa [h _ k hks])
    · exact Or.inr ⟨n, hn, hs, by rwa [h _ k hks]⟩

theorem Repaired.of_sameSlot {net net' : Net κ ν} (h₀ : SameSlot slotOf s net₀ net₁)
    (h : SameSlot slotOf s net net') (hr : Repaired slotOf nodes owner s net₀ net) :
    Repaired slotOf nodes owner s net₁ net' := by
  refine ⟨fun n hn hs => ?_, fun x k hks hx => ?_⟩
  · exact (hr.strays n hn hs ▸ h.keysIn_perm (clientFor n)).eq_nil
  · rw [h _ k hks]
    exact hr.kept x k hks (by rwa [h₀ x k hks] at hx)

theorem gather_all_other_slot {s' : Int}
    (hown : ∀ n ∈ nodes, Stray owner n → clientFor n ≠ clientFor owner) (hs : s ≠ s') :
    ∀ (rest : List NodeInfo) (net : Net κ ν), (∀ n ∈ rest, n ∈ nodes) →
      SameSlot slotOf s net (rest.foldl (gather slotOf fate owner s') net) := by
  intro rest
  induction rest with
  | nil => exact fun _ _ _ _ _ => rfl
  | cons n rest ih =>
      intro net hrest
      refine SameSlot.trans (fun x k hk => ?_) (ih _ fun m hm => hrest m (by simp [hm]))
      exact gather_other_slot (hown n (hrest n (by simp))) (hk ▸ hs) x

end

/-! ## The assertions, and all slots -/

section

variable {slotOf : κ → Int} {texts : Texts κ ν} {fate : Rpc κ → Fate} {owner : NodeInfo}

/-- A command that moves no key moves none whatever becomes of it. -/
theorem fated_store {c : Rpc κ} {net : Net κ ν} {x : String}
    (h : ((prompt slotOf texts c net).2 x).store = (net x).store) :
    ((fated slotOf texts fate c net).2 x).store = (net x).store := by
  unfold fated
  split
  · exact h
  · rfl
  · exact h

theorem setSlotStable_run_store (a : String) (s : Int) (net : Net κ ν) (x : String) :
    (((setSlotStable a s).run (fated slotOf texts fate) net).2 x).store = (net x).store :=
  fated_store (Net.modify_proj Server.store (Server.setStable s) (fun _ => rfl) a x)

theorem setSlotNode_run_store (a : String) (s : Int) (id : String) (net : Net κ ν)
    (x : String) :
    (((setSlotNode a s id).run (fated slotOf texts fate) net).2 x).store =
      (net x).store := by
  refine fated_store ?_
  rw [prompt]
  split
  · rfl
  · exact Net.modify_proj Server.store (Server.setNode s id) (fun _ => rfl) a x

theorem assertOwner_run_store (s : Int) (x : String) :
    ∀ (nodes : List NodeInfo) (net : Net κ ν),
      (((assertOwner owner s nodes).run (fated slotOf texts fate) net).2 x).store =
        (net x).store := by
  intro nodes
  induction nodes with
  | nil => exact fun _ => rfl
  | cons n nodes ih =>
      intro net
      rw [assertOwner]
      split
      · rw [Prog.run_bind, Prog.run_bind, ih, setSlotNode_run_store, setSlotStable_run_store]
      · exact ih net

theorem sameSlot_assertOwner (s s' : Int) (nodes : List NodeInfo) (net : Net κ ν) :
    SameSlot slotOf s net
      ((assertOwner owner s' nodes).run (fated slotOf texts fate) net).2 := by
  intro x k _
  rw [Server.get, Server.get, assertOwner_run_store]

/-- The slots that are counted: those with an owner whose IP is known. -/
def counted (nodes : List NodeInfo) (s : Int) : Bool :=
  match ownerOf nodes s with
  | none => false
  | some owner => owner.ip != ""

theorem ownerOf_mem {nodes : List NodeInfo} {s : Int} (h : ownerOf nodes s = some owner) :
    owner ∈ nodes :=
  List.mem_of_find?_eq_some h

/-- Different nodes have different addresses, so a stray is never the owner. -/
theorem Stray.clientFor_ne {nodes : List NodeInfo} (hnodup : (nodes.map clientFor).Nodup)
    (ho : owner ∈ nodes) (n : NodeInfo) (hn : n ∈ nodes) (hs : Stray owner n) :
    clientFor n ≠ clientFor owner := by
  intro heq
  have := List.inj_on_of_nodup_map hnodup hn ho heq
  exact hs.1 (by rw [this])

variable (slotOf texts fate) in
/-- One slot of the repair loop. -/
def repairRound (nodes : List NodeInfo) (net : Net κ ν) (slot : Int) : Net κ ν :=
  match ownerOf nodes slot with
  | none => net
  | some owner =>
      if owner.ip = "" then net
      else ((assertOwner owner slot nodes).run (fated slotOf texts fate)
        (nodes.foldl (gather slotOf fate owner slot) net)).2

theorem repairRound_of_owner {nodes : List NodeInfo} {slot : Int} {net : Net κ ν}
    (ho : ownerOf nodes slot = some owner) (hip : owner.ip ≠ "") :
    repairRound slotOf texts fate nodes net slot =
      ((assertOwner owner slot nodes).run (fated slotOf texts fate)
        (nodes.foldl (gather slotOf fate owner slot) net)).2 := by
  simp only [repairRound, ho, hip, if_false]

theorem repairEach_run (nodes : List NodeInfo) :
    ∀ (slots : List Int) (repaired : Nat) (net : Net κ ν),
      (repairEach nodes slots repaired).run (fated slotOf texts fate) net =
        (repaired + slots.countP (counted nodes),
          slots.foldl (repairRound slotOf texts fate nodes) net) := by
  intro slots
  induction slots with
  | nil => exact fun _ _ => rfl
  | cons slot rest ih =>
      intro repaired net
      rw [List.countP_cons, List.foldl_cons, repairEach]
      cases ho : ownerOf nodes slot with
      | none =>
          have hround : repairRound slotOf texts fate nodes net slot = net := by
            rw [repairRound, ho]
          simpa [counted, ho, hround] using ih repaired net
      | some owner =>
          by_cases hip : owner.ip = ""
          · have hround : repairRound slotOf texts fate nodes net slot = net := by
              simp only [repairRound, ho, hip, if_true]
            simpa [counted, ho, hip, hround] using ih repaired net
          · rw [repairRound_of_owner ho hip]
            simp only [hip, if_false]
            rw [Prog.run_bind, Prog.run_bind, collectStrays_run hip, ih]
            simp [counted, ho, hip, add_assoc, add_comm]

theorem sameSlot_repairRound {nodes : List NodeInfo} (hnodup : (nodes.map clientFor).Nodup)
    {s slot : Int} (hs : s ≠ slot) (net : Net κ ν) :
    SameSlot slotOf s net (repairRound slotOf texts fate nodes net slot) := by
  unfold repairRound
  split
  · exact fun _ _ _ => rfl
  · next owner ho =>
      split
      · exact fun _ _ _ => rfl
      · exact (gather_all_other_slot (Stray.clientFor_ne hnodup (ownerOf_mem ho)) hs nodes net
          fun _ h => h).trans (sameSlot_assertOwner s slot nodes _)

theorem sameSlot_repairRounds {nodes : List NodeInfo} (hnodup : (nodes.map clientFor).Nodup)
    {s : Int} :
    ∀ (slots : List Int) (net : Net κ ν), s ∉ slots →
      SameSlot slotOf s net (slots.foldl (repairRound slotOf texts fate nodes) net) := by
  intro slots
  induction slots with
  | nil => exact fun _ _ _ _ _ => rfl
  | cons slot rest ih =>
      intro net hs
      rw [List.mem_cons, not_or] at hs
      exact (sameSlot_repairRound hnodup hs.1 net).trans (ih _ hs.2)

/-- A counted slot is repaired exactly when it was repairable at the start. -/
theorem repairRounds_repaired_iff {nodes : List NodeInfo}
    (hnodup : (nodes.map clientFor).Nodup) {s : Int} (ho : ownerOf nodes s = some owner)
    (hip : owner.ip ≠ "") :
    ∀ (slots : List Int) (net : Net κ ν), slots.Nodup → s ∈ slots →
      (Repaired slotOf nodes owner s net
          (slots.foldl (repairRound slotOf texts fate nodes) net) ↔
        Repairable slotOf nodes owner s fate net) := by
  intro slots
  induction slots with
  | nil => exact fun _ _ h => absurd h List.not_mem_nil
  | cons slot rest ih =>
      intro net hslots hs
      rw [List.nodup_cons] at hslots
      rw [List.foldl_cons]
      rcases List.mem_cons.1 hs with rfl | hrest
      · -- its own round; the later slots leave its keys alone
        have hsame : SameSlot slotOf s (nodes.foldl (gather slotOf fate owner s) net)
            (rest.foldl (repairRound slotOf texts fate nodes)
              (repairRound slotOf texts fate nodes net s)) := by
          rw [repairRound_of_owner ho hip]
          exact (sameSlot_assertOwner s s nodes _).trans
            (sameSlot_repairRounds hnodup rest _ hslots.1)
        rw [← gather_repaired_iff hnodup (Stray.clientFor_ne hnodup (ownerOf_mem ho))]
        exact ⟨.of_sameSlot (fun _ _ _ => rfl) hsame.symm, .of_sameSlot (fun _ _ _ => rfl) hsame⟩
      · have hne : s ≠ slot := by
          rintro rfl
          exact hslots.1 hrest
        have hsame : SameSlot slotOf s net (repairRound slotOf texts fate nodes net slot) :=
          sameSlot_repairRound hnodup hne net
        constructor
        · intro h
          exact .of_sameSlot hsame.symm
            ((ih _ hslots.2 hrest).1 (h.of_sameSlot hsame fun _ _ _ => rfl))
        · intro h
          exact .of_sameSlot hsame.symm (fun _ _ _ => rfl)
            ((ih _ hslots.2 hrest).2 (h.of_sameSlot hsame))

/-! ## Looking changes nothing -/

theorem clusterNodes_run (a : String) (net : Net κ ν) :
    ((clusterNodes a).run (fated slotOf texts fate) net).2 = net ∧
      ∀ t, ((clusterNodes a).run (fated slotOf texts fate) net).1 = .ok t →
        t = texts.nodes net a :=
  fated_valkey slotOf texts fate (.clusterNodes a) net

theorem openSlotsSeen_run :
    ∀ (nodes : List NodeInfo) (net : Net κ ν),
      ((openSlotsSeen nodes).run (fated slotOf texts fate) net).2 = net := by
  intro nodes
  induction nodes with
  | nil => exact fun _ => rfl
  | cons n nodes ih =>
      intro net
      rw [openSlotsSeen]
      split
      · exact ih net
      · rw [Prog.run_bind, (clusterNodes_run _ net).1]
        split
        · exact ih net
        · rw [Prog.run_bind, ih net]; rfl

theorem collectOpenSlots_run (order : List Int → List Int) (nodes : List NodeInfo)
    (net : Net κ ν) :
    ((collectOpenSlots order nodes).run (fated slotOf texts fate) net).2 = net := by
  rw [collectOpenSlots, Prog.run_bind, openSlotsSeen_run]; rfl

theorem collectOpenSlots_nodup {order : List Int → List Int}
    (horder : ∀ l, (order l).Perm l) (nodes : List NodeInfo) (net : Net κ ν) :
    ((collectOpenSlots order nodes).run (fated slotOf texts fate) net).1.Nodup := by
  rw [collectOpenSlots, Prog.run_bind]
  exact (horder _).nodup_iff.2 (List.nodup_dedup _)

/-- The whole call, once the seed has answered. -/
theorem repairSlots_run {order : List Int → List Int} {seed : Endpoint}
    {nodes : List NodeInfo} {net₀ : Net κ ν}
    (hnodes : parseNodes (texts.nodes net₀ (dialAddr seed.host seed.port)) = nodes)
    (hans : fate (.clusterNodes (dialAddr seed.host seed.port)) = .answered) :
    (repairSlots order seed).run (fated slotOf texts fate) net₀ =
      (let openSlots := ((collectOpenSlots order nodes).run (fated slotOf texts fate) net₀).1
      ((openSlots.countP (counted nodes), none),
        openSlots.foldl (repairRound slotOf texts fate nodes) net₀)) := by
  have hseed : (clusterNodes (dialAddr seed.host seed.port)).run (fated slotOf texts fate)
      net₀ = (.ok (texts.nodes net₀ (dialAddr seed.host seed.port)), net₀) := by
    rw [clusterNodes, Prog.run_op, fated, hans]
    rfl
  rw [repairSlots, Prog.run_bind, hseed]
  simp only [hnodes]
  rw [Prog.run_bind, collectOpenSlots_run]
  generalize ((collectOpenSlots order nodes).run (fated slotOf texts fate) net₀).1 = openSlots
  cases openSlots with
  | nil => rfl
  | cons s rest =>
      change ((repairEach nodes (s :: rest) 0 >>= fun repaired => pure (repaired, none)).run
        (fated slotOf texts fate) net₀) = _
      rw [Prog.run_bind, repairEach_run, Nat.zero_add]
      rfl

theorem repairSlots_unanswered {order : List Int → List Int} {seed : Endpoint}
    {net₀ : Net κ ν}
    (hans : fate (.clusterNodes (dialAddr seed.host seed.port)) ≠ .answered) :
    ((repairSlots order seed).run (fated slotOf texts fate) net₀).1.2 ≠ none := by
  have hseed : ((clusterNodes (dialAddr seed.host seed.port)).run (fated slotOf texts fate)
      net₀).1 = .error "i/o timeout" := by
    rw [clusterNodes, Prog.run_op, fated]
    split
    · next h => exact absurd h hans
    · rfl
    · rfl
  rw [repairSlots, Prog.run_bind, hseed]
  simp

/-- `RepairSlots`, once it returns without an error: it counts the open slots
whose owner has a known IP, and each of them is repaired exactly when it was
repairable before the call. -/
theorem repairSlots_repaired_iff {order : List Int → List Int} {seed : Endpoint}
    {nodes : List NodeInfo} {repaired : Nat} {net₀ net : Net κ ν}
    (hnodes : parseNodes (texts.nodes net₀ (dialAddr seed.host seed.port)) = nodes)
    (hnodup : (nodes.map clientFor).Nodup) (horder : ∀ l, (order l).Perm l)
    (hrun : (repairSlots order seed).run (fated slotOf texts fate) net₀ =
      ((repaired, none), net)) :
    let openSlots := ((collectOpenSlots order nodes).run (fated slotOf texts fate) net₀).1
    repaired = openSlots.countP (counted nodes) ∧
      ∀ s ∈ openSlots, ∀ owner, ownerOf nodes s = some owner → owner.ip ≠ "" →
        (Repaired slotOf nodes owner s net₀ net ↔
          Repairable slotOf nodes owner s fate net₀) := by
  intro openSlots
  have hans : fate (.clusterNodes (dialAddr seed.host seed.port)) = .answered := by
    by_contra hne
    exact repairSlots_unanswered hne (by rw [hrun])
  rw [repairSlots_run hnodes hans] at hrun
  obtain ⟨hcount, rfl⟩ := Prod.mk.inj hrun
  refine ⟨(Prod.mk.inj hcount).1.symm, fun s hs owner ho hip => ?_⟩
  exact repairRounds_repaired_iff hnodup ho hip _ _ (collectOpenSlots_nodup horder nodes net₀) hs

end

/-! ## A stray that is left behind -/

def pairLineOpen : String := "a 10.0.0.1:6379@16379 myself,master - 0 0 1 connected 0 [0->-b]"

theorem parseNodes_pair_open (net : Net Nat String) (x : String) :
    parseNodes ((pairTexts pairLineOpen pairLineB).nodes net x) = [pairA, pairB] :=
  parseNodes_lines ⟨Lib.Text.not_mem_literal (by decide), by decide +kernel⟩ lists_pairLineB net x

theorem parseOpenSlots_pair_open (net : Net Nat String) (x : String) :
    parseOpenSlots ((pairTexts pairLineOpen pairLineB).nodes net x) = [0] := by
  change parseOpenSlots (pairLineOpen ++ "\n" ++ pairLineB) = _
  decide +kernel

theorem collectOpenSlots_pair (net : Net Nat String) :
    ((collectOpenSlots id [pairA, pairB]).run
      (fated pairSlotOf (pairTexts pairLineOpen pairLineB) fun _ => .answered) net).1 =
      [0] := by
  have hans : ∀ x, (clusterNodes x).run
      (fated pairSlotOf (pairTexts pairLineOpen pairLineB) fun _ => .answered) net =
      (.ok ((pairTexts pairLineOpen pairLineB).nodes net x), net) := fun _ => rfl
  have hA : (!pairA.connected || pairA.hasFlag "fail" || pairA.hasFlag "fail?" ||
      pairA.hasFlag "noaddr") = false := by decide
  have hB : (!pairB.connected || pairB.hasFlag "fail" || pairB.hasFlag "fail?" ||
      pairB.hasFlag "noaddr") = false := by decide
  simp [collectOpenSlots, openSlotsSeen, hA, hB, hans, parseOpenSlots_pair_open]

/-- Both servers hold a key of the open slot 0. -/
def strayNet : Net Nat String :=
  (pairNet (AList.singleton 0 "x")).modify (clientFor pairB) (Server.put 0 "y")

/-- The owner already has the key, so its migration fails, and the slot is
counted and its markers cleared with the stray still in place. -/
theorem repairSlots_leaves_stray :
    ∃ net, (repairSlots id pairSeed).run
        (fated pairSlotOf (pairTexts pairLineOpen pairLineB) fun _ => .answered) strayNet =
        ((1, none), net) ∧
      ownerOf [pairA, pairB] 0 = some pairA ∧ Stray pairA pairB ∧
      (net (clientFor pairB)).keysIn pairSlotOf 0 = [0] ∧
      (net (clientFor pairA)).migrating 0 = none := by
  have hrun : (repairSlots id pairSeed).run
      (fated pairSlotOf (pairTexts pairLineOpen pairLineB) fun _ => .answered) strayNet = _ :=
    repairSlots_run (parseNodes_pair_open _ _) rfl
  rw [collectOpenSlots_pair] at hrun
  exact ⟨_, hrun, by decide, by decide, by decide +kernel, by decide +kernel⟩

/-- A stray key the owner does not have is carried over. -/
theorem repairSlots_repaired_iff_pair :
    ∃ net, (repairSlots id pairSeed).run
        (fated pairSlotOf (pairTexts pairLineOpen pairLineB) fun _ => .answered)
        ((pairNet ∅).modify (clientFor pairB) (Server.put 0 "y")) = ((1, none), net) ∧
      Repaired pairSlotOf [pairA, pairB] pairA 0
        ((pairNet ∅).modify (clientFor pairB) (Server.put 0 "y")) net := by
  have hrun : (repairSlots id pairSeed).run
      (fated pairSlotOf (pairTexts pairLineOpen pairLineB) fun _ => .answered)
      ((pairNet ∅).modify (clientFor pairB) (Server.put 0 "y")) = _ :=
    repairSlots_run (parseNodes_pair_open _ _) rfl
  rw [collectOpenSlots_pair] at hrun
  refine ⟨_, hrun, ?_⟩
  have horder : ∀ l : List Int, (id l).Perm l := fun _ => .refl _
  have hiff := (repairSlots_repaired_iff (parseNodes_pair_open _ _) (by decide) horder
    hrun).2
  rw [collectOpenSlots_pair] at hiff
  refine (hiff 0 (by simp) pairA (by decide) (by decide)).2 ?_
  -- Only the second server holds anything.
  have hfar : ∀ x, x ≠ clientFor pairB → ∀ k,
      ((pairNet ∅).modify (clientFor pairB) (Server.put 0 "y") x).get k = none := by
    intro x hx k
    rw [Net.modify_of_ne _ _ hx]
    simp [pairNet, Server.get]
  refine ⟨fun n hn hs _ => ?_, fun n hn hs k hk => ?_, ?_, fun x k hk hx => ?_⟩
  · rcases List.mem_pair.1 hn with rfl | rfl
    · exact absurd rfl hs.1
    · exact ⟨rfl, by decide +kernel⟩
  · exact ⟨by simp, hfar _ (by decide) k⟩
  · refine List.Pairwise.cons (fun m _ hs => absurd rfl hs.1) (List.pairwise_singleton ..)
  · by_cases hxB : x = clientFor pairB
    · exact Or.inr ⟨pairB, by simp, by decide, hxB ▸ hx⟩
    · exact absurd (hfar x hxB k) hx

end Valkeyop.Cluster
