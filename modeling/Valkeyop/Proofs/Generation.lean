import Valkeyop.Lib.Versions
import Valkeyop.Proofs.Conditions
import Valkeyop.Proofs.PassCalls

/-!
# The generation that is published

A pass reads the resource once and works from that copy; its last status write
reads the resource again, and stamps the status with the generation it finds then.
Users edit the spec at any time, and reads are answered from a cache that may lag behind. An
edit that is not in the copy the pass works from is one the pass has not seen, but its generation
is published with what the pass computed.
-/

namespace Valkeyop.Controller

open Valkeyop.Lib Valkeyop.Lib.Fallible Valkeyop.Cluster Valkeyop.Api Valkeyop.Resources

/-! ## Which calls are made -/

/-- Only this call could change the spec. -/
def LeavesSpec : Call → Prop
  | .kube (.updateCluster _) => False
  | _ => True

theorem Routine.leavesSpec {c : Call} (hc : Routine c) : LeavesSpec c := by
  unfold LeavesSpec
  split
  · exact hc
  · trivial

section

variable {cr : ValkeyCluster}

/-- `reconcileCluster` up to its last status write. -/
def observeAndAct (cr : ValkeyCluster) : Act (ClusterState × Topology.ActionKind) := do
  let state ← wrap "observe cluster" (Admin.state (seed cr))
  let plan ← choosePlan cr (summarize cr state)
  act cr state (summarize cr state) plan.kind
  let state ← wrap "observe cluster (post-action)" (Admin.state (seed cr))
  pure (state, plan.kind)

theorem only_provision : Prog.Only LeavesSpec (provision cr).run :=
  only_bind (Prog.only_op.2 trivial) fun _ => only_bind (Prog.only_op.2 trivial) fun _ =>
    only_bind (only_forM fun _ _ => Prog.only_op.2 trivial) fun _ =>
      routine_shardsReady.mono fun _ => Routine.leavesSpec

theorem only_observeAndAct : Prog.Only LeavesSpec (observeAndAct cr).run :=
  only_bind (only_wrap _ (Prog.only_op.2 trivial)) fun _ =>
    only_bind (only_choosePlan trivial _) fun _ =>
      only_bind (only_act (fun _ => Routine.leavesSpec) (fun _ _ => trivial)
        (fun _ _ _ _ => trivial) (fun _ _ => trivial) (fun _ => trivial) ..) fun _ =>
        only_bind (only_wrap _ (Prog.only_op.2 trivial)) fun _ => Prog.only_pure _

/-- A pass that starts in `s` reads the resource as `c`, which leaves `read`, and comes to
publish `state` for `cr` in `s'`. -/
structure ComesToPublish {S : Type} (h : Handler Call Call.Reply S) (name nspace : String)
    (s : S) (c : ValkeyCluster) (read : S) (cr : ValkeyCluster) (state : ClusterState) (s' : S) :
    Prop where
  steps : ∃ s₁ s₂ kind, exec h (Kube.getCluster name nspace) s = (.ok c, read) ∧
    c.deletionTimestamp = none ∧ exec h (ensureFinalizer c) read = (.ok cr, s₁) ∧
    exec h (provision cr) s₁ = (.ok true, s₂) ∧
    exec h (observeAndAct cr) s₂ = (.ok (state, kind), s')

theorem reconcileCluster_eq (cr : ValkeyCluster) :
    reconcileCluster cr = (do
      let (state, kind) ← observeAndAct cr
      updateStatus cr state
      pure (isProgressing kind)) := by
  simp only [reconcileCluster, observeAndAct, bind_assoc, pure_bind]

/-- What is called to publish is called by the pass. -/
theorem ComesToPublish.mem_calls {S : Type} {h : Handler Call Call.Reply S}
    {name nspace : String} {s read s' : S} {c : ValkeyCluster} {state : ClusterState}
    {e : Call × S} (hpass : ComesToPublish h name nspace s c read cr state s')
    (he : e ∈ calls h (updateStatus cr state) s') : e ∈ calls h (reconcile name nspace) s := by
  obtain ⟨s₁, s₂, kind, hread, halive, hfinal, hready, hact⟩ := hpass.steps
  have hattempt : exec h (Kube.getCluster name nspace).attempt s = (.ok (.ok c), read) :=
    (exec_lift _).trans (congrArg (fun r => (Except.ok r.1, r.2)) hread)
  have hmem : e ∈ calls h (reconcileCluster cr) s₂ := by
    rw [reconcileCluster_eq]
    exact mem_calls_bind_ok hact (mem_calls_bind he)
  refine mem_calls_bind_ok hattempt ?_
  simp only [halive, Option.isSome_none, Bool.false_eq_true, if_false]
  refine mem_calls_bind_ok hfinal ?_
  rw [provision_bind]
  refine mem_calls_bind_ok hready (mem_calls_bind ?_)
  exact (calls_lift _).symm ▸ hmem

end

/-! ## Sharing the resource with a user -/

/-- An API server with a user and a cache, and a cluster that is whatever it is. -/
structure Shared (T : Type) where
  kube : ApiServer
  rest : T
  /-- How many calls have been answered. -/
  ticks : Nat := 0
  /-- How many times the spec has been edited. -/
  edits : Nat := 0
  /-- The resource at every moment so far, the latest first, and after how many edits. -/
  past : List (ValkeyCluster × Nat)

/-- How the cluster answers, which specs the user stores right before a call, and how many
moments the cache is behind when it answers one. -/
structure Company (T : Type) where
  admin : (c : AdminCall) → T → c.Reply × T
  order : (m : NodeMap) → T → RangeOrder m × T
  edits : Nat → List ValkeyClusterSpec
  lag : Nat → Nat

namespace Shared

variable {T : Type}

/-- As it is found. -/
def opening (k : ApiServer) (rest : T) : Shared T where
  kube := k
  rest := rest
  past := (k.cluster.map (·, 0)).toList

/-- The server has changed, after so many edits. -/
def put (k : ApiServer) (edits : Nat) (w : Shared T) : Shared T :=
  { w with kube := k, edits, past := (k.cluster.map (·, edits)).toList ++ w.past }

def edit (w : Shared T) (spec : ValkeyClusterSpec) : Shared T :=
  match w.kube.cluster with
  | none => w
  | some c =>
      if spec = c.spec then w
      else w.put (w.kube.update { c with spec }).2 (w.edits + 1)

/-- The user's turn. -/
def turn (o : Company T) (w : Shared T) : Shared T :=
  (o.edits w.ticks).foldl edit { w with ticks := w.ticks + 1 }

/-- The resource as a cache has it that is so many moments behind. -/
def cached (lag : Nat) (name nspace : String) (w : Shared T) : Except Err ValkeyCluster :=
  match w.past[lag]?.filter fun v => v.1.name == name && v.1.nspace == nspace with
  | some v => .ok v.1
  | none => .error ApiServer.notFound

def answer (o : Company T) : Handler Call Call.Reply (Shared T)
  | .kube (.getCluster name nspace), w =>
      ((w.turn o).cached (o.lag w.ticks) name nspace, w.turn o)
  | .kube c, w =>
      (((w.turn o).kube.answer c).1,
        (w.turn o).put ((w.turn o).kube.answer c).2 (w.turn o).edits)
  | .admin c, w =>
      ((o.admin c (w.turn o).rest).1, { w.turn o with rest := (o.admin c (w.turn o).rest).2 })
  | .rangeOver m, w =>
      ((o.order m (w.turn o).rest).1, { w.turn o with rest := (o.order m (w.turn o).rest).2 })

/-- The record goes up to the present, and generations have counted the edits. -/
structure Recorded (w : Shared T) : Prop where
  latest : Latest (fun v : ValkeyCluster × Nat => v.1.resourceVersion) w.past
    (w.kube.cluster.map (·, w.edits))
  counted : ∀ v ∈ w.past, ∀ v' ∈ w.past, v.1.generation + v'.2 = v'.1.generation + v.2

/-- The record has been kept up. -/
structure Since (w w' : Shared T) : Prop extends Recorded w' where
  past : ∀ v ∈ w.past, v ∈ w'.past

section

variable {w w' w'' : Shared T} {k : ApiServer} {c c' cr : ValkeyCluster} {n : Nat}

theorem recorded_opening (k : ApiServer) (rest : T) : (opening k rest).Recorded := by
  cases hk : k.cluster with
  | none =>
      refine ⟨?_, fun v hv => ?_⟩
      · show Latest _ _ (k.cluster.map _)
        rw [hk]
        exact .gone
      · rw [opening, hk] at hv
        cases hv
  | some c =>
      have hpast : (opening k rest).past = [(c, 0)] := by rw [opening, hk]; rfl
      refine ⟨?_, fun v hv v' hv' => ?_⟩
      · rw [hpast]
        show Latest _ _ (k.cluster.map _)
        rw [hk]
        exact .store fun _ hb => absurd hb List.not_mem_nil
      · rw [hpast] at hv hv'
        rw [List.mem_singleton.1 hv, List.mem_singleton.1 hv']

theorem Since.refl (h : w.Recorded) : Since w w := ⟨h, fun _ hv => hv⟩

theorem Since.trans (h : Since w w') (h' : Since w' w'') : Since w w'' :=
  ⟨h'.toRecorded, fun v hv => h'.past v (h.past v hv)⟩

/-! ## What keeps the record -/

theorem since_put_same (h : w.Recorded) (hk : k.cluster = w.kube.cluster) :
    Since w (w.put k w.edits) := by
  have hpast : ∀ v ∈ (w.put k w.edits).past, v ∈ w.past := by
    intro v hv
    refine (List.mem_append.1 hv).elim (fun hv => h.latest.listed v ?_) id
    rw [← hk]
    exact Option.mem_toList.1 hv
  refine ⟨⟨?_, fun v hv v' hv' => h.counted v (hpast v hv) v' (hpast v' hv')⟩,
    fun v hv => List.mem_append_right _ hv⟩
  show Latest _ ((k.cluster.map _).toList ++ w.past) (k.cluster.map _)
  rw [hk]
  exact h.latest.again

/-- A new version, whose generation has counted the edits since the last. -/
theorem since_put_stored (h : w.Recorded) (hc : w.kube.cluster = some c)
    (hk : k.cluster = some c') (hnew : c.resourceVersion < c'.resourceVersion)
    (hgen : c'.generation + w.edits = c.generation + n) : Since w (w.put k n) := by
  have hcurrent : w.kube.cluster.map (·, w.edits) = some (c, w.edits) := by rw [hc]; rfl
  have hpast : (w.put k n).past = (c', n) :: w.past := by rw [put, hk]; rfl
  have hcounted : ∀ v ∈ w.past, v.1.generation + n = c'.generation + v.2 := by
    intro v hv
    have hcount := h.counted v hv _ (h.latest.listed _ hcurrent)
    simp only [] at hcount
    omega
  refine ⟨⟨?_, fun v hv v' hv' => ?_⟩, fun v hv => ?_⟩
  · rw [hpast]
    show Latest _ _ (k.cluster.map _)
    rw [hk]
    exact .store (h.latest.newer hcurrent hnew)
  · rw [hpast, List.mem_cons] at hv hv'
    rcases hv with rfl | hv
    · rcases hv' with rfl | hv'
      · rfl
      · exact (hcounted v' hv').symm
    · rcases hv' with rfl | hv'
      · exact hcounted v hv
      · exact h.counted v hv v' hv'
  · rw [hpast]
    exact List.mem_cons_of_mem _ hv

theorem since_put_gone (h : w.Recorded) (hk : k.cluster = none) : Since w (w.put k n) := by
  have hpast : (w.put k n).past = w.past := by rw [put, hk]; rfl
  refine ⟨⟨?_, ?_⟩, fun v hv => ?_⟩
  · show Latest _ _ (k.cluster.map _)
    rw [hk]
    exact .gone
  · rw [hpast]
    exact h.counted
  · rw [hpast]
    exact hv

theorem since_edit (h : w.Recorded) (spec : ValkeyClusterSpec) : Since w (w.edit spec) := by
  unfold edit
  split
  · exact .refl h
  · next c hc =>
      split
      · exact .refl h
      · next hne =>
          have hnamed : w.kube.named c.name c.nspace = some c := named_of_cluster hc
          simp only [ApiServer.update, hnamed, ne_eq, not_true_eq_false, if_false]
          split
          · exact since_put_gone h rfl
          · refine since_put_stored h hc rfl (Nat.lt_succ_self _) ?_
            simp only [ApiServer.merge, hne, if_false]
            omega

theorem since_turn (o : Company T) (h : w.Recorded) : Since w (w.turn o) := by
  have hloop : ∀ (specs : List ValkeyClusterSpec) (w' : Shared T), Since w w' →
      Since w (specs.foldl edit w') := by
    intro specs
    induction specs with
    | nil => intro w' hw'; exact hw'
    | cons spec specs ih =>
        intro w' hw'
        exact ih _ (hw'.trans (since_edit hw'.toRecorded spec))
  exact hloop _ _ ⟨⟨h.latest, h.counted⟩, fun _ hv => hv⟩

/-- The controller's own calls do not touch the generation. -/
theorem since_kube {c : KubeCall} (hc : LeavesSpec (.kube c)) (h : w.Recorded) :
    Since w (w.put (w.kube.answer c).2 w.edits) := by
  have hupdate : ∀ new, c ≠ .updateCluster new := by
    intro new heq
    subst heq
    exact hc
  cases hk : (w.kube.answer c).2.cluster with
  | none => exact since_put_gone h hk
  | some stored =>
      obtain ⟨old, hold, heq | ⟨status, heq⟩⟩ := cluster_answer hupdate hk
      · exact since_put_same h (by rw [hk, hold, heq])
      · subst heq
        exact since_put_stored h hold hk (Nat.lt_succ_self _) rfl

theorem since_answer (o : Company T) {c : Call} (hc : LeavesSpec c) (h : w.Recorded) :
    Since w (answer o c w).2 := by
  have hturn := since_turn o h
  cases c with
  | kube c =>
      cases c with
      | getCluster name nspace => exact hturn
      | _ => exact hturn.trans (since_kube hc hturn.toRecorded)
  | admin c => exact hturn.trans ⟨⟨hturn.latest, hturn.counted⟩, fun _ hv => hv⟩
  | rangeOver m => exact hturn.trans ⟨⟨hturn.latest, hturn.counted⟩, fun _ hv => hv⟩

/-- So does a program that makes such calls only. -/
theorem since_exec (o : Company T) {α : Type} {p : Act α} (hp : Prog.Only LeavesSpec p.run)
    (h : w.Recorded) {r : Except Err α} (hexec : exec (answer o) p w = (r, w')) :
    Since w w' := by
  have hruns := hp.runs (G := fun _ _ => True) (I := Since w) (h := answer o)
    (fun c s hc hs => ⟨trivial, hs.trans (since_answer o hc hs.toRecorded)⟩) (Since.refl h)
  have hend := (Prog.runs_iff.1 hruns).1
  rw [exec] at hexec
  rwa [hexec] at hend

/-! ## The write -/

theorem cached_past {lag : Nat} {name nspace : String} (hc : w.cached lag name nspace = .ok c) :
    ∃ e, (c, e) ∈ w.past := by
  unfold cached at hc
  split at hc
  · next v hv =>
      cases hc
      exact ⟨v.2, List.mem_of_getElem? (Option.filter_eq_some_iff.1 hv).1⟩
  · cases hc

/-- A status is written back to the resource as some read found it, and stamped with
the generation of that. -/
def Stamps (read : Shared T) : Call → Shared T → Prop
  | .kube (.updateClusterStatus new), t => Since read t ∧ ∃ latest e, (latest, e) ∈ t.past ∧
      new.resourceVersion = latest.resourceVersion ∧
      new.status.observedGeneration = latest.generation
  | _, _ => True

theorem runs_updateStatus (o : Company T) (cr : ValkeyCluster) (state : ClusterState)
    {read : Shared T} (hw : Since read w) :
    Prog.Runs (answer o) (Stamps read) (fun _ => Since read) (updateStatus cr state).run w := by
  have hsince : ∀ {c : Call}, LeavesSpec c → ∀ {s}, Since read s → Since read (answer o c s).2 :=
    fun hc s hs => hs.trans (since_answer o hc hs.toRecorded)
  have hget : LeavesSpec (.kube (.getCluster cr.name cr.nspace)) := trivial
  refine runs_readWrite (fun s hs => ⟨trivial, hsince hget hs⟩) (fun s latest hs hreply => ?_) _ hw
  have hg := hsince hget hs
  obtain ⟨e, hlatest⟩ : ∃ e, (latest, e) ∈
      (answer o (.kube (.getCluster cr.name cr.nspace)) s).2.past := cached_past hreply
  revert hg hlatest
  generalize (answer o (.kube (.getCluster cr.name cr.nspace)) s).2 = g
  intro hg hlatest
  have hverdict := (runs_setVerdict (h := answer o) cr state { latest with
      status := { latest.status with
        shards := (List.range cr.spec.shards).map (shardStatus cr state)
        readyShards := Controller.readyShards cr state
        observedGeneration := latest.generation } } g).keeps (I := Since g)
    (fun c t hc ht => ht.trans (since_answer o (by rw [hc]; trivial) ht.toRecorded))
    (Since.refl hg.toRecorded)
  have hnow : ∀ c (t : Shared T), c = Call.kube .now → Stamps read c t := by
    intro c t hc
    rw [hc]
    trivial
  refine (hverdict.guard_mono hnow).mono ?_
  rintro new t ⟨⟨conds, rfl⟩, ht⟩
  have hupdate : ∀ new, LeavesSpec (.kube (.updateClusterStatus new)) := fun _ => trivial
  exact ⟨⟨hg.trans ht, latest, e, ht.past _ hlatest, rfl, rfl⟩, hsince (hupdate _) (hg.trans ht)⟩

/-- What is accepted is stamped with the generation of any version that has been read, plus the
edits since that version. -/
theorem Stamps.generation {o : Company T} {read t : Shared T} {new stored : ValkeyCluster}
    (hstamps : Stamps read (.kube (.updateClusterStatus new)) t)
    (haccepted : (answer o (.kube (.updateClusterStatus new)) t).1 = Except.ok stored)
    (hc : (c, n) ∈ read.past) : new.status.observedGeneration + n =
      c.generation + (answer o (.kube (.updateClusterStatus new)) t).2.edits := by
  obtain ⟨ht, latest, e, hlatest, hversion, hgen⟩ := hstamps
  have hturn := since_turn o ht.toRecorded
  change ((t.turn o).kube.updateStatus new).1 = Except.ok stored at haccepted
  show _ = c.generation + (t.turn o).edits
  rw [ApiServer.updateStatus] at haccepted
  split at haccepted
  · cases haccepted
  · next old hold =>
      split at haccepted
      · cases haccepted
      · next hsame =>
          have hcurrent : (t.turn o).kube.cluster.map (·, (t.turn o).edits) =
              some (old, (t.turn o).edits) := by
            rw [(Option.filter_eq_some_iff.1 hold).1]
            rfl
          -- a copy with the stored version is the stored object
          have hnow : (latest, e) = (old, (t.turn o).edits) :=
            hturn.latest.same hcurrent (hturn.past _ hlatest)
              (hversion.symm.trans (not_not.1 hsame))
          have hcount := hturn.counted _ (hturn.latest.listed _ hcurrent) _
            (hturn.past _ (ht.past _ hc))
          obtain rfl : latest = old := congrArg Prod.fst hnow
          rw [hgen]
          exact hcount

/-! ## The pass -/

/-- With or without the finalizer to be stored, the pass works from the spec and the
generation it read. -/
theorem since_ensureFinalizer (o : Company T) (h : w.Recorded) (hc : (c, n) ∈ w.past)
    (halive : c.deletionTimestamp = none)
    (hexec : exec (answer o) (ensureFinalizer c) w = (.ok cr, w')) :
    Since w w' ∧ cr.spec = c.spec ∧ cr.generation = c.generation := by
  unfold ensureFinalizer at hexec
  split at hexec
  · cases hexec
    exact ⟨.refl h, rfl, rfl⟩
  · have hturn := since_turn o h
    change (((w.turn o).kube.update { c with finalizers := c.finalizers ++ [finalizer] }).1,
      (w.turn o).put ((w.turn o).kube.update
        { c with finalizers := c.finalizers ++ [finalizer] }).2 (w.turn o).edits) =
      (Except.ok cr, w') at hexec
    obtain ⟨hreply, rfl⟩ := Prod.mk.inj hexec
    simp only [ApiServer.update] at hreply ⊢
    split at hreply
    · cases hreply
    · next old hold =>
        split at hreply
        · cases hreply
        · next hsame =>
            have hstored := (Option.filter_eq_some_iff.1 hold).1
            have hcurrent : (w.turn o).kube.cluster.map (·, (w.turn o).edits) =
                some (old, (w.turn o).edits) := by
              rw [hstored]
              rfl
            have hnow : (c, n) = (old, (w.turn o).edits) :=
              hturn.latest.same hcurrent (hturn.past _ hc) (not_not.1 hsame)
            obtain rfl : c = old := congrArg Prod.fst hnow
            cases hreply
            simp only [if_neg hsame, ApiServer.merge, if_true, halive,
              Option.isSome_none, Bool.false_eq_true, false_and, if_false, and_self, and_true]
            exact hturn.trans
              (since_put_stored hturn.toRecorded hstored rfl (Nat.lt_succ_self _) rfl)

theorem since_pass (o : Company T) {name nspace : String} {read : Shared T}
    {state : ClusterState} (h : w.Recorded)
    (hpass : ComesToPublish (answer o) name nspace w c read cr state w') :
    (∃ n, (c, n) ∈ read.past) ∧ Since read w' ∧ cr.spec = c.spec ∧
      cr.generation = c.generation := by
  obtain ⟨w₁, w₂, kind, hread, halive, hfinal, hready, hact⟩ := hpass.steps
  obtain ⟨hreply, rfl⟩ : (w.turn o).cached _ name nspace = .ok c ∧ w.turn o = read :=
    Prod.mk.inj hread
  obtain ⟨n, hc⟩ := cached_past hreply
  have hturn := since_turn o h
  obtain ⟨hsince, hspec, hgen⟩ := since_ensureFinalizer o hturn.toRecorded hc halive hfinal
  have hprovision := since_exec o only_provision hsince.toRecorded hready
  have hend := since_exec o only_observeAndAct hprovision.toRecorded hact
  exact ⟨⟨n, hc⟩, (hsince.trans hprovision).trans hend, hspec, hgen⟩

end

end Shared

/-- A status that is accepted at the end of a pass was computed from the spec of the version the
pass read. It carries the generation of that spec exactly when nobody has edited the spec since
that version, before the pass or during it, up to the write. -/
theorem observedGeneration_iff {T : Type} (o : Company T) {name nspace : String}
    {w read w' t : Shared T} {c cr new stored : ValkeyCluster} {state : ClusterState}
    (hw : w.Recorded)
    (hpass : ComesToPublish (Shared.answer o) name nspace w c read cr state w')
    (hwrite : (Call.kube (.updateClusterStatus new), t) ∈
      calls (Shared.answer o) (updateStatus cr state) w')
    (haccepted : (Shared.answer o (.kube (.updateClusterStatus new)) t).1 = Except.ok stored) :
    (Call.kube (.updateClusterStatus new), t) ∈
      calls (Shared.answer o) (reconcile name nspace) w ∧
    (cr.spec = c.spec ∧ cr.generation = c.generation) ∧ WrittenFor cr state new ∧
    ∃ edits, (c, edits) ∈ read.past ∧
      (new.status.observedGeneration = cr.generation ↔
        (Shared.answer o (.kube (.updateClusterStatus new)) t).2.edits = edits) := by
  obtain ⟨⟨edits, hc⟩, hsince, hspec, hgen⟩ := Shared.since_pass o hw hpass
  have hstamps : Shared.Stamps read (.kube (.updateClusterStatus new)) t :=
    (Prog.runs_iff.1 (Shared.runs_updateStatus o cr state hsince)).2 _ hwrite
  have hedits := Shared.Stamps.generation hstamps haccepted hc
  refine ⟨hpass.mem_calls hwrite, ⟨hspec, hgen⟩, writesFor_of_mem hwrite, edits, hc, ?_⟩
  constructor
  · intro hobserved
    omega
  · intro hnone
    omega

/-- The pod of `onePod`, which has been given its slots or not, a user who edits as told, and a
cache that lags as told. -/
def onePodCompany (edits : Nat → List ValkeyClusterSpec) (lag : Nat → Nat) : Company Bool where
  admin
    | .state _, formed => (Except.ok (if formed then onePodServing false else onePodDown), formed)
    | .myID _, formed => (Except.ok "a", formed)
    | .meet .., formed => (Except.ok (), formed)
    | .addSlots .., _ => (Except.ok (), true)
    | .replicate .., formed => (Except.ok (), formed)
    | .forget .., formed => (Except.ok (), formed)
    | .failover _, formed => (Except.ok (), formed)
    | .rebalance .., formed => (Except.ok (), formed)
    | .reshard .., formed => (Except.ok (), formed)
    | .moveSlots .., formed => ((0, none), formed)
    | .fix _, formed => (Except.ok (), formed)
    | .repairSlots _, formed => ((0, none), formed)
  order := fun m formed => (asWritten m, formed)
  edits := edits
  lag := lag

/-- The resource and nothing else. -/
def onePodStart : Shared Bool := .opening { cluster := some { onePod with generation := 1 } } false

/-- The user edits before the resource is read. The copy the status is first written to is from a
lagging cache and refused, the next one is not. -/
theorem observedGeneration_retried :
    ∃ (cr new : ValkeyCluster) (t : Shared Bool), (Call.kube (.updateClusterStatus new), t) ∈
        calls (Shared.answer (onePodCompany
          (fun k => if k = 0 then [{ onePod.spec with haPolicy := { minReplicasToWrite := 1 } }]
            else []) fun k => if k = 14 then 3 else 0))
          (reconcile onePod.name onePod.nspace) onePodStart ∧
      new.status.phase = some .ready ∧ cr.generation = 2 ∧
      new.status.observedGeneration = cr.generation := by
  have hpass : ComesToPublish (Shared.answer (onePodCompany
      (fun k => if k = 0 then [{ onePod.spec with haPolicy := { minReplicasToWrite := 1 } }]
        else []) fun k => if k = 14 then 3 else 0)) onePod.name onePod.nspace onePodStart
      _ _ _ _ _ := ⟨⟨_, _, _, rfl, rfl, rfl, rfl, rfl⟩⟩
  obtain ⟨hmem, -, -, edits, hread, hiff⟩ := observedGeneration_iff _
    (Shared.recorded_opening _ _) hpass (List.mem_of_getElem? (i := 9) rfl) rfl
  -- the version that was read is the one the edit has stored
  obtain rfl : edits = 1 := by
    rcases List.mem_cons.1 hread with heq | hread
    · exact congrArg Prod.snd heq
    · have hold := congrArg (fun v => v.1.generation) (List.mem_singleton.1 hread)
      cases hold
  exact ⟨_, _, _, hmem, rfl, rfl, hiff.2 rfl⟩

/-- Two more shards are asked for right before the status is written. It says `Ready` for
the spec that asks for three, and is computed from the one that asks for one. -/
theorem observedGeneration_not_seen :
    ∃ (c cr new stored : ValkeyCluster) (state : ClusterState) (read w' t : Shared Bool),
      let o := onePodCompany (fun k => if k = 14 then [{ onePod.spec with shards := 3 }] else [])
        fun _ => 0
      ComesToPublish (Shared.answer o) onePod.name onePod.nspace onePodStart c read cr state w' ∧
      (Call.kube (.updateClusterStatus new), t) ∈
        calls (Shared.answer o) (updateStatus cr state) w' ∧
      (Shared.answer o (.kube (.updateClusterStatus new)) t).1 = Except.ok stored ∧
      stored.spec.shards = 3 ∧ cr.spec.shards = 1 ∧ new.status.phase = some .ready ∧
      new.status.observedGeneration = 2 ∧ cr.generation = 1 :=
  ⟨_, _, _, _, _, _, _, _, ⟨⟨_, _, _, rfl, rfl, rfl, rfl, rfl⟩⟩,
    List.mem_of_getElem? (i := 4) rfl, rfl, rfl, rfl, rfl, rfl, rfl⟩

-- Nor has the user to be that quick: here the edit comes before the read, but the cache has not
-- seen it yet.
example :
    ∃ (c cr new stored : ValkeyCluster) (state : ClusterState) (read w' t : Shared Bool),
      let o := onePodCompany (fun k => if k = 0 then [{ onePod.spec with shards := 3 }] else [])
        fun k => if k = 0 then 1 else 0
      let w := Shared.opening { cluster := some { onePod with
        generation := 1
        finalizers := [finalizer] } } false
      ComesToPublish (Shared.answer o) onePod.name onePod.nspace w c read cr state w' ∧
      (Call.kube (.updateClusterStatus new), t) ∈
        calls (Shared.answer o) (updateStatus cr state) w' ∧
      (Shared.answer o (.kube (.updateClusterStatus new)) t).1 = Except.ok stored ∧
      t.edits = read.edits ∧ new.status.observedGeneration = 2 ∧ cr.generation = 1 :=
  ⟨_, _, _, _, _, _, _, _, ⟨⟨_, _, _, rfl, rfl, rfl, rfl, rfl⟩⟩,
    List.mem_of_getElem? (i := 4) rfl, rfl, rfl, rfl, rfl⟩

end Valkeyop.Controller
