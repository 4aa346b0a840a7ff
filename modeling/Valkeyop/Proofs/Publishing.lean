import Valkeyop.Proofs.Workloads

/-!
# What a status write does

Phases are announced and a status is published by reading the resource, changing
it and writing it back. Whatever else goes on, such a write leaves the workloads
alone and everything of the resource but its status and its version; and when
nobody else writes in between it goes through at the first attempt, with the phase
`verdict` names.
-/

namespace Valkeyop.Controller

open Valkeyop.Lib Valkeyop.Lib.Fallible Valkeyop.Cluster Valkeyop.Api Valkeyop.Resources

/-! ## The verdict -/

/-- The phase a state is published with. -/
def verdict (cr : ValkeyCluster) (state : ClusterState) : ValkeyClusterPhase :=
  if allReady cr state then .ready
  else if actualShards state > cr.spec.shards ∧ readyShards cr state > 0 then .resharding
  else if state.openSlots ∧ readyShards cr state > 0 then .resharding
  else .degraded

theorem verdict_cases (cr : ValkeyCluster) (state : ClusterState) :
    verdict cr state = .ready ∨ verdict cr state = .resharding ∨
      verdict cr state = .degraded := by
  unfold verdict
  repeat' split
  all_goals simp

theorem verdict_ready_iff {cr : ValkeyCluster} {state : ClusterState} :
    verdict cr state = .ready ↔ allReady cr state = true := by
  unfold verdict
  split
  · next h => exact iff_of_true rfl h
  · next h =>
      refine iff_of_false ?_ h
      split
      · simp
      · split <;> simp

/-- A condition to be set. -/
structure CondSetting where
  type : String
  status : ConditionStatus
  reason : String
  message : String

/-- The conditions a state is published with. -/
def verdictConds (cr : ValkeyCluster) (state : ClusterState) : List CondSetting :=
  if allReady cr state then
    [⟨conditionAvailable, .true, "Ready", "all shards serving, full keyspace covered"⟩,
      ⟨conditionProgressing, .false, "Ready", "converged"⟩,
      ⟨conditionDegraded, .false, "Ready", "healthy"⟩]
  else if actualShards state > cr.spec.shards ∧ readyShards cr state > 0 then
    [⟨conditionProgressing, .true, "Resharding", "removing shards"⟩,
      ⟨conditionAvailable, .true, "Serving", "primaries serving during scale-in"⟩]
  else if state.openSlots ∧ readyShards cr state > 0 then
    [⟨conditionProgressing, .true, "Resharding", "slot migration in progress"⟩,
      ⟨conditionAvailable, .true, "Serving", "primaries serving during migration"⟩]
  else if readyShards cr state = 0 then
    [⟨conditionAvailable, .false, "NoPrimaries", "no shard has a reachable primary"⟩,
      ⟨conditionDegraded, .true, "NoPrimaries", "no shard has a reachable primary"⟩]
  else
    [⟨conditionAvailable, .false, "PartialCoverage",
        "not all shards serving or keyspace not fully covered"⟩,
      ⟨conditionDegraded, .true, "PartialCoverage", "degraded"⟩]

/-- Calls of `setCond`, one after the other. -/
def setConds (cr : ValkeyCluster) : List CondSetting → Ctl ValkeyCluster
  | [] => pure cr
  | c :: rest => do
      let cr ← setCond cr c.type c.status c.reason c.message
      setConds cr rest

theorem setVerdict_eq (cr : ValkeyCluster) (state : ClusterState) (latest : ValkeyCluster) :
    setVerdict cr state latest =
      setConds { latest with status := { latest.status with phase := some (verdict cr state) } }
        (verdictConds cr state) := by
  unfold setVerdict verdict verdictConds
  repeat' split
  all_goals simp only [setConds, bind_pure]

/-- A condition that was set, and when. -/
structure CondCall extends CondSetting where
  time : Nat

/-- The condition a call sets. -/
def CondCall.condition (generation : Nat) (conds : List Condition) (x : CondCall) : Condition where
  type := x.type
  status := x.status
  reason := x.reason
  message := x.message
  observedGeneration := generation
  lastTransitionTime := transitionTime conds x.type x.status x.time

def CondCall.put (generation : Nat) (conds : List Condition) (x : CondCall) : List Condition :=
  putCondition (x.condition generation conds) conds

section

variable {S : Type} (h : Handler Call Call.Reply S)

/-- The calls, with the time the clock shows each of them. -/
def timed : List CondSetting → S → List CondCall
  | [], _ => []
  | c :: rest, s => ⟨c, (h (.kube .now) s).1⟩ :: timed rest (h (.kube .now) s).2

theorem map_timed (settings : List CondSetting) (s : S) :
    (timed h settings s).map CondCall.toCondSetting = settings := by
  induction settings generalizing s with
  | nil => rfl
  | cons c rest ih => rw [timed, List.map_cons, ih]

theorem run_setConds (settings : List CondSetting) (cr : ValkeyCluster) (s : S) :
    ((setConds cr settings).run h s).1 = { cr with status := { cr.status with
      conditions := (timed h settings s).foldl (CondCall.put cr.generation)
        cr.status.conditions } } := by
  induction settings generalizing cr s with
  | nil => rfl
  | cons c rest ih =>
      rw [setConds, Prog.run_bind, ih]
      rfl

end

/-! ## Which calls are made -/

/-- The calls of a status write. -/
def Publishes : Call → Prop
  | .kube (.getCluster ..) | .kube (.updateClusterStatus _) | .kube .now => True
  | _ => False

theorem Publishes.of_calls {P : Call → Prop} {c : Call} (hc : Publishes c)
    (hget : ∀ name nspace, P (.kube (.getCluster name nspace)))
    (hwrite : ∀ new, P (.kube (.updateClusterStatus new))) (hnow : P (.kube .now)) : P c := by
  unfold Publishes at hc
  split at hc
  · exact hget _ _
  · exact hwrite _
  · exact hnow
  · exact hc.elim

theorem only_retryOnConflict {α : Type} {P : Call → Prop} {p : Act α}
    (hp : Prog.Only P p.run) : ∀ retries, Prog.Only P (retryOnConflict retries p).run
  | 0 => hp
  | retries + 1 => by
      refine Prog.Only.bind hp fun r => ?_
      cases r with
      | ok a => exact Prog.only_pure _
      | error e =>
          simp only []
          split
          · exact only_retryOnConflict hp retries
          · exact Prog.only_pure _

theorem only_setCond (cr : ValkeyCluster) (type : String) (status : ConditionStatus)
    (reason msg : String) : (setCond cr type status reason msg).Only Publishes :=
  Prog.Only.bind (Prog.only_op.2 trivial) fun _ => Prog.only_pure _

theorem only_setPhase (cr : ValkeyCluster) (phase : ValkeyClusterPhase) (reason msg : String) :
    Prog.Only Publishes (setPhase cr phase reason msg).run :=
  only_retryOnConflict (only_bind (Prog.only_op.2 trivial) fun _ =>
    only_bind (only_lift (only_setCond ..)) fun _ =>
      only_bind (Prog.only_op.2 trivial) fun _ => Prog.only_pure _) _

theorem only_announce (cr : ValkeyCluster) (phase : ValkeyClusterPhase) (reason msg : String) :
    (announce cr phase reason msg).Only Publishes :=
  Prog.Only.bind (only_setPhase ..) fun _ => Prog.only_pure _

theorem only_setConds {P : Call → Prop} (hnow : P (.kube .now)) (settings : List CondSetting)
    (cr : ValkeyCluster) : (setConds cr settings).Only P := by
  induction settings generalizing cr with
  | nil => exact Prog.only_pure _
  | cons c rest ih => exact ((Prog.only_op.2 hnow).bind fun _ => Prog.only_pure _).bind ih

theorem only_setVerdict (cr : ValkeyCluster) (state : ClusterState) (latest : ValkeyCluster) :
    (setVerdict cr state latest).Only Publishes := by
  rw [setVerdict_eq]
  exact only_setConds trivial _ _

theorem only_updateStatus (cr : ValkeyCluster) (state : ClusterState) :
    Prog.Only Publishes (updateStatus cr state).run :=
  only_retryOnConflict (only_bind (Prog.only_op.2 trivial) fun _ =>
    only_bind (only_lift (only_setVerdict ..)) fun _ =>
      only_bind (Prog.only_op.2 trivial) fun _ => Prog.only_pure _) _

/-! ## What they leave alone -/

/-- All of the resource but its status and its version. -/
def unpublished (cr : ValkeyCluster) : ValkeyCluster :=
  { cr with status := {}, resourceVersion := 0 }

structure Republished (k k' : ApiServer) : Prop where
  rest : k' = { k with cluster := k'.cluster, clock := k'.clock }
  cluster : k'.cluster.map unpublished = k.cluster.map unpublished

theorem Republished.refl (k : ApiServer) : Republished k k := ⟨rfl, rfl⟩

theorem Republished.trans {k k' k'' : ApiServer} (h : Republished k k')
    (h' : Republished k' k'') : Republished k k'' :=
  ⟨by rw [h'.rest, h.rest], h'.cluster.trans h.cluster⟩

theorem republished_updateStatus (new : ValkeyCluster) (k : ApiServer) :
    Republished k (k.updateStatus new).2 := by
  unfold ApiServer.updateStatus
  split
  · exact .refl k
  · next old hold =>
      split
      · exact .refl k
      · obtain ⟨hcluster, -⟩ := Option.filter_eq_some_iff.1 hold
        exact ⟨rfl, by rw [hcluster]; rfl⟩

theorem republished_answer {c : KubeCall} (hc : Publishes (.kube c)) (k : ApiServer) :
    Republished k (k.answer c).2 := by
  cases c with
  | getCluster name nspace => exact .refl k
  | updateClusterStatus cr => exact republished_updateStatus cr k
  | now => exact ⟨rfl, rfl⟩
  | _ => exact hc.elim

section

variable {S : Type} {h : Handler Call Call.Reply S} {kube : S → ApiServer}
  {put : ApiServer → S → S} {s : S} {G : Call → S → Prop}

/-- A program of such calls leaves the workloads as they are. -/
theorem runs_republished {α : Type} (hk : KubeBacked h kube put) {p : Ctl α}
    (hp : p.Only Publishes)
    (hG : ∀ c k, Publishes c → Republished (kube s) k → G c (put k s)) :
    Prog.Runs h G (fun _ s' => ∃ k, s' = put k s ∧ Republished (kube s) k) p s := by
  refine hp.runs (fun c s' hc hs' => ?_) ⟨kube s, (hk.put_kube s).symm, .refl _⟩
  obtain ⟨k, rfl, hpub⟩ := hs'
  refine ⟨hG c k hc hpub, ?_⟩
  cases c with
  | kube c =>
      rw [hk.answer, hk.kube_put]
      exact ⟨_, hk.put_put .., hpub.trans (republished_answer hc k)⟩
  | admin c => exact hc.elim
  | rangeOver m => exact hc.elim

/-! ## What they write -/

/-- Set conditions in turn, the clock moving on by one each time. -/
def applyConds (generation : Nat) : List CondSetting → Nat → List Condition → List Condition
  | [], _, conds => conds
  | c :: rest, time, conds =>
      applyConds generation rest (time + 1) (putCondition
        { type := c.type, status := c.status, reason := c.reason, message := c.message
          observedGeneration := generation
          lastTransitionTime := transitionTime conds c.type c.status time } conds)

/-- The status a state is published with. -/
def publishedStatus (cr : ValkeyCluster) (state : ClusterState) (time : Nat)
    (latest : ValkeyCluster) : ValkeyClusterStatus where
  phase := some (verdict cr state)
  observedGeneration := latest.generation
  readyShards := readyShards cr state
  shards := (List.range cr.spec.shards).map (shardStatus cr state)
  conditions := applyConds latest.generation (verdictConds cr state) time
    latest.status.conditions

/-- The resource with another status stored. -/
def withStatus (status : ValkeyClusterStatus) (c : ValkeyCluster) : ValkeyCluster :=
  { c with status := status, resourceVersion := c.resourceVersion + 1 }

theorem run_setCond (hk : KubeBacked h kube put) (c : ValkeyCluster) (type : String)
    (status : ConditionStatus) (reason msg : String) (s : S) :
    (setCond c type status reason msg).run h s =
      ({ c with status := { c.status with
          conditions := applyConds c.generation [⟨type, status, reason, msg⟩] (kube s).clock
            c.status.conditions } },
        put { kube s with clock := (kube s).clock + 1 } s) := by
  have hnow : Prog.run h Kube.now s =
      ((kube s).clock, put { kube s with clock := (kube s).clock + 1 } s) := hk.answer .now s
  rw [setCond, Prog.run_bind, hnow]
  rfl

theorem run_setConds_backed (hk : KubeBacked h kube put) (settings : List CondSetting)
    (c : ValkeyCluster) (s : S) :
    (setConds c settings).run h s =
      ({ c with status := { c.status with
          conditions := applyConds c.generation settings (kube s).clock c.status.conditions } },
        put { kube s with clock := (kube s).clock + settings.length } s) := by
  induction settings generalizing c s with
  | nil => exact Prod.ext rfl (hk.put_kube s).symm
  | cons x rest ih =>
      rw [setConds, Prog.run_bind, run_setCond hk, ih]
      simp only [hk.kube_put, hk.put_put, List.length_cons, Nat.add_right_comm _ 1]
      rfl

theorem run_setVerdict (hk : KubeBacked h kube put) (cr : ValkeyCluster) (state : ClusterState)
    (latest : ValkeyCluster) (s : S) :
    (setVerdict cr state latest).run h s =
      ({ latest with status := { latest.status with
          phase := some (verdict cr state)
          conditions := applyConds latest.generation (verdictConds cr state) (kube s).clock
            latest.status.conditions } },
        put { kube s with clock := (kube s).clock + (verdictConds cr state).length } s) := by
  rw [setVerdict_eq, run_setConds_backed hk]

theorem exec_retryOnConflict {α : Type} {p : Act α} {a : α} {s' : S}
    (hp : exec h p s = (.ok a, s')) : ∀ retries,
      exec h (retryOnConflict retries p) s = (.ok a, s')
  | 0 => hp
  | retries + 1 => by
      change Prog.run h (p.run >>= _) s = _
      rw [exec] at hp
      rw [Prog.run_bind, hp]
      rfl

theorem named_of_cluster {k : ApiServer} {c : ValkeyCluster} (hc : k.cluster = some c) :
    k.named c.name c.nspace = some c := by
  rw [ApiServer.named, hc, Option.filter_some]
  simp

/-- The resource is found by its name. -/
theorem exec_getCluster (hk : KubeBacked h kube put) {c : ValkeyCluster}
    (hc : (kube s).cluster = some c) :
    exec h (Kube.getCluster c.name c.nspace) s = (.ok c, s) := by
  change h (.kube (.getCluster ..)) s = _
  rw [hk.answer, ApiServer.answer, hk.put_kube, named_of_cluster hc]

/-- A status goes through when the resource has not changed since it was read. -/
theorem exec_updateClusterStatus (hk : KubeBacked h kube put) {c c' : ValkeyCluster}
    (hc : (kube s).cluster = some c) (hname : c'.name = c.name) (hns : c'.nspace = c.nspace)
    (hversion : c'.resourceVersion = c.resourceVersion) :
    exec h (Kube.updateClusterStatus c') s = (.ok (withStatus c'.status c),
      put { kube s with cluster := some (withStatus c'.status c) } s) := by
  change h (.kube (.updateClusterStatus c')) s = _
  rw [hk.answer, ApiServer.answer, ApiServer.updateStatus, hname, hns, named_of_cluster hc]
  simp only [hversion, ne_eq, not_true_eq_false, if_false]
  rfl

/-- Changing the status of the resource that was read and writing it back. -/
theorem exec_writeBack (hk : KubeBacked h kube put) {c : ValkeyCluster} {p : Ctl ValkeyCluster}
    {status : ValkeyClusterStatus} {t : Nat} (hc : (kube s).cluster = some c)
    (hp : p.run h s = ({ c with status := status }, put { kube s with clock := t } s)) :
    exec h (do
        let latest ← liftM p
        let _ ← Kube.updateClusterStatus latest
        pure () : Act Unit) s =
      (.ok (), put { kube s with cluster := some (withStatus status c), clock := t } s) := by
  have hc' : (kube (put { kube s with clock := t } s)).cluster = some c := by
    rw [hk.kube_put]
    exact hc
  have hwrite : exec h (Kube.updateClusterStatus { c with status := status }) _ = _ :=
    exec_updateClusterStatus hk hc' rfl rfl rfl
  rw [hk.kube_put, hk.put_put] at hwrite
  rw [exec_bind_ok ((exec_lift p).trans (by rw [hp])), exec_bind_ok hwrite]
  rfl

theorem exec_updateStatus (hk : KubeBacked h kube put) {cr c : ValkeyCluster}
    (hc : (kube s).cluster = some c) (hname : c.name = cr.name) (hns : c.nspace = cr.nspace)
    (state : ClusterState) :
    exec h (updateStatus cr state) s = (.ok (), put { kube s with
      cluster := some (withStatus (publishedStatus cr state (kube s).clock c) c)
      clock := (kube s).clock + (verdictConds cr state).length } s) := by
  refine exec_retryOnConflict ?_ _
  rw [← hname, ← hns, exec_bind_ok (exec_getCluster hk hc)]
  exact exec_writeBack hk hc (run_setVerdict hk cr state _ s)

theorem exec_setPhase (hk : KubeBacked h kube put) {cr c : ValkeyCluster}
    (hc : (kube s).cluster = some c) (hname : c.name = cr.name) (hns : c.nspace = cr.nspace)
    (phase : ValkeyClusterPhase) (reason msg : String) :
    exec h (setPhase cr phase reason msg) s = (.ok (), put { kube s with
      cluster := some (withStatus { c.status with
        phase := some phase
        conditions := applyConds c.generation [⟨conditionProgressing, .true, reason, msg⟩]
          (kube s).clock c.status.conditions } c)
      clock := (kube s).clock + 1 } s) := by
  refine exec_retryOnConflict ?_ _
  rw [← hname, ← hns, exec_bind_ok (exec_getCluster hk hc)]
  exact exec_writeBack hk hc (run_setCond hk _ _ _ _ _ s)

/-- The published phase is the verdict. -/
theorem succeeds_updateStatus (hk : KubeBacked h kube put) {cr c : ValkeyCluster}
    (hc : (kube s).cluster = some c) (hname : c.name = cr.name) (hns : c.nspace = cr.nspace)
    (state : ClusterState)
    (hG : ∀ c k, Publishes c → Republished (kube s) k → G c (put k s)) :
    Succeeds h G (fun _ s' => ∃ k, s' = put k s ∧ Republished (kube s) k ∧
      ∃ c', k.cluster = some c' ∧ c'.status.phase = some (verdict cr state))
      (updateStatus cr state) s := by
  have hexec := exec_updateStatus hk hc hname hns state
  have hframe := runs_republished hk (only_updateStatus cr state) hG
  refine succeeds_iff.2 ⟨⟨(), _, hexec, _, rfl, ⟨rfl, ?_⟩, _, rfl, rfl⟩,
    (Prog.runs_iff.1 hframe).2⟩
  rw [hc]
  rfl

theorem Republished.sameCluster {k k' : ApiServer} (hpub : Republished k k') {c : ValkeyCluster}
    (hc : k.cluster = some c) : ∃ c', k'.cluster = some c' ∧ SameCluster c c' := by
  have hmap := hpub.cluster
  rw [hc] at hmap
  obtain ⟨c', hc', heq⟩ := Option.map_eq_some_iff.1 hmap
  have hname : (unpublished c').name = (unpublished c).name := by rw [heq]
  have hns : (unpublished c').nspace = (unpublished c).nspace := by rw [heq]
  have hspec : (unpublished c').spec = (unpublished c).spec := by rw [heq]
  have hdeletion : (unpublished c').deletionTimestamp = (unpublished c).deletionTimestamp := by
    rw [heq]
  exact ⟨c', hc', hname, hns, hspec, hdeletion⟩

/-- The finalizer is there or is stored. -/
theorem succeeds_ensureFinalizer (hk : KubeBacked h kube put) {c : ValkeyCluster}
    (hc : (kube s).cluster = some c) (halive : c.deletionTimestamp = none)
    (hG : ∀ c k, G (.kube c) (put k s)) :
    Succeeds h G (fun c' s' => SameCluster c c' ∧ ∃ k, s' = put k s ∧ k.cluster = some c' ∧
      k.statefulSets = (kube s).statefulSets) (ensureFinalizer c) s := by
  unfold ensureFinalizer
  split
  · exact succeeds_pure.2 ⟨⟨rfl, rfl, rfl, rfl⟩, kube s, (hk.put_kube s).symm, hc, rfl⟩
  · refine (Prog.runs_op (c := Call.kube (.updateCluster _))).2 ⟨?_, ?_⟩
    · have := hG (.updateCluster { c with finalizers := c.finalizers ++ [finalizer] }) (kube s)
      rwa [hk.put_kube] at this
    rw [hk.answer, ApiServer.answer, ApiServer.update]
    have hnamed : (kube s).named c.name c.nspace = some c := named_of_cluster hc
    simp only [hnamed, ne_eq, not_true_eq_false, if_false]
    have halive' : ¬ (c.deletionTimestamp.isSome = true ∧ c.finalizers ++ [finalizer] = []) := by
      simp [halive]
    exact ⟨⟨rfl, rfl, rfl, rfl⟩, _, rfl, if_neg halive', rfl⟩

end

/-! ## What is written, in any world

Somebody else may write in between, and an attempt may fail. -/

/-- A status written for a state, whatever the resource was when it was read. -/
structure WrittenFor (cr : ValkeyCluster) (state : ClusterState) (new : ValkeyCluster) :
    Prop where
  phase : new.status.phase = some (verdict cr state)
  readyShards : new.status.readyShards = readyShards cr state
  shards : new.status.shards = (List.range cr.spec.shards).map (shardStatus cr state)
  observedGeneration : new.status.observedGeneration = new.generation

/-- Every status write among the calls is for that state. -/
def WritesFor (cr : ValkeyCluster) (state : ClusterState) : Call → Prop
  | .kube (.updateClusterStatus new) => WrittenFor cr state new
  | _ => True

section

variable {S : Type} {h : Handler Call Call.Reply S} {s : S} {cr : ValkeyCluster}
  {state : ClusterState}

/-- In any world, conditions are set as of some times. -/
theorem runs_setConds (settings : List CondSetting) (c : ValkeyCluster) (s : S) :
    Prog.Runs h (fun c _ => c = .kube .now)
      (fun c' _ => ∃ calls : List CondCall, calls.map CondCall.toCondSetting = settings ∧
        c' = { c with status := { c.status with
          conditions := calls.foldl (CondCall.put c.generation) c.status.conditions } })
      (setConds c settings) s := by
  rw [Prog.runs_iff]
  exact ⟨⟨timed h settings s, map_timed h settings s, run_setConds h settings c s⟩,
    (only_setConds (P := (· = .kube .now)) rfl settings c).mem_trace⟩

theorem runs_setVerdict (cr : ValkeyCluster) (state : ClusterState) (latest : ValkeyCluster)
    (s : S) :
    Prog.Runs h (fun c _ => c = .kube .now)
      (fun c' _ => ∃ conds, c' = { latest with status := { latest.status with
        phase := some (verdict cr state), conditions := conds } })
      (setVerdict cr state latest) s := by
  rw [setVerdict_eq]
  refine (runs_setConds _ _ s).mono ?_
  rintro c' _ ⟨calls, -, rfl⟩
  exact ⟨_, rfl⟩

/-- What every attempt keeps, the attempts together keep. -/
theorem runs_retryOnConflict {α : Type} {G : Call → S → Prop} {I : S → Prop} {p : Act α}
    (hp : ∀ s, I s → Prog.Runs h G (fun _ => I) p.run s) : ∀ retries s, I s →
      Prog.Runs h G (fun _ => I) (retryOnConflict retries p).run s
  | 0, s, hs => hp s hs
  | retries + 1, s, hs => by
      change Prog.Runs h G _ (p.run >>= _) s
      rw [Prog.runs_bind]
      refine (hp s hs).mono ?_
      intro r s' hs'
      cases r with
      | ok a => exact Prog.runs_pure.2 hs'
      | error e =>
          simp only []
          split
          · exact runs_retryOnConflict hp retries s' hs'
          · exact Prog.runs_pure.2 hs'

/-- The resource is read, changed and written back, as often as it takes. -/
theorem runs_readWrite {G : Call → S → Prop} {I : S → Prop} {name nspace : String}
    {p : ValkeyCluster → Ctl ValkeyCluster}
    (hget : ∀ s, I s → G (.kube (.getCluster name nspace)) s ∧
      I (h (.kube (.getCluster name nspace)) s).2)
    (hp : ∀ s latest, I s → (h (.kube (.getCluster name nspace)) s).1 = Except.ok latest →
      Prog.Runs h G (fun new t => G (.kube (.updateClusterStatus new)) t ∧
        I (h (.kube (.updateClusterStatus new)) t).2) (p latest)
        (h (.kube (.getCluster name nspace)) s).2)
    (retries : Nat) {s : S} (hs : I s) :
    Prog.Runs h G (fun _ => I) (retryOnConflict retries (do
      let latest ← Kube.getCluster name nspace
      let latest ← liftM (p latest)
      let _ ← Kube.updateClusterStatus latest
      pure ())).run s := by
  refine runs_retryOnConflict (fun s hs => ?_) retries s hs
  obtain ⟨hguard, hI⟩ := hget s hs
  rw [Fallible.runs_bind]
  refine (Prog.runs_op (c := Call.kube (.getCluster ..))).2 ⟨hguard, ?_⟩
  cases hreply : (h (Call.kube (.getCluster name nspace)) s).1 with
  | error e => exact hI
  | ok latest =>
      show Prog.Runs h _ _ _ _
      rw [Fallible.runs_bind, Fallible.runs_lift]
      refine (hp s latest hs hreply).mono fun new t hnew => ?_
      show Prog.Runs h _ _ _ _
      rw [Fallible.runs_bind]
      refine (Prog.runs_op (c := Call.kube (.updateClusterStatus _))).2 ⟨hnew.1, ?_⟩
      cases (h (Call.kube (.updateClusterStatus _)) t).1 with
      | error e => exact hnew.2
      | ok _ => exact Fallible.runs_pure.2 hnew.2

/-- What every verdict leaves the resource with holds of each status that is written. -/
theorem written_of_mem {W : ValkeyCluster → Prop}
    (hW : ∀ (latest : ValkeyCluster) (s : S),
      Prog.Runs h (fun c _ => c = .kube .now) (fun new _ => W new)
        (setVerdict cr state { latest with status := { latest.status with
          shards := (List.range cr.spec.shards).map (shardStatus cr state)
          readyShards := readyShards cr state
          observedGeneration := latest.generation } }) s)
    {new : ValkeyCluster} {t : S}
    (hnew : (Call.kube (.updateClusterStatus new), t) ∈ calls h (updateStatus cr state) s) :
    W new := by
  have hother : ∀ {c : Call}, (∀ new, c ≠ .kube (.updateClusterStatus new)) →
      ∀ new, c = Call.kube (.updateClusterStatus new) → W new :=
    fun hc new heq => absurd heq (hc new)
  have hruns : Prog.Runs h (fun c _ => ∀ new, c = Call.kube (.updateClusterStatus new) → W new)
      (fun _ _ => True) (updateStatus cr state).run s := by
    refine runs_readWrite (fun _ _ => ⟨hother (by simp), trivial⟩) (fun s latest _ _ => ?_) _
      trivial
    refine ((hW latest _).guard_mono fun c _ hc => hc ▸ hother (by simp)).mono ?_
    intro new _ hwritten
    refine ⟨fun new' heq => ?_, trivial⟩
    cases heq
    exact hwritten
  exact (Prog.runs_iff.1 hruns).2 _ hnew new rfl

/-- Each attempt of `updateStatus` writes a status for the state. -/
theorem writesFor_of_mem {c : Call} {t : S} (hc : (c, t) ∈ calls h (updateStatus cr state) s) :
    WritesFor cr state c := by
  unfold WritesFor
  split
  · refine written_of_mem (fun latest s => ?_) hc
    refine (runs_setVerdict cr state _ s).mono ?_
    intro new _ hnew
    obtain ⟨conds, rfl⟩ := hnew
    exact ⟨rfl, rfl, rfl, rfl⟩
  · trivial

end

end Valkeyop.Controller
