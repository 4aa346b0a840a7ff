import Valkeyop.Lib.History
import Valkeyop.Proofs.Conditions

/-!
# What the conditions say of the past

`setCond` looks for a condition of its type and replaces it, and keeps the old time when
the status is the old one. Called again and again, on a list that was empty, it leaves
each type there once, as it was set last, with the time since when it has had its status.
`Recorded` says so of a list and the calls so far; one call keeps it, so any number does.

The second half is about what is written. Both writers set the phase and some of the
conditions together, so a status that says `Ready` was written by the one branch that sets
all three. That does not depend on what was read before, so reads may be old, and any
call may fail, before or after it took effect.
-/

namespace Valkeyop.Controller

open Valkeyop.Lib Valkeyop.Lib.Fallible Valkeyop.Cluster Valkeyop.Api Valkeyop.Resources

/-! ## The law -/

/-- The calls for a type. -/
abbrev callsFor (type : String) (history : List CondCall) : List CondCall :=
  eventsOf (fun x => x.type) type history

theorem callsFor_append_self (history : List CondCall) (x : CondCall) :
    callsFor x.type (history ++ [x]) = callsFor x.type history ++ [x] :=
  eventsOf_append_self rfl

/-- The conditions are those the calls so far have set. -/
structure Recorded (history : List CondCall) (conds : List Condition) : Prop where
  unique : (conds.map Condition.type).Nodup
  occurs : ∀ type, type ∈ conds.map Condition.type ↔ type ∈ history.map fun x => x.type
  /-- A type is as the last call for it has set it, with the time of the first of those
  last calls for it that all set the same status. -/
  carries : ∀ c ∈ conds, ∃ last first, (callsFor c.type history).getLast? = some last ∧
    c.status = last.status ∧ c.reason = last.reason ∧ c.message = last.message ∧
    (lastStretch (fun x => x.status) (callsFor c.type history)).head? = some first ∧
    c.lastTransitionTime = first.time

theorem recorded_nil : Recorded [] [] where
  unique := List.nodup_nil
  occurs _ := Iff.rfl
  carries _ hc := nomatch hc

/-- The time a call stamps its condition with: the old one goes on as long as the status
does. -/
theorem Recorded.transitionTime {history : List CondCall} {conds : List Condition}
    (hrec : Recorded history conds) (x : CondCall) :
    ∃ first, (lastStretch (fun x => x.status) (callsFor x.type (history ++ [x]))).head? =
        some first ∧
      Controller.transitionTime conds x.type x.status x.time = first.time := by
  rw [callsFor_append_self, Controller.transitionTime]
  cases hfind : conds.find? fun d => d.type == x.type with
  | none =>
      have hnone : callsFor x.type history = [] := by
        rw [eventsOf_eq_nil, ← hrec.occurs]
        intro hmem
        obtain ⟨d, hd, htype⟩ := List.mem_map.1 hmem
        exact absurd (List.find?_eq_none.1 hfind d hd) (by simp [htype])
      rw [hnone]
      exact ⟨x, by rw [lastStretch_append_other (by simp)]; rfl, rfl⟩
  | some d =>
      obtain ⟨hd, hdtype⟩ := (find?_key hrec.unique).1 hfind
      obtain ⟨last, first, hlast, hstatus, -, -, hfirst, htime⟩ := hrec.carries d hd
      rw [hdtype] at hlast hfirst
      simp only []
      split
      · next hsame =>
          exact ⟨first, (head?_lastStretch_append_same hlast (hstatus ▸ hsame)).trans hfirst,
            htime⟩
      · next hchanged =>
          refine ⟨x, ?_, rfl⟩
          rw [lastStretch_append_other]
          · rfl
          · intro last' hlast'
            obtain rfl : last = last' := Option.some.inj (hlast.symm.trans hlast')
            exact hstatus ▸ hchanged

/-- One call: the type it is for is as it says, and every other as it was. -/
theorem Recorded.put {history : List CondCall} {conds : List Condition}
    (hrec : Recorded history conds) (generation : Nat) (x : CondCall) :
    Recorded (history ++ [x]) (x.put generation conds) := by
  rw [CondCall.put, putCondition_eq_upsert]
  refine ⟨nodup_upsert _ hrec.unique, fun type => ?_, fun c hc => ?_⟩
  · rw [mem_key_upsert, hrec.occurs, List.map_append, List.mem_append, List.map_singleton,
      List.mem_singleton]
    rfl
  rcases (mem_upsert hrec.unique).1 hc with rfl | ⟨hc, hne⟩
  · obtain ⟨first, hfirst, htime⟩ := hrec.transitionTime x
    have hlast : (callsFor x.type (history ++ [x])).getLast? = some x := by
      rw [callsFor_append_self, List.getLast?_concat]
    exact ⟨x, first, hlast, rfl, rfl, rfl, hfirst, htime⟩
  · have hcalls : callsFor c.type (history ++ [x]) = callsFor c.type history :=
      eventsOf_append_ne (Ne.symm hne)
    simp only [hcalls]
    exact hrec.carries c hc

/-- Any number of calls. -/
theorem Recorded.foldl {history : List CondCall} {conds : List Condition}
    (hrec : Recorded history conds) (generation : Nat) (calls : List CondCall) :
    Recorded (history ++ calls) (calls.foldl (CondCall.put generation) conds) := by
  induction calls generalizing history conds with
  | nil =>
      rw [List.append_nil]
      exact hrec
  | cons x calls ih =>
      have hstep := ih (hrec.put generation x)
      rwa [List.append_assoc, List.singleton_append] at hstep

section

variable {S : Type} {h : Handler Call Call.Reply S} {s : S} {cr : ValkeyCluster}

theorem recorded_setConds (hempty : cr.status.conditions = []) (settings : List CondSetting) :
    Recorded (timed h settings s) ((setConds cr settings).run h s).1.status.conditions := by
  rw [run_setConds]
  have hall := recorded_nil.foldl cr.generation (timed h settings s)
  rw [List.nil_append] at hall
  rwa [hempty]

/-! ## What `Ready` says -/

/-- The statuses the resource may be read with: the one that is stored, and older ones that
somebody still holds. Only a status write adds to them. -/
structure Versioned (h : Handler Call Call.Reply S) (versions : S → ValkeyClusterStatus → Prop) :
    Prop where
  read : ∀ {s name nspace c}, (h (.kube (.getCluster name nspace)) s).1 = Except.ok c →
    versions s c.status
  get : ∀ {s name nspace st}, versions (h (.kube (.getCluster name nspace)) s).2 st →
    versions s st
  now : ∀ {s st}, versions (h (.kube .now) s).2 st → versions s st
  write : ∀ {s new st}, versions (h (.kube (.updateClusterStatus new)) s).2 st →
    versions s st ∨ st = new.status

/-- Each type is there once, and `Ready` comes with the conditions it means. -/
structure Truthful (st : ValkeyClusterStatus) : Prop where
  unique : (st.conditions.map Condition.type).Nodup
  ready : st.phase = some .ready → statusOf st.conditions conditionAvailable = some .true ∧
    statusOf st.conditions conditionProgressing = some .false ∧
    statusOf st.conditions conditionDegraded = some .false

theorem nodup_foldl_put (generation : Nat) (calls : List CondCall) {conds : List Condition}
    (hnodup : (conds.map Condition.type).Nodup) :
    ((calls.foldl (CondCall.put generation) conds).map Condition.type).Nodup := by
  induction calls generalizing conds with
  | nil => exact hnodup
  | cons x calls ih =>
      refine ih ?_
      rw [CondCall.put, putCondition_eq_upsert]
      exact nodup_upsert _ hnodup

variable {versions : S → ValkeyClusterStatus → Prop}

/-- A status write leaves truthful statuses behind if what it does to one does. -/
theorem Versioned.runs_readWrite (hv : Versioned h versions) {name nspace : String}
    {p : ValkeyCluster → Ctl ValkeyCluster}
    (hp : ∀ latest s, Truthful latest.status →
      Prog.Runs h (fun c _ => c = .kube .now) (fun new _ => Truthful new.status) (p latest) s)
    (retries : Nat) (hs : ∀ st, versions s st → Truthful st) :
    Prog.Runs h (fun _ _ => True) (fun _ t => ∀ st, versions t st → Truthful st)
      (retryOnConflict retries (do
        let latest ← Kube.getCluster name nspace
        let latest ← liftM (p latest)
        let _ ← Kube.updateClusterStatus latest
        pure ())).run s := by
  have hget : ∀ s, (∀ st, versions s st → Truthful st) →
      ∀ st, versions (h (.kube (.getCluster name nspace)) s).2 st → Truthful st :=
    fun s hs st hst => hs st (hv.get hst)
  refine Controller.runs_readWrite (fun s hs => ⟨trivial, hget s hs⟩) ?_ retries hs
  intro s latest hs hreply
  have hkept := (hp latest _ (hs _ (hv.read hreply))).keeps
    (I := fun t => ∀ st, versions t st → Truthful st)
    (fun c t hc ht st hst => ht st (hv.now (hc ▸ hst))) (hget s hs)
  refine (hkept.guard_mono fun _ _ _ => trivial).mono ?_
  rintro new t ⟨hnew, ht⟩
  refine ⟨trivial, fun st hst => ?_⟩
  rcases hv.write hst with hst | rfl
  · exact ht st hst
  · exact hnew

/-- An announced phase is not `Ready`. -/
theorem Versioned.truthful_setPhase (hv : Versioned h versions) {phase : ValkeyClusterPhase}
    (hphase : phase ≠ .ready) (reason msg : String) (hs : ∀ st, versions s st → Truthful st) :
    ∀ st, versions (exec h (setPhase cr phase reason msg) s).2 st → Truthful st := by
  refine (Prog.runs_iff.1 (hv.runs_readWrite (fun latest s hlatest => ?_) defaultRetry hs)).1
  have hset := runs_setConds (h := h) [⟨conditionProgressing, .true, reason, msg⟩]
    { latest with status := { latest.status with phase := some phase } } s
  simp only [setConds, bind_pure] at hset
  refine hset.mono ?_
  rintro new _ ⟨calls, -, rfl⟩
  exact ⟨nodup_foldl_put _ _ hlatest.unique, fun hready => absurd (Option.some.inj hready) hphase⟩

/-- A verdict of `Ready` sets all three. -/
theorem Versioned.truthful_updateStatus (hv : Versioned h versions) (state : ClusterState)
    (hs : ∀ st, versions s st → Truthful st) :
    ∀ st, versions (exec h (updateStatus cr state) s).2 st → Truthful st := by
  refine (Prog.runs_iff.1 (hv.runs_readWrite (fun latest s hlatest => ?_) defaultRetry hs)).1
  rw [setVerdict_eq]
  refine (runs_setConds _ _ s).mono ?_
  rintro new _ ⟨calls, hcalls, rfl⟩
  refine ⟨nodup_foldl_put _ _ hlatest.unique, fun hready => ?_⟩
  simp only [statusOf_foldl_put, hcalls]
  exact ready_verdictConds cr state _ (Option.some.inj hready)

theorem Versioned.truthful_publish (hv : Versioned h versions) {steps : List Publication}
    (hphases : ∀ announced reason msg, .phase announced reason msg ∈ steps → announced ≠ .ready)
    (hs : ∀ st, versions s st → Truthful st) :
    ∀ st, versions (publish h cr steps s) st → Truthful st := by
  induction steps generalizing s with
  | nil => exact hs
  | cons x steps ih =>
      refine ih (fun announced reason msg hx => hphases announced reason msg (.tail _ hx)) ?_
      cases x with
      | phase announced reason msg =>
          exact hv.truthful_setPhase (hphases announced reason msg (.head _)) reason msg hs
      | status spec state => exact hv.truthful_updateStatus state hs

/-- The API server alone: what is stored is what is read. -/
theorem versioned_of_backed {kube : S → ApiServer} {put : ApiServer → S → S}
    (hk : KubeBacked h kube put) :
    Versioned h fun s st => (kube s).cluster.map ValkeyCluster.status = some st where
  read {s name nspace c} hreply := by
    rw [hk.answer, ApiServer.answer] at hreply
    cases hnamed : (kube s).named name nspace with
    | none =>
        rw [hnamed] at hreply
        cases hreply
    | some c' =>
        rw [hnamed] at hreply
        cases hreply
        rw [(Option.filter_eq_some_iff.1 hnamed).1]
        rfl
  get {s name nspace st} hst := by rwa [hk.answer, hk.kube_put] at hst
  now {s st} hst := by rwa [hk.answer, hk.kube_put] at hst
  write {s new st} hst := by
    rw [hk.answer, hk.kube_put, ApiServer.answer, ApiServer.updateStatus] at hst
    split at hst
    · exact .inl hst
    · split at hst
      · exact .inl hst
      · exact .inr (Option.some.inj hst).symm

/-- What the conditions say. Set again and again from an empty list, each type is there
once, as it was set last, since it has had that status. And through announced phases and
published states, in whatever way the writes go, `Ready` is published with `Available` true
and the two others false. -/
theorem condition_laws (h : Handler Call Call.Reply S) (s : S) :
    (∀ (cr : ValkeyCluster) (settings : List CondSetting), cr.status.conditions = [] →
      Recorded (timed h settings s) ((setConds cr settings).run h s).1.status.conditions) ∧
    ∀ (versions : S → ValkeyClusterStatus → Prop) (cr : ValkeyCluster) (steps : List Publication),
      Versioned h versions → (∀ st, versions s st → Truthful st) →
      (∀ announced reason msg, .phase announced reason msg ∈ steps → announced ≠ .ready) →
      ∀ st, versions (publish h cr steps s) st → Truthful st :=
  ⟨fun _ settings hempty => recorded_setConds hempty settings,
    fun _ _ _ hv hs hphases => hv.truthful_publish hphases hs⟩

end

/-- A pod is announced, is down, and serves in the end. -/
def comingUp : List Publication :=
  [.phase .forming "Forming" "forming cluster", .status onePod.spec onePodDown,
    .status onePod.spec (onePodServing false)]

theorem condition_laws_comingUp :
    onePod.status.conditions = [] ∧
    Recorded
      (timed (World.answer fun _ => asWritten)
        (verdictConds onePod onePodDown ++ verdictConds onePod (onePodServing false))
        (World.start onePod))
      ((setConds onePod
        (verdictConds onePod onePodDown ++ verdictConds onePod (onePodServing false))).run
        (World.answer fun _ => asWritten) (World.start onePod)).1.status.conditions ∧
    ∃ st, (publish (World.answer fun _ => asWritten) onePod comingUp
        (World.start onePod)).kube.cluster.map ValkeyCluster.status = some st ∧
      st.phase = some .ready ∧ Truthful st := by
  obtain ⟨hrecorded, hpublished⟩ :=
    condition_laws (World.answer fun _ => asWritten) (World.start onePod)
  have hstart : ∀ st, (World.start onePod).kube.cluster.map ValkeyCluster.status = some st →
      Truthful st := by
    intro st hst
    cases hst
    exact ⟨List.nodup_nil, fun hready => nomatch hready⟩
  have hphases : ∀ announced reason msg, .phase announced reason msg ∈ comingUp →
      announced ≠ .ready := by
    intro announced reason msg hx
    simp only [comingUp, List.mem_cons, List.not_mem_nil, or_false, reduceCtorEq,
      Publication.phase.injEq] at hx
    rw [hx.1]
    decide
  refine ⟨rfl, hrecorded onePod _ rfl, _, rfl, by decide +kernel, ?_⟩
  exact hpublished _ onePod comingUp (versioned_of_backed (World.kubeBacked _)) hstart hphases _ rfl

end Valkeyop.Controller
