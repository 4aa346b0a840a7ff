import Valkeyop.Lib.Keyed
import Valkeyop.Proofs.FakeMembership
import Valkeyop.Proofs.Publishing

/-!
# Conditions over a history of status writes

A status write sets some of the three conditions and leaves the others as they were,
so what is published is the history and not the last observation. `Available` is set
by every write of a verdict; `Degraded` is set by all of them but the ones that
publish `Resharding`. A cluster that was degraded and is now resharding is therefore
published as available and degraded, until it is ready once.
-/

namespace Valkeyop.Controller

open Valkeyop.Lib Valkeyop.Lib.Fallible Valkeyop.Cluster Valkeyop.Api Valkeyop.Resources

/-- `meta.IsStatusConditionTrue`. -/
def conditionTrue (conditions : List Condition) (type : String) : Bool :=
  (conditions.find? fun c => c.type == type).any fun c => decide (c.status = .true)

/-- The status a condition has, if it is there. -/
def statusOf (conditions : List Condition) (type : String) : Option ConditionStatus :=
  (conditions.find? fun c => c.type == type).map Condition.status

/-- The condition is published as true. -/
def ConditionTrue (k : ApiServer) (type : String) : Prop :=
  ∃ c, k.cluster = some c ∧ conditionTrue c.status.conditions type = true

/-- A status write: a phase is announced, or a state is published for some spec. -/
inductive Publication where
  | phase (announced : ValkeyClusterPhase) (reason msg : String)
  | status (spec : ValkeyClusterSpec) (state : ClusterState)

namespace Publication

def perform {S : Type} (h : Handler Call Call.Reply S) (cr : ValkeyCluster) (s : S) :
    Publication → S
  | .phase announced reason msg => (exec h (setPhase cr announced reason msg) s).2
  | .status spec state => (exec h (updateStatus { cr with spec } state) s).2

/-- The phase a state is published with; an announced phase sets neither of the two
conditions. -/
def verdict (cr : ValkeyCluster) : Publication → Option ValkeyClusterPhase
  | .phase .. => none
  | .status spec state => some (Controller.verdict { cr with spec } state)

end Publication

/-- The writes of a history, one after the other. -/
def publish {S : Type} (h : Handler Call Call.Reply S) (cr : ValkeyCluster)
    (steps : List Publication) (s : S) : S :=
  steps.foldl (Publication.perform h cr) s

section

variable {S : Type} {h : Handler Call Call.Reply S} {kube : S → ApiServer}
  {put : ApiServer → S → S} {s : S} {cr c : ValkeyCluster}

/-! ## Setting conditions -/

theorem putCondition_eq_upsert (new : Condition) (conds : List Condition) :
    putCondition new conds = upsert Condition.type new conds := by
  induction conds with
  | nil => rfl
  | cons c conds ih => rw [putCondition, upsert, ih]

theorem find_putCondition (new : Condition) (type : String) (conds : List Condition) :
    (putCondition new conds).find? (fun c => c.type == type) =
      if new.type = type then some new else conds.find? fun c => c.type == type := by
  rw [putCondition_eq_upsert]
  exact find?_upsert ..

theorem conditionTrue_iff {conds : List Condition} {type : String} :
    conditionTrue conds type = true ↔ statusOf conds type = some .true := by
  rw [conditionTrue, statusOf]
  cases conds.find? fun c => c.type == type with
  | none => simp
  | some c => simp

theorem statusOf_putCondition (new : Condition) (conds : List Condition) :
    statusOf (putCondition new conds) =
      Function.update (statusOf conds) new.type (some new.status) := by
  funext type
  rw [statusOf, find_putCondition]
  by_cases htype : new.type = type
  · subst htype
    simp
  · rw [if_neg htype, Function.update_of_ne (Ne.symm htype), statusOf]

/-- The status each type has after some are set. -/
def statusAfter (settings : List CondSetting) (before : String → Option ConditionStatus) :
    String → Option ConditionStatus :=
  settings.foldl (fun f c => Function.update f c.type (some c.status)) before

theorem statusOf_foldl_put (generation : Nat) (calls : List CondCall) (conds : List Condition) :
    statusOf (calls.foldl (CondCall.put generation) conds) =
      statusAfter (calls.map CondCall.toCondSetting) (statusOf conds) := by
  induction calls generalizing conds with
  | nil => rfl
  | cons x calls ih =>
      rw [List.foldl_cons, ih, CondCall.put, statusOf_putCondition]
      rfl

theorem statusOf_applyConds (generation : Nat) (settings : List CondSetting) (time : Nat)
    (conds : List Condition) :
    statusOf (applyConds generation settings time conds) =
      statusAfter settings (statusOf conds) := by
  induction settings generalizing time conds with
  | nil => rfl
  | cons c settings ih =>
      rw [applyConds, ih, statusOf_putCondition]
      rfl

/-- The condition is there as it would be set. -/
def SetAlready (generation : Nat) (c : CondSetting) (conds : List Condition) : Prop :=
  ∃ time, conds.find? (fun d => d.type == c.type) = some
    { type := c.type, status := c.status, reason := c.reason, message := c.message
      observedGeneration := generation, lastTransitionTime := time }

/-- Setting what is set already changes nothing, not even the time. -/
theorem applyConds_setAlready {generation : Nat} {settings : List CondSetting}
    {conds : List Condition} (h : ∀ c ∈ settings, SetAlready generation c conds) (time : Nat) :
    applyConds generation settings time conds = conds := by
  induction settings generalizing time with
  | nil => rfl
  | cons c settings ih =>
      obtain ⟨t, ht⟩ := h c (by simp)
      have hself : transitionTime conds c.type c.status time = t := by
        rw [transitionTime, ht]
        exact if_pos rfl
      rw [applyConds, hself, putCondition_eq_upsert, upsert_self ht]
      exact ih (fun d hd => h d (by simp [hd])) (time + 1)

theorem setAlready_applyConds (generation : Nat) {settings : List CondSetting}
    (hdistinct : (settings.map CondSetting.type).Nodup) (time : Nat) (conds : List Condition) :
    ∀ c ∈ settings, SetAlready generation c (applyConds generation settings time conds) := by
  -- what is set later is of another type
  have hkeep : ∀ (later : List CondSetting) (c : CondSetting) (time : Nat)
      (conds : List Condition), c.type ∉ later.map CondSetting.type →
      SetAlready generation c conds →
      SetAlready generation c (applyConds generation later time conds) := by
    intro later
    induction later with
    | nil => exact fun _ _ _ _ hset => hset
    | cons d later ih =>
        intro c time conds hnot hset
        rw [List.map_cons, List.mem_cons, not_or] at hnot
        refine ih c (time + 1) _ hnot.2 ?_
        obtain ⟨t, ht⟩ := hset
        exact ⟨t, by rw [find_putCondition, if_neg (Ne.symm hnot.1), ht]⟩
  induction settings generalizing time conds with
  | nil => exact fun _ hc => nomatch hc
  | cons d settings ih =>
      obtain ⟨hd, hdistinct⟩ := List.nodup_cons.1 hdistinct
      intro c hc
      rcases List.mem_cons.1 hc with rfl | hc
      · refine hkeep settings c (time + 1) _ hd ⟨transitionTime conds c.type c.status time, ?_⟩
        rw [find_putCondition, if_pos rfl]
      · exact ih hdistinct (time + 1) _ c hc

theorem nodup_verdictConds (cr : ValkeyCluster) (state : ClusterState) :
    ((verdictConds cr state).map CondSetting.type).Nodup := by
  unfold verdictConds
  repeat' split
  all_goals decide

/-- Publishing a state twice is publishing it once. -/
theorem publishedStatus_again (cr : ValkeyCluster) (state : ClusterState) (time time' : Nat)
    (c : ValkeyCluster) :
    publishedStatus cr state time' (withStatus (publishedStatus cr state time c) c) =
      publishedStatus cr state time c := by
  have hconds := applyConds_setAlready (setAlready_applyConds c.generation
    (nodup_verdictConds cr state) time c.status.conditions) time'
  simp only [publishedStatus, withStatus, hconds]

section

variable (cr : ValkeyCluster) (state : ClusterState) (before : String → Option ConditionStatus)

/-- Every verdict sets `Available`, to whether it is not `Degraded`. -/
theorem available_verdictConds :
    statusAfter (verdictConds cr state) before conditionAvailable = some .true ↔
      verdict cr state ≠ .degraded := by
  have hprogressing : conditionAvailable ≠ conditionProgressing := by decide
  have hdegraded : conditionAvailable ≠ conditionDegraded := by decide
  unfold verdict verdictConds
  repeat' split
  all_goals simp [statusAfter, hprogressing, hdegraded]

/-- `Resharding` leaves `Degraded` as it was. -/
theorem degraded_verdictConds :
    statusAfter (verdictConds cr state) before conditionDegraded = some .true ↔
      verdict cr state = .degraded ∨
      verdict cr state = .resharding ∧ before conditionDegraded = some .true := by
  have hprogressing : conditionDegraded ≠ conditionProgressing := by decide
  have havailable : conditionDegraded ≠ conditionAvailable := by decide
  unfold verdict verdictConds
  repeat' split
  all_goals simp [statusAfter, hprogressing, havailable]

/-- `Ready` sets all three. -/
theorem ready_verdictConds (hready : verdict cr state = .ready) :
    statusAfter (verdictConds cr state) before conditionAvailable = some .true ∧
    statusAfter (verdictConds cr state) before conditionProgressing = some .false ∧
    statusAfter (verdictConds cr state) before conditionDegraded = some .false := by
  have havailable : conditionAvailable ≠ conditionProgressing := by decide
  have hdegraded : conditionAvailable ≠ conditionDegraded := by decide
  have hprogressing : conditionProgressing ≠ conditionDegraded := by decide
  rw [verdictConds, if_pos (verdict_ready_iff.1 hready)]
  simp [statusAfter, havailable, hdegraded, hprogressing]

end

/-- An announced phase sets `Progressing` only. -/
theorem statusAfter_announced {type : String} (htype : type ≠ conditionProgressing)
    (reason msg : String) (before : String → Option ConditionStatus) :
    statusAfter [⟨conditionProgressing, .true, reason, msg⟩] before type = before type :=
  Function.update_of_ne htype ..

/-! ## Histories -/

/-- The resource under its name, with the two conditions as they are published. -/
structure Shows (cr : ValkeyCluster) (k : ApiServer) (available degraded : Prop) : Prop where
  stored : ∃ c, k.cluster = some c ∧ c.name = cr.name ∧ c.nspace = cr.nspace
  available : ConditionTrue k conditionAvailable ↔ available
  degraded : ConditionTrue k conditionDegraded ↔ degraded

theorem conditionTrue_some {k : ApiServer} {type : String} (hc : k.cluster = some c) :
    ConditionTrue k type ↔ conditionTrue c.status.conditions type = true := by
  constructor
  · intro ⟨c', hc', htrue⟩
    cases hc.symm.trans hc'
    exact htrue
  · intro htrue
    exact ⟨c, hc, htrue⟩

/-- What one status write does to the two conditions. -/
theorem shows_perform (hk : KubeBacked h kube put) {available degraded : Prop}
    (hs : Shows cr (kube s) available degraded) (x : Publication) :
    Shows cr (kube (x.perform h cr s))
      (x.verdict cr = none ∧ available ∨ ∃ v, x.verdict cr = some v ∧ v ≠ .degraded)
      (x.verdict cr = some .degraded ∨ x.verdict cr ≠ some .ready ∧ degraded) := by
  obtain ⟨c, hc, hname, hns⟩ := hs.stored
  have havailable := (conditionTrue_some hc).symm.trans hs.available
  have hdegraded := (conditionTrue_some hc).symm.trans hs.degraded
  cases x with
  | phase announced reason msg =>
      rw [Publication.perform, exec_setPhase hk hc hname hns, hk.kube_put]
      refine ⟨⟨_, rfl, hname, hns⟩, ?_, ?_⟩
      · rw [conditionTrue_some rfl]
        show conditionTrue (applyConds ..) _ = true ↔ _
        rw [conditionTrue_iff, statusOf_applyConds, statusAfter_announced (by decide),
          ← conditionTrue_iff, havailable]
        simp [Publication.verdict]
      · rw [conditionTrue_some rfl]
        show conditionTrue (applyConds ..) _ = true ↔ _
        rw [conditionTrue_iff, statusOf_applyConds, statusAfter_announced (by decide),
          ← conditionTrue_iff, hdegraded]
        simp [Publication.verdict]
  | status spec state =>
      have hname' : c.name = ({ cr with spec } : ValkeyCluster).name := hname
      have hwrite := exec_updateStatus hk hc hname' hns state
      rw [Publication.perform, hwrite, hk.kube_put]
      refine ⟨⟨_, rfl, hname, hns⟩, ?_, ?_⟩
      · rw [conditionTrue_some rfl]
        show conditionTrue (applyConds ..) _ = true ↔ _
        rw [conditionTrue_iff, statusOf_applyConds, available_verdictConds]
        simp [Publication.verdict]
      · rw [conditionTrue_some rfl]
        show conditionTrue (applyConds ..) _ = true ↔ _
        rw [conditionTrue_iff, statusOf_applyConds, degraded_verdictConds, ← conditionTrue_iff,
          hdegraded]
        rcases verdict_cases { cr with spec } state with hv | hv | hv
        all_goals simp [Publication.verdict, hv]

theorem publish_append (steps : List Publication) (x : Publication) :
    publish h cr (steps ++ [x]) s = x.perform h cr (publish h cr steps s) := by
  rw [publish, List.foldl_append]
  rfl

/-- Some degraded state was published, and no ready one since. -/
def DegradedSince (cr : ValkeyCluster) (steps : List Publication) : Prop :=
  ∃ before d after, steps = before ++ d :: after ∧ d.verdict cr = some .degraded ∧
    ∀ x ∈ after, x.verdict cr ≠ some .ready

theorem degradedSince_append {steps : List Publication} {x : Publication} :
    DegradedSince cr (steps ++ [x]) ↔
      x.verdict cr = some .degraded ∨ x.verdict cr ≠ some .ready ∧ DegradedSince cr steps := by
  constructor
  · intro ⟨before, d, after, hsteps, hd, hafter⟩
    cases after using List.reverseRecOn with
    | nil =>
        obtain ⟨-, hx⟩ := List.append_inj' hsteps rfl
        cases hx
        exact .inl hd
    | append_singleton after y =>
        rw [← List.cons_append, ← List.append_assoc] at hsteps
        obtain ⟨rfl, hy⟩ := List.append_inj' hsteps rfl
        cases hy
        exact .inr ⟨hafter x (by simp), before, d, after, rfl, hd,
          fun y hy => hafter y (by simp [hy])⟩
  · intro hx
    cases hx with
    | inl hx => exact ⟨steps, x, [], rfl, hx, by simp⟩
    | inr hx =>
        obtain ⟨hx, before, d, after, rfl, hd, hafter⟩ := hx
        refine ⟨before, d, after ++ [x], by simp, hd, ?_⟩
        intro y hy
        cases List.mem_append.1 hy with
        | inl hy => exact hafter y hy
        | inr hy => exact List.mem_singleton.1 hy ▸ hx

/-- `Degraded` stands from a degraded state to the next ready one. -/
theorem shows_publish (hk : KubeBacked h kube put) (hs : Shows cr (kube s) False False)
    (steps : List Publication) :
    ∃ available, Shows cr (kube (publish h cr steps s)) available (DegradedSince cr steps) := by
  induction steps using List.reverseRecOn with
  | nil =>
      refine ⟨False, hs.stored, hs.available, ?_⟩
      simp [publish, DegradedSince, hs.degraded]
  | append_singleton steps x ih =>
      obtain ⟨available, ih⟩ := ih
      rw [publish_append]
      have hstep := shows_perform hk ih x
      exact ⟨_, hstep.stored, hstep.available, hstep.degraded.trans degradedSince_append.symm⟩

/-- Both conditions are published. -/
def BothTrue (k : ApiServer) : Prop :=
  ConditionTrue k conditionAvailable ∧ ConditionTrue k conditionDegraded

/-- A state is published as resharding while `Degraded` still stands. -/
def DegradedThenResharding (cr : ValkeyCluster) (steps : List Publication) : Prop :=
  ∃ before e after, steps = before ++ e :: after ∧ e.verdict cr = some .resharding ∧
    DegradedSince cr before

theorem DegradedThenResharding.append {steps : List Publication}
    (h : DegradedThenResharding cr steps) (rest : List Publication) :
    DegradedThenResharding cr (steps ++ rest) := by
  obtain ⟨before, e, after, rfl, he, hsince⟩ := h
  exact ⟨before, e, after ++ rest, by simp, he, hsince⟩

/-- The write that makes both true is one of `Resharding`. -/
theorem bothTrue_publish (hk : KubeBacked h kube put) (hs : Shows cr (kube s) False False)
    {steps : List Publication} (hboth : BothTrue (kube (publish h cr steps s))) :
    DegradedThenResharding cr steps := by
  induction steps using List.reverseRecOn with
  | nil => exact (hs.available.1 hboth.1).elim
  | append_singleton steps x ih =>
      obtain ⟨available, hsteps⟩ := shows_publish hk hs steps
      have hstep := shows_perform hk hsteps x
      rw [publish_append] at hboth
      have havailable := hstep.available.1 hboth.1
      have hdegraded := hstep.degraded.1 hboth.2
      cases hx : x.verdict cr with
      | none =>
          simp only [hx, reduceCtorEq, false_and, exists_false, or_false, true_and, false_or,
            ne_eq, not_false_eq_true] at havailable hdegraded
          exact (ih ⟨hsteps.available.2 havailable, hsteps.degraded.2 hdegraded⟩).append [x]
      | some v =>
          cases x with
          | phase announced reason msg => cases hx
          | status spec state =>
              cases hx
              rcases verdict_cases { cr with spec } state with hv | hv | hv
              · simp [Publication.verdict, hv] at hdegraded
              · simp only [Publication.verdict, hv] at hdegraded
                refine ⟨steps, _, [], rfl, congrArg some hv, ?_⟩
                simpa using hdegraded
              · simp [Publication.verdict, hv] at havailable

theorem bothTrue_resharding (hk : KubeBacked h kube put) (hs : Shows cr (kube s) False False)
    {steps : List Publication} {e : Publication} (he : e.verdict cr = some .resharding)
    (hsince : DegradedSince cr steps) : BothTrue (kube (publish h cr (steps ++ [e]) s)) := by
  obtain ⟨available, hsteps⟩ := shows_publish hk hs steps
  have hstep := shows_perform hk hsteps e
  rw [publish_append]
  constructor
  · exact hstep.available.2 (.inr ⟨_, he, by decide⟩)
  · exact hstep.degraded.2 (.inr ⟨by simp [he], hsince⟩)

/-- `Available` and `Degraded` are never both true, exactly when a ready state is
published between a degraded one and a later one that is resharding. -/
theorem available_degraded_exclusive_iff (hk : KubeBacked h kube put)
    (hc : (kube s).cluster = some cr) (hempty : cr.status = {}) (steps : List Publication) :
    (∀ reached, reached <+: steps →
      ¬ (ConditionTrue (kube (publish h cr reached s)) conditionAvailable ∧
        ConditionTrue (kube (publish h cr reached s)) conditionDegraded)) ↔
    ∀ before d between e after, steps = before ++ d :: between ++ e :: after →
      d.verdict cr = some .degraded → e.verdict cr = some .resharding →
      ∃ x ∈ between, x.verdict cr = some .ready := by
  have hs : Shows cr (kube s) False False := by
    refine ⟨⟨cr, hc, rfl, rfl⟩, ?_, ?_⟩
    all_goals
      rw [conditionTrue_some hc, hempty]
      exact iff_of_false Bool.false_ne_true id
  constructor
  · intro hnever before d between e after hsteps hd he
    by_contra hready
    push Not at hready
    refine hnever (before ++ d :: between ++ [e]) ⟨after, by simp [hsteps]⟩
      (bothTrue_resharding hk hs he ⟨before, d, between, rfl, hd, hready⟩)
  · intro hready reached hreached hboth
    obtain ⟨rest, rfl⟩ := hreached
    obtain ⟨steps, e, after, rfl, he, before, d, between, rfl, hd, hnone⟩ :=
      bothTrue_publish hk hs hboth
    obtain ⟨x, hx, hxready⟩ := hready before d between e (after ++ rest) (by simp) hd he
    exact hnone x hx hxready

end

/-! ## Two histories -/

/-- A cluster of one pod. -/
def onePod : ValkeyCluster where
  name := "one"
  nspace := "default"
  spec := { shards := 1, replicasPerShard := 0 }

/-- Its pod has all the slots, and one of them is being migrated or not. -/
def onePodServing (openSlots : Bool) : ClusterState where
  formed := true
  slotsCovered := true
  openSlots := openSlots
  nodes := [{ NodeInfo.zero with id := "a", host := podFQDN onePod 0 0, slots := [⟨0, 16383⟩] }]

/-- The pod answers nothing. -/
def onePodDown : ClusterState := ⟨false, false, false, []⟩

/-- The pod is down, comes back, and later a slot is migrated. -/
theorem available_degraded_exclusive_recovered :
    onePod.status = {} ∧ ∀ reached,
      reached <+: [.status onePod.spec onePodDown, .status onePod.spec (onePodServing false),
        .status onePod.spec (onePodServing true)] →
      ¬ (ConditionTrue (publish (World.answer fun _ => asWritten) onePod reached
          (World.start onePod)).kube conditionAvailable ∧
        ConditionTrue (publish (World.answer fun _ => asWritten) onePod reached
          (World.start onePod)).kube conditionDegraded) := by
  refine ⟨rfl, (available_degraded_exclusive_iff (World.kubeBacked _) rfl rfl _).2 ?_⟩
  intro before d between e after hsteps hd he
  cases before with
  | nil =>
      obtain ⟨rfl, hrest⟩ := List.cons.inj hsteps
      cases between with
      | nil =>
          obtain ⟨rfl, -⟩ := List.cons.inj hrest
          exact absurd he (by decide +kernel)
      | cons x between =>
          obtain ⟨rfl, -⟩ := List.cons.inj hrest
          exact ⟨_, List.mem_cons_self .., by decide +kernel⟩
  | cons x before =>
      -- only the first of the three is degraded
      obtain ⟨rfl, hrest⟩ := List.cons.inj hsteps
      have hmem : d ∈ [Publication.status onePod.spec (onePodServing false),
          .status onePod.spec (onePodServing true)] := by
        rw [hrest]
        exact List.mem_append_left _ (List.mem_append_right _ (List.mem_cons_self ..))
      simp only [List.mem_cons, List.not_mem_nil, or_false] at hmem
      rcases hmem with rfl | rfl
      · exact absurd hd (by decide +kernel)
      · exact absurd hd (by decide +kernel)

/-- The pod is down, and comes back with a slot left migrating. -/
theorem available_and_degraded :
    onePod.status = {} ∧
    ConditionTrue (publish (World.answer fun _ => asWritten) onePod
        [.status onePod.spec onePodDown, .status onePod.spec (onePodServing true)]
        (World.start onePod)).kube conditionAvailable ∧
      ConditionTrue (publish (World.answer fun _ => asWritten) onePod
        [.status onePod.spec onePodDown, .status onePod.spec (onePodServing true)]
        (World.start onePod)).kube conditionDegraded := by
  refine ⟨rfl, ⟨_, rfl, ?_⟩, ⟨_, rfl, ?_⟩⟩
  · decide +kernel
  · decide +kernel

end Valkeyop.Controller
