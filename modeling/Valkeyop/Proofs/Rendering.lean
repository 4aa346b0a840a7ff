import Valkeyop.Controller.Status

/-!
# Names and configuration

Two texts the operator goes by. Membership, staleness and status find a pod by its host
name, so no two pods may share one; a pod is restarted when its `valkey.conf` reads
differently, so two resources must not read alike unless they ask for the same.

A pod's name is put together with dashes, and a cluster's name may hold any of them; it
is read from the right, where the two numbers are. `valkey.conf` is read line by line.
-/

namespace Valkeyop.Resources

open Valkeyop.Lib.Text Valkeyop.Api Valkeyop.Controller

/-! ## Names -/

section

variable {cr cr' : ValkeyCluster} {i j i' j' : Nat}

theorem podName_toList (cr : ValkeyCluster) (i j : Nat) :
    (podName cr i j).toList = (cr.name.toList ++ "-shard".toList ++ '-' :: (toString i).toList) ++
      '-' :: (toString j).toList := by
  simp [podName, statefulSetName]

/-- Pods of different clusters have different names, whatever the clusters are called. -/
theorem podName_inj (h : podName cr i j = podName cr' i' j') :
    cr.name = cr'.name ∧ i = i' ∧ j = j' := by
  have hl := congrArg String.toList h
  rw [podName_toList, podName_toList] at hl
  obtain ⟨hset, hj⟩ := append_digits_inj (by decide) hl
  obtain ⟨hname, hi⟩ := append_digits_inj (by decide) hset
  exact ⟨String.toList_inj.1 (List.append_cancel_right hname), hi, hj⟩

theorem dot_not_mem_podName (hname : '.' ∉ cr.name.toList) (i j : Nat) :
    '.' ∉ (podName cr i j).toList := by
  have hnum : ∀ k : Nat, '.' ∉ (toString k).toList := fun k => not_mem_toString (by decide)
  rw [podName_toList]
  simp only [List.mem_append, List.mem_cons, not_or]
  exact ⟨⟨⟨hname, by decide⟩, by decide, hnum i⟩, by decide, hnum j⟩

theorem podFQDN_eq (cr : ValkeyCluster) (i j : Nat) : (podFQDN cr i j).toList =
    (podName cr i j).toList ++
      '.' :: ((headlessServiceName cr).toList ++ '.' :: (cr.nspace.toList ++ ".svc".toList)) := by
  simp [podFQDN]

/-- A host name says which pod it is of. -/
theorem podFQDN_identifies (cr cr' : ValkeyCluster) (hname : '.' ∉ cr.name.toList)
    (hname' : '.' ∉ cr'.name.toList) (i j i' j' : Nat) :
    (podFQDN cr i j = podFQDN cr' i' j' →
      cr.name = cr'.name ∧ cr.nspace = cr'.nspace ∧ i = i' ∧ j = j') ∧
    podNameFromHost (podFQDN cr i j) = podName cr i j := by
  constructor
  · intro h
    have hl := congrArg String.toList h
    rw [podFQDN_eq, podFQDN_eq] at hl
    obtain ⟨hpod, hrest⟩ :=
      append_cons_inj (dot_not_mem_podName hname i j) (dot_not_mem_podName hname' i' j') hl
    obtain ⟨heq, hi, hj⟩ := podName_inj (String.toList_inj.1 hpod)
    rw [headlessServiceName, headlessServiceName, heq] at hrest
    have htail := (List.cons.inj (List.append_cancel_left hrest)).2
    exact ⟨heq, String.toList_inj.1 (List.append_cancel_right htail), hi, hj⟩
  · rw [podNameFromHost, podFQDN_eq, takeWhile_bne (dot_not_mem_podName hname i j)]
    exact String.ofList_toList

end

def clusterNamed (name : String) : ValkeyCluster where
  name := name
  nspace := "default"
  spec := { shards := 3, replicasPerShard := 1 }

/-- A cluster that is named like a shard of another one. -/
theorem podFQDN_identifies_lookalike :
    podFQDN (clusterNamed "db") 1 0 ≠ podFQDN (clusterNamed "db-shard-1") 0 0 ∧
    podNameFromHost (podFQDN (clusterNamed "db") 1 0) = podName (clusterNamed "db") 1 0 := by
  have hdb : '.' ∉ (clusterNamed "db").name.toList := not_mem_literal (by decide)
  have hshard : '.' ∉ (clusterNamed "db-shard-1").name.toList := not_mem_literal (by decide)
  obtain ⟨hinj, hpod⟩ := podFQDN_identifies (clusterNamed "db") (clusterNamed "db-shard-1") hdb
    hshard 1 0 0 0
  exact ⟨fun h => absurd (hinj h).2.2.1 (by decide), hpod⟩

/-! ## Configuration -/

/-- What the settings of a resource come to: defaults filled in, and the fsync policy only
where there is an append-only file to sync. -/
structure EffectiveSettings where
  nodeTimeout : Int
  fullCoverage : Bool
  minReplicasToWrite : Int
  ioThreads : Int
  maxmemoryPolicy : MaxmemoryPolicy
  /-- `none` when the append-only file is off. -/
  appendFsync : Option AppendFsync
  rdb : Bool
  maxmemory : Option Int
deriving DecidableEq, Repr

def effectiveSettings (spec : ValkeyClusterSpec) : EffectiveSettings where
  nodeTimeout :=
    if spec.haPolicy.clusterNodeTimeoutMillis = 0 then 5000
    else spec.haPolicy.clusterNodeTimeoutMillis
  fullCoverage := spec.haPolicy.requireFullCoverage.getD true
  minReplicasToWrite := spec.haPolicy.minReplicasToWrite
  ioThreads := max 1 spec.performance.ioThreads
  maxmemoryPolicy := spec.performance.maxmemoryPolicy.getD .noeviction
  appendFsync :=
    if (spec.persistence.mode.getD .aof) ∈ [.aof, .aofAndRDB] then
      some (spec.persistence.appendFsync.getD .everysec)
    else none
  rdb := decide ((spec.persistence.mode.getD .aof) ∈ [.rdb, .aofAndRDB])
  maxmemory := spec.memoryLimit.bind fun lim => if lim.isZero then none else some (maxBytes lim)

def aofLines : Option AppendFsync → List String
  | some fsync => ["appendonly yes", "appendfsync " ++ appendFsyncText fsync]
  | none => ["appendonly no"]

/-- The lines of `valkey.conf`. -/
def confLines (s : EffectiveSettings) : List String :=
  ["cluster-enabled yes",
    "cluster-config-file " ++ dataMount ++ "/nodes.conf",
    "cluster-node-timeout " ++ toString s.nodeTimeout,
    "cluster-require-full-coverage " ++ (if s.fullCoverage then "yes" else "no"),
    "cluster-preferred-endpoint-type hostname",
    "cluster-port " ++ toString busPort,
    "port " ++ toString clientPort,
    "min-replicas-to-write " ++ toString s.minReplicasToWrite,
    "dir " ++ dataMount,
    "io-threads " ++ toString s.ioThreads,
    "maxmemory-policy " ++ maxmemoryPolicyText s.maxmemoryPolicy] ++
  aofLines s.appendFsync ++
  [if s.rdb then "save 3600 1 300 100 60 10000" else "save \"\""] ++
  (s.maxmemory.map fun bytes => "maxmemory " ++ toString bytes).toList

theorem fullCoverage_text (o : Option Bool) :
    (if o = some false then "no" else "yes") = if o.getD true = true then "yes" else "no" := by
  rcases o with _ | _ | _
  all_goals rfl

theorem ioThreads_eq (n : Int) : (if n < 1 then 1 else n) = max 1 n := by
  split
  · next h => exact (max_eq_left h.le).symm
  · next h => exact (max_eq_right (not_lt.1 h)).symm

theorem appendFsync_text (o : Option AppendFsync) :
    (o.map appendFsyncText).getD "everysec" = appendFsyncText (o.getD .everysec) := by
  cases o <;> rfl

theorem maxmemoryPolicy_text (o : Option MaxmemoryPolicy) :
    (o.map maxmemoryPolicyText).getD "noeviction" = maxmemoryPolicyText (o.getD .noeviction) := by
  cases o <;> rfl

theorem aof_text (mode : PersistenceMode) (fsync : AppendFsync) :
    (if (mode == .aof || mode == .aofAndRDB) = true then
        "appendonly yes\n" ++ "appendfsync " ++ appendFsyncText fsync ++ "\n"
      else "appendonly no\n") =
      unlines (aofLines (if mode ∈ [.aof, .aofAndRDB] then some fsync else none)) := by
  cases mode
  all_goals cases fsync
  all_goals rfl

theorem rdb_text (mode : PersistenceMode) :
    (if (mode == .rdb || mode == .aofAndRDB) = true then "save 3600 1 300 100 60 10000\n"
      else "save \"\"\n") =
      unlines [if decide (mode ∈ [.rdb, .aofAndRDB]) = true then "save 3600 1 300 100 60 10000"
        else "save \"\""] := by
  cases mode
  all_goals rfl

theorem maxmemory_text (limit : Option Quantity) :
    (match limit with
      | some lim => if lim.isZero then "" else "maxmemory " ++ toString (maxBytes lim) ++ "\n"
      | none => "") =
      unlines ((limit.bind fun lim => if lim.isZero then none else some (maxBytes lim)).map
        fun bytes => "maxmemory " ++ toString bytes).toList := by
  cases limit with
  | none => rfl
  | some lim =>
      simp only [Option.bind_some]
      split
      · rfl
      · exact String.append_empty.symm

theorem renderValkeyConf_eq (cr : ValkeyCluster) :
    renderValkeyConf cr = unlines (confLines (effectiveSettings cr.spec)) := by
  unfold renderValkeyConf
  simp only [fullCoverage_text, ioThreads_eq, appendFsync_text, maxmemoryPolicy_text]
  rw [confLines, unlines_append, unlines_append, unlines_append]
  -- the settings that are always there, the append-only file, the snapshots, the memory
  refine congrArg₂ (· ++ ·) (congrArg₂ (· ++ ·) (congrArg₂ (· ++ ·) ?_ ?_) ?_) ?_
  · have henabled : "cluster-enabled yes\n" = "cluster-enabled yes" ++ "\n" := rfl
    have hfile : "/nodes.conf\n" = "/nodes.conf" ++ "\n" := rfl
    have hendpoint : "cluster-preferred-endpoint-type hostname\n" =
      "cluster-preferred-endpoint-type hostname" ++ "\n" := rfl
    rw [henabled, hfile, hendpoint]
    simp only [effectiveSettings, unlines, List.foldr_cons, List.foldr_nil, String.append_assoc,
      String.append_empty]
    rfl
  · exact aof_text ..
  · exact rdb_text _
  · exact maxmemory_text _

/-! Read line by line, the text gives the settings back. -/

theorem no_newline_aofLines (o : Option AppendFsync) : ∀ line ∈ aofLines o, '\n' ∉ line.toList := by
  cases o with
  | none =>
      simp only [aofLines, List.forall_mem_singleton]
      exact not_mem_literal (by decide)
  | some fsync =>
      simp only [aofLines, List.forall_mem_cons, List.not_mem_nil, false_imp_iff, implies_true,
        and_true]
      refine ⟨not_mem_literal (by decide), not_mem_append (not_mem_literal (by decide)) ?_⟩
      cases fsync
      all_goals exact not_mem_literal (by decide)

theorem no_newline_confLines (s : EffectiveSettings) : ∀ line ∈ confLines s, '\n' ∉ line.toList := by
  have hnum : ∀ (key : String) (n : Int), '\n' ∉ key.toList →
      '\n' ∉ (key ++ toString n).toList := fun key n hkey =>
    not_mem_append hkey (not_mem_toString_int (by decide) (by decide))
  have hmount : '\n' ∉ dataMount.toList := not_mem_literal (by decide)
  have hcoverage : '\n' ∉ (if s.fullCoverage = true then "yes" else "no").toList := by
    cases s.fullCoverage
    all_goals exact not_mem_literal (by decide)
  have hpolicy : '\n' ∉ (maxmemoryPolicyText s.maxmemoryPolicy).toList := by
    cases s.maxmemoryPolicy
    all_goals exact not_mem_literal (by decide)
  have hsave : '\n' ∉
      (if s.rdb = true then "save 3600 1 300 100 60 10000" else "save \"\"").toList := by
    cases s.rdb
    all_goals exact not_mem_literal (by decide)
  have hmemory : ∀ line ∈ (s.maxmemory.map fun bytes => "maxmemory " ++ toString bytes).toList,
      '\n' ∉ line.toList := by
    intro line hline
    obtain ⟨bytes, -, rfl⟩ := Option.map_eq_some_iff.1 (Option.mem_toList.1 hline)
    exact hnum _ _ (not_mem_literal (by decide))
  unfold confLines
  simp only [List.forall_mem_append, List.forall_mem_cons, List.not_mem_nil, false_imp_iff,
    implies_true, and_true]
  refine ⟨⟨⟨⟨?_, not_mem_append (not_mem_append ?_ hmount) ?_, hnum _ _ ?_,
    not_mem_append ?_ hcoverage, ?_, hnum _ _ ?_, hnum _ _ ?_, hnum _ _ ?_,
    not_mem_append ?_ hmount, hnum _ _ ?_, not_mem_append ?_ hpolicy⟩,
    no_newline_aofLines _⟩, hsave⟩, hmemory⟩
  all_goals exact not_mem_literal (by decide)

theorem maxmemoryPolicyText_injective : Function.Injective maxmemoryPolicyText := by
  intro p p' h
  cases p
  all_goals cases p'
  all_goals first | rfl | exact absurd h (by decide)

theorem appendFsyncText_injective : Function.Injective appendFsyncText := by
  intro f f' h
  cases f
  all_goals cases f'
  all_goals first | rfl | exact absurd h (by decide)

theorem setting_inj {key : String} {n n' : Int} (h : key ++ toString n = key ++ toString n') :
    n = n' :=
  toString_int_injective ((String.append_right_inj key).1 h)

theorem toList_option_inj {α : Type} {o o' : Option α} (h : o.toList = o'.toList) : o = o' := by
  have hhead := congrArg List.head? h
  rwa [Option.head?_toList, Option.head?_toList] at hhead

theorem switch_inj {on off : String} (hne : on ≠ off) {x y : Bool}
    (h : (if x = true then on else off) = if y = true then on else off) : x = y := by
  cases x
  all_goals cases y
  · rfl
  · exact absurd h.symm hne
  · exact absurd h hne
  · rfl

/-- After the fixed lines the append-only file comes first, so its line says how many
lines there are to it. -/
theorem aofLines_append_inj {o o' : Option AppendFsync} {l l' : List String}
    (h : aofLines o ++ l = aofLines o' ++ l') : o = o' ∧ l = l' := by
  have hyes : "appendonly yes" ≠ "appendonly no" := by decide
  cases o with
  | none =>
      cases o' with
      | none => exact ⟨rfl, (List.cons.inj h).2⟩
      | some f' => exact absurd (List.cons.inj h).1.symm hyes
  | some f =>
      cases o' with
      | none => exact absurd (List.cons.inj h).1 hyes
      | some f' =>
          obtain ⟨hsync, hrest⟩ := List.cons.inj (List.cons.inj h).2
          rw [appendFsyncText_injective ((String.append_right_inj _).1 hsync)]
          exact ⟨rfl, hrest⟩

theorem confLines_injective {s s' : EffectiveSettings} (h : confLines s = confLines s') :
    s = s' := by
  simp only [confLines, List.append_assoc] at h
  obtain ⟨hhead, htail⟩ := List.append_inj h rfl
  simp only [List.cons.injEq, true_and, and_true] at hhead
  obtain ⟨htimeout, hcoverage, hreplicas, hthreads, hpolicy⟩ := hhead
  obtain ⟨hfsync, hrest⟩ := aofLines_append_inj htail
  obtain ⟨hsave, hmemory⟩ := List.cons.inj hrest
  have hbytes : Function.Injective fun bytes : Int => "maxmemory " ++ toString bytes :=
    fun _ _ => setting_inj
  cases s
  cases s'
  simp only [EffectiveSettings.mk.injEq]
  exact ⟨setting_inj htimeout, switch_inj (by decide) ((String.append_right_inj _).1 hcoverage),
    setting_inj hreplicas, setting_inj hthreads,
    maxmemoryPolicyText_injective ((String.append_right_inj _).1 hpolicy), hfsync,
    switch_inj (by decide) hsave, Option.map_injective hbytes (toList_option_inj hmemory)⟩

/-- Two resources are rendered alike exactly if their settings come to the same. The text
is what is hashed onto the pod template of every shard. -/
theorem renderValkeyConf_eq_iff (cr cr' : ValkeyCluster) :
    (renderValkeyConf cr = renderValkeyConf cr' ↔
      effectiveSettings cr.spec = effectiveSettings cr'.spec) ∧
    ∀ i j, (statefulSet cr i).valkeyConf = (statefulSet cr' j).valkeyConf ↔
      effectiveSettings cr.spec = effectiveSettings cr'.spec := by
  have hiff : renderValkeyConf cr = renderValkeyConf cr' ↔
      effectiveSettings cr.spec = effectiveSettings cr'.spec := by
    rw [renderValkeyConf_eq, renderValkeyConf_eq]
    constructor
    · intro h
      exact confLines_injective
        (unlines_injective (no_newline_confLines _) (no_newline_confLines _) h)
    · intro h
      rw [h]
  exact ⟨hiff, fun i j => hiff⟩

end Valkeyop.Resources
