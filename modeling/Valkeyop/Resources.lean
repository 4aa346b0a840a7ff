import Valkeyop.Lib.Text
import Valkeyop.Api

/-!
# The objects that back a cluster

`internal/resources/builders.go`: one headless Service, one ConfigMap and one
StatefulSet per shard. Of the objects, what the controller reads back or selects
on is kept: names, labels, the replica count and the rendered `valkey.conf`.
-/

namespace Valkeyop.Resources

open Valkeyop.Lib.Text Valkeyop.Api

/-! ## Names -/

def headlessServiceName (cr : ValkeyCluster) : String := cr.name ++ "-nodes"

def configMapName (cr : ValkeyCluster) : String := cr.name ++ "-config"

def statefulSetName (cr : ValkeyCluster) (shard : Nat) : String :=
  cr.name ++ "-shard-" ++ toString shard

def podName (cr : ValkeyCluster) (shard ordinal : Nat) : String :=
  statefulSetName cr shard ++ "-" ++ toString ordinal

/-- The stable DNS name a pod advertises. -/
def podFQDN (cr : ValkeyCluster) (shard ordinal : Nat) : String :=
  podName cr shard ordinal ++ "." ++ headlessServiceName cr ++ "." ++ cr.nspace ++ ".svc"

theorem podFQDN_toList (cr : ValkeyCluster) (shard ordinal : Nat) :
    (podFQDN cr shard ordinal).toList = (cr.name.toList ++ "-shard-".toList) ++
      ((toString shard).toList ++ '-' :: ((toString ordinal).toList ++
        '.' :: ((headlessServiceName cr).toList ++
          '.' :: (cr.nspace.toList ++ ".svc".toList)))) := by
  simp [podFQDN, podName, statefulSetName]

/-- Different pods of a cluster have different names. -/
theorem podFQDN_inj {cr : ValkeyCluster} {i j i' j' : Nat}
    (h : podFQDN cr i j = podFQDN cr i' j') : i = i' ∧ j = j' := by
  have hl := congrArg String.toList h
  rw [podFQDN_toList, podFQDN_toList] at hl
  obtain ⟨hi, hrest⟩ := digits_append_inj (by decide) (List.append_cancel_left hl)
  exact ⟨hi, (digits_append_inj (by decide) hrest).1⟩

theorem podFQDN_ne_empty (cr : ValkeyCluster) (i j : Nat) : podFQDN cr i j ≠ "" := by
  intro h
  have hl := congrArg String.toList h
  rw [podFQDN_toList] at hl
  simp at hl

/-! ## Labels -/

abbrev Labels := List (String × String)

def labelName : String := "app.kubernetes.io/name"
def labelInstance : String := "app.kubernetes.io/instance"
def labelManagedBy : String := "app.kubernetes.io/managed-by"
/-- The shard a pod belongs to. -/
def labelShard : String := "valkey.razkevich.dev/shard"

def commonLabels (cr : ValkeyCluster) : Labels :=
  [(labelName, "valkeycluster"), (labelInstance, cr.name),
    (labelManagedBy, "valkeycluster-operator")]

def shardLabels (cr : ValkeyCluster) (shard : Nat) : Labels :=
  commonLabels cr ++ [(labelShard, toString shard)]

/-- `client.MatchingLabels`: every selected label has the selected value. -/
def Labels.matching (selector labels : Labels) : Bool :=
  selector.all fun l => labels.lookup l.1 == some l.2

/-! ## Configuration -/

def clientPort : Int := 6379
def busPort : Int := 16379
def dataMount : String := "/data"

def appendFsyncText : AppendFsync → String
  | .always => "always"
  | .everysec => "everysec"
  | .no => "no"

def maxmemoryPolicyText : MaxmemoryPolicy → String
  | .noeviction => "noeviction"
  | .allkeysLRU => "allkeys-lru"
  | .allkeysLFU => "allkeys-lfu"
  | .allkeysRandom => "allkeys-random"
  | .volatileLRU => "volatile-lru"
  | .volatileLFU => "volatile-lfu"
  | .volatileRandom => "volatile-random"
  | .volatileTTL => "volatile-ttl"

/-- About 30% of the container's memory is kept back for forks and buffers. The
product is an `int64`, and the division rounds towards zero. -/
def maxBytes (lim : Quantity) : Int := (BitVec.ofInt 64 (lim.value * 70)).toInt.tdiv 100

/-- The shared part of `valkey.conf`. -/
def renderValkeyConf (cr : ValkeyCluster) : String :=
  let hp := cr.spec.haPolicy
  let fullCoverage := if hp.requireFullCoverage = some false then "no" else "yes"
  let timeout := if hp.clusterNodeTimeoutMillis = 0 then 5000 else hp.clusterNodeTimeoutMillis
  let mode := cr.spec.persistence.mode.getD .aof
  let fsync := ((cr.spec.persistence.appendFsync).map appendFsyncText).getD "everysec"
  let aofOn := mode == .aof || mode == .aofAndRDB
  let rdbOn := mode == .rdb || mode == .aofAndRDB
  let ioThreads :=
    if cr.spec.performance.ioThreads < 1 then 1 else cr.spec.performance.ioThreads
  let policy := ((cr.spec.performance.maxmemoryPolicy).map maxmemoryPolicyText).getD
    "noeviction"
  "cluster-enabled yes\n" ++
    "cluster-config-file " ++ dataMount ++ "/nodes.conf\n" ++
    "cluster-node-timeout " ++ toString timeout ++ "\n" ++
    "cluster-require-full-coverage " ++ fullCoverage ++ "\n" ++
    "cluster-preferred-endpoint-type hostname\n" ++
    "cluster-port " ++ toString busPort ++ "\n" ++
    "port " ++ toString clientPort ++ "\n" ++
    "min-replicas-to-write " ++ toString hp.minReplicasToWrite ++ "\n" ++
    "dir " ++ dataMount ++ "\n" ++
    "io-threads " ++ toString ioThreads ++ "\n" ++
    "maxmemory-policy " ++ policy ++ "\n" ++
    (if aofOn then "appendonly yes\n" ++ "appendfsync " ++ fsync ++ "\n"
      else "appendonly no\n") ++
    (if rdbOn then "save 3600 1 300 100 60 10000\n" else "save \"\"\n") ++
    (match cr.spec.memoryLimit with
      | some lim => if lim.isZero then "" else "maxmemory " ++ toString (maxBytes lim) ++ "\n"
      | none => "")

/-! ## Objects -/

structure HeadlessService where
  name : String
  nspace : String
  labels : Labels
  selector : Labels
deriving DecidableEq, Repr

def headlessService (cr : ValkeyCluster) : HeadlessService where
  name := headlessServiceName cr
  nspace := cr.nspace
  labels := commonLabels cr
  selector := [(labelInstance, cr.name)]

structure ConfigMap where
  name : String
  nspace : String
  labels : Labels
  valkeyConf : String
deriving DecidableEq, Repr

def configMap (cr : ValkeyCluster) : ConfigMap where
  name := configMapName cr
  nspace := cr.nspace
  labels := commonLabels cr
  valkeyConf := renderValkeyConf cr

/-- A shard's StatefulSet; `readyReplicas` is its status, and the labels are its
selector's too. The pod template carries a hash of `valkeyConf`. -/
structure StatefulSet where
  name : String
  nspace : String
  labels : Labels
  replicas : Nat
  readyReplicas : Nat
  valkeyConf : String
deriving DecidableEq, Repr

def statefulSet (cr : ValkeyCluster) (shard : Nat) : StatefulSet where
  name := statefulSetName cr shard
  nspace := cr.nspace
  labels := shardLabels cr shard
  replicas := 1 + cr.spec.replicasPerShard
  readyReplicas := 0
  valkeyConf := renderValkeyConf cr

structure PVC where
  name : String
  nspace : String
  labels : Labels
deriving DecidableEq, Repr

end Valkeyop.Resources
