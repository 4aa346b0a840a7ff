import Valkeyop.Controller.Calls

/-!
# Endpoints and workloads

`internal/controller/resources.go`: where the pods of a cluster are dialled, and
the Kubernetes objects a pass makes sure of before it touches the cluster.
-/

namespace Valkeyop.Controller

open Valkeyop.Lib Valkeyop.Cluster Valkeyop.Api Valkeyop.Resources

/-! ## Endpoints -/

def endpoint (cr : ValkeyCluster) (shard ordinal : Nat) : Endpoint where
  host := podFQDN cr shard ordinal
  port := clientPort
  podName := podName cr shard ordinal
  nspace := cr.nspace

def seed (cr : ValkeyCluster) : Endpoint := endpoint cr 0 0

/-- Every pod of every desired shard. -/
def allEndpoints (cr : ValkeyCluster) : List Endpoint :=
  (List.range cr.spec.shards).flatMap fun i =>
    (List.range (cr.spec.replicasPerShard + 1)).map (endpoint cr i)

/-! ## Resources -/

def ensureConfigMap (cr : ValkeyCluster) : Act Unit := Kube.applyConfigMap (configMap cr)

def ensureHeadlessService (cr : ValkeyCluster) : Act Unit :=
  Kube.applyService (headlessService cr)

def ensureStatefulSets (cr : ValkeyCluster) : Act Unit :=
  (List.range cr.spec.shards).forM fun i => Kube.applyStatefulSet (statefulSet cr i)

/-- Whether the StatefulSets from a shard on have all their pods ready; one that
does not exist yet is not ready. -/
def shardsReadyFrom (cr : ValkeyCluster) : List Nat → Act Bool
  | [] => pure true
  | i :: rest => do
      match ← (Kube.getStatefulSet (statefulSetName cr i) cr.nspace).attempt with
      | .error e => if e.reason = .notFound then pure false else throw e
      | .ok sts =>
          if sts.readyReplicas ≠ 1 + cr.spec.replicasPerShard then pure false
          else shardsReadyFrom cr rest

def shardsReady (cr : ValkeyCluster) : Act Bool :=
  shardsReadyFrom cr (List.range cr.spec.shards)

end Valkeyop.Controller
