import Valkeyop.Lib.Fallible
import Valkeyop.Cluster.Interface
import Valkeyop.Resources

/-!
# What the controller asks of the world

Everything `ValkeyClusterReconciler` does goes through its Kubernetes client and
its `ClusterAdmin`, so a reconcile pass is a program over their calls. Two more
things a pass depends on are calls as well: the wall clock, which conditions are
stamped with, and the order in which Go ranges over a map.

A Go function that returns an error is an `Act`, one that does not is a `Ctl`.
Logging is left out.
-/

namespace Valkeyop.Controller

open Valkeyop.Lib Valkeyop.Cluster Valkeyop.Api Valkeyop.Resources

/-- The Kubernetes client. Each `apply` is a `controllerutil.CreateOrUpdate`; an
update answers with the object as stored. -/
inductive KubeCall where
  | getCluster (name nspace : String)
  | updateCluster (cr : ValkeyCluster)
  | updateClusterStatus (cr : ValkeyCluster)
  | applyConfigMap (cm : ConfigMap)
  | applyService (svc : HeadlessService)
  | applyStatefulSet (sts : StatefulSet)
  | getStatefulSet (name nspace : String)
  | listStatefulSets (nspace : String) (selector : Labels)
  | deleteStatefulSet (name nspace : String)
  | listPVCs (nspace : String) (selector : Labels)
  | deletePVC (pvc : PVC)
  | now

@[reducible] def KubeCall.Reply : KubeCall → Type
  | .getCluster .. | .updateCluster _ | .updateClusterStatus _ => Except Err ValkeyCluster
  | .getStatefulSet .. => Except Err StatefulSet
  | .listStatefulSets .. => Except Err (List StatefulSet)
  | .listPVCs .. => Except Err (List PVC)
  | .applyConfigMap _ | .applyService _ | .applyStatefulSet _ | .deleteStatefulSet ..
  | .deletePVC _ => Except Err Unit
  | .now => Nat

/-- An order to visit the entries of a map in. -/
abbrev RangeOrder (m : NodeMap) := { l : List (Σ _ : String, NodeInfo) // l.Perm m.entries }

/-- As the map is written down. -/
def asWritten (m : NodeMap) : RangeOrder m := ⟨m.entries, .refl _⟩

inductive Call where
  | admin (c : AdminCall)
  | kube (c : KubeCall)
  | rangeOver (m : NodeMap)

@[reducible] def Call.Reply : Call → Type
  | .admin c => c.Reply
  | .kube c => c.Reply
  | .rangeOver m => RangeOrder m

abbrev Ctl := Prog Call Call.Reply

abbrev Act := Fallible Call Call.Reply Err

/-! ## The calls -/

namespace Admin

def state (seed : Endpoint) : Act ClusterState := ExceptT.mk (Prog.op (Call.admin (.state seed)))

def myID (ep : Endpoint) : Act String := ExceptT.mk (Prog.op (Call.admin (.myID ep)))

def meet (source target : Endpoint) : Act Unit :=
  ExceptT.mk (Prog.op (Call.admin (.meet source target)))

def addSlots (primary : Endpoint) (ranges : List SlotRange) : Act Unit :=
  ExceptT.mk (Prog.op (Call.admin (.addSlots primary ranges)))

def replicate (replica : Endpoint) (primaryID : String) : Act Unit :=
  ExceptT.mk (Prog.op (Call.admin (.replicate replica primaryID)))

def forget (source : Endpoint) (nodeID : String) : Act Unit :=
  ExceptT.mk (Prog.op (Call.admin (.forget source nodeID)))

def moveSlots (seed : Endpoint) (fromNodeID toNodeID : String) (n : Int) :
    Ctl (Int × Option Err) :=
  Prog.op (Call.admin (.moveSlots seed fromNodeID toNodeID n))

def repairSlots (seed : Endpoint) : Ctl (Int × Option Err) :=
  Prog.op (Call.admin (.repairSlots seed))

end Admin

namespace Kube

def getCluster (name nspace : String) : Act ValkeyCluster :=
  ExceptT.mk (Prog.op (Call.kube (.getCluster name nspace)))

def updateCluster (cr : ValkeyCluster) : Act ValkeyCluster :=
  ExceptT.mk (Prog.op (Call.kube (.updateCluster cr)))

def updateClusterStatus (cr : ValkeyCluster) : Act ValkeyCluster :=
  ExceptT.mk (Prog.op (Call.kube (.updateClusterStatus cr)))

def applyConfigMap (cm : ConfigMap) : Act Unit :=
  ExceptT.mk (Prog.op (Call.kube (.applyConfigMap cm)))

def applyService (svc : HeadlessService) : Act Unit :=
  ExceptT.mk (Prog.op (Call.kube (.applyService svc)))

def applyStatefulSet (sts : StatefulSet) : Act Unit :=
  ExceptT.mk (Prog.op (Call.kube (.applyStatefulSet sts)))

def getStatefulSet (name nspace : String) : Act StatefulSet :=
  ExceptT.mk (Prog.op (Call.kube (.getStatefulSet name nspace)))

def listStatefulSets (nspace : String) (selector : Labels) : Act (List StatefulSet) :=
  ExceptT.mk (Prog.op (Call.kube (.listStatefulSets nspace selector)))

def deleteStatefulSet (name nspace : String) : Act Unit :=
  ExceptT.mk (Prog.op (Call.kube (.deleteStatefulSet name nspace)))

def listPVCs (nspace : String) (selector : Labels) : Act (List PVC) :=
  ExceptT.mk (Prog.op (Call.kube (.listPVCs nspace selector)))

def deletePVC (pvc : PVC) : Act Unit := ExceptT.mk (Prog.op (Call.kube (.deletePVC pvc)))

def now : Ctl Nat := Prog.op (Call.kube .now)

end Kube

def rangeOver (m : NodeMap) : Ctl (RangeOrder m) := Prog.op (Call.rangeOver m)

/-! ## Errors -/

/-- Add context to the error of an action. -/
def wrap {α : Type} (context : String) (p : Act α) : Act α :=
  ExceptT.mk do
    match ← p.run with
    | .ok a => pure (.ok a)
    | .error e => pure (.error (e.wrap context))

def ignoreNotFound (p : Act Unit) : Act Unit :=
  ExceptT.mk do
    match ← p.run with
    | .ok () => pure (.ok ())
    | .error e => if e.reason = .notFound then pure (.ok ()) else pure (.error e)

/-- `retry.RetryOnConflict`: while the action answers with a conflict, try it
again, `retries` times at most. -/
def retryOnConflict {α : Type} : Nat → Act α → Act α
  | 0, p => p
  | retries + 1, p => ExceptT.mk do
      match ← p.run with
      | .ok a => pure (.ok a)
      | .error e =>
          if e.reason = .conflict then (retryOnConflict retries p).run else pure (.error e)

/-- `retry.DefaultRetry` makes five attempts. -/
def defaultRetry : Nat := 4

end Valkeyop.Controller
