import Valkeyop.Controller.ApiServer
import Valkeyop.Controller.Reconcile
import Valkeyop.Lib.Versions

/-!
# An API server with other clients

The operator is not alone: users edit the resource and ask for its deletion, other controllers
put finalizers on it, and the operator itself reads through a cache that may lag behind. Calls
can fail, and a call that failed may have been carried out.

`wish` is what the others have asked for, and no call of the operator writes it.
-/

namespace Valkeyop.Controller

open Valkeyop.Lib Valkeyop.Cluster Valkeyop.Api Valkeyop.Resources

/-- What others have a say in: everything but the status, the operator's own finalizer, and the
version. -/
structure Wish where
  name : String
  nspace : String
  spec : ValkeyClusterSpec
  generation : Nat
  deletionTimestamp : Option Nat
  finalizers : List String

def wishOf (cr : ValkeyCluster) : Wish where
  name := cr.name
  nspace := cr.nspace
  spec := cr.spec
  generation := cr.generation
  deletionTimestamp := cr.deletionTimestamp
  finalizers := cr.finalizers.filter (· != finalizer)

structure Registry where
  kube : ApiServer
  /-- Every version of the resource there has been. -/
  past : List ValkeyCluster
  wish : Option Wish

namespace Registry

/-- As it is found. -/
def opening (k : ApiServer) : Registry := ⟨k, k.cluster.toList, k.cluster.map wishOf⟩

/-- The server has changed. -/
def put (k : ApiServer) (s : Registry) : Registry :=
  { s with kube := k, past := k.cluster.toList ++ s.past }

/-- What others do to the resource, and to anything else. -/
inductive Others : Registry → Registry → Prop
  | write {s : Registry} (c : ValkeyCluster) (k : ApiServer) :
      (∀ b ∈ s.past, b.resourceVersion < c.resourceVersion) → k.cluster = some c →
      Others s ⟨k, c :: s.past, some (wishOf c)⟩
  | remove {s : Registry} (k : ApiServer) : k.cluster = none → Others s ⟨k, s.past, none⟩
  | elsewhere {s : Registry} (k : ApiServer) : k.cluster = s.kube.cluster →
      Others s { s with kube := k }

end Registry

/-- The reply is an error. -/
def KubeCall.Failed : (c : KubeCall) → c.Reply → Prop
  | .getCluster .., r | .updateCluster _, r | .updateClusterStatus _, r => ∃ e, r = Except.error e
  | .getStatefulSet .., r => ∃ e, r = Except.error e
  | .listStatefulSets .., r => ∃ e, r = Except.error e
  | .listPVCs .., r => ∃ e, r = Except.error e
  | .applyConfigMap _, r | .applyService _, r | .applyStatefulSet _, r | .deleteStatefulSet .., r
  | .deletePVC _, r => ∃ e, r = Except.error e
  | .now, _ => False

/-- How the calls of a pass may turn out. The cache answers a read of the resource with any
version there has been; another call is carried out, or fails without effect, or fails after it
was carried out. The cluster may answer anything. -/
def Contended : Service Call Call.Reply Registry
  | .kube (.getCluster name nspace), s, r, s' =>
      s' = s ∧ ∀ c, r = Except.ok c → c ∈ s.past ∧ c.name = name ∧ c.nspace = nspace
  | .kube c, s, r, s' =>
      c.Failed r ∧ s' = s ∨ (c.Failed r ∨ r = (s.kube.answer c).1) ∧ s' = s.put (s.kube.answer c).2
  | .admin _, s, _, s' => s' = s
  | .rangeOver _, s, _, s' => s' = s

/-- Passes that may be stopped anywhere, one after the other, among what others do. -/
inductive Operated (E : Registry → Registry → Prop) (H : Service Call Call.Reply Registry)
    (name nspace : String) : Registry → Registry → Prop
  | refl (s : Registry) : Operated E H name nspace s s
  | others {s s₁ s₂ : Registry} : Operated E H name nspace s s₁ → E s₁ s₂ →
      Operated E H name nspace s s₂
  | pass {s s₁ s₂ : Registry} {p : Ctl (Except Err Result)} : Operated E H name nspace s s₁ →
      Prog.Reaches E H ((reconcile name nspace).run, s₁) (p, s₂) → Operated E H name nspace s s₂

/-- What others keep, and a pass wherever it is stopped, is kept throughout. -/
theorem Operated.invariant {E : Registry → Registry → Prop} {H : Service Call Call.Reply Registry}
    {name nspace : String} {I : Registry → Prop} {s s' : Registry}
    (h : Operated E H name nspace s s') (hE : ∀ s s₁, I s → E s s₁ → I s₁)
    (hpass : ∀ s, I s → (reconcile name nspace).run.Wp E H (fun _ => I) (fun _ => I) s)
    (hs : I s) : I s' := by
  induction h with
  | refl => exact hs
  | others _ ho ih => exact hE _ _ ih ho
  | pass _ hrun ih => exact (hpass _ ih).invariant (fun _ _ h => h) (fun _ _ h => h) hrun

end Valkeyop.Controller
