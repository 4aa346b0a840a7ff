import Valkeyop.Lib.Fallible

/-!
# The calls of a kind

`Succeeds` speaks of each call of a run by itself. Where it matters how many calls of a
kind there are, and in what order, `Emits` has the list of them in its postcondition:
a program that makes none adds nothing to the list, and two in a row add theirs in turn.

A program that keeps to calls which do not look at a part of the state does the same
whatever that part is.
-/

namespace Valkeyop.Lib

variable {C : Type} {R : C → Type} {ε S α β : Type} {h : Handler C R S} {G : C → S → Prop}

namespace Fallible

/-- The calls of a kind a run makes. -/
def emitted (h : Handler C R S) (kind : C → Bool) (p : Fallible C R ε α) (s : S) :
    List (C × S) :=
  (calls h p s).filter fun e => kind e.1

/-- The run goes through, each call satisfies `G`, and the answer, what is left behind and
the calls of a kind satisfy `Q`. -/
def Emits (h : Handler C R S) (G : C → S → Prop) (kind : C → Bool)
    (Q : α → S → List (C × S) → Prop) (p : Fallible C R ε α) (s : S) : Prop :=
  Succeeds h G (fun a s' => Q a s' (emitted h kind p s)) p s

section

variable {kind : C → Bool} {p : Fallible C R ε α} {f : α → Fallible C R ε β} {s : S}

theorem Emits.mono {Q Q' : α → S → List (C × S) → Prop} (hp : Emits h G kind Q p s)
    (hQ : ∀ a s l, Q a s l → Q' a s l) : Emits h G kind Q' p s :=
  Succeeds.mono hp fun a s' => hQ a s' _

theorem Emits.succeeds {Q : α → S → List (C × S) → Prop} {Q' : α → S → Prop}
    (hp : Emits h G kind Q p s) (hQ : ∀ a s l, Q a s l → Q' a s) : Succeeds h G Q' p s :=
  Succeeds.mono hp fun a s' => hQ a s' _

theorem emits_pure {a : α} {Q : α → S → List (C × S) → Prop} (hQ : Q a s []) :
    Emits h G kind Q (pure a : Fallible C R ε α) s :=
  succeeds_pure.2 hQ

theorem emits_bind {Q : β → S → List (C × S) → Prop}
    (hp : Emits h G kind (fun a s' l =>
      Emits h G kind (fun b s'' l' => Q b s'' (l ++ l')) (f a) s') p s) :
    Emits h G kind Q (p >>= f) s := by
  obtain ⟨⟨a, s', hexec, hf⟩, hG⟩ := succeeds_iff.1 hp
  obtain ⟨⟨b, s'', hexec', hQ⟩, hG'⟩ := succeeds_iff.1 hf
  refine succeeds_iff.2 ⟨⟨b, s'', (exec_bind_ok hexec).trans hexec', ?_⟩, ?_⟩
  · rw [emitted, calls_bind_ok hexec, List.filter_append]
    exact hQ
  · rw [calls_bind_ok hexec]
    exact List.forall_mem_append.2 ⟨hG, hG'⟩

/-- A program that makes no such call. -/
theorem Succeeds.emits {Q : α → S → Prop} (hp : Succeeds h G Q p s)
    (honly : Prog.Only (fun c => kind c = false) p.run) :
    Emits h G kind (fun a s' l => l = [] ∧ Q a s') p s := by
  refine hp.mono fun a s' hQ => ⟨?_, hQ⟩
  refine List.filter_eq_nil_iff.2 fun e he => ?_
  rw [honly.mem_trace e he]
  exact Bool.false_ne_true

/-- A program that makes no such call, before another one. -/
theorem Succeeds.emits_bind {P : α → S → Prop} {Q : β → S → List (C × S) → Prop}
    (hp : Succeeds h G P p s) (honly : Prog.Only (fun c => kind c = false) p.run)
    (hf : ∀ a s', P a s' → Emits h G kind Q (f a) s') : Emits h G kind Q (p >>= f) s := by
  refine Fallible.emits_bind ((hp.emits honly).mono fun a s' l hl => ?_)
  obtain ⟨rfl, hP⟩ := hl
  exact hf a s' hP

/-- A single call of the kind, before anything else. -/
theorem emits_op_bind {c : C} {f : R c → Fallible C R ε β} {Q : β → S → List (C × S) → Prop}
    (hkind : kind c = true) (hG : G c s)
    (hf : Emits h G kind (fun b s' l => Q b s' ((c, s) :: l)) (f (h c s).1) (h c s).2) :
    Emits h G kind Q (liftM (Prog.op c : Prog C R (R c)) >>= f) s := by
  refine emits_bind (succeeds_lift.2 (Prog.runs_op.2 ⟨hG, ?_⟩))
  rw [emitted, calls_lift]
  simpa [Prog.op, Prog.trace, hkind] using hf

theorem Emits.forM {f : β → Fallible C R ε PUnit} {I : List β → S → List (C × S) → Prop}
    {l : List β} (hf : ∀ done b todo, l = done ++ b :: todo → ∀ s t, I done s t →
      Emits h G kind (fun _ s' t' => I (done ++ [b]) s' (t ++ t')) (f b) s) (hs : I [] s []) :
    Emits h G kind (fun _ => I l) (l.forM f) s := by
  have key : ∀ (todo done : List β) (s : S) (t : List (C × S)), l = done ++ todo → I done s t →
      Emits h G kind (fun _ s' t' => I l s' (t ++ t')) (todo.forM f) s := by
    intro todo
    induction todo with
    | nil =>
        rintro done s t rfl hI
        rw [List.append_nil]
        exact emits_pure (by rwa [List.append_nil])
    | cons b todo ih =>
        intro done s t hl hI
        refine Fallible.emits_bind ((hf done b todo hl s t hI).mono fun _ s' t' hI' => ?_)
        refine (ih (done ++ [b]) s' (t ++ t') (by simp [hl]) hI').mono fun _ s'' t'' hI'' => ?_
        rwa [← List.append_assoc]
  exact key l [] s [] rfl hs

end

end Fallible

/-! ## What the calls do not look at -/

namespace Prog

/-- If a change of the state goes past every call of `P`, it goes past a program of them. -/
theorem Only.commutes {P : C → Prop} {p : Prog C R α} {g : S → S}
    (hg : ∀ c s, P c → h c (g s) = ((h c s).1, g (h c s).2)) (hp : p.Only P) (s : S) :
    p.run h (g s) = ((p.run h s).1, g (p.run h s).2) ∧
      p.trace h (g s) = (p.trace h s).map fun e => (e.1, g e.2) := by
  induction p generalizing s with
  | ret a => exact ⟨rfl, rfl⟩
  | call c k ih =>
      obtain ⟨hrun, htrace⟩ := ih (h c s).1 (hp.2 _) (h c s).2
      rw [run, trace, hg c s hp.1]
      exact ⟨hrun, congrArg _ htrace⟩

end Prog

end Valkeyop.Lib
