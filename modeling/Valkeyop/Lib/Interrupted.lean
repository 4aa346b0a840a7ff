import Valkeyop.Lib.Fallible

/-!
# Calls that break off

A service may break off a call half way and say so. Of a program that gives up at such a
reply, all that is known of its runs against a service that never breaks off carries
over: up to the first call that does the two runs are the same, and there the program
ends. So it is enough to look at each call the program makes, in the state it makes it
in, and at what the call leaves behind when it breaks off there.
-/

namespace Valkeyop.Lib

namespace Prog

variable {C : Type} {R : C → Type} {S T α β : Type} {bad : (c : C) → R c → Prop}

/-- After a bad reply no other call is made, and the answer meets `E`. -/
def Quits (bad : (c : C) → R c → Prop) (E : α → Prop) : Prog C R α → Prop
  | .ret _ => True
  | .call c k => ∀ r, (bad c r → ∃ a, k r = .ret a ∧ E a) ∧ (k r).Quits bad E

variable {E : α → Prop} {p : Prog C R α}

/-- A program whose calls have no bad replies. -/
theorem Only.quits {P : C → Prop} (hp : p.Only P) (hP : ∀ c r, P c → ¬ bad c r) :
    p.Quits bad E := by
  induction p with
  | ret a => trivial
  | call c k ih => exact fun r => ⟨fun hr => absurd hr (hP c r hp.1), ih r (hp.2 r)⟩

/-- The second half has to stay silent once the first has given up. -/
theorem Quits.bind {E' : β → Prop} {f : α → Prog C R β} (hp : p.Quits bad E)
    (hf : ∀ a, (f a).Quits bad E') (hE : ∀ a, E a → ∃ b, f a = .ret b ∧ E' b) :
    (p >>= f).Quits bad E' := by
  change (p.bind f).Quits bad E'
  induction p with
  | ret a => exact hf a
  | call c k ih =>
      intro r
      refine ⟨fun hr => ?_, ih r (hp r).2⟩
      obtain ⟨a, hk, ha⟩ := (hp r).1 hr
      show ∃ b, (k r).bind f = .ret b ∧ E' b
      rw [hk]
      exact hE a ha

/-- A run against `h'` is one against `h`, or ends with the call that broke off. -/
theorem Runs.interrupted {h : Handler C R S} (h' : Handler C R T) (view : T → S)
    {G : C → S → Prop} {I J : T → Prop}
    (hstep : ∀ c t, I t → G c (view t) →
      h c (view t) = ((h' c t).1, view (h' c t).2) ∧ I (h' c t).2 ∨
        bad c (h' c t).1 ∧ J (h' c t).2)
    {Q : α → S → Prop} {t : T} (hp : Runs h G Q p (view t)) (hquits : p.Quits bad E)
    (ht : I t) :
    Q (p.run h' t).1 (view (p.run h' t).2) ∧ I (p.run h' t).2 ∨ J (p.run h' t).2 := by
  induction p generalizing t with
  | ret a => exact .inl ⟨runs_pure.1 hp, ht⟩
  | call c k ih =>
      obtain ⟨hG, hk⟩ := runs_call.1 hp
      rcases hstep c t ht hG with ⟨hsame, hI⟩ | ⟨hbad, hJ⟩
      · rw [hsame] at hk
        exact ih _ hk (hquits _).2 hI
      · obtain ⟨a, ha, -⟩ := (hquits _).1 hbad
        refine .inr ?_
        rw [run, ha]
        exact hJ

end Prog

namespace Fallible

open Prog

variable {C : Type} {R : C → Type} {ε α β : Type} {bad : (c : C) → R c → Prop}
  {p : Fallible C R ε α}

/-- A bad reply makes the program fail at once. -/
def Aborts (bad : (c : C) → R c → Prop) (p : Fallible C R ε α) : Prop :=
  p.run.Quits bad fun r => ∃ e, r = .error e

theorem aborts_pure (a : α) : Aborts bad (pure a : Fallible C R ε α) := trivial

theorem aborts_throw (e : ε) : Aborts bad (throw e : Fallible C R ε α) := trivial

theorem aborts_of_only {P : C → Prop} (hp : Prog.Only P p.run) (hP : ∀ c r, P c → ¬ bad c r) :
    Aborts bad p :=
  hp.quits hP

theorem aborts_bind {f : α → Fallible C R ε β} (hp : Aborts bad p)
    (hf : ∀ a, Aborts bad (f a)) : Aborts bad (p >>= f) := by
  unfold Aborts
  rw [ExceptT.run_bind]
  refine Quits.bind hp (fun r => ?_) fun r ⟨e, hr⟩ => ?_
  · cases r with
    | ok a => exact hf a
    | error e => trivial
  · subst hr
    exact ⟨_, rfl, e, rfl⟩

theorem aborts_forM {f : β → Fallible C R ε PUnit} {l : List β}
    (hf : ∀ b ∈ l, Aborts bad (f b)) : Aborts bad (l.forM f) := by
  induction l with
  | nil => exact aborts_pure _
  | cons b l ih =>
      exact aborts_bind (hf b (by simp)) fun _ => ih fun b' hb' => hf b' (by simp [hb'])

/-- The call that may break off, and what is made of its reply. -/
theorem aborts_op_bind {c : C} {f : R c → Fallible C R ε β}
    (hbad : ∀ r, bad c r → ∃ e, f r = throw e) (hf : ∀ r, Aborts bad (f r)) :
    Aborts bad (liftM (op c : Prog C R (R c)) >>= f) := by
  intro r
  refine ⟨fun hr => ?_, hf r⟩
  obtain ⟨e, he⟩ := hbad r hr
  refine ⟨.error e, ?_, e, rfl⟩
  change (f r).run = _
  rw [he]
  rfl

/-- Whoever catches the failure must stay silent then. -/
theorem quits_attempt_bind {f : Except ε α → Fallible C R ε β} (hp : Aborts bad p)
    (hf : ∀ r, (f r).run.Quits bad fun _ => True) (herror : ∀ e, ∃ r, (f (.error e)).run = .ret r) :
    (p.attempt >>= f).run.Quits bad fun _ => True := by
  have hattempt : p.attempt.run.Quits bad fun r => ∃ e, r = .ok (.error e) := by
    refine Quits.bind hp (fun _ => trivial) fun r ⟨e, hr⟩ => ?_
    subst hr
    exact ⟨_, rfl, e, rfl⟩
  rw [ExceptT.run_bind]
  refine Quits.bind hattempt (fun r => ?_) fun r ⟨e, hr⟩ => ?_
  · cases r with
    | ok r => exact hf r
    | error e => trivial
  · subst hr
    obtain ⟨r, hr⟩ := herror e
    exact ⟨r, hr, trivial⟩

theorem quits_only_bind {P : C → Prop} {f : α → Fallible C R ε β} (hp : Prog.Only P p.run)
    (hP : ∀ c r, P c → ¬ bad c r) (hf : ∀ a, (f a).run.Quits bad fun _ => True) :
    (p >>= f).run.Quits bad fun _ => True := by
  rw [ExceptT.run_bind]
  refine Quits.bind (hp.quits hP (E := fun _ => False)) (fun r => ?_) fun _ hr => hr.elim
  cases r with
  | ok a => exact hf a
  | error e => trivial

end Fallible

end Valkeyop.Lib
