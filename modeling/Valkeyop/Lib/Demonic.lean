import Mathlib.Logic.Function.Basic
import Valkeyop.Lib.Fallible

/-!
# Whatever may be answered

`M c r` says that `r` may be the reply to `c`, each time anew. What a program does under
every choice of replies is what it does against every handler whose replies are of that
kind, as long as each call has one: a handler can follow any script, since its state may
count the calls.
-/

namespace Valkeyop.Lib

namespace Prog

variable {C : Type} {R : C → Type} {S α β : Type} {M : (c : C) → R c → Prop} {G : C → Prop}

/-- Under every choice of replies, each call satisfies `G` and the answer `Q`. -/
def Always (M : (c : C) → R c → Prop) (G : C → Prop) (Q : α → Prop) (p : Prog C R α) : Prop :=
  p.Wp Quiet (fun c (_ : Unit) r _ => M c r) (fun c _ => G c) (fun a _ => Q a) ()

@[simp] theorem always_pure {a : α} {Q : α → Prop} :
    Always M G Q (pure a : Prog C R α) ↔ Q a :=
  wp_quiet_pure

theorem always_call {c : C} {k : R c → Prog C R α} {Q : α → Prop} :
    Always M G Q (.call c k) ↔ G c ∧ ∀ r, M c r → Always M G Q (k r) :=
  (wp_quiet_op_bind (f := k)).trans
    ⟨fun h => ⟨h.1, fun r hr => h.2 r () hr⟩, fun h => ⟨h.1, fun r _ hr => h.2 r hr⟩⟩

@[simp] theorem always_op {c : C} {Q : R c → Prop} :
    Always M G Q (op c : Prog C R (R c)) ↔ G c ∧ ∀ r, M c r → Q r := by
  rw [op, always_call]
  exact and_congr_right fun _ => forall₂_congr fun _ _ => always_pure

theorem always_bind {p : Prog C R α} {f : α → Prog C R β} {Q : β → Prop} :
    Always M G Q (p >>= f) ↔ Always M G (fun a => Always M G Q (f a)) p :=
  wp_bind

theorem Always.mono {p : Prog C R α} {Q Q' : α → Prop} (hp : Always M G Q p)
    (hQ : ∀ a, Q a → Q' a) : Always M G Q' p :=
  Wp.mono hp fun a _ => hQ a

theorem Always.runs {h : Handler C R S} (hM : ∀ c s, M c (h c s).1) {Q : α → Prop}
    {p : Prog C R α} (hp : Always M G Q p) (s : S) :
    Runs h (fun c _ => G c) (fun a _ => Q a) p s := by
  induction p generalizing s with
  | ret a => exact runs_pure.2 (always_pure.1 hp)
  | call c k ih =>
      obtain ⟨hc, hk⟩ := always_call.1 hp
      exact runs_call.2 ⟨hc, ih _ (hk _ (hM c s)) _⟩

/-! ## Scripts -/

/-- The replies to the first call, to the second and so on are prepared. -/
def scripted (script : Nat → (c : C) → R c) : Handler C R Nat := fun c n => (script n c, n + 1)

/-- A script with other replies to one more call in front of it. -/
def preface (replies : (c : C) → R c) (script : Nat → (c : C) → R c) : Nat → (c : C) → R c
  | 0 => replies
  | n + 1 => script n

theorem runs_scripted_succ {script : Nat → (c : C) → R c} {Q : α → Prop} (p : Prog C R α)
    (n : Nat) :
    Runs (scripted script) (fun c _ => G c) (fun a _ => Q a) p (n + 1) ↔
      Runs (scripted fun i => script (i + 1)) (fun c _ => G c) (fun a _ => Q a) p n := by
  induction p generalizing n with
  | ret a =>
      change Runs _ _ _ (pure a) _ ↔ Runs _ _ _ (pure a) _
      rw [runs_pure, runs_pure]
  | call c k ih =>
      rw [runs_call, runs_call]
      exact and_congr_right fun _ => ih (script (n + 1) c) (n + 1)

open Classical in
theorem always_of_scripted (hM : ∀ c, ∃ r, M c r) {Q : α → Prop} {p : Prog C R α}
    (hp : ∀ script : Nat → (c : C) → R c, (∀ n c, M c (script n c)) →
      Runs (scripted script) (fun c _ => G c) (fun a _ => Q a) p 0) : Always M G Q p := by
  obtain ⟨reply, hreply⟩ := Classical.skolem.1 hM
  induction p with
  | ret a => exact always_pure.2 (runs_pure.1 (hp (fun _ => reply) fun _ => hreply))
  | call c k ih =>
      refine always_call.2 ⟨(runs_call.1 (hp (fun _ => reply) fun _ => hreply)).1, ?_⟩
      intro r hr
      refine ih r fun script hscript => ?_
      have hfirst : ∀ c', M c' (Function.update reply c r c') := by
        intro c'
        by_cases hc : c' = c
        · subst hc
          rw [Function.update_self]
          exact hr
        · rw [Function.update_of_ne hc]
          exact hreply c'
      have hscript' : ∀ n c', M c' (preface (Function.update reply c r) script n c') := by
        intro n
        cases n with
        | zero => exact hfirst
        | succ n => exact hscript n
      have hrun := (runs_call.1 (hp _ hscript')).2
      have hanswer : (scripted (preface (Function.update reply c r) script) c 0).1 = r :=
        Function.update_self c r reply
      rw [hanswer] at hrun
      exact (runs_scripted_succ (k r) 0).1 hrun

/-- Every choice of replies is some handler's, and no handler has another one. -/
theorem always_iff_runs (hM : ∀ c, ∃ r, M c r) {Q : α → Prop} {p : Prog C R α} :
    Always M G Q p ↔ ∀ (S : Type) (h : Handler C R S) (s : S), (∀ c t, M c (h c t).1) →
      Runs h (fun c _ => G c) (fun a _ => Q a) p s :=
  ⟨fun hp _ _ s hh => hp.runs hh s,
    fun hp => always_of_scripted hM fun script hscript =>
      hp Nat (scripted script) 0 fun c n => hscript n c⟩

end Prog

/-! ## Programs that may fail -/

namespace Fallible

open Prog

variable {C : Type} {R : C → Type} {ε α β : Type} {M : (c : C) → R c → Prop} {G : C → Prop}

theorem always_run_bind {p : Fallible C R ε α} {f : α → Fallible C R ε β}
    {Q : Except ε β → Prop} :
    Always M G Q (p >>= f).run ↔
      Always M G (fun r => (∀ a, r = .ok a → Always M G Q (f a).run) ∧
        ∀ e, r = .error e → Q (.error e)) p.run := by
  rw [ExceptT.run_bind, always_bind]
  refine ⟨fun hp => hp.mono fun r hr => ?_, fun hp => hp.mono fun r hr => ?_⟩
  · cases r with
    | ok a =>
        constructor
        · intro a' ha
          cases ha
          exact hr
        · intro e he
          cases he
    | error e =>
        constructor
        · intro a ha
          cases ha
        · intro e' he
          cases he
          exact always_pure.1 hr
  · cases r with
    | ok a => exact hr.1 a rfl
    | error e => exact always_pure.2 (hr.2 e rfl)

theorem always_lift {p : Prog C R α} {Q : Except ε α → Prop} :
    Always M G Q (liftM p : Fallible C R ε α).run ↔ Always M G (fun a => Q (.ok a)) p := by
  change Always M G Q (p >>= fun a => pure (.ok a)) ↔ _
  rw [always_bind]
  exact ⟨fun hp => hp.mono fun _ ha => always_pure.1 ha,
    fun hp => hp.mono fun _ ha => always_pure.2 ha⟩

theorem always_attempt {p : Fallible C R ε α} {Q : Except ε (Except ε α) → Prop} :
    Always M G Q p.attempt.run ↔ Always M G (fun r => Q (.ok r)) p.run :=
  always_lift

/-- A loop whose rounds can each go through keeps to its calls exactly when its rounds do. -/
theorem always_forM {f : β → Fallible C R ε PUnit} {l : List β}
    (hf : ∀ b ∈ l, ∀ Q, Always M G Q (f b).run → Q (.ok ⟨⟩)) :
    Always M G (fun _ => True) (l.forM f).run ↔
      ∀ b ∈ l, Always M G (fun _ => True) (f b).run := by
  induction l with
  | nil => exact iff_of_true (always_pure.2 trivial) fun _ hb => nomatch hb
  | cons b l ih =>
      have ih := ih fun b' hb' => hf b' (List.mem_cons_of_mem _ hb')
      change Always M G _ (f b >>= fun _ => l.forM f).run ↔ _
      rw [always_run_bind, List.forall_mem_cons]
      constructor
      · intro hall
        have hrest := (hf b List.mem_cons_self _ hall).1 ⟨⟩ rfl
        exact ⟨hall.mono fun _ _ => trivial, ih.1 hrest⟩
      · intro hall
        exact hall.1.mono fun r _ => ⟨fun _ _ => ih.2 hall.2, fun _ _ => trivial⟩

end Fallible

end Valkeyop.Lib
