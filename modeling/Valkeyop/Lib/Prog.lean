import Mathlib.Logic.Relation

/-!
# Programs that talk to services

A `Prog` is a program cut open at its calls: either it has answered, or it
asks one question and continues with whatever reply comes back. Nothing about
the service is in the program, so the same text can be run against a test
double, against a service that loses replies, or against one that other
clients are writing to at the same time.

Two ways of running are given. A `Handler` answers every call, so `run` is a
function and `trace` lists the calls with the state each one found. A
`Service` only says which replies are possible, and `Step` interleaves the
program with an environment; a program stopped anywhere is then just a
configuration `Reaches` gets to, which is how a crash is read.

One logic covers both. `Wp` is a weakest precondition that also demands a
guard at every call, so an invariant that has to hold wherever the program may
be stopped is a guard, and so is "this call is never made on such a state".
-/

namespace Valkeyop.Lib

open Relation

/-- A program over calls `C`, where call `c` is answered by an `R c`. -/
inductive Prog (C : Type) (R : C → Type) (α : Type) where
  | ret : α → Prog C R α
  | call : (c : C) → (R c → Prog C R α) → Prog C R α

/-- A service that answers every call, as a function of its state. -/
abbrev Handler (C : Type) (R : C → Type) (S : Type) := (c : C) → S → R c × S

/-- What a service may do: `H c s r s'` when it may answer `c` in state `s`
by `r`, moving to `s'`. -/
abbrev Service (C : Type) (R : C → Type) (S : Type) :=
  (c : C) → S → R c → S → Prop

/-- A service, watched only while its replies meet a condition. -/
def Service.restrict {C : Type} {R : C → Type} {S : Type} (H : Service C R S)
    (P : (c : C) → S → R c → Prop) : Service C R S :=
  fun c s r s' => H c s r s' ∧ P c s r

namespace Prog

variable {C : Type} {R : C → Type} {S α β γ : Type}

def bind : Prog C R α → (α → Prog C R β) → Prog C R β
  | .ret a, f => f a
  | .call c k, f => .call c fun r => (k r).bind f

instance : Monad (Prog C R) where
  pure := .ret
  bind := bind

/-- Ask one question and answer with its reply. -/
def op (c : C) : Prog C R (R c) := .call c .ret

theorem bind_ret (p : Prog C R α) : p.bind .ret = p := by
  induction p with
  | ret a => rfl
  | call c k ih => exact congrArg (Prog.call c) (funext ih)

theorem bind_bind (p : Prog C R α) (f : α → Prog C R β) (g : β → Prog C R γ) :
    (p.bind f).bind g = p.bind fun a => (f a).bind g := by
  induction p with
  | ret a => rfl
  | call c k ih => exact congrArg (Prog.call c) (funext ih)

instance : LawfulMonad (Prog C R) :=
  LawfulMonad.mk' _ bind_ret (fun _ _ => rfl) bind_bind

/-! ## Running against a handler -/

def run (h : Handler C R S) : Prog C R α → S → α × S
  | .ret a, s => (a, s)
  | .call c k, s => (k (h c s).1).run h (h c s).2

/-- The calls a run makes, in order, each with the state it was made in. -/
def trace (h : Handler C R S) : Prog C R α → S → List (C × S)
  | .ret _, _ => []
  | .call c k, s => (c, s) :: (k (h c s).1).trace h (h c s).2

/-- Where a run stands after its first `n` calls. -/
def after (h : Handler C R S) : Nat → Prog C R α → S → Prog C R α × S
  | 0, p, s => (p, s)
  | _ + 1, .ret a, s => (.ret a, s)
  | n + 1, .call c k, s => (k (h c s).1).after h n (h c s).2

section Run

variable (h : Handler C R S)

@[simp] theorem run_pure (a : α) (s : S) :
    (pure a : Prog C R α).run h s = (a, s) := rfl

@[simp] theorem run_op (c : C) (s : S) : (op c : Prog C R (R c)).run h s = h c s :=
  rfl

@[simp] theorem run_bind (p : Prog C R α) (f : α → Prog C R β) (s : S) :
    (p >>= f).run h s = (f (p.run h s).1).run h (p.run h s).2 := by
  change (p.bind f).run h s = _
  induction p generalizing s with
  | ret a => rfl
  | call c k ih => exact ih _ _

@[simp] theorem trace_bind (p : Prog C R α) (f : α → Prog C R β) (s : S) :
    (p >>= f).trace h s =
      p.trace h s ++ (f (p.run h s).1).trace h (p.run h s).2 := by
  change (p.bind f).trace h s = _
  induction p generalizing s with
  | ret a => rfl
  | call c k ih => exact congrArg (List.cons (c, s)) (ih _ _)

/-- A loop whose rounds make the same calls whatever they find. -/
theorem map_trace_forM {f : β → Prog C R PUnit} {g : β → List C} {l : List β}
    (hf : ∀ b ∈ l, ∀ s, ((f b).trace h s).map Prod.fst = g b) (s : S) :
    ((l.forM f).trace h s).map Prod.fst = l.flatMap g := by
  induction l generalizing s with
  | nil => rfl
  | cons b l ih =>
      change (((f b) >>= fun _ => l.forM f).trace h s).map Prod.fst = _
      rw [trace_bind, List.map_append, List.flatMap_cons, hf b (by simp),
        ih fun b' hb' => hf b' (by simp [hb'])]

theorem after_op_bind (n : Nat) (c : C) (f : R c → Prog C R α) (s : S) :
    (op c >>= f).after h (n + 1) s = (f (h c s).1).after h n (h c s).2 := rfl

/-- A stop inside the first half of a sequence never sees the second half; a
later one has run the first half to its end. -/
theorem after_bind (n : Nat) (p : Prog C R α) (f : α → Prog C R β) (s : S) :
    (p >>= f).after h n s =
      if n ≤ (p.trace h s).length then ((p.after h n s).1 >>= f, (p.after h n s).2)
      else (f (p.run h s).1).after h (n - (p.trace h s).length) (p.run h s).2 := by
  change (p.bind f).after h n s = _
  induction p generalizing s n with
  | ret a =>
      cases n with
      | zero => rfl
      | succ n => rfl
  | call c k ih =>
      cases n with
      | zero => rfl
      | succ n =>
          have := ih (h c s).1 n (h c s).2
          simpa [bind, after, trace, run] using this

theorem after_of_length_le (n : Nat) (p : Prog C R α) (s : S)
    (hn : (p.trace h s).length ≤ n) :
    p.after h n s = (.ret (p.run h s).1, (p.run h s).2) := by
  induction p generalizing s n with
  | ret a => cases n <;> rfl
  | call c k ih =>
      cases n with
      | zero => simp [trace] at hn
      | succ n => exact ih _ _ _ (by simpa [trace] using hn)

end Run

/-! ## Running against a service, next to an environment -/

/-- One step of a program beside its environment: the program makes its next
call, or the environment moves. -/
inductive Step (E : S → S → Prop) (H : Service C R S) :
    Prog C R α × S → Prog C R α × S → Prop
  | call {c : C} {k : R c → Prog C R α} {s s' : S} {r : R c} :
      H c s r s' → Step E H (.call c k, s) (k r, s')
  | env {p : Prog C R α} {s s' : S} : E s s' → Step E H (p, s) (p, s')

theorem Step.op_bind {E : S → S → Prop} {H : Service C R S} {c : C} {f : R c → Prog C R α}
    {q : Prog C R α} {s s' : S} {r : R c} (hr : H c s r s') (hq : f r = q) :
    Step E H (op c >>= f, s) (q, s') := by
  subst hq
  exact .call hr

/-- Everywhere a program can be stopped. -/
def Reaches (E : S → S → Prop) (H : Service C R S) :
    Prog C R α × S → Prog C R α × S → Prop :=
  ReflTransGen (Step E H)

/-- A handler whose every answer is one the service may give runs inside it. -/
theorem reaches_after {h : Handler C R S} {E : S → S → Prop} {H : Service C R S}
    (hH : ∀ c s, H c s (h c s).1 (h c s).2) (n : Nat) (p : Prog C R α) (s : S) :
    Reaches E H (p, s) (p.after h n s) := by
  induction n generalizing p s with
  | zero => exact .refl
  | succ n ih =>
      cases p with
      | ret a => exact .refl
      | call c k => exact .head (.call (hH c s)) (ih _ _)

/-- The environment that leaves the state alone. -/
def Quiet (_ _ : S) : Prop := False

theorem quiet_eq {s s₁ : S} (h : ReflTransGen Quiet s s₁) : s₁ = s := by
  induction h with
  | refl => rfl
  | tail _ hq => exact hq.elim

/-- The weakest precondition of `p` for `Q`, with a guard at every call: at
each call the program makes, `G` holds of the call and of the state it finds,
whatever the environment has done in the meantime; and `Q` holds of the answer
and of every state the environment may turn the last one into. -/
def Wp (E : S → S → Prop) (H : Service C R S) (G : C → S → Prop)
    (Q : α → S → Prop) : Prog C R α → S → Prop
  | .ret a, s => ∀ s₁, ReflTransGen E s s₁ → Q a s₁
  | .call c k, s => ∀ s₁, ReflTransGen E s s₁ →
      G c s₁ ∧ ∀ r s', H c s₁ r s' → (k r).Wp E H G Q s'

section Logic

variable {E : S → S → Prop} {H : Service C R S} {G : C → S → Prop}

theorem Wp.env {p : Prog C R α} {Q : α → S → Prop} {s s₁ : S}
    (hp : p.Wp E H G Q s) (he : ReflTransGen E s s₁) : p.Wp E H G Q s₁ := by
  cases p with
  | ret a => exact fun s₂ h₂ => hp s₂ (he.trans h₂)
  | call c k => exact fun s₂ h₂ => hp s₂ (he.trans h₂)

theorem Wp.mono {p : Prog C R α} {Q Q' : α → S → Prop} {s : S}
    (hp : p.Wp E H G Q s) (hQ : ∀ a s, Q a s → Q' a s) : p.Wp E H G Q' s := by
  induction p generalizing s with
  | ret a => exact fun s₁ h₁ => hQ a s₁ (hp s₁ h₁)
  | call c k ih =>
      intro s₁ h₁
      obtain ⟨hg, hk⟩ := hp s₁ h₁
      exact ⟨hg, fun r s' hr => ih r (hk r s' hr)⟩

/-- What holds of the answer goes on holding while the environment moves. -/
theorem Wp.lasting {p : Prog C R α} {Q : α → S → Prop} {s : S} (hp : p.Wp E H G Q s) :
    p.Wp E H G (fun a s => ∀ s₁, ReflTransGen E s s₁ → Q a s₁) s := by
  induction p generalizing s with
  | ret a => exact fun s₁ h₁ s₂ h₂ => hp s₂ (h₁.trans h₂)
  | call c k ih =>
      intro s₁ h₁
      obtain ⟨hg, hk⟩ := hp s₁ h₁
      exact ⟨hg, fun r s' hr => ih r (hk r s' hr)⟩

theorem Wp.guard_mono {G' : C → S → Prop} {p : Prog C R α} {Q : α → S → Prop}
    {s : S} (hp : p.Wp E H G Q s) (hG : ∀ c s, G c s → G' c s) :
    p.Wp E H G' Q s := by
  induction p generalizing s with
  | ret a => exact hp
  | call c k ih =>
      intro s₁ h₁
      obtain ⟨hg, hk⟩ := hp s₁ h₁
      exact ⟨hG c s₁ hg, fun r s' hr => ih r (hk r s' hr)⟩

theorem wp_bind {p : Prog C R α} {f : α → Prog C R β} {Q : β → S → Prop} {s : S} :
    (p >>= f).Wp E H G Q s ↔ p.Wp E H G (fun a => (f a).Wp E H G Q) s := by
  change (p.bind f).Wp E H G Q s ↔ _
  induction p generalizing s with
  | ret a => exact ⟨fun hp s₁ h₁ => hp.env h₁, fun hp => hp s .refl⟩
  | call c k ih =>
      constructor
      · intro hp s₁ h₁
        exact ⟨(hp s₁ h₁).1, fun r s' hr => (ih r).1 ((hp s₁ h₁).2 r s' hr)⟩
      · intro hp s₁ h₁
        exact ⟨(hp s₁ h₁).1, fun r s' hr => (ih r).2 ((hp s₁ h₁).2 r s' hr)⟩

/-- A call, from an assertion the environment cannot break. -/
theorem wp_call {c : C} {k : R c → Prog C R α} {Q : α → S → Prop} {s : S}
    (P : S → Prop) (hP : P s) (hE : ∀ s s₁, P s → E s s₁ → P s₁)
    (hG : ∀ s, P s → G c s)
    (hk : ∀ s r s', P s → H c s r s' → (k r).Wp E H G Q s') :
    (Prog.call c k).Wp E H G Q s := by
  intro s₁ h₁
  have hP₁ : P s₁ := by
    induction h₁ with
    | refl => exact hP
    | tail _ he ih => exact hE _ _ ih he
  exact ⟨hG s₁ hP₁, fun r s' hr => hk s₁ r s' hP₁ hr⟩

theorem wp_op_bind {c : C} {f : R c → Prog C R α} {Q : α → S → Prop} {s : S}
    (P : S → Prop) (hP : P s) (hE : ∀ s s₁, P s → E s s₁ → P s₁)
    (hG : ∀ s, P s → G c s)
    (hf : ∀ s r s', P s → H c s r s' → (f r).Wp E H G Q s') :
    (op c >>= f).Wp E H G Q s :=
  wp_call P hP hE hG hf

theorem wp_ret {a : α} {Q : α → S → Prop} {s : S} (P : S → Prop) (hP : P s)
    (hE : ∀ s s₁, P s → E s s₁ → P s₁) (hQ : ∀ s, P s → Q a s) :
    (Prog.ret a : Prog C R α).Wp E H G Q s := by
  intro s₁ h₁
  refine hQ s₁ ?_
  induction h₁ with
  | refl => exact hP
  | tail _ he ih => exact hE _ _ ih he

@[simp] theorem wp_quiet_pure {a : α} {Q : α → S → Prop} {s : S} :
    (pure a : Prog C R α).Wp Quiet H G Q s ↔ Q a s :=
  ⟨fun hp => hp s .refl, fun hq s₁ h₁ => by rw [quiet_eq h₁]; exact hq⟩

theorem wp_quiet_op {c : C} {Q : R c → S → Prop} {s : S} :
    (op c : Prog C R (R c)).Wp Quiet H G Q s ↔
      G c s ∧ ∀ r s', H c s r s' → Q r s' := by
  constructor
  · intro hp
    exact ⟨(hp s .refl).1, fun r s' hr => (hp s .refl).2 r s' hr s' .refl⟩
  · rintro ⟨hg, hk⟩ s₁ h₁
    rw [quiet_eq h₁]
    exact ⟨hg, fun r s' hr => wp_quiet_pure.2 (hk r s' hr)⟩

theorem wp_quiet_op_bind {c : C} {f : R c → Prog C R α} {Q : α → S → Prop} {s : S} :
    (op c >>= f).Wp Quiet H G Q s ↔
      G c s ∧ ∀ r s', H c s r s' → (f r).Wp Quiet H G Q s' :=
  wp_bind.trans wp_quiet_op

/-- A weakest precondition is carried by every step, so it holds wherever the
program can be stopped. -/
theorem Wp.reaches {p p' : Prog C R α} {Q : α → S → Prop} {s s' : S}
    (hp : p.Wp E H G Q s) (hr : Reaches E H (p, s) (p', s')) :
    p'.Wp E H G Q s' := by
  have hinv : ∀ x : Prog C R α × S, Reaches E H (p, s) x → x.1.Wp E H G Q x.2 := by
    intro x hx
    induction hx with
    | refl => exact hp
    | tail _ hstep ih =>
        cases hstep with
        | call hc => exact (ih _ .refl).2 _ _ hc
        | env he => exact ih.env (.single he)
  exact hinv (p', s') hr

/-- The invariant rule: if every call finds `I` and every answer leaves `I`,
then `I` holds wherever the program is stopped. -/
theorem Wp.invariant {I : S → Prop} {p p' : Prog C R α} {Q : α → S → Prop}
    {s s' : S} (hp : p.Wp E H G Q s) (hG : ∀ c s, G c s → I s)
    (hQ : ∀ a s, Q a s → I s) (hr : Reaches E H (p, s) (p', s')) : I s' := by
  have hw := hp.reaches hr
  cases p' with
  | ret a => exact hQ a s' (hw s' .refl)
  | call c k => exact hG c s' (hw s' .refl).1

/-- What holds of the answer, once there is one. -/
theorem Wp.returns {a : α} {p : Prog C R α} {Q : α → S → Prop} {s s' : S}
    (hp : p.Wp E H G Q s) (hr : Reaches E H (p, s) (.ret a, s')) : Q a s' :=
  hp.reaches hr s' .refl

end Logic

/-! ## The logic over a handler

A handler is the service that has one answer, and with nothing else moving the
weakest precondition is read off the program call by call. -/

/-- A handler, as a service. -/
def service (h : Handler C R S) : Service C R S := fun c s r s' => h c s = (r, s')

/-- What a run against `h` answers and leaves behind satisfies `Q`, and each
call it makes satisfies `G` in the state it is made in. -/
def Runs (h : Handler C R S) (G : C → S → Prop) (Q : α → S → Prop)
    (p : Prog C R α) (s : S) : Prop :=
  p.Wp Quiet (service h) G Q s

section Runs

variable {h : Handler C R S} {G : C → S → Prop}

@[simp] theorem runs_pure {a : α} {Q : α → S → Prop} {s : S} :
    Runs h G Q (pure a : Prog C R α) s ↔ Q a s :=
  wp_quiet_pure

@[simp] theorem runs_call {c : C} {k : R c → Prog C R α} {Q : α → S → Prop} {s : S} :
    Runs h G Q (.call c k) s ↔ G c s ∧ Runs h G Q (k (h c s).1) (h c s).2 := by
  constructor
  · intro hp
    exact ⟨(hp s .refl).1, (hp s .refl).2 _ _ rfl⟩
  · rintro ⟨hg, hk⟩ s₁ h₁
    rw [quiet_eq h₁]
    refine ⟨hg, fun r s' hr => ?_⟩
    rw [service] at hr
    rw [hr] at hk
    exact hk

@[simp] theorem runs_op {c : C} {Q : R c → S → Prop} {s : S} :
    Runs h G Q (op c : Prog C R (R c)) s ↔ G c s ∧ Q (h c s).1 (h c s).2 := by
  rw [op, runs_call]
  exact and_congr_right fun _ => runs_pure

@[simp] theorem runs_bind {p : Prog C R α} {f : α → Prog C R β} {Q : β → S → Prop}
    {s : S} : Runs h G Q (p >>= f) s ↔ Runs h G (fun a => Runs h G Q (f a)) p s :=
  wp_bind

theorem Runs.mono {p : Prog C R α} {Q Q' : α → S → Prop} {s : S}
    (hp : Runs h G Q p s) (hQ : ∀ a s, Q a s → Q' a s) : Runs h G Q' p s :=
  Wp.mono hp hQ

theorem runs_iff {p : Prog C R α} {Q : α → S → Prop} {s : S} :
    Runs h G Q p s ↔
      Q (p.run h s).1 (p.run h s).2 ∧ ∀ e ∈ p.trace h s, G e.1 e.2 := by
  induction p generalizing s with
  | ret a => exact runs_pure.trans (by simp [run, trace])
  | call c k ih =>
      rw [runs_call, ih]
      simp only [run, trace, List.forall_mem_cons]
      exact and_left_comm

/-- What holds at every call and at the end holds wherever the run is stopped. -/
theorem Runs.after {I : S → Prop} {p : Prog C R α} {s : S}
    (hp : Runs h (fun _ => I) (fun _ => I) p s) (n : Nat) : I (p.after h n s).2 := by
  induction p generalizing s n with
  | ret a =>
      have hs : I s := runs_pure.1 hp
      cases n <;> exact hs
  | call c k ih =>
      obtain ⟨hs, hk⟩ := runs_call.1 hp
      cases n with
      | zero => exact hs
      | succ n => exact ih _ hk n

/-- What every call of a run keeps, the run keeps. -/
theorem Runs.keeps {I : S → Prop} {p : Prog C R α} {Q : α → S → Prop} {s : S}
    (hp : Runs h G Q p s) (hI : ∀ c s, G c s → I s → I (h c s).2) (hs : I s) :
    Runs h G (fun a s => Q a s ∧ I s) p s := by
  induction p generalizing s with
  | ret a => exact runs_pure.2 ⟨runs_pure.1 hp, hs⟩
  | call c k ih =>
      obtain ⟨hg, hk⟩ := runs_call.1 hp
      exact runs_call.2 ⟨hg, ih _ hk (hI c s hg hs)⟩

/-- The loop rule, with the part of the list that is done. -/
theorem Runs.forM {f : β → Prog C R PUnit} {I : List β → S → Prop} {l : List β} {s : S}
    (hf : ∀ done b todo, l = done ++ b :: todo → ∀ s, I done s →
      Runs h G (fun _ => I (done ++ [b])) (f b) s) (hs : I [] s) :
    Runs h G (fun _ => I l) (l.forM f) s := by
  have key : ∀ (todo done : List β) (s : S), l = done ++ todo → I done s →
      Runs h G (fun _ => I l) (todo.forM f) s := by
    intro todo
    induction todo with
    | nil =>
        rintro done s rfl hI
        rw [List.append_nil]
        exact runs_pure.2 hI
    | cons b todo ih =>
        intro done s hl hI
        refine runs_bind.2 ((hf done b todo hl s hI).mono fun _ s' hI' => ?_)
        exact ih (done ++ [b]) s' (by simp [hl]) hI'
  exact key l [] s rfl hs

/-- The loop rule, for an invariant. -/
theorem Runs.forM_inv {f : β → Prog C R PUnit} {I : S → Prop} {l : List β} {s : S}
    (hf : ∀ b ∈ l, ∀ s, I s → Runs h G (fun _ => I) (f b) s) (hs : I s) :
    Runs h G (fun _ => I) (l.forM f) s :=
  Runs.forM (I := fun _ => I) (fun _ b _ hl s hI => hf b (by simp [hl]) s hI) hs

end Runs

/-! ## Programs that keep to some calls -/

/-- Whatever the replies, every call is one of `P`. -/
def Only (P : C → Prop) : Prog C R α → Prop
  | .ret _ => True
  | .call c k => P c ∧ ∀ r, (k r).Only P

section Only

variable {P : C → Prop}

@[simp] theorem only_pure (a : α) : (pure a : Prog C R α).Only P := trivial

@[simp] theorem only_op {c : C} : (op c : Prog C R (R c)).Only P ↔ P c :=
  ⟨fun hp => hp.1, fun hc => ⟨hc, fun _ => trivial⟩⟩

theorem Only.bind {p : Prog C R α} {f : α → Prog C R β} (hp : p.Only P)
    (hf : ∀ a, (f a).Only P) : (p >>= f).Only P := by
  change (p.bind f).Only P
  induction p with
  | ret a => exact hf a
  | call c k ih => exact ⟨hp.1, fun r => ih r (hp.2 r)⟩

theorem Only.mono {P' : C → Prop} {p : Prog C R α} (hp : p.Only P)
    (h : ∀ c, P c → P' c) : p.Only P' := by
  induction p with
  | ret a => trivial
  | call c k ih => exact ⟨h c hp.1, fun r => ih r (hp.2 r)⟩

theorem Only.forM {f : β → Prog C R PUnit} {l : List β} (hf : ∀ b ∈ l, (f b).Only P) :
    (l.forM f).Only P := by
  induction l with
  | nil => trivial
  | cons b l ih =>
      exact (hf b (by simp)).bind fun _ => ih fun b' hb' => hf b' (by simp [hb'])

theorem Only.mem_trace {h : Handler C R S} {p : Prog C R α} {s : S} (hp : p.Only P) :
    ∀ e ∈ p.trace h s, P e.1 := by
  induction p generalizing s with
  | ret a => simp [trace]
  | call c k ih =>
      intro e he
      rcases List.mem_cons.1 he with rfl | he
      · exact hp.1
      · exact ih _ (hp.2 _) e he

/-- What every such call keeps, the program keeps. -/
theorem Only.runs {h : Handler C R S} {G : C → S → Prop} {I : S → Prop} {p : Prog C R α}
    {s : S} (hp : p.Only P) (hG : ∀ c s, P c → I s → G c s ∧ I (h c s).2) (hs : I s) :
    Runs h G (fun _ => I) p s := by
  induction p generalizing s with
  | ret a => exact runs_pure.2 hs
  | call c k ih =>
      obtain ⟨hg, hI⟩ := hG c s hp.1 hs
      exact runs_call.2 ⟨hg, ih _ (hp.2 _) hI⟩

/-- So does it beside an environment that keeps it too, wherever the program is stopped. -/
theorem Only.wp {E : S → S → Prop} {H : Service C R S} {I : S → Prop} {p : Prog C R α} {s : S}
    (hp : p.Only P) (hE : ∀ s s₁, I s → E s s₁ → I s₁)
    (hH : ∀ c s r s', P c → I s → H c s r s' → I s') (hs : I s) :
    p.Wp E H (fun _ => I) (fun _ => I) s := by
  induction p generalizing s with
  | ret a => exact wp_ret I hs hE fun _ h => h
  | call c k ih =>
      exact wp_call I hs hE (fun _ h => h) fun s r s' hI hr => ih r (hp.2 r) (hH c s r s' hp.1 hI hr)

end Only

end Prog

end Valkeyop.Lib
