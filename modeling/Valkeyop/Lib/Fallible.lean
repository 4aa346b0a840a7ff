import Mathlib.Algebra.GroupWithZero.Nat
import Valkeyop.Lib.Prog

/-!
# Programs that may fail

A program whose calls can fail is an `ExceptT` over `Prog`: a failure ends it,
and what is left behind is whatever its calls have done so far. The rules here
read such a program against a handler, step by step, so that a proof about one
never has to look at the transformer.

`Post` is a postcondition with a part for the failure. `Succeeds` is the common
case: the run goes through, and failing is not an option.
-/

namespace Valkeyop.Lib

/-- A program over calls `C` that may fail with an `ε`. -/
abbrev Fallible (C : Type) (R : C → Type) (ε : Type) := ExceptT ε (Prog C R)

namespace Fallible

open Prog

variable {C : Type} {R : C → Type} {ε S α β : Type} {h : Handler C R S} {G : C → S → Prop}

/-- Go on with the outcome, whichever it is. -/
def attempt (p : Fallible C R ε α) : Fallible C R ε (Except ε α) := ExceptT.lift p.run

/-! ## Outcomes -/

/-- A postcondition for the answer, with another for the failure. -/
def Post (Q : α → S → Prop) (F : ε → S → Prop) : Except ε α → S → Prop
  | .ok a => Q a
  | .error e => F e

section Wp

variable {E : S → S → Prop} {H : Service C R S}

theorem wp_bind {p : Fallible C R ε α} {f : α → Fallible C R ε β} {Q : Except ε β → S → Prop}
    {s : S} : (p >>= f).run.Wp E H G Q s ↔
      p.run.Wp E H G (Post (fun a s' => (f a).run.Wp E H G Q s') fun e s' =>
        (pure (.error e) : Prog C R (Except ε β)).Wp E H G Q s') s := by
  rw [ExceptT.run_bind, Prog.wp_bind]
  refine ⟨fun hp => hp.mono fun r s hr => ?_, fun hp => hp.mono fun r s hr => ?_⟩
  all_goals
    cases r with
    | ok a => exact hr
    | error e => exact hr

theorem wp_lift {q : Prog C R α} {Q : Except ε α → S → Prop} {s : S} :
    (liftM q : Fallible C R ε α).run.Wp E H G Q s ↔ q.Wp E H G (fun a => Q (.ok a)) s := by
  show (q >>= fun a => pure (Except.ok a)).Wp E H G Q s ↔ _
  rw [Prog.wp_bind]
  exact ⟨fun hp => hp.mono fun a s h => h s .refl, fun hp => hp.lasting⟩

theorem wp_attempt {p : Fallible C R ε α} {Q : Except ε (Except ε α) → S → Prop} {s : S} :
    p.attempt.run.Wp E H G Q s ↔ p.run.Wp E H G (fun r => Q (.ok r)) s :=
  wp_lift

/-- A program that keeps an invariant, before another one; the failure keeps it. -/
theorem wp_bind_keeps {p : Fallible C R ε α} {f : α → Fallible C R ε β} (I : S → Prop)
    {Q : α → S → Prop} {Q' : Except ε β → S → Prop} {s : S} (hE : ∀ s s₁, I s → E s s₁ → I s₁)
    (hfail : ∀ e s, I s → Q' (.error e) s)
    (hp : p.run.Wp E H (fun _ => I) (Post Q fun _ => I) s)
    (hf : ∀ a s', Q a s' → (f a).run.Wp E H (fun _ => I) Q' s') :
    (p >>= f).run.Wp E H (fun _ => I) Q' s := by
  refine wp_bind.2 (hp.mono fun r s' hr => ?_)
  cases r with
  | ok a => exact hf a s' hr
  | error e =>
      show (pure (.error e) : Prog C R (Except ε β)).Wp E H (fun _ => I) Q' s'
      exact Prog.wp_ret I hr hE (hfail e)

end Wp

theorem runs_bind {p : Fallible C R ε α} {f : α → Fallible C R ε β}
    {Q : Except ε β → S → Prop} {s : S} :
    Runs h G Q (p >>= f).run s ↔
      Runs h G (Post (fun a => Runs h G Q (f a).run) fun e => Q (.error e)) p.run s := by
  rw [ExceptT.run_bind, Prog.runs_bind]
  refine ⟨fun hp => hp.mono fun r s hr => ?_, fun hp => hp.mono fun r s hr => ?_⟩
  all_goals
    cases r with
    | ok a => simpa [Post] using hr
    | error e => simpa [Post] using hr

@[simp] theorem runs_pure {a : α} {Q : Except ε α → S → Prop} {s : S} :
    Runs h G Q (pure a : Fallible C R ε α).run s ↔ Q (.ok a) s :=
  Prog.runs_pure

@[simp] theorem runs_throw {e : ε} {Q : Except ε α → S → Prop} {s : S} :
    Runs h G Q (throw e : Fallible C R ε α).run s ↔ Q (.error e) s :=
  Prog.runs_pure

theorem runs_lift {p : Prog C R α} {Q : Except ε α → S → Prop} {s : S} :
    Runs h G Q (liftM p : Fallible C R ε α).run s ↔ Runs h G (fun a => Q (.ok a)) p s := by
  change Runs h G Q (p >>= fun a => pure (.ok a)) s ↔ _
  rw [Prog.runs_bind]
  exact ⟨fun hp => hp.mono fun _ _ ha => Prog.runs_pure.1 ha,
    fun hp => hp.mono fun _ _ ha => Prog.runs_pure.2 ha⟩

/-! ## Runs that go through -/

/-- A run against `h` that does not fail; its answer and what it leaves behind
satisfy `Q`, and each call `G`. -/
def Succeeds (h : Handler C R S) (G : C → S → Prop) (Q : α → S → Prop)
    (p : Fallible C R ε α) (s : S) : Prop :=
  Runs h G (Post Q fun _ _ => False) p.run s

theorem Succeeds.mono {p : Fallible C R ε α} {Q Q' : α → S → Prop} {s : S}
    (hp : Succeeds h G Q p s) (hQ : ∀ a s, Q a s → Q' a s) : Succeeds h G Q' p s := by
  refine Runs.mono hp fun r s hr => ?_
  cases r with
  | ok a => exact hQ a s hr
  | error e => exact hr

theorem Succeeds.guard_mono {G' : C → S → Prop} {p : Fallible C R ε α} {Q : α → S → Prop} {s : S}
    (hp : Succeeds h G Q p s) (hG : ∀ c s, G c s → G' c s) : Succeeds h G' Q p s :=
  Wp.guard_mono hp hG

theorem Succeeds.runs {p : Fallible C R ε α} {Q : α → S → Prop} {Q' : Except ε α → S → Prop}
    {s : S} (hp : Succeeds h G Q p s) (hQ : ∀ a s, Q a s → Q' (.ok a) s) :
    Runs h G Q' p.run s := by
  refine Runs.mono hp fun r s hr => ?_
  cases r with
  | ok a => exact hQ a s hr
  | error e => exact hr.elim

@[simp] theorem succeeds_pure {a : α} {Q : α → S → Prop} {s : S} :
    Succeeds h G Q (pure a : Fallible C R ε α) s ↔ Q a s :=
  runs_pure

@[simp] theorem succeeds_bind {p : Fallible C R ε α} {f : α → Fallible C R ε β}
    {Q : β → S → Prop} {s : S} :
    Succeeds h G Q (p >>= f) s ↔ Succeeds h G (fun a => Succeeds h G Q (f a)) p s := by
  rw [Succeeds, runs_bind]
  rfl

theorem succeeds_lift {p : Prog C R α} {Q : α → S → Prop} {s : S} :
    Succeeds h G Q (liftM p : Fallible C R ε α) s ↔ Runs h G Q p s :=
  runs_lift

theorem succeeds_attempt {p : Fallible C R ε α} {Q : Except ε α → S → Prop} {s : S} :
    Succeeds h G Q p.attempt s ↔ Runs h G Q p.run s :=
  runs_lift

theorem Succeeds.forM {f : β → Fallible C R ε PUnit} {I : List β → S → Prop} {l : List β}
    {s : S} (hf : ∀ done b todo, l = done ++ b :: todo → ∀ s, I done s →
      Succeeds h G (fun _ => I (done ++ [b])) (f b) s) (hs : I [] s) :
    Succeeds h G (fun _ => I l) (l.forM f) s := by
  have key : ∀ (todo done : List β) (s : S), l = done ++ todo → I done s →
      Succeeds h G (fun _ => I l) (todo.forM f) s := by
    intro todo
    induction todo with
    | nil =>
        rintro done s rfl hI
        rw [List.append_nil]
        exact succeeds_pure.2 hI
    | cons b todo ih =>
        intro done s hl hI
        refine succeeds_bind.2 ((hf done b todo hl s hI).mono fun _ s' hI' => ?_)
        exact ih (done ++ [b]) s' (by simp [hl]) hI'
  exact key l [] s rfl hs

theorem Succeeds.forM_inv {f : β → Fallible C R ε PUnit} {I : S → Prop} {l : List β} {s : S}
    (hf : ∀ b ∈ l, ∀ s, I s → Succeeds h G (fun _ => I) (f b) s) (hs : I s) :
    Succeeds h G (fun _ => I) (l.forM f) s :=
  Succeeds.forM (I := fun _ => I) (fun _ b _ hl s hI => hf b (by simp [hl]) s hI) hs

/-! ## Keeping to some calls -/

section Only

variable {P : C → Prop}

theorem only_bind {p : Fallible C R ε α} {f : α → Fallible C R ε β}
    (hp : Prog.Only P p.run) (hf : ∀ a, Prog.Only P (f a).run) :
    Prog.Only P (p >>= f).run := by
  rw [ExceptT.run_bind]
  refine Prog.Only.bind hp fun r => ?_
  cases r with
  | ok a => exact hf a
  | error e => exact Prog.only_pure _

theorem only_lift {q : Prog C R α} (hq : q.Only P) :
    Prog.Only P (liftM q : Fallible C R ε α).run :=
  Prog.Only.bind hq fun _ => Prog.only_pure _

theorem only_forM {f : β → Fallible C R ε PUnit} {l : List β}
    (hf : ∀ b ∈ l, Prog.Only P (f b).run) : Prog.Only P (l.forM f).run := by
  induction l with
  | nil => exact Prog.only_pure _
  | cons b l ih =>
      exact only_bind (hf b (by simp)) fun _ => ih fun b' hb' => hf b' (by simp [hb'])

end Only

/-! ## Invariants -/

/-- `I` holds in the end, whichever way the run ends. -/
def Keeps (h : Handler C R S) (G : C → S → Prop) (I : S → Prop) (p : Fallible C R ε α) (s : S) :
    Prop :=
  Runs h G (fun _ => I) p.run s

section Keeps

variable {I : S → Prop} {p : Fallible C R ε α} {f : α → Fallible C R ε β} {s : S}

theorem keeps_pure {a : α} (hs : I s) : Keeps h G I (pure a : Fallible C R ε α) s :=
  Prog.runs_pure.2 hs

theorem keeps_throw {e : ε} (hs : I s) : Keeps h G I (throw e : Fallible C R ε α) s :=
  Prog.runs_pure.2 hs

/-- The rest runs from what the first part has answered, if it has. -/
theorem keeps_bind {Q : α → S → Prop} (hp : Runs h G (Post Q fun _ => I) p.run s)
    (hf : ∀ a s', Q a s' → Keeps h G I (f a) s') : Keeps h G I (p >>= f) s := by
  refine runs_bind.2 (hp.mono fun r s' hr => ?_)
  cases r with
  | ok a => exact hf a s' hr
  | error e => exact hr

theorem Keeps.bind (hp : Keeps h G I p s) (hf : ∀ a s', I s' → Keeps h G I (f a) s') :
    Keeps h G I (p >>= f) s := by
  refine runs_bind.2 (Runs.mono hp fun r s' hr => ?_)
  cases r with
  | ok a => exact hf a s' hr
  | error e => exact hr

theorem keeps_lift {q : Prog C R α} {f : α → Fallible C R ε β} {Q : α → S → Prop}
    (hq : Runs h G Q q s) (hf : ∀ a s', Q a s' → Keeps h G I (f a) s') :
    Keeps h G I (liftM q >>= f) s :=
  keeps_bind (runs_lift.2 hq) hf

theorem keeps_forM {f : β → Fallible C R ε PUnit} {l : List β}
    (hf : ∀ b ∈ l, ∀ s, I s → Keeps h G I (f b) s) (hs : I s) : Keeps h G I (l.forM f) s := by
  induction l generalizing s with
  | nil => exact keeps_pure hs
  | cons b l ih =>
      exact (hf b (by simp) s hs).bind fun _ s' hs' => ih (fun b' hb' => hf b' (by simp [hb'])) hs'

end Keeps

/-! ## Executing step by step -/

/-- The outcome and the state a run against `h` ends in. -/
def exec (h : Handler C R S) (p : Fallible C R ε α) (s : S) : Except ε α × S :=
  Prog.run h p.run s

/-- The calls it makes. -/
def calls (h : Handler C R S) (p : Fallible C R ε α) (s : S) : List (C × S) :=
  Prog.trace h p.run s

section Exec

variable {p : Fallible C R ε α} {f : α → Fallible C R ε β} {s s' : S}

@[simp] theorem exec_pure (a : α) : exec h (pure a : Fallible C R ε α) s = (.ok a, s) := rfl

theorem exec_lift (q : Prog C R α) :
    exec h (liftM q : Fallible C R ε α) s = (.ok (q.run h s).1, (q.run h s).2) := by
  change Prog.run h (q >>= fun a => pure (Except.ok a)) s = _
  rw [Prog.run_bind]
  rfl

theorem exec_attempt : exec h p.attempt s = (.ok (exec h p s).1, (exec h p s).2) := exec_lift _

theorem calls_lift (q : Prog C R α) :
    calls h (liftM q : Fallible C R ε α) s = q.trace h s := by
  change Prog.trace h (q >>= fun a => pure (Except.ok (ε := ε) a)) s = _
  rw [Prog.trace_bind]
  exact List.append_nil _

theorem exec_bind_ok {a : α} (hp : exec h p s = (.ok a, s')) :
    exec h (p >>= f) s = exec h (f a) s' := by
  rw [exec, ExceptT.run_bind, Prog.run_bind]
  rw [exec] at hp
  rw [hp]
  rfl

theorem calls_bind_ok {a : α} (hp : exec h p s = (.ok a, s')) :
    calls h (p >>= f) s = calls h p s ++ calls h (f a) s' := by
  rw [calls, ExceptT.run_bind, Prog.trace_bind]
  rw [exec] at hp
  rw [hp]
  rfl

theorem mem_calls_bind {e : C × S} (he : e ∈ calls h p s) : e ∈ calls h (p >>= f) s := by
  rw [calls, ExceptT.run_bind, Prog.trace_bind]
  exact List.mem_append_left _ he

theorem mem_calls_bind_ok {a : α} {e : C × S} (hp : exec h p s = (.ok a, s'))
    (he : e ∈ calls h (f a) s') : e ∈ calls h (p >>= f) s := by
  rw [calls_bind_ok hp]
  exact List.mem_append_right _ he

/-- A loop whose body always goes through is a fold. -/
theorem exec_forM {f : β → Fallible C R ε PUnit} {g : S → β → S}
    (hf : ∀ b s, exec h (f b) s = (.ok ⟨⟩, g s b)) (l : List β) (s : S) :
    exec h (l.forM f) s = (.ok ⟨⟩, l.foldl g s) := by
  induction l generalizing s with
  | nil => rfl
  | cons b l ih => exact (exec_bind_ok (hf b s)).trans (ih (g s b))

/-- Its calls are those of each round, from where the rounds before have left the state. -/
theorem mem_calls_forM {f : β → Fallible C R ε PUnit} {g : S → β → S} {e : C × S}
    (hf : ∀ b s, exec h (f b) s = (.ok ⟨⟩, g s b)) {l : List β} {s : S} :
    e ∈ calls h (l.forM f) s ↔
      ∃ done b rest, l = done ++ b :: rest ∧ e ∈ calls h (f b) (done.foldl g s) := by
  induction l generalizing s with
  | nil =>
      constructor
      · intro he
        cases he
      · rintro ⟨done, b, rest, hsplit, -⟩
        cases done <;> cases hsplit
  | cons a l ih =>
      change e ∈ calls h (f a >>= fun _ => l.forM f) s ↔ _
      rw [calls_bind_ok (hf a s), List.mem_append, ih]
      constructor
      · rintro (he | ⟨done, b, rest, rfl, he⟩)
        · exact ⟨[], a, l, rfl, he⟩
        · exact ⟨a :: done, b, rest, rfl, he⟩
      · rintro ⟨done, b, rest, hsplit, he⟩
        cases done with
        | nil =>
            cases hsplit
            exact .inl he
        | cons a' done =>
            cases hsplit
            exact .inr ⟨done, b, rest, rfl, he⟩

theorem succeeds_iff {Q : α → S → Prop} :
    Succeeds h G Q p s ↔
      (∃ a s', exec h p s = (.ok a, s') ∧ Q a s') ∧ ∀ e ∈ calls h p s, G e.1 e.2 := by
  rw [Succeeds, runs_iff]
  refine and_congr_left fun _ => ?_
  rw [exec]
  obtain ⟨r, s'⟩ := Prog.run h p.run s
  cases r with
  | ok a =>
      refine ⟨fun hq => ⟨a, s', rfl, hq⟩, ?_⟩
      rintro ⟨_, _, heq, hq⟩
      cases heq
      exact hq
  | error e => simp [Post]

theorem succeeds_of_exec {Q : α → S → Prop} {a : α} (hp : exec h p s = (.ok a, s'))
    (hQ : Q a s') : Succeeds h (fun _ _ => True) Q p s :=
  succeeds_iff.2 ⟨⟨a, s', hp, hQ⟩, fun _ _ => trivial⟩

/-- What is known of a run and of the calls it may make, together. -/
theorem succeeds_of_only {P : C → Prop} {a : α} (honly : Prog.Only P p.run)
    (hp : exec h p s = (.ok a, s')) :
    Succeeds h (fun c _ => P c) (fun r t => r = a ∧ t = s') p s :=
  succeeds_iff.2 ⟨⟨a, s', hp, rfl, rfl⟩, (Prog.runs_iff.1 (honly.runs (I := fun _ => True)
    (fun _ _ hc _ => ⟨hc, trivial⟩) trivial)).2⟩

theorem Succeeds.exec {Q : α → S → Prop} (hp : Succeeds h G Q p s) :
    ∃ a s', exec h p s = (.ok a, s') ∧ Q a s' :=
  (succeeds_iff.1 hp).1

end Exec

/-! ## Stopping -/

/-- The run goes through in `n` calls, and stopped after `k` of them it leaves a state
of `I k`. -/
structure Paced (h : Handler C R S) (I : Nat → S → Prop) (n : Nat) (p : Fallible C R ε α)
    (s : S) : Prop where
  ok : ∃ a s', exec h p s = (.ok a, s')
  length : (calls h p s).length = n
  stop : ∀ k ≤ n, I k (p.run.after h k s).2

section Paced

variable {I : Nat → S → Prop} {m n : Nat} {p : Fallible C R ε α} {f : α → Fallible C R ε β}
  {s s' : S}

theorem paced_pure {a : α} (hs : I 0 s) : Paced h I 0 (pure a : Fallible C R ε α) s where
  ok := ⟨a, s, rfl⟩
  length := rfl
  stop k hk := by
    obtain rfl := Nat.le_zero.1 hk
    exact hs

theorem Paced.mono {I' : Nat → S → Prop} (hp : Paced h I n p s)
    (hI : ∀ k ≤ n, ∀ s, I k s → I' k s) : Paced h I' n p s :=
  ⟨hp.ok, hp.length, fun k hk => hI k hk _ (hp.stop k hk)⟩

theorem after_last {k : Nat} (hk : (calls h p s).length ≤ k) :
    (p.run.after h k s).2 = (exec h p s).2 := by
  rw [Prog.after_of_length_le h k p.run s hk]
  rfl

/-- A program of one call. -/
theorem paced_one {a : α} (hexec : exec h p s = (.ok a, s')) (hlen : (calls h p s).length = 1)
    (hs : I 0 s) (hs' : I 1 s') : Paced h I 1 p s := by
  refine ⟨⟨a, s', hexec⟩, hlen, fun k hk => ?_⟩
  cases k with
  | zero => exact hs
  | succ k =>
      obtain rfl : k = 0 := by omega
      rwa [after_last (Nat.le_of_eq hlen), hexec]

theorem Paced.post (hp : Paced h I n p s) : ∃ a s', exec h p s = (.ok a, s') ∧ I n s' := by
  obtain ⟨a, s', hexec⟩ := hp.ok
  have hstop := hp.stop n (Nat.le_refl n)
  rw [after_last (Nat.le_of_eq hp.length), hexec] at hstop
  exact ⟨a, s', hexec, hstop⟩

theorem Paced.last (hp : Paced h I n p s) {k : Nat} (hk : n ≤ k) :
    I n (p.run.after h k s).2 := by
  obtain ⟨a, s', hexec, hpost⟩ := hp.post
  rwa [after_last (hp.length ▸ hk), hexec]

theorem Paced.bind (hp : Paced h I m p s) {a : α} (hexec : exec h p s = (.ok a, s'))
    (hf : Paced h (fun k => I (m + k)) n (f a) s') : Paced h I (m + n) (p >>= f) s := by
  obtain ⟨b, s'', hexec'⟩ := hf.ok
  refine ⟨⟨b, s'', (exec_bind_ok hexec).trans hexec'⟩, ?_, fun k hk => ?_⟩
  · rw [calls_bind_ok hexec, List.length_append, hp.length, hf.length]
  · have hlen : (p.run.trace h s).length = m := hp.length
    rw [ExceptT.run_bind, Prog.after_bind, hlen]
    split
    · next hle => exact hp.stop k hle
    · next hgt =>
        rw [exec] at hexec
        rw [hexec]
        have hstop := hf.stop (k - m) (by omega)
        rwa [Nat.add_sub_cancel' (by omega)] at hstop

/-- A loop, with the number of calls each round makes. -/
theorem Paced.forM {f : β → Fallible C R ε PUnit} {l : List β} {g : β → Nat}
    (hf : ∀ done b todo, l = done ++ b :: todo → ∀ s, I (done.map g).sum s →
      Paced h (fun k => I ((done.map g).sum + k)) (g b) (f b) s) (hs : I 0 s) :
    Paced h I (l.map g).sum (l.forM f) s := by
  have key : ∀ (todo done : List β) (s : S), l = done ++ todo → I (done.map g).sum s →
      Paced h (fun k => I ((done.map g).sum + k)) (todo.map g).sum (todo.forM f) s := by
    intro todo
    induction todo with
    | nil => exact fun done s _ hI => paced_pure hI
    | cons b todo ih =>
        intro done s hl hI
        have hnext : ((done ++ [b]).map g).sum = (done.map g).sum + g b := by simp
        have hb := hf done b todo hl s hI
        obtain ⟨_, s', hexec, hI'⟩ := hb.post
        refine hb.bind hexec ?_
        have hrest := ih (done ++ [b]) s' (by simp [hl]) (hnext ▸ hI')
        simp only [hnext, Nat.add_assoc] at hrest
        exact hrest
  simpa using key l [] s rfl hs

theorem paced_of_succeeds {J : S → Prop} (hp : Succeeds h (fun _ => J) (fun _ => J) p s) :
    Paced h (fun _ => J) (calls h p s).length p s := by
  obtain ⟨⟨a, s', hexec, -⟩, -⟩ := succeeds_iff.1 hp
  refine ⟨⟨a, s', hexec⟩, rfl, fun k _ => Prog.Runs.after (Runs.mono hp fun r s' hr => ?_) k⟩
  cases r with
  | ok a => exact hr
  | error e => exact hr.elim

end Paced

end Fallible

end Valkeyop.Lib
