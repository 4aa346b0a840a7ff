import Mathlib.Logic.Function.Iterate
import Valkeyop.Lib.Prog

/-!
# Simulations

A function that is iterated on concrete states is argued about on abstract ones: `R`
says which abstract state a concrete one stands for, and `T` what an iteration may do
to it. An abstract state is not a function of the concrete one here, so what is known
after some iterations is that there is one with the property.
-/

namespace Valkeyop.Lib

variable {σ ι : Type} {f : σ → σ} {R : σ → ι → Prop} {T : ι → ι → Prop}

/-- Every application of `f` does to the abstract state what `T` allows. -/
def Simulated (f : σ → σ) (R : σ → ι → Prop) (T : ι → ι → Prop) : Prop :=
  ∀ s a, R s a → ∃ b, R (f s) b ∧ T a b

namespace Simulated

variable {I : ι → Prop} {s : σ} {a : ι}

theorem iterate (h : Simulated f R T) (hI : ∀ a b, I a → T a b → I b) (hs : R s a)
    (ha : I a) (k : Nat) : ∃ b, R (f^[k] s) b ∧ I b := by
  induction k generalizing s a with
  | zero => exact ⟨a, hs, ha⟩
  | succ k ih =>
      obtain ⟨b, hb, hT⟩ := h s a hs
      exact ih hb (hI a b ha hT)

/-- With a rank that falls until the goal is reached, the goal is reached. -/
theorem reaches (h : Simulated f R T) (hI : ∀ a b, I a → T a b → I b) {goal : ι → Prop}
    {rank : ι → Nat} (hrank : ∀ a b, I a → ¬ goal a → T a b → rank b < rank a)
    (hs : R s a) (ha : I a) : ∃ k b, R (f^[k] s) b ∧ I b ∧ goal b := by
  induction hr : rank a using Nat.strongRecOn generalizing s a with
  | ind r ih =>
      by_cases hgoal : goal a
      · exact ⟨0, a, hs, ha, hgoal⟩
      · obtain ⟨b, hb, hT⟩ := h s a hs
        have hlt : rank b < r := hr ▸ hrank a b ha hgoal hT
        obtain ⟨k, b', hb'⟩ := ih _ hlt hb (hI a b ha hT) rfl
        exact ⟨k + 1, b', hb'⟩

end Simulated

/-! ## Programs

A program that is run against two services which give it the same replies does the same in both.
They need to agree on the calls it makes only. -/

theorem Prog.run_simulated {C : Type} {R : C → Type} {S T α : Type} {h : Handler C R S}
    {h' : Handler C R T} {I : S → T → Prop} {G : C → T → Prop}
    (hstep : ∀ c s t, I s t → G c t → (h c s).1 = (h' c t).1 ∧ I (h c s).2 (h' c t).2)
    {p : Prog C R α} {s : S} {t : T} (hp : ∀ e ∈ p.trace h' t, G e.1 e.2) (hst : I s t) :
    (p.run h s).1 = (p.run h' t).1 ∧ I (p.run h s).2 (p.run h' t).2 := by
  induction p generalizing s t with
  | ret a => exact ⟨rfl, hst⟩
  | call c k ih =>
      rw [Prog.trace, List.forall_mem_cons] at hp
      obtain ⟨hreply, hnext⟩ := hstep c s t hst hp.1
      rw [Prog.run, Prog.run, hreply]
      exact ih _ hp.2 hnext

end Valkeyop.Lib
