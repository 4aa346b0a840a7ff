import Mathlib.Data.Option.Basic

/-!
# An object that several parties write

Every write stores the object under a new version. Whoever wants to change the object sends it
back with the version it was read under, and is refused if there is a newer one. Readers may be
served from a cache, so what they get is some version there has been; all that is needed for a
write to be safe is that versions grow.
-/

namespace Valkeyop.Lib

variable {α : Type}

/-- The object there is now, if there is one, is the newest of those there have been. -/
structure Latest (version : α → Nat) (past : List α) (current : Option α) : Prop where
  listed : ∀ a, current = some a → a ∈ past
  newest : ∀ a, current = some a → ∀ b ∈ past, version b < version a ∨ b = a

section

variable {version : α → Nat} {past : List α} {current : Option α} {a b : α}

/-- A copy with the version of the present object is the present object. -/
theorem Latest.same (h : Latest version past current) (ha : current = some a) (hb : b ∈ past)
    (hv : version b = version a) : b = a := by
  rcases h.newest a ha b hb with hlt | heq
  · omega
  · exact heq

theorem Latest.store (hnew : ∀ b ∈ past, version b < version a) :
    Latest version (a :: past) (some a) := by
  refine ⟨fun x hx => ?_, fun x hx b hb => ?_⟩
  · cases hx
    exact List.mem_cons_self
  · cases hx
    rcases List.mem_cons.1 hb with rfl | hb
    · exact .inr rfl
    · exact .inl (hnew b hb)

theorem Latest.gone : Latest version past none where
  listed _ h := by cases h
  newest _ h := by cases h

/-- Taking note of the present object once more changes nothing. -/
theorem Latest.again (h : Latest version past current) :
    Latest version (current.toList ++ past) current where
  listed a ha := List.mem_append_right _ (h.listed a ha)
  newest a ha b hb := by
    refine h.newest a ha b ((List.mem_append.1 hb).elim (fun hb => ?_) id)
    exact h.listed b (Option.mem_toList.1 hb)

/-- A version after that of the present object is new. -/
theorem Latest.newer (h : Latest version past current) (ha : current = some a)
    (hv : version a < version b) : ∀ c ∈ past, version c < version b := by
  intro c hc
  rcases h.newest a ha c hc with hlt | rfl
  · omega
  · exact hv

end

end Valkeyop.Lib
