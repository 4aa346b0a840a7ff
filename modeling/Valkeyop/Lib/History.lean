import Mathlib.Data.List.DropRight

/-!
# Histories

A history is a list of events, the latest at the end. What a key shows is settled by the
events of that key alone, and since when it does by the stretch at the end on which its
value has not changed. A thing that some events make, and that is lost where it is not kept, is
there if it has been made and kept ever since.
-/

namespace Valkeyop.Lib

variable {α β κ : Type} [DecidableEq β] [DecidableEq κ]

/-- The events of a key. -/
def eventsOf (key : α → κ) (k : κ) (history : List α) : List α :=
  history.filter fun x => key x = k

/-- The longest stretch at the end on which the value is the same. -/
def lastStretch (value : α → β) (l : List α) : List α :=
  match l.getLast? with
  | none => []
  | some last => l.rtakeWhile fun x => value x = value last

section

variable {key : α → κ} {k : κ} {value : α → β} {l : List α} {x last : α}

theorem eventsOf_append_self (hx : key x = k) :
    eventsOf key k (l ++ [x]) = eventsOf key k l ++ [x] := by
  simp [eventsOf, hx]

theorem eventsOf_append_ne (hx : key x ≠ k) :
    eventsOf key k (l ++ [x]) = eventsOf key k l := by
  simp [eventsOf, hx]

theorem eventsOf_eq_nil : eventsOf key k l = [] ↔ k ∉ l.map key := by
  simp [eventsOf, List.filter_eq_nil_iff]

theorem lastStretch_of_getLast? (hlast : l.getLast? = some last) :
    lastStretch value l = l.rtakeWhile fun x => value x = value last := by
  rw [lastStretch, hlast]

/-- An event with the same value goes on with the stretch. -/
theorem head?_lastStretch_append_same (hlast : l.getLast? = some last)
    (hx : value last = value x) :
    (lastStretch value (l ++ [x])).head? = (lastStretch value l).head? := by
  obtain ⟨l, rfl⟩ := List.getLast?_eq_some_iff.1 hlast
  rw [lastStretch_of_getLast? (List.getLast?_concat ..), lastStretch_of_getLast? hlast,
    List.rtakeWhile_concat_pos _ _ _ (by simp), ← hx]
  rw [List.rtakeWhile_concat_pos _ _ _ (by simp)]
  simp

/-- Any other starts a new one. -/
theorem lastStretch_append_other (hx : ∀ last, l.getLast? = some last → value last ≠ value x) :
    lastStretch value (l ++ [x]) = [x] := by
  rw [lastStretch_of_getLast? (List.getLast?_concat ..),
    List.rtakeWhile_concat_pos _ _ _ (by simp)]
  cases l using List.reverseRecOn with
  | nil => rfl
  | append_singleton l last =>
      rw [List.rtakeWhile_concat_neg _ _ _ (by simpa using hx last (by simp))]
      rfl

end

/-- What is there after a history has been made by one of its events, and kept ever since. -/
theorem held_iff (held kept : List α → Prop) (made : List α → α → Prop) {l : List α}
    (hnil : ¬ held []) (hstep : ∀ done x, done ++ [x] <+: l →
      (held (done ++ [x]) ↔ (held done ∨ made done x) ∧ kept (done ++ [x]))) :
    held l ↔ ∃ done x rest, l = done ++ x :: rest ∧ made done x ∧
      ∀ mid, mid <+: rest → kept (done ++ x :: mid) := by
  induction l using List.reverseRecOn with
  | nil => simp [hnil]
  | append_singleton l x ih =>
      rw [hstep l x (List.prefix_refl _),
        ih fun done y hy => hstep done y (hy.trans (List.prefix_append l [x]))]
      constructor
      · rintro ⟨⟨done, y, rest, rfl, hmade, hkept⟩ | hmade, hlast⟩
        · refine ⟨done, y, rest ++ [x], by simp, hmade, fun mid hmid => ?_⟩
          rcases List.prefix_concat_iff.1 hmid with rfl | hmid
          · simpa using hlast
          · exact hkept mid hmid
        · refine ⟨l, x, [], rfl, hmade, fun mid hmid => ?_⟩
          rw [List.prefix_nil.1 hmid]
          exact hlast
      · rintro ⟨done, y, rest, hsplit, hmade, hkept⟩
        rcases List.eq_nil_or_concat rest with rfl | ⟨rest, z, rfl⟩
        · obtain ⟨rfl, rfl⟩ := List.append_singleton_inj.1 hsplit
          exact ⟨.inr hmade, hkept [] (List.prefix_refl _)⟩
        · rw [List.concat_eq_append] at hsplit hkept
          obtain ⟨rfl, rfl⟩ : l = done ++ y :: rest ∧ x = z :=
            List.append_singleton_inj.1 (by simpa using hsplit)
          refine ⟨.inl ⟨done, y, rest, rfl, hmade, fun mid hmid => ?_⟩, ?_⟩
          · exact hkept mid (hmid.trans (List.prefix_append rest [x]))
          · simpa using hkept (rest ++ [x]) (List.prefix_refl _)

end Valkeyop.Lib
