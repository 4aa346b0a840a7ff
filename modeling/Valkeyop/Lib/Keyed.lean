import Mathlib.Data.List.Nodup

/-!
# Lists with a key

A list whose entries are told apart by a key. An entry is put in by replacing the first
one of its key, or else at the end; so keys that are all different stay so, and every
other entry stays what it was.
-/

namespace Valkeyop.Lib

variable {α κ : Type} [DecidableEq κ] {key : α → κ} {k : κ} {new x : α} {l : List α}

def upsert (key : α → κ) (new : α) : List α → List α
  | [] => [new]
  | x :: rest => if key x = key new then new :: rest else x :: upsert key new rest

theorem find?_upsert (key : α → κ) (new : α) (l : List α) (k : κ) :
    (upsert key new l).find? (fun x => key x == k) =
      if key new = k then some new else l.find? fun x => key x == k := by
  induction l with
  | nil =>
      by_cases hnew : key new = k
      · simp [upsert, hnew]
      · simp [upsert, hnew]
  | cons x l ih =>
      rw [upsert]
      split
      · next heq =>
          by_cases hnew : key new = k
          · simp [hnew]
          · simp [heq, hnew]
      · next hne =>
          by_cases hx : key x = k
          · have hnew : key new ≠ k := fun hnew => hne (hx.trans hnew.symm)
            simp [hx, hnew]
          · simp [hx, ih]

/-- Putting in what is there changes nothing. -/
theorem upsert_self (hnew : l.find? (fun x => key x == key new) = some new) :
    upsert key new l = l := by
  induction l with
  | nil => cases hnew
  | cons x l ih =>
      rw [upsert]
      by_cases hx : key x = key new
      · rw [List.find?_cons_of_pos (by simp [hx]), Option.some.injEq] at hnew
        rw [if_pos hx, hnew]
      · rw [List.find?_cons_of_neg (by simp [hx])] at hnew
        rw [if_neg hx, ih hnew]

theorem map_key_upsert (key : α → κ) (new : α) (l : List α) :
    (upsert key new l).map key =
      if key new ∈ l.map key then l.map key else l.map key ++ [key new] := by
  induction l with
  | nil => rfl
  | cons x l ih =>
      rw [upsert]
      split
      · next heq => simp [heq]
      · next hne =>
          rw [List.map_cons, ih]
          split
          · next hmem => rw [if_pos (by simp [hmem])]; rfl
          · next hmem => rw [if_neg (by simp [hmem, Ne.symm hne])]; rfl

theorem nodup_upsert (new : α) (hnodup : (l.map key).Nodup) :
    ((upsert key new l).map key).Nodup := by
  rw [map_key_upsert]
  split
  · exact hnodup
  · next hnew => exact List.nodup_append.2 ⟨hnodup, by simp, by grind⟩

theorem mem_key_upsert : k ∈ (upsert key new l).map key ↔ k ∈ l.map key ∨ k = key new := by
  rw [map_key_upsert]
  split
  · next hnew => exact ⟨Or.inl, fun h => h.elim id fun heq => heq ▸ hnew⟩
  · rw [List.mem_append, List.mem_singleton]

/-- With keys that are all different, an entry is found by its key. -/
theorem find?_key (hnodup : (l.map key).Nodup) :
    l.find? (fun y => key y == k) = some x ↔ x ∈ l ∧ key x = k := by
  constructor
  · intro hfind
    exact ⟨List.mem_of_find?_eq_some hfind, by simpa using List.find?_some hfind⟩
  · rintro ⟨hx, rfl⟩
    cases hfind : l.find? fun y => key y == key x with
    | none => exact absurd (List.find?_eq_none.1 hfind x hx) (by simp)
    | some y =>
        have hy : key y = key x := by simpa using List.find?_some hfind
        rw [List.inj_on_of_nodup_map hnodup (List.mem_of_find?_eq_some hfind) hx hy]

theorem mem_upsert (hnodup : (l.map key).Nodup) :
    x ∈ upsert key new l ↔ x = new ∨ x ∈ l ∧ key x ≠ key new := by
  have hfind : x ∈ upsert key new l ↔
      (upsert key new l).find? (fun y => key y == key x) = some x := by
    rw [find?_key (nodup_upsert new hnodup)]
    exact (and_iff_left rfl).symm
  rw [hfind, find?_upsert]
  split
  · next heq => simp [heq, eq_comm]
  · next hne =>
      rw [find?_key hnodup]
      grind

end Valkeyop.Lib
