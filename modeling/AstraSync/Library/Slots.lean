import Mathlib.Data.List.Basic

namespace AstraSync.Slots

variable {α : Type} {xs : List α} {x y : α} {i j : ℕ}

theorem getElem?_snoc : (xs ++ [x])[i]? = some y ↔ xs[i]? = some y ∨ (i = xs.length ∧ x = y) := by
  rcases Nat.lt_trichotomy i xs.length with hlt | rfl | hgt
  · rw [List.getElem?_append_left hlt]
    simp [Nat.ne_of_lt hlt]
  · simp
  · rw [List.getElem?_eq_none (by simpa using Nat.succ_le_of_lt hgt), List.getElem?_eq_none (Nat.le_of_lt hgt)]
    simp [Nat.ne_of_gt hgt]

theorem getElem?_set (hi : xs[i]? = some y) {z : α} :
    (xs.set i x)[j]? = some z ↔ (j = i ∧ x = z) ∨ (j ≠ i ∧ xs[j]? = some z) := by
  by_cases hj : j = i
  · rw [hj, List.getElem?_set_self (List.getElem?_eq_some_iff.mp hi).1]
    simp
  · rw [List.getElem?_set_ne (Ne.symm hj)]
    simp [hj]

theorem filterMap_range (xs : List α) (n : ℕ) : (List.range n).filterMap (fun i => xs[i]?) = xs.take n := by
  induction n with
  | zero => rfl
  | succ n ih =>
    rw [List.range_succ, List.filterMap_append, ih, List.take_add_one]
    cases h : xs[n]? <;> simp [h]

end AstraSync.Slots
