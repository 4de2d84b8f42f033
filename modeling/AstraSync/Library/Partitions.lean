import Mathlib.Algebra.BigOperators.Group.List.Basic
import Mathlib.Algebra.Order.Group.Multiset
import Mathlib.Data.Nat.Find
import Mathlib.Order.Monotone.Basic

/-! Cutting a collection into pieces: by a family of tests, by increasing bounds, and by a place in an order. -/

namespace AstraSync.Partitions

variable {ι α : Type}

theorem sum_map_singleton_if (l : List ι) (P : ι → Bool) (a : α) :
    (l.map fun i => if P i = true then ({a} : Multiset α) else 0).sum = l.countP P • {a} := by
  induction l with
  | nil => simp
  | cons i l ih =>
    rw [List.map_cons, List.sum_cons, ih, List.countP_cons]
    split_ifs
    · rw [add_comm, succ_nsmul]
    · rw [zero_add, add_zero]

theorem sum_filter_eq {l : List ι} {P : ι → α → Bool} {m : Multiset α} (h : ∀ a ∈ m, l.countP (fun i => P i a) = 1) :
    (l.map fun i => m.filter fun a => P i a = true).sum = m := by
  induction m using Multiset.induction with
  | empty => simp
  | cons a m ih =>
    have hone : l.countP (fun i => P i a) = 1 := h a (Multiset.mem_cons_self a m)
    have hrest := ih fun b hb => h b (Multiset.mem_cons_of_mem hb)
    simp only [Multiset.filter_cons, List.sum_map_add, hrest, sum_map_singleton_if, hone, one_nsmul]
    exact Multiset.singleton_add a m

section

variable {β : Type} [LinearOrder β] {f : ℕ → β}

def within (f : ℕ → β) (n : ℕ) (x : β) (i : ℕ) : Bool := f i ≤ x && (i + 1 = n || x < f (i + 1))

theorem within_iff (hf : Monotone f) {n : ℕ} {x : β} (hx : f 0 ≤ x) {i : ℕ} (hi : i < n) :
    within f n x i = true ↔ i = Nat.findGreatest (fun j => f j ≤ x) (n - 1) := by
  set k := Nat.findGreatest (fun j => f j ≤ x) (n - 1) with hk
  have hspec : f k ≤ x := Nat.findGreatest_spec (P := fun j => f j ≤ x) (Nat.zero_le (n - 1)) hx
  have hle : k ≤ n - 1 := Nat.findGreatest_le (n - 1)
  simp only [within, Bool.and_eq_true, Bool.or_eq_true, decide_eq_true_eq]
  constructor
  · rintro ⟨hfi, hnext⟩
    have hik : i ≤ k := Nat.le_findGreatest (by omega) hfi
    by_contra hne
    have hstep : f (i + 1) ≤ f k := hf (by omega)
    rcases hnext with hlast | hlt
    · omega
    · exact absurd (hstep.trans hspec) (not_le.mpr hlt)
  · rintro rfl
    refine ⟨hspec, ?_⟩
    by_cases hlast : k + 1 = n
    · exact .inl hlast
    · have hgreatest : ¬ f (k + 1) ≤ x :=
        Nat.findGreatest_is_greatest (P := fun j => f j ≤ x) (n := n - 1) (Nat.lt_succ_self k) (by omega)
      exact .inr (not_le.mp hgreatest)

theorem countP_within (hf : Monotone f) {n : ℕ} (hn : 0 < n) {x : β} (hx : f 0 ≤ x) :
    (List.range n).countP (within f n x) = 1 := by
  have hle : Nat.findGreatest (fun j => f j ≤ x) (n - 1) ≤ n - 1 := Nat.findGreatest_le (n - 1)
  calc (List.range n).countP (within f n x)
      = (List.range n).count (Nat.findGreatest (fun j => f j ≤ x) (n - 1)) := by
        refine List.countP_congr fun i hi => ?_
        rw [within_iff hf hx (List.mem_range.mp hi), beq_iff_eq]
    _ = 1 := List.count_eq_one_of_mem List.nodup_range (List.mem_range.mpr (by omega))

end

variable {β : Type} [LinearOrder β] (rank : α → β)

theorem filter_exceeds {l : List α} (hl : l.Pairwise fun a b => rank a < rank b) {before after : List α} {a : α}
    (h : l = before ++ a :: after) : l.filter (fun b => rank a < rank b) = after := by
  subst h
  obtain ⟨-, hafter, hbefore⟩ := List.pairwise_append.mp hl
  have hnone : before.filter (fun b => rank a < rank b) = [] := by
    refine List.filter_eq_nil_iff.mpr fun b hb => ?_
    have := hbefore b hb a List.mem_cons_self
    simpa using this.le
  have hall : after.filter (fun b => rank a < rank b) = after :=
    List.filter_eq_self.mpr fun b hb => by simpa using (List.pairwise_cons.mp hafter).1 b hb
  rw [List.filter_append, hnone, List.filter_cons_of_neg (by simp), hall, List.nil_append]

end AstraSync.Partitions
