import Mathlib.Data.List.Induction
import Mathlib.Data.List.Nodup

/-!
Tables with one row to a key. A row is either kept from its first insertion on, or replaced by every later one; the
first kind keeps contents that are named after themselves, the second the last of a history.
-/

namespace AstraSync.Registries

variable {R K : Type} [DecidableEq K] {key : R → K} {rows history : List R} {r : R} {k : K}

def find (key : R → K) (k : K) (rows : List R) : Option R := rows.find? fun r => key r = k

def insertNew (key : R → K) (r : R) (rows : List R) : List R :=
  if (find key (key r) rows).isSome then rows else rows ++ [r]

def put (key : R → K) (r : R) (rows : List R) : List R := rows.filter (fun r' => key r' ≠ key r) ++ [r]

def latest (key : R → K) (k : K) (history : List R) : Option R := find key k history.reverse

theorem find_some (h : find key k rows = some r) : r ∈ rows ∧ key r = k := by
  unfold find at h
  have hkey := List.find?_some h
  exact ⟨List.mem_of_find?_eq_some h, of_decide_eq_true hkey⟩

theorem find_none (h : find key k rows = none) : ∀ r ∈ rows, key r ≠ k := by
  intro r hr
  have hnone := List.find?_eq_none.mp h r hr
  rwa [decide_eq_true_eq] at hnone

theorem find_of_mem (hnodup : (rows.map key).Nodup) (hr : r ∈ rows) : find key (key r) rows = some r := by
  cases hfind : find key (key r) rows with
  | none => exact absurd rfl (find_none hfind r hr)
  | some =>
    obtain ⟨hr', hkey⟩ := find_some hfind
    rw [List.inj_on_of_nodup_map hnodup hr' hr hkey]

theorem find_snoc : find key k (rows ++ [r]) = (find key k rows).or (if key r = k then some r else none) := by
  unfold find
  rw [List.find?_append, List.find?_singleton]
  simp only [decide_eq_true_eq]

theorem find_insertNew (hagree : ∀ r' ∈ rows, key r' = key r → r' = r) :
    find key k (insertNew key r rows) = if key r = k then some r else find key k rows := by
  unfold insertNew
  cases hfind : find key (key r) rows with
  | some r' =>
    obtain ⟨hmem, hkey⟩ := find_some hfind
    rw [Option.isSome_some, if_pos rfl]
    split_ifs with hk
    · rw [← hk, hfind, hagree r' hmem hkey]
    · rfl
  | none =>
    rw [Option.isSome_none, if_neg Bool.false_ne_true, find_snoc]
    split_ifs with hk
    · rw [← hk, hfind, Option.none_or]
    · rw [Option.or_none]

theorem mem_insertNew {x : R} (h : x ∈ insertNew key r rows) : x ∈ rows ∨ x = r := by
  unfold insertNew at h
  split_ifs at h
  · exact .inl h
  · simpa using h

theorem find_put : find key k (put key r rows) = if key r = k then some r else find key k rows := by
  unfold put
  rw [find_snoc]
  split_ifs with hk
  · subst hk
    have hnone : find key (key r) (rows.filter fun r' => key r' ≠ key r) = none := by
      refine List.find?_eq_none.mpr fun r' hr' => ?_
      have hne := of_decide_eq_true (List.mem_filter.mp hr').2
      rwa [decide_eq_true_eq]
    rw [hnone, Option.none_or]
  · rw [Option.or_none]
    unfold find
    rw [List.find?_filter]
    congr 1
    funext r'
    by_cases hr' : key r' = k
    · simpa [hr'] using fun h => hk (Eq.symm h)
    · simp [hr']

theorem mem_put {x : R} (h : x ∈ put key r rows) : x ∈ rows ∨ x = r := by
  rcases List.mem_append.mp h with h | h
  · exact .inl (List.mem_filter.mp h).1
  · exact .inr (List.mem_singleton.mp h)

theorem find_perm {rows' : List R} (hperm : rows.Perm rows') (hnodup : (rows.map key).Nodup) :
    find key k rows = find key k rows' := by
  have hnodup' : (rows'.map key).Nodup := (hperm.map key).nodup_iff.mp hnodup
  cases hfind : find key k rows with
  | some r =>
    obtain ⟨hmem, rfl⟩ := find_some hfind
    exact (find_of_mem hnodup' (hperm.mem_iff.mp hmem)).symm
  | none =>
    symm
    refine List.find?_eq_none.mpr fun r hr => ?_
    have hne := find_none hfind r (hperm.mem_iff.mpr hr)
    rwa [decide_eq_true_eq]

theorem latest_snoc : latest key k (history ++ [r]) = if key r = k then some r else latest key k history := by
  unfold latest find
  rw [List.reverse_append, List.reverse_singleton, List.singleton_append, List.find?_cons]
  by_cases hk : key r = k <;> simp [hk]

theorem latest_some (h : latest key k history = some r) : r ∈ history ∧ key r = k := by
  obtain ⟨hmem, hkey⟩ := find_some h
  exact ⟨List.mem_reverse.mp hmem, hkey⟩

theorem latest_finer {K' : Type} [DecidableEq K'] {fine : R → K'}
    (hfine : ∀ a ∈ history, ∀ b ∈ history, fine a = fine b → key a = key b) (h : latest key k history = some r) :
    latest fine (fine r) history = some r := by
  induction history using List.reverseRecOn with
  | nil => cases h
  | append_singleton history x ih =>
    rw [latest_snoc] at h ⊢
    split_ifs at h with hx
    · cases h
      rw [if_pos rfl]
    · obtain ⟨hmem, hkey⟩ := latest_some h
      have hne : fine x ≠ fine r := fun heq => hx ((hfine x (List.mem_append_right _ (List.mem_singleton_self x)) r
        (List.mem_append_left _ hmem) heq).trans hkey)
      rw [if_neg hne]
      refine ih (fun a ha b hb => ?_) h
      exact hfine a (List.mem_append_left _ ha) b (List.mem_append_left _ hb)

end AstraSync.Registries
