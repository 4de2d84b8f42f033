import AstraSync.Library.Replay
import Mathlib.Data.Multiset.Filter
import Mathlib.Data.Multiset.MapFold

/-!
Tables of rows grouped by a key, under upserts, deletions and truncation. An upsert patches the rows of
its key, or adds a fresh row where there is none.
-/

namespace AstraSync.KeyedTable

open Replay

variable {R K P : Type} [DecidableEq K]

inductive Change (K P : Type)
  | keep
  | clear
  | remove (k : K)
  | put (k : K) (p : P)

/-- How patches act on rows: they keep the key, and an earlier patch of the same key leaves no trace
where a later one writes. -/
structure Patching (key : R → K) (merge : P → R → R) (fresh : P → R) (fits : K → P → Prop) : Prop where
  merge_key : ∀ p r, key (merge p r) = key r
  fresh_key : ∀ k p, fits k p → key (fresh p) = k
  merge_idle : ∀ p r, merge p (merge p r) = merge p r
  merge_hides : ∀ p q r, merge p (merge q (merge p r)) = merge p (merge q r)
  merge_fresh : ∀ p, merge p (fresh p) = fresh p
  merge_cross : ∀ k p q, fits k p → fits k q → merge p (merge q (fresh p)) = merge p (fresh q)

def slice (key : R → K) (k : K) (t : Multiset R) : Multiset R := t.filter (key · = k)

def apply (key : R → K) (merge : P → R → R) (fresh : P → R) : Change K P → Multiset R → Multiset R
  | .keep, t => t
  | .clear, _ => 0
  | .remove k, t => t.filter (key · ≠ k)
  | .put k p, t =>
    if (slice key k t).card = 0 then fresh p ::ₘ t else t.map fun r => if key r = k then merge p r else r

def patch (merge : P → R → R) (fresh : P → R) (p : P) (rows : Multiset R) : Multiset R :=
  if rows.card = 0 then {fresh p} else rows.map (merge p)

def part (merge : P → R → R) (fresh : P → R) (k : K) : Change K P → Multiset R → Multiset R
  | .keep, rows => rows
  | .clear, _ => 0
  | .remove k', rows => if k = k' then 0 else rows
  | .put k' p, rows => if k = k' then patch merge fresh p rows else rows

def Fits (fits : K → P → Prop) : Change K P → Prop
  | .put k p => fits k p
  | _ => True

variable {key : R → K} {merge : P → R → R} {fresh : P → R} {fits : K → P → Prop}

theorem eq_of_slices {s t : Multiset R} (h : ∀ k, slice key k s = slice key k t) : s = t := by
  classical
  refine Multiset.ext.mpr fun r => ?_
  have hcount := congrArg (Multiset.count r) (h (key r))
  have hself (u : Multiset R) : Multiset.count r (slice key (key r) u) = Multiset.count r u :=
    Multiset.count_filter_of_pos (p := fun q => key q = key r) rfl
  rwa [hself, hself] at hcount

theorem slice_remove (k k' : K) (t : Multiset R) :
    slice key k (t.filter (key · ≠ k')) = if k = k' then 0 else slice key k t := by
  rw [slice, Multiset.filter_filter]
  split_ifs with hk
  · refine Multiset.filter_eq_nil.mpr fun r _ hr => hr.2 (hr.1.trans hk)
  · refine Multiset.filter_congr fun r _ => ⟨And.left, fun hr => ⟨hr, fun hr' => hk (hr.symm.trans hr')⟩⟩

variable (laws : Patching key merge fresh fits)

include laws

theorem slice_put {k : K} {p : P} (hfits : fits k p) (k' : K) (t : Multiset R) :
    slice key k' (apply key merge fresh (.put k p) t) =
      if k' = k then patch merge fresh p (slice key k t) else slice key k' t := by
  have hkey : ∀ r, key (if key r = k then merge p r else r) = key r := by
    intro r
    split_ifs
    · exact laws.merge_key p r
    · rfl
  simp only [apply, patch]
  by_cases hcard : (slice key k t).card = 0
  · rw [if_pos hcard, if_pos hcard, slice, Multiset.filter_cons, laws.fresh_key k p hfits]
    by_cases hk : k' = k
    · subst hk
      rw [if_pos rfl, if_pos rfl, show t.filter (key · = k') = 0 from Multiset.card_eq_zero.mp hcard, Multiset.add_zero]
    · rw [if_neg fun h => hk h.symm, if_neg hk, Multiset.zero_add]
      rfl
  · rw [if_neg hcard, if_neg hcard, slice, Multiset.filter_map]
    simp only [Function.comp_def, hkey]
    split_ifs with hk
    · subst hk
      exact Multiset.map_congr rfl fun r hr => if_pos (Multiset.mem_filter.mp hr).2
    · refine (Multiset.map_congr rfl fun r hr => ?_).trans (Multiset.map_id _)
      exact if_neg fun h => hk ((Multiset.mem_filter.mp hr).2.symm.trans h)

theorem slice_apply {c : Change K P} (hfits : Fits fits c) (k : K) (t : Multiset R) :
    slice key k (apply key merge fresh c t) = part merge fresh k c (slice key k t) := by
  cases c with
  | keep => rfl
  | clear => rfl
  | remove k' => exact slice_remove k k' t
  | put =>
    rw [slice_put laws hfits, part]
    split_ifs with hk
    · rw [hk]
    · rfl

omit [DecidableEq K] in
theorem patch_idle (p : P) (rows : Multiset R) :
    patch merge fresh p (patch merge fresh p rows) = patch merge fresh p rows := by
  by_cases hcard : rows.card = 0
  · simp [patch, hcard, laws.merge_fresh]
  · simp [patch, hcard, Multiset.map_map, laws.merge_idle]

omit [DecidableEq K] in
theorem patch_hides {k : K} {p q : P} (hp : fits k p) (hq : fits k q) {s t : Multiset R}
    (h : patch merge fresh p s = patch merge fresh p t) :
    patch merge fresh p (patch merge fresh q s) = patch merge fresh p (patch merge fresh q t) := by
  -- what a group becomes behind `p` depends only on what `p` makes of it
  have hbehind (u : Multiset R) : patch merge fresh p (patch merge fresh q u) =
      (patch merge fresh p u).map fun r => merge p (merge q r) := by
    by_cases hu : u.card = 0
    · simp [patch, hu, laws.merge_cross k p q hp hq]
    · simp [patch, hu, Multiset.map_map, laws.merge_hides]
  rw [hbehind, hbehind, h]

theorem part_overwrites (k : K) : Overwrites (Fits fits) (part merge fresh k : Change K P → Multiset R → Multiset R) := by
  constructor
  · intro c rows hc
    cases c with
    | keep => rfl
    | clear => rfl
    | remove => simp only [part]; split_ifs <;> rfl
    | put k' p =>
      simp only [part]
      split_ifs
      · exact patch_idle laws p rows
      · rfl
  · intro c d s t hc hd h
    cases c with
    | keep => cases h; rfl
    | clear => rfl
    | remove =>
      simp only [part] at h ⊢
      split_ifs at h ⊢ with hk
      · rfl
      · rw [h]
    | put =>
      simp only [part] at h ⊢
      split_ifs at h ⊢ with hk
      · cases d with
        | keep => exact h
        | clear => rfl
        | remove => grind
        | put =>
          simp only
          split_ifs with hk'
          · subst hk hk'
            exact patch_hides laws hc hd h
          · exact h
      · rw [h]

theorem apply_overwrites : Overwrites (Fits fits) (apply key merge fresh) := by
  have hext : ∀ s t : Multiset R, (∀ k, slice key k s = slice key k t) → s = t := fun _ _ => eq_of_slices
  have hview : ∀ (c : Change K P) (k : K) (t : Multiset R), Fits fits c →
      slice key k (apply key merge fresh c t) = part merge fresh k c (slice key k t) :=
    fun c k t hc => slice_apply laws hc k t
  exact overwrites_of_views hext hview (part_overwrites laws)

end AstraSync.KeyedTable
