import Mathlib.Data.List.Basic

/-!
Replaying actions that overwrite what they touch: an action that occurs again later may be dropped, so a
sequence absorbs an earlier run of any of its parts.
-/

namespace AstraSync.Replay

variable {σ α : Type}

def applyAll (act : α → σ → σ) (actions : List α) (s : σ) : σ := actions.foldl (fun s a => act a s) s

structure Overwrites (good : α → Prop) (act : α → σ → σ) : Prop where
  idle : ∀ a s, good a → act a (act a s) = act a s
  hides : ∀ a b s t, good a → good b → act a s = act a t → act a (act b s) = act a (act b t)

variable {good : α → Prop} {act : α → σ → σ}

namespace Overwrites

variable (h : Overwrites good act)

include h

theorem hides_all {a : α} {s t : σ} {actions : List α} (ha : good a) (hgood : ∀ b ∈ actions, good b)
    (hst : act a s = act a t) : act a (applyAll act actions s) = act a (applyAll act actions t) := by
  induction actions generalizing s t with
  | nil => exact hst
  | cons b actions ih =>
    obtain ⟨hb, hrest⟩ := List.forall_mem_cons.mp hgood
    exact ih hrest (h.hides a b s t ha hb hst)

theorem drop_earlier {a : α} {actions : List α} (hgood : ∀ b ∈ actions, good b) (ha : a ∈ actions) (s : σ) :
    applyAll act actions (act a s) = applyAll act actions s := by
  obtain ⟨before, after, rfl⟩ := List.append_of_mem ha
  have hbefore : ∀ b ∈ before, good b := fun b hb => hgood b (List.mem_append_left _ hb)
  have hsame : act a (applyAll act before (act a s)) = act a (applyAll act before s) :=
    h.hides_all (hgood a ha) hbefore (h.idle a s (hgood a ha))
  simp only [applyAll, List.foldl_append, List.foldl_cons] at hsame ⊢
  rw [hsame]

theorem absorbs {earlier actions : List α} (hgood : ∀ b ∈ actions, good b) (hsub : earlier ⊆ actions) (s : σ) :
    applyAll act actions (applyAll act earlier s) = applyAll act actions s := by
  induction earlier generalizing s with
  | nil => rfl
  | cons a earlier ih =>
    obtain ⟨ha, hrest⟩ := List.cons_subset.mp hsub
    calc applyAll act actions (applyAll act earlier (act a s))
        = applyAll act actions (act a s) := ih hrest (act a s)
      _ = applyAll act actions s := h.drop_earlier hgood ha s

end Overwrites

theorem overwrites_of_views {ι τ : Type} {view : ι → σ → τ} {part : α → ι → τ → τ}
    (hext : ∀ s t, (∀ i, view i s = view i t) → s = t)
    (hview : ∀ a i s, good a → view i (act a s) = part a i (view i s))
    (hparts : ∀ i, Overwrites good fun a => part a i) : Overwrites good act where
  idle a s ha := hext _ _ fun i => by rw [hview a i _ ha, hview a i _ ha, (hparts i).idle a _ ha]
  hides a b s t ha hb hst := hext _ _ fun i => by
    have hi : part a i (view i s) = part a i (view i t) := by rw [← hview a i _ ha, ← hview a i _ ha, hst]
    rw [hview a i _ ha, hview b i _ hb, hview a i _ ha, hview b i _ hb, (hparts i).hides a b _ _ ha hb hi]

end AstraSync.Replay
