import Mathlib.Data.List.Basic

namespace AstraSync.Histories

variable {α : Type} {ok ok' : List α → α → Prop} {log more : List α} {a : α}

def Admissible (ok : List α → α → Prop) (log : List α) : Prop :=
  ∀ before a after, log = before ++ a :: after → ok before a

theorem admissible_nil : Admissible ok [] := by
  intro before a after h
  exact absurd h.symm (List.append_ne_nil_of_right_ne_nil _ (List.cons_ne_nil _ _))

theorem admissible_snoc : Admissible ok (log ++ [a]) ↔ Admissible ok log ∧ ok log a := by
  constructor
  · intro h
    refine ⟨fun before b after hlog => h before b (after ++ [a]) ?_, h log a [] rfl⟩
    rw [hlog, List.append_assoc, List.cons_append]
  · rintro ⟨hlog, ha⟩ before b after heq
    rcases List.eq_nil_or_concat after with rfl | ⟨rest, last, rfl⟩
    · obtain ⟨rfl, hb⟩ := List.append_inj' heq rfl
      cases hb
      exact ha
    · refine hlog before b rest ?_
      rw [List.concat_eq_append, ← List.cons_append, ← List.append_assoc] at heq
      exact List.append_inj_left' heq rfl

theorem Admissible.append (h : Admissible ok log) (hmore : ∀ a ∈ more, ∀ before, ok before a) :
    Admissible ok (log ++ more) := by
  induction more generalizing log with
  | nil => rwa [List.append_nil]
  | cons a more ih =>
    rw [← List.singleton_append, ← List.append_assoc]
    refine ih (admissible_snoc.mpr ⟨h, hmore a List.mem_cons_self log⟩) fun b hb => ?_
    exact hmore b (List.mem_cons_of_mem a hb)

end AstraSync.Histories
