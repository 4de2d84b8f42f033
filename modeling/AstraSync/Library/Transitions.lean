import Mathlib.Data.Nat.Notation
import Mathlib.Data.Option.Basic

namespace AstraSync.Transitions

variable {σ α : Type}

def run (step : σ → α → Option σ) : σ → List α → Option σ
  | s, [] => some s
  | s, a :: as => (step s a).bind (fun t => run step t as)

def meets (step : σ → α → Option σ) (ok : σ → α → Bool) : σ → List α → Bool
  | _, [] => true
  | s, a :: as => ok s a && (match step s a with
      | some t => meets step ok t as
      | none => true)

theorem run_cons_eq {step : σ → α → Option σ} {s t : σ} {a : α} {as : List α} :
    run step s (a :: as) = some t ↔ ∃ u, step s a = some u ∧ run step u as = some t := by
  simp [run, Option.bind_eq_some_iff]

theorem meets_cons {step : σ → α → Option σ} {ok : σ → α → Bool} {s t : σ} {a : α} {as : List α}
    (h : meets step ok s (a :: as) = true) (ht : step s a = some t) :
    ok s a = true ∧ meets step ok t as = true := by
  simpa [meets, ht] using h

theorem run_invariant_on {step : σ → α → Option σ} {ok : σ → α → Bool} {P : α → Prop} {A : σ → Prop}
    (hstep : ∀ s a t, A s → P a → ok s a = true → step s a = some t → A t)
    {s t : σ} {as : List α} (hs : A s) (hP : ∀ a ∈ as, P a) (hm : meets step ok s as = true)
    (hr : run step s as = some t) : A t := by
  induction as generalizing s with
  | nil => cases hr; exact hs
  | cons a as ih =>
    obtain ⟨u, hu, hr⟩ := run_cons_eq.mp hr
    obtain ⟨hok, hm⟩ := meets_cons hm hu
    exact ih (hstep s a u hs (hP a List.mem_cons_self) hok hu) (fun b hb => hP b (List.mem_cons_of_mem a hb)) hm hr

theorem run_invariant {step : σ → α → Option σ} {ok : σ → α → Bool} {Inv : σ → Prop}
    (hstep : ∀ s a t, Inv s → ok s a = true → step s a = some t → Inv t)
    {s t : σ} {as : List α} (hs : Inv s) (hm : meets step ok s as = true) (hr : run step s as = some t) : Inv t :=
  run_invariant_on (fun s a t hs _ => hstep s a t hs) hs (fun _ _ => trivial) hm hr

theorem meets_append {step : σ → α → Option σ} {ok : σ → α → Bool} {s t : σ} {as bs : List α}
    (hm : meets step ok s (as ++ bs) = true) (hr : run step s as = some t) :
    meets step ok s as = true ∧ meets step ok t bs = true := by
  induction as generalizing s with
  | nil => cases hr; exact ⟨rfl, hm⟩
  | cons a as ih =>
    obtain ⟨u, hu, hr⟩ := run_cons_eq.mp hr
    obtain ⟨hok, hm⟩ := meets_cons hm hu
    obtain ⟨has, hbs⟩ := ih hm hr
    exact ⟨by simp [meets, hu, hok, has], hbs⟩

theorem run_preserves_on {step : σ → α → Option σ} {P : α → Prop} {A : σ → Prop}
    (hstep : ∀ s a t, A s → P a → step s a = some t → A t)
    {s t : σ} {as : List α} (hs : A s) (hP : ∀ a ∈ as, P a) (hr : run step s as = some t) : A t := by
  induction as generalizing s with
  | nil => cases hr; exact hs
  | cons a as ih =>
    obtain ⟨u, hu, hr⟩ := run_cons_eq.mp hr
    exact ih (hstep s a u hs (hP a List.mem_cons_self) hu) (fun b hb => hP b (List.mem_cons_of_mem a hb)) hr

theorem run_preserves {step : σ → α → Option σ} {Inv : σ → Prop} (hstep : ∀ s a t, Inv s → step s a = some t → Inv t)
    {s t : σ} {as : List α} (hs : Inv s) (hr : run step s as = some t) : Inv t :=
  run_preserves_on (fun s a t hs _ => hstep s a t hs) hs (fun _ _ => trivial) hr

theorem run_view {step : σ → α → Option σ} (view : σ → σ) (keep : α → Bool) {P : α → Prop} {A : σ → Prop}
    (hstep : ∀ s a t, A s → P a → step s a = some t → A t)
    (hkeep : ∀ s a t, A s → P a → keep a = true → step s a = some t → step (view s) a = some (view t))
    (hskip : ∀ s a t, A s → P a → keep a = false → step s a = some t → view t = view s)
    {s t : σ} {as : List α} (hs : A s) (hP : ∀ a ∈ as, P a) (hr : run step s as = some t) :
    run step (view s) (as.filter keep) = some (view t) := by
  induction as generalizing s with
  | nil => cases hr; rfl
  | cons a as ih =>
    obtain ⟨u, hu, hr⟩ := run_cons_eq.mp hr
    have ha := hP a List.mem_cons_self
    have hrest := ih (hstep s a u hs ha hu) (fun b hb => hP b (List.mem_cons_of_mem a hb)) hr
    cases hk : keep a with
    | true =>
      rw [List.filter_cons_of_pos hk]
      exact run_cons_eq.mpr ⟨view u, hkeep s a u hs ha hk hu, hrest⟩
    | false =>
      rw [List.filter_cons_of_neg (ne_true_of_eq_false hk), ← hskip s a u hs ha hk hu]
      exact hrest

end AstraSync.Transitions
