import Mathlib.Data.List.Basic

namespace AstraSync.Triples

variable {ε σ α β : Type} {P P' : σ → Prop} {Q Q' : α → σ → Prop} {R : β → σ → Prop} {F F' : ε → σ → Prop}

def Triple (P : σ → Prop) (x : EStateM ε σ α) (Q : α → σ → Prop) (F : ε → σ → Prop) : Prop :=
  ∀ s, P s → match x s with
    | .ok a t => Q a t
    | .error e t => F e t

theorem triple_pure {a : α} (h : ∀ s, P s → Q a s) : Triple P (pure a : EStateM ε σ α) Q F := h

theorem triple_throw {e : ε} (h : ∀ s, P s → F e s) : Triple P (throw e : EStateM ε σ α) Q F := h

theorem triple_modify {f : σ → σ} {Q : Unit → σ → Prop} (h : ∀ s, P s → Q () (f s)) :
    Triple P (modify f : EStateM ε σ Unit) Q F := h

theorem triple_bind {x : EStateM ε σ β} {f : β → EStateM ε σ α} (hx : Triple P x R F)
    (hf : ∀ b, Triple (R b) (f b) Q F) : Triple P (x >>= f) Q F := by
  intro s hs
  have hxs := hx s hs
  change match EStateM.bind x f s with
    | .ok a t => Q a t
    | .error e t => F e t
  unfold EStateM.bind
  cases hresult : x s with
  | ok b t =>
    rw [hresult] at hxs
    exact hf b t hxs
  | error =>
    rw [hresult] at hxs
    exact hxs

theorem triple_read {f : σ → EStateM ε σ α} (h : ∀ t, P t → Triple (· = t) (f t) Q F) : Triple P (get >>= f) Q F :=
  fun s hs => h s hs s rfl

theorem triple_mono {x : EStateM ε σ α} (h : Triple P' x Q' F') (hP : ∀ s, P s → P' s) (hQ : ∀ a s, Q' a s → Q a s)
    (hF : ∀ e s, F' e s → F e s) : Triple P x Q F := by
  intro s hs
  have hxs := h s (hP s hs)
  cases hresult : x s with
  | ok a t =>
    rw [hresult] at hxs
    exact hQ a t hxs
  | error e t =>
    rw [hresult] at hxs
    exact hF e t hxs

theorem triple_ite {c : Prop} [Decidable c] {x y : EStateM ε σ α} (hx : c → Triple P x Q F) (hy : ¬ c → Triple P y Q F) :
    Triple P (if c then x else y) Q F := by
  split
  · next hc => exact hx hc
  · next hc => exact hy hc

theorem triple_forM {I : List β → σ → Prop} {f : β → EStateM ε σ PUnit} (xs : List β)
    (hf : ∀ done x, x ∈ xs → Triple (I done) (f x) (fun _ => I (done ++ [x])) F) (done : List β) :
    Triple (I done) (xs.forM f) (fun _ => I (done ++ xs)) F := by
  induction xs generalizing done with
  | nil =>
    rw [List.append_nil]
    exact triple_pure fun _ h => h
  | cons x xs ih =>
    refine triple_bind (hf done x List.mem_cons_self) fun _ => ?_
    have hrest := ih (fun done y hy => hf done y (List.mem_cons_of_mem x hy)) (done ++ [x])
    rwa [List.append_assoc] at hrest

theorem triple_ok {x : EStateM ε σ α} (h : Triple P x Q F) {s t : σ} {a : α} (hs : P s) (hx : x s = .ok a t) : Q a t := by
  have hxs := h s hs
  rwa [hx] at hxs

theorem triple_error {x : EStateM ε σ α} (h : Triple P x Q F) {s t : σ} {e : ε} (hs : P s) (hx : x s = .error e t) :
    F e t := by
  have hxs := h s hs
  rwa [hx] at hxs

end AstraSync.Triples
