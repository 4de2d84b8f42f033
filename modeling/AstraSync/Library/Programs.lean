import Mathlib.Data.Option.Basic

/-!
Programs that run side by side over one shared state: each makes one call at a time and goes on with the
answer, and what the others do between two calls is bounded by a relation they are relied on to keep.
-/

namespace AstraSync.Programs

inductive Program (E : Type) (R : E → Type) (α : Type)
  | done (a : α)
  | call (e : E) (next : R e → Program E R α)

variable {E : Type} {R : E → Type} {α β σ C : Type}

namespace Program

def bind : Program E R α → (α → Program E R β) → Program E R β
  | .done a, f => f a
  | .call e next, f => .call e fun r => (next r).bind f

instance : Monad (Program E R) where
  pure := .done
  bind := bind

def finished : Program E R α → Bool
  | .done _ => true
  | .call _ _ => false

def resume (exec : σ → (e : E) → C → Option (σ × R e)) (s : σ) (c : C) : Program E R α → Option (σ × Program E R α)
  | .done _ => none
  | .call e next => (exec s e c).map fun answer => (answer.1, next answer.2)

theorem resume_exec {exec : σ → (e : E) → C → Option (σ × R e)} {s u : σ} {c : C} {p rest : Program E R α}
    (h : p.resume exec s c = some (u, rest)) : p.finished = false ∧ ∃ e r, exec s e c = some (u, r) := by
  cases p with
  | done => cases h
  | call e next =>
    obtain ⟨⟨t, r⟩, hanswer, heq⟩ := Option.map_eq_some_iff.mp h
    cases heq
    exact ⟨rfl, e, r, hanswer⟩

def allows (P : E → Bool) : Program E R α → Bool
  | .done _ => true
  | .call e _ => P e

theorem resume_allowed {P : E → Bool} {exec : σ → (e : E) → C → Option (σ × R e)} {s u : σ} {c : C}
    {p rest : Program E R α} (hp : p.allows P = true) (h : p.resume exec s c = some (u, rest)) :
    p.resume (fun s e c => if P e then exec s e c else none) s c = some (u, rest) := by
  cases p with
  | done => cases h
  | call e next =>
    have he : P e = true := hp
    simp only [resume, he, if_true]
    exact h

end Program

def perform (e : E) : Program E R (R e) := .call e .done

def Only (P : E → Prop) : Program E R α → Prop
  | .done _ => True
  | .call e next => P e ∧ ∀ r, Only P (next r)

def Closes (P Q : E → Prop) : Program E R α → Prop
  | .done _ => True
  | .call e next => (P e ∧ ∀ r, Closes P Q (next r)) ∨ (Q e ∧ ∀ r, (next r).finished = true)

section

variable {P Q : E → Prop} {e : E} {p : Program E R α} {f : α → Program E R β}

theorem only_call {f : R e → Program E R α} (he : P e) (h : ∀ r, Only P (f r)) : Only P (perform e >>= f) :=
  ⟨he, h⟩

theorem only_perform (he : P e) : Only P (perform e : Program E R (R e)) := ⟨he, fun _ => trivial⟩

theorem only_bind (hp : Only P p) (hf : ∀ a, Only P (f a)) : Only P (p >>= f) := by
  induction p with
  | done a => exact hf a
  | call e next ih => exact ⟨hp.1, fun r => ih r (hp.2 r)⟩

theorem only_weaken (hp : Only P p) (h : ∀ e, P e → Q e) : Only Q p := by
  induction p with
  | done => trivial
  | call e next ih => exact ⟨h e hp.1, fun r => ih r (hp.2 r)⟩

theorem closes_only (hp : Only P p) : Closes P Q p := by
  induction p with
  | done => trivial
  | call e next ih => exact .inl ⟨hp.1, fun r => ih r (hp.2 r)⟩

theorem closes_finished (h : p.finished = true) : Closes P Q p := by
  cases p with
  | done => trivial
  | call => cases h

theorem closes_call {f : R e → Program E R α} (he : P e) (h : ∀ r, Closes P Q (f r)) :
    Closes P Q (perform e >>= f) := .inl ⟨he, h⟩

theorem closes_perform (he : Q e) : Closes P Q (perform e : Program E R (R e)) := .inr ⟨he, fun _ => rfl⟩

theorem closes_bind (hp : Only P p) (hf : ∀ a, Closes P Q (f a)) : Closes P Q (p >>= f) := by
  induction p with
  | done a => exact hf a
  | call e next ih => exact .inl ⟨hp.1, fun r => ih r (hp.2 r)⟩

theorem closes_resume {exec : σ → (e : E) → C → Option (σ × R e)} {rest : Program E R α} {s u : σ} {c : C}
    (hp : Closes P Q p) (h : p.resume exec s c = some (u, rest)) :
    ∃ e r, exec s e c = some (u, r) ∧ ((P e ∧ Closes P Q rest) ∨ (Q e ∧ rest.finished = true)) := by
  cases p with
  | done => cases h
  | call e next =>
    obtain ⟨⟨t, r⟩, hanswer, heq⟩ := Option.map_eq_some_iff.mp h
    cases heq
    refine ⟨e, r, hanswer, ?_⟩
    rcases hp with ⟨he, hnext⟩ | ⟨he, hnext⟩
    · exact .inl ⟨he, hnext r⟩
    · exact .inr ⟨he, hnext r⟩

end

/-- The rules a program runs under: what a call can do, what the others can do between two calls, and
what each call has to keep to. -/
structure Rules (σ E : Type) (R : E → Type) where
  outcome : σ → (e : E) → R e → σ → Prop
  rely : σ → σ → Prop
  guarantee : σ → (e : E) → R e → σ → Prop

variable {d : Rules σ E R}

def Obeys (d : Rules σ E R) (post : α → σ → Prop) : Program E R α → σ → Prop
  | .done a, s => post a s
  | .call e next, s =>
    ∀ t, d.rely s t → ∀ r u, d.outcome t e r u → d.guarantee t e r u ∧ Obeys d post (next r) u

variable {post : α → σ → Prop} {s : σ} {p : Program E R α}

theorem obeys_perform {e : E} {f : R e → Program E R α}
    (h : ∀ t, d.rely s t → ∀ r u, d.outcome t e r u → d.guarantee t e r u ∧ Obeys d post (f r) u) :
    Obeys d post (perform e >>= f) s := h

theorem obeys_bind {post : β → σ → Prop} {f : α → Program E R β}
    (h : Obeys d (fun a t => Obeys d post (f a) t) p s) : Obeys d post (p >>= f) s := by
  induction p generalizing s with
  | done => exact h
  | call e next ih =>
    intro t ht r u hu
    obtain ⟨hguarantee, hnext⟩ := h t ht r u hu
    exact ⟨hguarantee, ih r hnext⟩

theorem obeys_weaken {weaker : α → σ → Prop} (h : Obeys d post p s)
    (hweaker : ∀ a t, post a t → weaker a t) : Obeys d weaker p s := by
  induction p generalizing s with
  | done a => exact hweaker a s h
  | call e next ih =>
    intro t ht r u hu
    obtain ⟨hguarantee, hnext⟩ := h t ht r u hu
    exact ⟨hguarantee, ih r hnext⟩

theorem obeys_only {P : E → Prop} {A : σ → Prop} (hp : Only P p) (hs : A s)
    (hcall : ∀ e, P e → ∀ s t r u, A s → d.rely s t → d.outcome t e r u → d.guarantee t e r u ∧ A u) :
    Obeys d (fun _ t => A t) p s := by
  induction p generalizing s with
  | done => exact hs
  | call e next ih =>
    intro t ht r u hu
    obtain ⟨hguarantee, hA⟩ := hcall e hp.1 s t r u hs ht hu
    exact ⟨hguarantee, ih r (hp.2 r) hA⟩

theorem obeys_rely {t : σ} (h : Obeys d (fun _ _ => True) p s)
    (htrans : ∀ s t u, d.rely s t → d.rely t u → d.rely s u) (ht : d.rely s t) :
    Obeys d (fun _ _ => True) p t := by
  cases p with
  | done => trivial
  | call => exact fun u hu => h u (htrans s t u ht hu)

theorem obeys_resume {τ : Type} (view : τ → σ) {exec : τ → (e : E) → C → Option (τ × R e)}
    {rest : Program E R α} {s u : τ} {c : C} (h : Obeys d post p (view s))
    (hresume : p.resume exec s c = some (u, rest))
    (hexec : ∀ e r, exec s e c = some (u, r) → d.outcome (view s) e r (view u)) (hrely : d.rely (view s) (view s)) :
    (∃ e r, d.guarantee (view s) e r (view u)) ∧ Obeys d post rest (view u) := by
  cases p with
  | done => cases hresume
  | call e next =>
    obtain ⟨⟨t, r⟩, hanswer, heq⟩ := Option.map_eq_some_iff.mp hresume
    cases heq
    obtain ⟨hguarantee, hnext⟩ := h (view s) hrely r (view t) (hexec e r hanswer)
    exact ⟨⟨e, r, hguarantee⟩, hnext⟩

inductive Reaches : Program E R α → List (Σ e, R e) → Program E R α → Prop
  | refl (p : Program E R α) : Reaches p [] p
  | call {e : E} {next : R e → Program E R α} {events : List (Σ e, R e)} {rest : Program E R α} (r : R e)
      (h : Reaches (next r) events rest) : Reaches (.call e next) (⟨e, r⟩ :: events) rest

theorem reaches_bind {p : Program E R α} {a : α} {events : List (Σ e, R e)} (h : Reaches p events (.done a))
    (f : α → Program E R β) : Reaches (p >>= f) events (f a) := by
  generalize hq : (.done a : Program E R α) = q at h
  induction h with
  | refl => subst hq; exact .refl _
  | call r _ ih => exact .call r (ih hq)

def traced (ok : List (Σ e, R e) → E → Prop) : Rules (List (Σ e, R e)) E R where
  outcome s e r u := u = s ++ [⟨e, r⟩]
  rely s t := s = t
  guarantee s e _ _ := ok s e

variable {ok : List (Σ e, R e) → E → Prop} {s events : List (Σ e, R e)} {post : α → List (Σ e, R e) → Prop}

theorem traced_perform {e : E} {f : R e → Program E R α} (hok : ok s e)
    (hnext : ∀ r, Obeys (traced ok) post (f r) (s ++ [⟨e, r⟩])) : Obeys (traced ok) post (perform e >>= f) s := by
  rintro t rfl r u rfl
  exact ⟨hok, hnext r⟩

theorem obeys_reaches {p rest : Program E R α} (h : Obeys (traced ok) post p s) (hreaches : Reaches p events rest) :
    Obeys (traced ok) post rest (s ++ events) := by
  induction hreaches generalizing s with
  | refl => rwa [List.append_nil]
  | @call e next events rest r _ ih =>
    obtain ⟨-, hnext⟩ := h s rfl r _ rfl
    have hrest := ih hnext
    rwa [List.append_assoc, List.singleton_append] at hrest

def Program.eval (answer : (e : E) → R e) : Program E R α → α
  | .done a => a
  | .call e next => (next (answer e)).eval answer

def Program.answered (answer : (e : E) → R e) : Program E R α → List (Σ e, R e)
  | .done _ => []
  | .call e next => ⟨e, answer e⟩ :: (next (answer e)).answered answer

theorem reaches_eval (answer : (e : E) → R e) (p : Program E R α) :
    Reaches p (p.answered answer) (.done (p.eval answer)) := by
  induction p with
  | done => exact .refl _
  | call e next ih => exact .call (answer e) (ih (answer e))

@[simp]
theorem eval_perform {answer : (e : E) → R e} (e : E) : (perform e).eval answer = answer e := rfl

@[simp]
theorem eval_pure {answer : (e : E) → R e} (a : α) : (pure a : Program E R α).eval answer = a := rfl

@[simp]
theorem eval_bind {answer : (e : E) → R e} (p : Program E R α) (f : α → Program E R β) :
    (p >>= f).eval answer = (f (p.eval answer)).eval answer := by
  induction p with
  | done => rfl
  | call e next ih => exact ih (answer e)

variable {E' : Type} {R' : E' → Type}

def Program.embed (call : E → E') (back : (e : E) → R' (call e) → R e) : Program E R α → Program E' R' α
  | .done a => .done a
  | .call e next => .call (call e) fun r => (next (back e r)).embed call back

theorem obeys_embed {call : E → E'} {back : (e : E) → R' (call e) → R e} {d : Rules σ E' R'} {p : Program E R α} {t : σ}
    (couple : List (Σ e, R e) → σ → Prop) (hp : Obeys (traced ok) post p s) (hs : couple s t)
    (hcall : ∀ s t e, couple s t → ok s e → ∀ u, d.rely t u → ∀ r v, d.outcome u (call e) r v →
      d.guarantee u (call e) r v ∧ couple (s ++ [⟨e, back e r⟩]) v) :
    Obeys d (fun a v => ∃ s', post a s' ∧ couple s' v) (p.embed call back) t := by
  induction p generalizing s t with
  | done => exact ⟨s, hp, hs⟩
  | call e next ih =>
    intro u hu r v hv
    obtain ⟨hok, hnext⟩ := hp s rfl (back e r) _ rfl
    obtain ⟨hguarantee, hcouple⟩ := hcall s t e hs hok u hu r v hv
    exact ⟨hguarantee, ih (back e r) hnext hcouple⟩

end AstraSync.Programs
