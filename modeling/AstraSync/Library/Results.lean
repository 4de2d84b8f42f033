import Mathlib.Data.List.Basic

namespace AstraSync.Results

variable {ε α β : Type}

theorem bind_eq_ok {x : Except ε α} {f : α → Except ε β} {b : β} : x >>= f = .ok b ↔ ∃ a, x = .ok a ∧ f a = .ok b := by
  cases x <;> simp [bind, Except.bind]

theorem bind_rest {x : Except ε Unit} {f : Unit → Except ε β} {b : β} (h : x >>= f = .ok b) : f () = .ok b := by
  obtain ⟨⟨⟩, -, h⟩ := bind_eq_ok.mp h
  exact h

theorem mapError_ok {ε' : Type} {f : ε → ε'} {x : Except ε α} {a : α} (h : x.mapError f = .ok a) : x = .ok a := by
  cases x <;> cases h
  rfl

theorem mapError_of_ok {ε' : Type} {f : ε → ε'} {x : Except ε α} {a : α} (h : x = .ok a) : x.mapError f = .ok a := by
  rw [h]
  rfl

theorem toOption_eq_some {x : Except ε α} {a : α} : x.toOption = some a ↔ x = .ok a := by
  cases x <;> simp [Except.toOption]

def check (condition : Bool) (e : ε) : Except ε Unit := if condition then .ok () else .error e

theorem check_ok {condition : Bool} {e : ε} {u : Unit} : check condition e = .ok u ↔ condition = true := by
  unfold check
  split_ifs with h <;> simp [h]

def refuse (e : String → ε) : Option String → Except ε Unit
  | some message => .error (e message)
  | none => .ok ()

theorem refuse_ok {e : String → ε} {message : Option String} {u : Unit} : refuse e message = .ok u ↔ message = none := by
  cases message <;> simp [refuse]

theorem mapM_ok {f : α → Except ε β} {as : List α} {bs : List β} (h : as.mapM f = .ok bs) : as.map f = bs.map .ok := by
  induction as generalizing bs with
  | nil => cases h; rfl
  | cons a as ih =>
    rw [List.mapM_cons, bind_eq_ok] at h
    obtain ⟨b, ha, h⟩ := h
    obtain ⟨bs', hrest, h⟩ := bind_eq_ok.mp h
    cases h
    rw [List.map_cons, List.map_cons, ha, ih hrest]

end AstraSync.Results
