import Mathlib.Data.Option.Basic
import Mathlib.Tactic.SplitIfs

/-!
The log of the requests that were carried out, by a key that the client chooses: a request with a key that is in the
log is answered from it, provided that it is the same request.
-/

namespace AstraSync.CompletedRequests

structure Entry (K D R : Type) where
  key : K
  digest : D
  result : R

inductive Lookup (R : Type)
  | fresh
  | reused
  | replay (result : R)

variable {K D R : Type} [DecidableEq K] [DecidableEq D]

def look (log : List (Entry K D R)) (key : K) (digest : D) : Lookup R :=
  match log.find? fun e => e.key = key with
  | none => .fresh
  | some e => if e.digest = digest then .replay e.result else .reused

def Stands (log : List (Entry K D R)) (e : Entry K D R) : Prop := (log.find? fun x => x.key = e.key) = some e

variable {log : List (Entry K D R)} {key : K} {digest : D} {e : Entry K D R}

omit [DecidableEq D] in
theorem stands_append (h : Stands log e) (more : List (Entry K D R)) : Stands (log ++ more) e := by
  rw [Stands, List.find?_append, show log.find? _ = _ from h]
  rfl

omit [DecidableEq D] in
theorem stands_filter {p : Entry K D R → Bool} (h : Stands log e) (hp : ∀ x ∈ log, x.key = e.key → p x = true) :
    Stands (log.filter p) e := by
  induction log with
  | nil => exact h
  | cons x rest ih =>
    have hrest := fun h => ih h fun y hy => hp y (List.mem_cons_of_mem x hy)
    by_cases hkey : x.key = e.key
    · rw [Stands, List.find?_cons_of_pos (by simpa using hkey)] at h
      rw [Stands, List.filter_cons_of_pos (hp x List.mem_cons_self hkey), List.find?_cons_of_pos (by simpa using hkey)]
      exact h
    · rw [Stands, List.find?_cons_of_neg (by simpa using hkey)] at h
      cases hx : p x with
      | true =>
        rw [Stands, List.filter_cons_of_pos hx, List.find?_cons_of_neg (by simpa using hkey)]
        exact hrest h
      | false =>
        rw [Stands, List.filter_cons_of_neg (by simp [hx])]
        exact hrest h

theorem stands_fresh (h : look log key digest = .fresh) (result : R) :
    Stands (log ++ [⟨key, digest, result⟩]) ⟨key, digest, result⟩ := by
  unfold look at h
  split at h
  · next hnone =>
    rw [Stands, List.find?_append, hnone]
    simp
  · split_ifs at h

theorem stands_replay {result : R} (h : look log key digest = .replay result) : Stands log ⟨key, digest, result⟩ := by
  unfold look at h
  split at h
  · cases h
  · next x hx =>
    split_ifs at h with hdigest
    cases h
    have hkey : x.key = key := by simpa using List.find?_some hx
    cases hkey
    cases hdigest
    exact hx

theorem look_stands (h : Stands log e) : look log e.key e.digest = .replay e.result := by
  unfold look
  rw [show (log.find? fun x => x.key = e.key) = some e from h]
  simp

end AstraSync.CompletedRequests
