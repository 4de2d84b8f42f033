import Mathlib.Data.Int.Notation

namespace AstraSync.ArrowTimestamps

structure Instant where
  (epochSecond nano : ℤ)
  second_bounds : -31557014167219200 ≤ epochSecond ∧ epochSecond ≤ 31556889864403199
  nano_bounds : 0 ≤ nano ∧ nano < 1000000000

def Instant.nanos (t : Instant) : ℤ := t.epochSecond * 1000000000 + t.nano

def long (x : ℤ) : Bool := -9223372036854775808 ≤ x ∧ x ≤ 9223372036854775807

def exact (x : ℤ) : Option ℤ := if long x then some x else none

def toEpochNanos (t : Instant) : Option ℤ := do exact ((← exact (t.epochSecond * 1000000000)) + t.nano)

def ofEpochSecond (seconds nanoAdjustment : ℤ) : Option Instant :=
  let second := seconds + nanoAdjustment / 1000000000
  if h : -31557014167219200 ≤ second ∧ second ≤ 31556889864403199 then
    some ⟨second, nanoAdjustment % 1000000000, h, by omega⟩
  else none

def instant (epochNanos : ℤ) : Option Instant := ofEpochSecond (epochNanos / 1000000000) (epochNanos % 1000000000)

theorem long_iff {x : ℤ} : long x = true ↔ -9223372036854775808 ≤ x ∧ x ≤ 9223372036854775807 := decide_eq_true_iff

theorem instant_nanos (t : Instant) : instant t.nanos = some t := by
  have hsecond := t.second_bounds
  have hnano := t.nano_bounds
  have hfloor : t.nanos / 1000000000 + t.nanos % 1000000000 / 1000000000 = t.epochSecond := by
    unfold Instant.nanos
    omega
  have hrest : t.nanos % 1000000000 % 1000000000 = t.nano := by
    unfold Instant.nanos
    omega
  simp only [instant, ofEpochSecond, hfloor, hrest]
  exact dif_pos hsecond

theorem toEpochNanos_eq (t : Instant) :
    toEpochNanos t = if long (t.epochSecond * 1000000000) ∧ long t.nanos then some t.nanos else none := by
  unfold toEpochNanos exact
  cases hproduct : long (t.epochSecond * 1000000000) <;> simp [Instant.nanos]

/-- The product overflows alone in the last part of the earliest second, and nowhere else. -/
theorem toEpochNanos_exact (t : Instant) :
    (((toEpochNanos t).isSome ↔ long t.nanos) ↔ (t.epochSecond = -9223372037 → t.nano < 145224192)) ∧
      ∀ n, toEpochNanos t = some n → instant n = some t := by
  have hnano := t.nano_bounds
  have hproduct : (long t.nanos → long (t.epochSecond * 1000000000)) ↔
      (t.epochSecond = -9223372037 → t.nano < 145224192) := by
    rw [long_iff, long_iff, Instant.nanos]
    omega
  rw [toEpochNanos_eq, ← hproduct]
  constructor
  · by_cases hlong : long t.nanos <;> simp [hlong]
  · intro n hn
    split at hn <;> cases hn
    exact instant_nanos t

theorem earliest_refused : ∃ t : Instant, long t.nanos ∧ toEpochNanos t = none :=
  ⟨⟨-9223372037, 145224192, by decide, by decide⟩, by decide, by decide⟩

end AstraSync.ArrowTimestamps
