import AstraSync.Library.ByteStrings
import Mathlib.Data.List.TakeWhile

namespace AstraSync.SignedNumerals

open ByteStrings

def minus : UInt8 := 45

def plus : UInt8 := 43

theorem toInt_add_one (x : Int64) : (x + 1).toInt = (x.toInt + 1).bmod (2 ^ 64) := by
  simp [Int64.toInt_add]

variable {x : Int64} {width : ℕ}

theorem toInt_add_one_of_lt (h : x.toInt + 1 < 2 ^ 63) : (x + 1).toInt = x.toInt + 1 := by
  have hx := x.le_toInt
  rw [toInt_add_one, Int.bmod_eq_of_le (by omega) (by omega)]

theorem toInt_succ (h : 0 < x + 1) : (x + 1).toInt = x.toInt + 1 := by
  have hx := x.toInt_lt
  rcases lt_or_ge (x.toInt + 1) (2 ^ 63) with hlt | hge
  · exact toInt_add_one_of_lt hlt
  · have hmax : x.toInt + 1 = 2 ^ 63 := by omega
    rw [Int64.lt_iff_toInt_lt, toInt_add_one, hmax] at h
    exact absurd h (by decide)

theorem le_succ_iff {n : Int64} (h : 0 < x + 1) : n ≤ x + 1 ↔ n ≤ x ∨ n = x + 1 := by
  rw [Int64.le_iff_toInt_le, Int64.le_iff_toInt_le, ← Int64.toInt_inj, toInt_succ h]
  omega

theorem lt_succ_self (h : 0 < x + 1) : x < x + 1 := by
  rw [Int64.lt_iff_toInt_lt, toInt_succ h]
  omega

theorem succ_ne (x : Int64) : x + 1 ≠ x := by
  intro h
  simp at h

theorem toInt_ofInt_toNat (h : 0 ≤ x) : Int64.ofInt x.toInt.toNat = x := by
  rw [Int64.le_iff_toInt_le, Int64.toInt_zero] at h
  rw [Int.toNat_of_nonneg h, Int64.ofInt_toInt]

def paddedInt (width : ℕ) (x : Int64) : Bytes :=
  if x.toInt < 0 then minus :: padded (width - 1) x.toInt.natAbs else padded width x.toInt.toNat

theorem paddedInt_of_nonneg (h : 0 ≤ x) : paddedInt width x = padded width x.toInt.toNat := by
  rw [Int64.le_iff_toInt_le, Int64.toInt_zero] at h
  exact if_neg (not_lt.mpr h)

theorem paddedInt_inj {y : Int64} (hx : 0 ≤ x) (hy : 0 ≤ y) (h : paddedInt width x = paddedInt width y) : x = y := by
  rw [paddedInt_of_nonneg hx, paddedInt_of_nonneg hy] at h
  rw [← toInt_ofInt_toNat hx, padded_injective width h, toInt_ofInt_toNat hy]

def parseDigits (s : Bytes) : Option ℕ :=
  if !s.isEmpty && s.all isDigit then some (numeral s) else none

def unsign : Bytes → Bool × Bytes
  | [] => (false, [])
  | b :: s => if b = minus then (true, s) else if b = plus then (false, s) else (false, b :: s)

def parseInt (s : Bytes) : Option Int64 :=
  let (negative, digits) := unsign s
  (parseDigits digits).bind fun n =>
    if negative then if n ≤ 2 ^ 63 then some (Int64.ofInt (-n)) else none
    else if n < 2 ^ 63 then some (Int64.ofInt n) else none

theorem parseDigits_padded (width n : ℕ) : parseDigits (padded width n) = some n := by
  have hdigits : (!(padded width n).isEmpty && (padded width n).all isDigit) = true := by
    simpa [padded_ne_nil width n] using padded_digits width n
  rw [parseDigits, if_pos hdigits, numeral_padded]

theorem unsign_of_digits {s : Bytes} (h : ∀ b ∈ s, isDigit b = true) : unsign s = (false, s) := by
  cases s with
  | nil => rfl
  | cons b s =>
    have hb := h b (by simp)
    have hm : b ≠ minus := by rintro rfl; simp [isDigit, minus] at hb
    have hp : b ≠ plus := by rintro rfl; simp [isDigit, plus] at hb
    simp [unsign, hm, hp]

theorem parseInt_paddedInt (width : ℕ) (h : 0 ≤ x) : parseInt (paddedInt width x) = some x := by
  have hx := x.toInt_lt
  rw [paddedInt_of_nonneg h, parseInt, unsign_of_digits (padded_digits _ _)]
  simp only [parseDigits_padded, Option.bind_some]
  rw [if_neg (by simp), if_pos (by omega), toInt_ofInt_toNat h]

def scanInt (s : Bytes) : Option Int64 :=
  let rest := skipSpace s
  if 10 ∈ s.take (s.length - rest.length) then none
  else
    let digits := (unsign rest).2
    parseInt (rest.take (rest.length - digits.length) ++ digits.takeWhile isDigit)

theorem scanInt_paddedInt (h : 0 ≤ x) : scanInt (paddedInt width x) = some x := by
  have hdigits : ∀ b ∈ paddedInt width x, isDigit b = true := by
    rw [paddedInt_of_nonneg h]
    exact padded_digits _ _
  have hskip : skipSpace (paddedInt width x) = paddedInt width x := by
    cases hs : paddedInt width x with
    | nil => rfl
    | cons b s => exact skipSpace_digit (hdigits b (by simp [hs]))
  have hwhile : (paddedInt width x).takeWhile isDigit = paddedInt width x := List.takeWhile_eq_self_iff.mpr hdigits
  simp [scanInt, hskip, unsign_of_digits hdigits, hwhile, parseInt_paddedInt width h]

end AstraSync.SignedNumerals
