import Mathlib.Algebra.Order.Field.Rat
import Mathlib.Data.Option.Basic
import Mathlib.Tactic.Linarith
import Mathlib.Tactic.NormNum

namespace AstraSync.TokenTimes

structure Numeral where
  negative : Bool
  integer : ℕ
  fraction : Option (ℕ × ℕ)
  exponent : Option ℤ
  deriving DecidableEq

def Numeral.value (n : Numeral) : ℚ :=
  (if n.negative then -1 else 1) * (n.integer + n.fraction.elim 0 fun f => (f.1 : ℚ) / 10 ^ f.2) *
    n.exponent.elim 1 fun e => (10 : ℚ) ^ e

def Numeral.signed (n : Numeral) : ℤ := if n.negative then -n.integer else n.integer

def Numeral.int64 (n : Numeral) : Option ℤ :=
  if n.fraction = none ∧ n.exponent = none ∧ -2 ^ 63 ≤ n.signed ∧ n.signed < 2 ^ 63 then some n.signed else none

inductive RawClaim
  | number (n : Numeral)
  | quoted (n : Numeral)
  | other

abbrev Claims := String → Option RawClaim

def unixToInternal : ℤ := 62135596800

def second : ℤ := 10 ^ 9

def unix (seconds : ℤ) : ℤ := (seconds + unixToInternal).bmod (2 ^ 64) * second

def add (t d : ℤ) : ℤ := if (t + d) / second < 2 ^ 63 then t + d else (2 ^ 63 - 1) * second + (t + d) % second

def sub (t u : ℤ) : ℤ := max (-2 ^ 63) (min (2 ^ 63 - 1) (t - u))

def claimNumericDate (claims : Claims) (name : String) : Option ℤ :=
  match claims name with
  | some (.number n) | some (.quoted n) => n.int64.bind fun seconds => if seconds ≤ 0 then none else some (unix seconds)
  | _ => none

structure Validator where
  (clockSkew maximumTokenLifetime : ℤ)
  skew_nonneg : 0 ≤ clockSkew
  skew_le : clockSkew ≤ 300 * second
  lifetime_le : maximumTokenLifetime ≤ 7 * 24 * 3600 * second

structure ValidatedToken where
  identity : String × String
  nonce : String
  expiresAt : ℤ
  issuedAt : Option ℤ

/-- `authenticate` stands for what comes before the times: the token's form, its signature, the dimensions of its
claims, issuer, subject and audience. -/
def validateToken (v : Validator) (authenticate : String → Option (Claims × String × String))
    (claimNonce : Claims → Option String) (rawToken : String) (now : ℤ) : Option ValidatedToken := do
  let (claims, identity) ← authenticate rawToken
  let expiresAt ← claimNumericDate claims "exp"
  guard (now ≤ add expiresAt v.clockSkew)
  guard ((claimNumericDate claims "nbf").all fun notBefore => notBefore ≤ add now v.clockSkew)
  let issuedAt := claimNumericDate claims "iat"
  guard (issuedAt.all fun issued => issued ≤ add now v.clockSkew ∧ sub expiresAt issued ≤ v.maximumTokenLifetime)
  let nonce ← claimNonce claims
  return ⟨identity, nonce, expiresAt, issuedAt⟩

def Numeral.instant (n : Numeral) : ℚ := (n.value + unixToInternal) * second

/-- A number of whole seconds after 1970, written without fraction and exponent, that `time.Time` can hold. -/
structure Numeral.Plain (n : Numeral) : Prop where
  fraction : n.fraction = none
  exponent : n.exponent = none
  pos : 0 < n.signed
  lt : n.signed + unixToInternal < 2 ^ 63

/-- Whole seconds that `json.Number` reads and `time.Unix` wraps into the past. -/
def Numeral.Wrapped (n : Numeral) : Prop := n.int64.isSome = true ∧ 2 ^ 63 ≤ n.signed + unixToInternal

def Claims.holds (claims : Claims) (name : String) (n : Numeral) : Prop :=
  claims name = some (.number n) ∨ claims name = some (.quoted n)

section

variable {n : Numeral} {claims : Claims} {name : String} {t : ℤ}

theorem value_signed (hf : n.fraction = none) (he : n.exponent = none) : n.value = n.signed := by
  unfold Numeral.value Numeral.signed
  rw [hf, he]
  split_ifs <;> simp

theorem Claims.holds.unique {m : Numeral} (h : claims.holds name n) (h' : claims.holds name m) : n = m := by
  rcases h with h | h <;> rcases h' with h' | h' <;> rw [h] at h' <;> cases h' <;> rfl

theorem holds_of_date (h : claimNumericDate claims name = some t) : ∃ n, claims.holds name n := by
  unfold claimNumericDate at h
  split at h
  · next n hclaim => exact ⟨n, .inl hclaim⟩
  · next n hclaim => exact ⟨n, .inr hclaim⟩
  · cases h

theorem date_cases (hclaim : claims.holds name n) :
    n.Plain ∧ (∃ t, claimNumericDate claims name = some t ∧ (t : ℚ) = n.instant) ∨
      n.Wrapped ∧ (∃ t, claimNumericDate claims name = some t ∧ t < -2 ^ 62) ∨
      ¬ n.Plain ∧ ¬ n.Wrapped ∧ claimNumericDate claims name = none := by
  have hdate : claimNumericDate claims name =
      n.int64.bind fun seconds => if seconds ≤ 0 then none else some (unix seconds) := by
    rcases hclaim with hclaim | hclaim <;> simp only [claimNumericDate, hclaim]
  rw [hdate]
  by_cases hform : n.fraction = none ∧ n.exponent = none ∧ -2 ^ 63 ≤ n.signed ∧ n.signed < 2 ^ 63
  · have hint : n.int64 = some n.signed := if_pos hform
    rw [Numeral.Wrapped, hint, Option.bind_some]
    by_cases hpos : n.signed ≤ 0
    · refine .inr (.inr ⟨fun hplain => absurd hplain.pos (by omega), fun hwrapped => ?_, if_pos hpos⟩)
      have hlate := hwrapped.2
      unfold unixToInternal at hlate
      omega
    · rw [if_neg hpos]
      by_cases hlt : n.signed + unixToInternal < 2 ^ 63
      · refine .inl ⟨⟨hform.1, hform.2.1, by omega, hlt⟩, _, rfl, ?_⟩
        have hsum : (n.signed + unixToInternal).bmod (2 ^ 64) = n.signed + unixToInternal := by
          unfold unixToInternal at hlt ⊢
          exact Int.bmod_eq_of_le (by omega) (by omega)
        rw [unix, hsum, Numeral.instant, value_signed hform.1 hform.2.1]
        push_cast
        rfl
      · refine .inr (.inl ⟨⟨rfl, by omega⟩, _, rfl, ?_⟩)
        unfold unix second unixToInternal at *
        rw [Int.bmod_def, Int.emod_eq_of_lt (by omega) (by omega), if_neg (by omega)]
        omega
  · have hint : n.int64 = none := if_neg hform
    refine .inr (.inr ⟨fun hplain => hform ⟨hplain.fraction, hplain.exponent, ?_⟩, by simp [Numeral.Wrapped, hint], by simp [hint]⟩)
    obtain ⟨-, -, hpos, hlt⟩ := hplain
    unfold unixToInternal at hlt
    omega

theorem date_plain (hplain : n.Plain) (hclaim : claims.holds name n) :
    ∃ t, claimNumericDate claims name = some t ∧ (t : ℚ) = n.instant := by
  rcases date_cases hclaim with ⟨-, h⟩ | ⟨hwrapped, -⟩ | ⟨hnot, -⟩
  · exact h
  · exact absurd hwrapped.2 (not_le.mpr hplain.lt)
  · exact absurd hplain hnot

end

variable {v : Validator} {claims : Claims} {now : ℤ}

theorem le_add {t d : ℤ} (h : now ≤ add t d) : now ≤ t + d := by
  unfold add at h
  split_ifs at h with hsum
  · exact h
  · unfold second at *
    omega

/-- Some token with these claims is accepted. -/
def Accepts (v : Validator) (claims : Claims) (now : ℤ) : Prop :=
  ∃ authenticate claimNonce rawToken identity, authenticate rawToken = some (claims, identity) ∧
    (validateToken v authenticate claimNonce rawToken now).isSome = true

theorem Accepts.times (h : Accepts v claims now) :
    ∃ expiresAt, claimNumericDate claims "exp" = some expiresAt ∧ now ≤ expiresAt + v.clockSkew ∧
      (∀ t, claimNumericDate claims "nbf" = some t → t ≤ now + v.clockSkew) ∧
      ∀ t, claimNumericDate claims "iat" = some t → t ≤ now + v.clockSkew ∧ expiresAt - t ≤ v.maximumTokenLifetime := by
  obtain ⟨authenticate, claimNonce, rawToken, identity, hclaims, h⟩ := h
  obtain ⟨token, h⟩ := Option.isSome_iff_exists.mp h
  unfold validateToken at h
  rw [hclaims] at h
  obtain ⟨_, heq, h⟩ := Option.bind_eq_some_iff.mp h
  cases heq
  obtain ⟨expiresAt, hexp, h⟩ := Option.bind_eq_some_iff.mp h
  obtain ⟨_, hafter, h⟩ := Option.bind_eq_some_iff.mp h
  obtain ⟨_, hnbf, h⟩ := Option.bind_eq_some_iff.mp h
  obtain ⟨_, hiat, -⟩ := Option.bind_eq_some_iff.mp h
  rw [Option.guard_eq_some'] at hafter hnbf hiat
  refine ⟨expiresAt, hexp, le_add hafter, fun t ht => le_add ?_, fun t ht => ?_⟩
  · simpa [ht] using hnbf
  · rw [ht] at hiat
    have hlifetime := v.lifetime_le
    obtain ⟨hissued, hsub⟩ := of_decide_eq_true (p := _ ∧ _) hiat
    simp only [sub, second] at hsub hlifetime
    refine ⟨le_add hissued, ?_⟩
    omega

theorem Accepts.exp (h : Accepts v claims now) (hnow : 0 ≤ now) :
    ∃ exp : Numeral, claims.holds "exp" exp ∧ exp.Plain ∧ (now : ℚ) ≤ exp.instant + v.clockSkew := by
  obtain ⟨expiresAt, hexp, hafter, -⟩ := h.times
  obtain ⟨exp, hclaim⟩ := holds_of_date hexp
  rcases date_cases hclaim with ⟨hplain, t, ht, hvalue⟩ | ⟨-, t, ht, hpast⟩ | ⟨-, -, ht⟩ <;> rw [hexp] at ht <;> cases ht
  · exact ⟨exp, hclaim, hplain, by rw [← hvalue]; exact_mod_cast hafter⟩
  · have hskew := v.skew_le
    unfold second at hskew
    omega

theorem Accepts.nbf (h : Accepts v claims now) {nbf : Numeral} (hclaim : claims.holds "nbf" nbf) (hplain : nbf.Plain) :
    nbf.instant - v.clockSkew ≤ now := by
  obtain ⟨expiresAt, -, -, hnbf, -⟩ := h.times
  obtain ⟨t, ht, heq⟩ := date_plain hplain hclaim
  rw [← heq, sub_le_iff_le_add]
  exact_mod_cast hnbf t ht

theorem Accepts.iat (h : Accepts v claims now) (hnow : 0 ≤ now) {iat exp : Numeral} (hclaim : claims.holds "iat" iat)
    (hexp : claims.holds "exp" exp) (hform : iat.Plain ∨ iat.Wrapped) :
    iat.instant - v.clockSkew ≤ now ∧ exp.instant - iat.instant ≤ v.maximumTokenLifetime := by
  obtain ⟨exp', hexp', hplain, -⟩ := h.exp hnow
  obtain rfl := hexp.unique hexp'
  obtain ⟨e, he, hvalue⟩ := date_plain hplain hexp
  obtain ⟨expiresAt, hexpires, hafter, -, hiat⟩ := h.times
  rw [he] at hexpires
  cases hexpires
  rcases date_cases hclaim with ⟨-, t, ht, heq⟩ | ⟨-, t, ht, hpast⟩ | ⟨hplain, hwrapped, -⟩
  · rw [← heq, ← hvalue, sub_le_iff_le_add]
    exact_mod_cast hiat t ht
  · -- so long before its expiry is no token issued
    have hlong := (hiat t ht).2
    have hskew := v.skew_le
    have hlifetime := v.lifetime_le
    unfold second at hskew hlifetime
    omega
  · exact absurd hform (not_or.mpr ⟨hplain, hwrapped⟩)

/-- Claims that are in force from the start of time on until the first second of 1970. -/
def first : Numeral := ⟨false, 1, none, none⟩

def withClaim (name : String) (n : Numeral) (claim : String) : Option RawClaim :=
  if claim = name then some (.number n) else if claim = "exp" then some (.number first) else none

theorem accepts_start (v : Validator) (hexp : claims "exp" = some (.number first))
    (hnbf : ∀ t, claimNumericDate claims "nbf" = some t → t < 0) (hiat : claimNumericDate claims "iat" = none) :
    Accepts v claims 0 := by
  have hskew := v.skew_nonneg
  have hle := v.skew_le
  refine ⟨fun _ => some (claims, "", ""), fun _ => some "", "", ("", ""), rfl, ?_⟩
  have hdate : claimNumericDate claims "exp" = some (unix 1) := by
    simp only [claimNumericDate, hexp]
    rfl
  have hunix : unix 1 = 62135596801 * second := by decide
  have hafter : (0 : ℤ) ≤ add (unix 1) v.clockSkew := by
    unfold add
    split_ifs <;> unfold second at * <;> omega
  have hsum : add 0 v.clockSkew = v.clockSkew := by
    unfold add
    rw [if_pos (by unfold second at *; omega), zero_add]
  have hbefore : ((claimNumericDate claims "nbf").all fun notBefore => notBefore ≤ add 0 v.clockSkew) = true := by
    cases hdate : claimNumericDate claims "nbf" with
    | none => rfl
    | some t =>
      have hpast := hnbf t hdate
      simp only [Option.all_some, hsum, decide_eq_true_eq]
      omega
  simp [validateToken, hdate, hafter, hbefore, hiat, guard]

/-- The limit of `exp` always holds. The one of `nbf` is kept in every token and at every time if and only if it is
written so that the code reads it or lies before every time; those of `iat` if and only if it is written so that the code
reads it or wraps it, whereupon the token is refused. -/
theorem validateToken_within (v : Validator) :
    (∀ claims now, 0 ≤ now → Accepts v claims now →
      ∃ exp : Numeral, claims.holds "exp" exp ∧ (now : ℚ) ≤ exp.instant + v.clockSkew) ∧
    (∀ nbf : Numeral, (∀ claims now, 0 ≤ now → claims "nbf" = some (.number nbf) → Accepts v claims now →
      nbf.instant - v.clockSkew ≤ now) ↔ nbf.Plain ∨ nbf.instant ≤ v.clockSkew) ∧
    ∀ iat : Numeral, (∀ claims now, 0 ≤ now → claims "iat" = some (.number iat) → Accepts v claims now →
      ∀ exp : Numeral, claims.holds "exp" exp →
        iat.instant - v.clockSkew ≤ now ∧ exp.instant - iat.instant ≤ v.maximumTokenLifetime) ↔
      iat.Plain ∨ iat.Wrapped := by
  refine ⟨fun claims now hnow h => ?_, fun nbf => ⟨fun hall => ?_, ?_⟩, fun iat => ⟨fun hall => ?_, ?_⟩⟩
  · obtain ⟨exp, hclaim, -, hafter⟩ := h.exp hnow
    exact ⟨exp, hclaim, hafter⟩
  · have hclaim : Claims.holds (withClaim "nbf" nbf) "nbf" nbf := .inl rfl
    by_cases hplain : nbf.Plain
    · exact .inl hplain
    · have haccepts : Accepts v (withClaim "nbf" nbf) 0 := by
        refine accepts_start v rfl (fun t ht => ?_) rfl
        rcases date_cases hclaim with ⟨hread, -⟩ | ⟨-, t', ht', hpast⟩ | ⟨-, -, ht'⟩
        · exact absurd hread hplain
        all_goals
          rw [ht] at ht'
          cases ht'
        omega
      have hlimit := hall _ 0 le_rfl rfl haccepts
      exact .inr (by simpa using hlimit)
  · rintro (hplain | hearly) claims now hnow hclaim h
    · exact h.nbf (.inl hclaim) hplain
    · have hnow' : (0 : ℚ) ≤ now := by exact_mod_cast hnow
      linarith
  · have hclaim : Claims.holds (withClaim "iat" iat) "iat" iat := .inl rfl
    rcases date_cases hclaim with ⟨hplain, -⟩ | ⟨hwrapped, -⟩ | ⟨-, -, hnone⟩
    · exact .inl hplain
    · exact .inr hwrapped
    · have hlimits := hall _ 0 le_rfl rfl (accepts_start v rfl (fun t ht => by cases ht) hnone) first (.inl rfl)
      have hskew : (v.clockSkew : ℚ) ≤ 300 * second := by exact_mod_cast v.skew_le
      have hlifetime : (v.maximumTokenLifetime : ℚ) ≤ 7 * 24 * 3600 * second := by exact_mod_cast v.lifetime_le
      have hfirst : first.instant = 62135596801 * second := by norm_num [Numeral.instant, Numeral.value, first, unixToInternal]
      norm_num [hfirst, second] at hlimits hskew hlifetime
      linarith [hlimits.1, hlimits.2]
  · intro hform claims now hnow hclaim h exp hexp
    exact h.iat hnow (.inl hclaim) hexp hform

def sampleValidator : Validator := ⟨30 * second, 24 * 3600 * second, by decide, by decide, by decide⟩

def sampleClaims (nbf : Numeral) (name : String) : Option RawClaim :=
  if name = "exp" then some (.number ⟨false, 1800000000, none, none⟩) else if name = "nbf" then some (.number nbf) else none

def sampleToken (nbf : Numeral) : Option ValidatedToken :=
  validateToken sampleValidator (fun _ => some (sampleClaims nbf, "issuer", "subject")) (fun _ => some "") "token" (unix 1799999000)

/-- A token that is not valid before the year 3000, written with an exponent, is accepted in 2027. -/
theorem exponent_skips_notBefore : (sampleToken ⟨false, 325, none, some 8⟩).isSome = true ∧
      ((unix 1799999000 : ℤ) : ℚ) < (⟨false, 325, none, some 8⟩ : Numeral).instant - sampleValidator.clockSkew := by
  refine ⟨by decide +kernel, ?_⟩
  rw [show unix 1799999000 = 63935595800 * second by decide]
  norm_num [Numeral.instant, Numeral.value, sampleValidator, second, unixToInternal]

end AstraSync.TokenTimes
