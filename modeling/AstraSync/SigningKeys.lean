import Mathlib.Data.Int.Notation
import Mathlib.Data.List.Basic

namespace AstraSync.SigningKeys

structure JsonWebKey (J : Type) where
  keyID : String
  fields : J

structure Discovery where
  (issuer jwksURI : String)

structure Fetches (J : Type) where
  discovery : Option Discovery
  document : Option (List (JsonWebKey J))

structure Validator (J K : Type) where
  issuer : String
  (cacheTTL staleIfError : ℤ)
  validURI : String → Bool
  verificationKey : JsonWebKey J → Option K
  bounds : 0 < cacheTTL ∧ 0 ≤ staleIfError

structure Cache (K : Type) where
  keys : List (String × K)
  (expiresAt staleUntil : ℤ)

variable {J K : Type} (v : Validator J K)

def addKey (keys : List (String × K)) (encoded : JsonWebKey J) : Option (List (String × K)) := do
  let key ← v.verificationKey encoded
  if (keys.lookup encoded.keyID).isSome then none else some ((encoded.keyID, key) :: keys)

def jwks (fetches : Fetches J) : Option (List (String × K)) :=
  match fetches.discovery, fetches.document with
  | some discovery, some document =>
    if discovery.issuer ≠ v.issuer ∨ v.validURI discovery.jwksURI = false ∨ document.length = 0 ∨ 128 < document.length
    then none else document.foldlM (addKey v) []
  | _, _ => none

def refreshLocked (now : ℤ) (fetches : Fetches J) : Option (Cache K) :=
  (jwks v fetches).map fun keys => ⟨keys, now + v.cacheTTL, now + v.cacheTTL + v.staleIfError⟩

def verificationKey (c : Cache K) (now : ℤ) (keyID : String) (fetches : Fetches J) : Cache K × Option K :=
  if (c.keys.lookup keyID).isSome ∧ now < c.expiresAt then (c, c.keys.lookup keyID)
  else match refreshLocked v now fetches with
    | some fresh => (fresh, fresh.keys.lookup keyID)
    | none => (c, if now < c.staleUntil then c.keys.lookup keyID else none)

structure Validation (J : Type) where
  now : ℤ
  keyID : String
  fetches : Fetches J

abbrev History (K : Type) := List (ℤ × List (String × K))

/-- The set that reaches the validator: one that the cache answers fetches nothing. -/
def delivered (c : Cache K) (a : Validation J) : Option (ℤ × List (String × K)) :=
  if (c.keys.lookup a.keyID).isSome ∧ a.now < c.expiresAt then none else (jwks v a.fetches).map fun keys => (a.now, keys)

def validate (s : Cache K × History K) (a : Validation J) : Cache K × History K :=
  ((verificationKey v s.1 a.now a.keyID a.fetches).1, s.2 ++ (delivered v s.1 a).toList)

def run (validations : List (Validation J)) : Cache K × History K := validations.foldl (validate v) (⟨[], 0, 0⟩, [])

variable {v} {s : Cache K × History K} {key : K}

def Cached (v : Validator J K) (s : Cache K × History K) : Prop :=
  s.1.keys = [] ∨ ∃ time, s.2.getLast? = some (time, s.1.keys) ∧ s.1.expiresAt = time + v.cacheTTL ∧
    s.1.staleUntil = time + v.cacheTTL + v.staleIfError

theorem validate_cases (v : Validator J K) (s : Cache K × History K) (a : Validation J) :
    (∃ keys, delivered v s.1 a = some (a.now, keys) ∧ verificationKey v s.1 a.now a.keyID a.fetches =
        (⟨keys, a.now + v.cacheTTL, a.now + v.cacheTTL + v.staleIfError⟩, keys.lookup a.keyID)) ∨
      delivered v s.1 a = none ∧ (verificationKey v s.1 a.now a.keyID a.fetches).1 = s.1 ∧
        ∀ key, (verificationKey v s.1 a.now a.keyID a.fetches).2 = some key →
          (a.now < s.1.expiresAt ∨ a.now < s.1.staleUntil) ∧ s.1.keys.lookup a.keyID = some key := by
  unfold verificationKey delivered refreshLocked
  by_cases hcached : (s.1.keys.lookup a.keyID).isSome ∧ a.now < s.1.expiresAt
  · rw [if_pos hcached, if_pos hcached]
    exact .inr ⟨rfl, rfl, fun key hkey => ⟨.inl hcached.2, hkey⟩⟩
  · rw [if_neg hcached, if_neg hcached]
    cases jwks v a.fetches with
    | some keys => exact .inl ⟨keys, rfl, rfl⟩
    | none =>
      refine .inr ⟨rfl, rfl, fun key hkey => ?_⟩
      simp only [Option.map_none] at hkey
      split_ifs at hkey with hnow
      exact ⟨.inr hnow, hkey⟩

theorem validate_cached (h : Cached v s) (a : Validation J) : Cached v (validate v s a) := by
  unfold validate
  rcases validate_cases v s a with ⟨keys, hdelivered, heq⟩ | ⟨hdelivered, heq, -⟩ <;> rw [hdelivered, heq]
  · exact .inr ⟨a.now, by simp, rfl, rfl⟩
  · simpa using h

theorem run_cached (validations : List (Validation J)) : Cached v (run v validations) :=
  List.foldlRecOn (motive := Cached v) validations _ (.inl rfl) fun _ h a _ => validate_cached h a

theorem validate_used (h : Cached v s) {a : Validation J}
    (hkey : (verificationKey v s.1 a.now a.keyID a.fetches).2 = some key) :
    ∃ time keys, (validate v s a).2.getLast? = some (time, keys) ∧ keys.lookup a.keyID = some key ∧
      a.now ≤ time + v.cacheTTL + v.staleIfError := by
  have hbounds := v.bounds
  unfold validate
  rcases validate_cases v s a with ⟨keys, hdelivered, heq⟩ | ⟨hdelivered, -, hused⟩ <;> rw [hdelivered]
  · rw [heq] at hkey
    exact ⟨a.now, keys, by simp, hkey, by omega⟩
  · obtain ⟨hnow, hlookup⟩ := hused key hkey
    rcases h with h | ⟨time, hlast, hexpires, huntil⟩
    · rw [h] at hlookup
      cases hlookup
    · exact ⟨time, s.1.keys, by simpa using hlast, hlookup, by omega⟩

/-- A key that is used is one of the last set that was delivered, which is not too old; so a key that a delivered set
lacks is used only after a later set has it. -/
theorem run_fresh (validations : List (Validation J)) (a : Validation J)
    (hkey : (verificationKey v (run v validations).1 a.now a.keyID a.fetches).2 = some key) :
    (∃ time keys, (run v (validations ++ [a])).2.getLast? = some (time, keys) ∧ keys.lookup a.keyID = some key ∧
        a.now ≤ time + v.cacheTTL + v.staleIfError) ∧
      ∀ before after time keys, (run v (validations ++ [a])).2 = before ++ (time, keys) :: after →
        keys.lookup a.keyID = none → ∃ later ∈ after, later.2.lookup a.keyID = some key := by
  have hrun : run v (validations ++ [a]) = validate v (run v validations) a := by simp [run]
  obtain ⟨time, keys, hlast, hlookup, hnow⟩ := validate_used (run_cached validations) hkey
  rw [hrun]
  refine ⟨⟨time, keys, hlast, hlookup, hnow⟩, fun before after time' keys' hsplit hnone => ?_⟩
  rw [hsplit] at hlast
  rcases List.eq_nil_or_concat after with rfl | ⟨front, last, rfl⟩
  · have heq : (time', keys') = (time, keys) := by simpa using hlast
    cases heq
    rw [hlookup] at hnone
    cases hnone
  · have heq : last = (time, keys) := by
      rw [List.concat_eq_append, ← List.cons_append, ← List.append_assoc, List.getLast?_concat] at hlast
      exact Option.some_inj.mp hlast
    exact ⟨last, by simp, heq ▸ hlookup⟩

def sampleValidator : Validator ℕ ℕ := ⟨"i", 900, 300, fun _ => true, fun encoded => some encoded.fields, by decide⟩

def asking (now : ℤ) (keyID : String) (document : Option (List (JsonWebKey ℕ))) : Validation ℕ :=
  ⟨now, keyID, some ⟨"i", "u"⟩, document⟩

/-- The set delivered at 950 drops the first key, and the one at 960 lists another under its name. The fetch at 1900
fails, and what is used then is still the last set's. -/
def rotated : List (Validation ℕ) :=
  [asking 5 "k" (some [⟨"k", 7⟩]), asking 950 "l" (some [⟨"l", 8⟩]), asking 960 "k" (some [⟨"l", 8⟩, ⟨"k", 9⟩])]

theorem run_fresh_rotated :
    (∃ time keys, (run sampleValidator (rotated ++ [asking 1900 "k" none])).2.getLast? = some (time, keys) ∧
      keys.lookup "k" = some 9 ∧ 1900 ≤ time + 900 + 300) ∧
    ∀ before after time keys, (run sampleValidator (rotated ++ [asking 1900 "k" none])).2 = before ++ (time, keys) :: after →
      keys.lookup "k" = none → ∃ later ∈ after, later.2.lookup "k" = some 9 :=
  run_fresh rotated (asking 1900 "k" none) rfl

end AstraSync.SigningKeys
