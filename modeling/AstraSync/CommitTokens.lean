import AstraSync.Library.ByteStrings
import Mathlib.Logic.Function.Basic

namespace AstraSync.CommitTokens

open ByteStrings

def utf8 (s : String) : Bytes := s.toByteArray.data.toList

theorem utf8_injective : Function.Injective utf8 := by
  intro s t h
  have hbytes : s.toByteArray = t.toByteArray := ByteArray.ext (Array.toList_inj.mp h)
  exact String.toByteArray_inj.mp hbytes

def bar : UInt8 := 124

def hexEncode (bytes : Bytes) : Bytes :=
  bytes.flatMap fun b => [digit36 (b.toNat / 16), digit36 (b.toNat % 16)]

theorem hexEncode_injective : Function.Injective hexEncode := by
  intro x y h
  induction x generalizing y with
  | nil =>
    cases y with
    | nil => rfl
    | cons => cases h
  | cons a x ih =>
    cases y with
    | nil => cases h
    | cons b y =>
      simp only [hexEncode, List.flatMap_cons, List.cons_append, List.nil_append, List.cons.injEq] at h
      obtain ⟨hhigh, hlow, hrest⟩ := h
      have hdigit {m n : ℕ} (hm : m < 36) (hn : n < 36) (h : digit36 m = digit36 n) : m = n := by
        rw [← digit36Value_digit36 hm, h, digit36Value_digit36 hn]
      have ha := a.toNat_lt
      have hb := b.toNat_lt
      have hhigh' := hdigit (by omega) (by omega) hhigh
      have hlow' := hdigit (by omega) (by omega) hlow
      have hab : a = b := UInt8.toNat_inj.mp (by omega)
      rw [hab, ih hrest]

theorem bar_not_mem_hexEncode (bytes : Bytes) : bar ∉ hexEncode bytes := by
  have hdigit : ∀ d, d < 16 → bar ≠ digit36 d := by decide
  intro h
  obtain ⟨b, -, hb⟩ := List.mem_flatMap.mp h
  have hlt := b.toNat_lt
  simp only [List.mem_cons, List.not_mem_nil, or_false] at hb
  rcases hb with hb | hb
  · exact hdigit _ (by omega) hb
  · exact hdigit _ (by omega) hb

section

variable (sha256 : Bytes → Bytes)

def hexDigest (text : Bytes) : Bytes := hexEncode (sha256 text)

def canonical (jobId splitId : String) (sequence : ℕ) (batchDigest : Bytes) : Bytes :=
  lit "astrasync-v1|" ++ utf8 jobId ++ bar :: (utf8 splitId ++ bar :: decimal sequence) ++ bar :: batchDigest

def forBatch (jobId splitId : String) (sequence : ℕ) (batchDigest : Bytes) : Bytes :=
  hexDigest sha256 (canonical jobId splitId sequence batchDigest)

end

theorem bar_not_mem_decimal (n : ℕ) : bar ∉ decimal n :=
  fun h => absurd (decimal_digits n bar h) (by decide)

theorem decimal_injective : Function.Injective decimal :=
  Function.LeftInverse.injective numeral_decimal

theorem canonical_inj {jobId splitId splitId' : String} {q q' : ℕ} {d d' : Bytes} (hd : bar ∉ d) (hd' : bar ∉ d')
    (h : canonical jobId splitId q d = canonical jobId splitId' q' d') : splitId = splitId' ∧ q = q' ∧ d = d' := by
  obtain ⟨hfront, hdigest⟩ := sep_cancel hd hd' h
  obtain ⟨hsplit, hq⟩ := sep_cancel (bar_not_mem_decimal q) (bar_not_mem_decimal q')
    (List.cons_inj_right bar |>.mp (List.append_cancel_left hfront))
  exact ⟨utf8_injective hsplit, decimal_injective hq, hdigest⟩

abbrev Markers := Bytes → Option Bytes

inductive WriteError (ε : Type)
  | differentDigest
  | failed (e : ε)

def writeBatch {σ ε : Type} (write : σ → Except ε σ) (token batchDigest : Bytes) (markers : Markers) (target : σ) :
    Except (WriteError ε) (Markers × σ) :=
  match markers token with
  | some recorded => if recorded ≠ batchDigest then .error .differentDigest else .ok (markers, target)
  | none =>
    match write target with
    | .error e => .error (.failed e)
    | .ok target' => .ok (Function.update markers token (some batchDigest), target')

theorem writeBatch_ok {σ ε : Type} {write : σ → Except ε σ} {token batchDigest : Bytes}
    {markers markers' : Markers} {target target' : σ}
    (h : writeBatch write token batchDigest markers target = .ok (markers', target')) :
    (markers token = some batchDigest ∧ markers' = markers ∧ target' = target) ∨
      (markers token = none ∧ markers' = Function.update markers token (some batchDigest) ∧
        write target = .ok target') := by
  unfold writeBatch at h
  cases hm : markers token with
  | some => grind
  | none => grind

end AstraSync.CommitTokens
