import AstraSync.CheckpointStore
import AstraSync.CommitTokens
import AstraSync.JobCompiler

namespace AstraSync.TokenIdentity

open ByteStrings CommitTokens CheckpointStore JobCompiler

def commitToken (sha256 : Bytes → Bytes) (jobId splitId : String) (sequence : ℤ) (batchDigest : String) :
    Option Bytes :=
  if isBlank jobId ∨ isBlank splitId ∨ sequence ≤ 0 ∨ isBlank batchDigest then none
  else some (forBatch sha256 jobId splitId sequence.toNat (utf8 batchDigest))

def hexadecimal (digest : String) : Bool :=
  digest.toList.all fun c => c.isDigit || ('a' ≤ c && c ≤ 'f') || ('A' ≤ c && c ≤ 'F')

theorem bar_mem_utf8EncodeChar {c : Char} (h : bar ∈ String.utf8EncodeChar c) : c = '|' := by
  have hbyte {n : ℕ} (hn : bar = UInt8.ofNat n) : n % 256 = 124 := by
    have := congrArg UInt8.toNat hn
    simpa [bar] using this.symm
  unfold String.utf8EncodeChar at h
  dsimp only at h
  split_ifs at h
  · have hval := hbyte (List.mem_singleton.mp h)
    exact Char.ext (UInt32.toNat_inj.mp (show c.val.toNat = 124 by omega))
  all_goals simp only [List.mem_cons, List.not_mem_nil, or_false] at h
  · rcases h with h | h <;> exact absurd (hbyte h) (by omega)
  · rcases h with h | h | h <;> exact absurd (hbyte h) (by omega)
  · rcases h with h | h | h | h <;> exact absurd (hbyte h) (by omega)

theorem bar_not_mem_utf8 {s : String} (h : '|' ∉ s.toList) : bar ∉ utf8 s := by
  intro hbar
  rw [utf8, ← String.utf8Encode_toList, List.utf8Encode, List.data_toByteArray] at hbar
  obtain ⟨c, hc, hmem⟩ := List.mem_flatMap.mp hbar
  exact h (bar_mem_utf8EncodeChar hmem ▸ hc)

theorem bar_not_mem_jobId {jobId : String} (h : requireJobId jobId = true) : bar ∉ utf8 jobId := by
  apply bar_not_mem_utf8
  intro hbar
  simp only [requireJobId, Bool.and_eq_true, List.all_eq_true] at h
  exact absurd (h.1.1.2 '|' hbar) (by decide)

theorem bar_not_mem_digest {digest : String} (h : hexadecimal digest = true) : bar ∉ utf8 digest := by
  apply bar_not_mem_utf8
  intro hbar
  exact absurd (List.all_eq_true.mp h '|' hbar) (by decide)

theorem commitToken_eq {sha256 : Bytes → Bytes} {jobId splitId digest : String} {sequence : ℤ} {token : Bytes}
    (h : commitToken sha256 jobId splitId sequence digest = some token) :
    0 < sequence ∧ token = forBatch sha256 jobId splitId sequence.toNat (utf8 digest) := by
  unfold commitToken at h
  split_ifs at h with hrefused
  exact ⟨by omega, (Option.some_inj.mp h).symm⟩

theorem commitToken_identifies {sha256 : Bytes → Bytes} {jobId jobId' splitId splitId' digest digest' : String}
    {sequence sequence' : ℤ} {token token' : Bytes}
    (hsha : Set.InjOn sha256 {canonical jobId splitId sequence.toNat (utf8 digest),
      canonical jobId' splitId' sequence'.toNat (utf8 digest')})
    (hjob : requireJobId jobId = true) (hjob' : requireJobId jobId' = true) (hdigest : hexadecimal digest = true)
    (hdigest' : hexadecimal digest' = true) (h : commitToken sha256 jobId splitId sequence digest = some token)
    (h' : commitToken sha256 jobId' splitId' sequence' digest' = some token') :
    token = token' ↔ jobId = jobId' ∧ splitId = splitId' ∧ sequence = sequence' ∧ digest = digest' := by
  obtain ⟨hpos, htoken⟩ := commitToken_eq h
  obtain ⟨hpos', htoken'⟩ := commitToken_eq h'
  constructor
  · intro heq
    rw [htoken, htoken'] at heq
    have hcanonical := hsha (Set.mem_insert _ _) (Set.mem_insert_of_mem _ rfl) (hexEncode_injective heq)
    obtain ⟨hjobs, -⟩ := sep_cancel_first (bar_not_mem_jobId hjob) (bar_not_mem_jobId hjob')
      (show utf8 jobId ++ bar :: _ = utf8 jobId' ++ bar :: _ by simpa [canonical] using hcanonical)
    obtain rfl := utf8_injective hjobs
    obtain ⟨hsplit, hsequence, hdigests⟩ := canonical_inj (bar_not_mem_digest hdigest) (bar_not_mem_digest hdigest')
      hcanonical
    exact ⟨rfl, hsplit, by omega, utf8_injective hdigests⟩
  · rintro ⟨rfl, rfl, rfl, rfl⟩
    exact htoken.trans htoken'.symm

theorem commitToken_identifies_separators :
    ∃ token token', commitToken id "a" "b|1" 2 "0f" = some token ∧ commitToken id "a" "b" 1 "0f" = some token' ∧
      (token = token' ↔ "a" = "a" ∧ "b|1" = "b" ∧ (2 : ℤ) = 1 ∧ "0f" = "0f") :=
  ⟨_, _, rfl, rfl, commitToken_identifies (Set.injOn_id _) (by decide) (by decide) (by decide) (by decide) rfl rfl⟩

end AstraSync.TokenIdentity
