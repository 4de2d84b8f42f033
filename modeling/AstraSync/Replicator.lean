import AstraSync.Library.SignedNumerals
import AstraSync.Library.Transitions
import AstraSync.WalEntry
import Mathlib.Data.List.Sort

namespace AstraSync.Replicator

open SignedNumerals WalEntry

structure ReplicatorConfig where
  (batchSize retryInitial retryMax : ℤ)

inductive ReplicatorError
  | invalid (detail : String)
  | gap (since : Int64)
  | notIncreasing
  | read (since : Int64)
  | canceled
  | encode (sequence : Int64)
  | nilEvent (sequence : Int64)
  | send (sequence : Int64)
  | persist (sequence : Int64)
  deriving DecidableEq

inductive Code
  | canceled
  | unknown
  | invalidArgument
  | deadlineExceeded
  | notFound
  | alreadyExists
  | permissionDenied
  | resourceExhausted
  | failedPrecondition
  | aborted
  | outOfRange
  | unimplemented
  | internal
  | unavailable
  | dataLoss
  | unauthenticated
  deriving DecidableEq

def retryableSendError : Code → Bool
  | .unknown | .resourceExhausted | .aborted | .deadlineExceeded | .unavailable => true
  | _ => false

inductive Encoded
  | event
  | nilEvent
  | failed

inductive Sent
  | delivered
  | failed (code : Code)

inductive Saved
  | saved
  | refused
  | lost

inductive Phase
  | idle
  | reading (since : Int64)
  | pausing (since : Int64)
  | encoding (since : Int64) (entry : Entry) (rest : List Entry)
  | sending (since : Int64) (entry : Entry) (rest : List Entry) (backoff : ℤ)
  | backingOff (since : Int64) (entry : Entry) (rest : List Entry) (backoff : ℤ)
  | saving (since : Int64) (entry : Entry) (rest : List Entry)
  | stopped (e : ReplicatorError)

structure State where
  row : Option Int64
  (attempted acknowledged : List Int64)
  phase : Phase

inductive Event
  | start
  | read (entries : List Entry)
  | readFails (canceled : Bool)
  | wait (done : Bool)
  | encode (outcome : Encoded)
  | send (outcome : Sent)
  | save (outcome : Saved)
  | crash

def loadReplicationProgress (row : Option Int64) : Int64 := row.getD 0

def saveReplicationProgress (row : Option Int64) (sequence : Int64) : Option Int64 :=
  match row with
  | none => some sequence
  | some stored => some (if stored < sequence then sequence else stored)

def resumeFrom (start : Int64) (row : Option Int64) : Int64 :=
  if start < loadReplicationProgress row then loadReplicationProgress row else start

def runEntry (since : Int64) : Phase :=
  if since < 0 then .stopped (.invalid "sequence must not be negative") else .reading since

def bySequence (a b : Entry) : Prop := a.sequence ≤ b.sequence

instance : DecidableRel bySequence := fun a b => inferInstanceAs (Decidable (a.sequence ≤ b.sequence))

def sorted (entries : List Entry) : List Entry := entries.insertionSort bySequence

def gapFree (since : Int64) : Option Entry → List Entry → Bool
  | _, [] => true
  | previous, entry :: rest =>
    !(decide (entry.sequence ≤ since) || (match previous with
      | none => false
      | some p => entry.sequence != p.sequence + 1)) && gapFree since (some entry) rest

def nextEntry (since : Int64) : List Entry → Phase
  | [] => .reading since
  | entry :: rest => if entry.sequence ≤ since then .stopped .notIncreasing else .encoding since entry rest

def batchRead (cfg : ReplicatorConfig) (since : Int64) (entries : List Entry) : Phase :=
  if entries.isEmpty then .pausing since
  else if gapFree since none (sorted entries) then
    nextEntry since ((sorted entries).take cfg.batchSize.toNat)
  else .stopped (.gap since)

def nextBackoff (cfg : ReplicatorConfig) (backoff : ℤ) : ℤ :=
  if backoff < cfg.retryMax then if 2 * backoff > cfg.retryMax then cfg.retryMax else 2 * backoff else backoff

def saveEntry (s : State) (entry : Entry) (rest : List Entry) : Saved → State
  | .refused => { s with phase := .stopped (.persist entry.sequence) }
  | .lost =>
    { s with
      row := saveReplicationProgress s.row entry.sequence
      acknowledged := s.acknowledged ++ [entry.sequence]
      phase := .stopped (.persist entry.sequence) }
  | .saved =>
    { s with
      row := saveReplicationProgress s.row entry.sequence
      acknowledged := s.acknowledged ++ [entry.sequence]
      phase := nextEntry entry.sequence rest }

def step (cfg : ReplicatorConfig) (start : Int64) (s : State) : Event → Option State
  | .crash => some { s with phase := .idle }
  | .start =>
    match s.phase with
    | .idle | .stopped _ => some { s with phase := runEntry (resumeFrom start s.row) }
    | _ => none
  | .read entries =>
    match s.phase with
    | .reading since => some { s with phase := batchRead cfg since entries }
    | _ => none
  | .readFails canceled =>
    match s.phase with
    | .reading since => some { s with phase := .stopped (if canceled then .canceled else .read since) }
    | _ => none
  | .wait done =>
    match s.phase with
    | .pausing since => some { s with phase := if done then .stopped .canceled else .reading since }
    | .backingOff since entry rest backoff =>
      some { s with phase :=
        if done then .stopped (.send entry.sequence) else .sending since entry rest (nextBackoff cfg backoff) }
    | _ => none
  | .encode outcome =>
    match s.phase with
    | .encoding since entry rest =>
      some { s with phase := match outcome with
        | .event => .sending since entry rest cfg.retryInitial
        | .nilEvent => .stopped (.nilEvent entry.sequence)
        | .failed => .stopped (.encode entry.sequence) }
    | _ => none
  | .send outcome =>
    match s.phase with
    | .sending since entry rest backoff =>
      some { s with
        attempted := s.attempted ++ [entry.sequence]
        phase := match outcome with
          | .delivered => .saving since entry rest
          | .failed code =>
            if retryableSendError code then .backingOff since entry rest backoff
            else .stopped (.send entry.sequence) }
    | _ => none
  | .save outcome =>
    match s.phase with
    | .saving _ entry rest => some (saveEntry s entry rest outcome)
    | _ => none

def Contiguous (since : Int64) : List Entry → Prop
  | [] => True
  | entry :: rest => entry.sequence.toInt = since.toInt + 1 ∧ Contiguous entry.sequence rest

/-- What is acknowledged is what lies above `base` up to the recorded progress, all of it was attempted,
and at most the next sequence was attempted besides. -/
structure NoSkip (start base : Int64) (s : State) : Prop where
  acknowledged : ∀ n, n ∈ s.acknowledged ↔ base < n ∧ n ≤ resumeFrom start s.row
  attempted : ∀ n ∈ s.acknowledged, n ∈ s.attempted
  ahead : ∀ n ∈ s.attempted, base < n ∧ n.toInt ≤ (resumeFrom start s.row).toInt + 1

def StopsAtGap (cfg : ReplicatorConfig) (start : Int64) (s : State) (entries : List Entry) : Prop :=
  ∀ since, s.phase = .reading since → ¬ Contiguous since (sorted entries) →
    step cfg start s (.read entries) = some { s with phase := .stopped (.gap since) }

def adjoins (s : State) : Event → Bool
  | .read entries =>
    match s.phase, sorted entries with
    | .reading since, entry :: _ => entry.sequence.toInt == since.toInt + 1
    | _, _ => true
  | _ => true

def held : Phase → Option (Int64 × List Entry)
  | .idle | .stopped _ => none
  | .reading since | .pausing since => some (since, [])
  | .encoding since entry rest | .sending since entry rest _ | .backingOff since entry rest _
  | .saving since entry rest => some (since, entry :: rest)

variable {since : Int64} {entries rest : List Entry} {entry : Entry} {phase : Phase} {cfg : ReplicatorConfig}

theorem contiguous_take (k : ℕ) (h : Contiguous since entries) : Contiguous since (entries.take k) := by
  induction entries generalizing since k with
  | nil => simp [Contiguous]
  | cons entry rest ih =>
    cases k with
    | zero => trivial
    | succ k => exact ⟨h.1, ih k h.2⟩

theorem contiguous_lt (h : Contiguous since (entry :: rest)) : since < entry.sequence := by
  rw [Int64.lt_iff_toInt_lt, h.1]
  omega

theorem contiguous_of_gapFree {previous : Entry} (hsince : 0 ≤ since) (hprev : since < previous.sequence)
    (h : gapFree since (some previous) entries = true) : Contiguous previous.sequence entries := by
  induction entries generalizing previous with
  | nil => trivial
  | cons entry rest ih =>
    simp only [gapFree, Bool.and_eq_true, Bool.not_eq_true', Bool.or_eq_false_iff,
      decide_eq_false_iff_not, Int64.not_le, bne_eq_false_iff_eq] at h
    obtain ⟨⟨hlt, hnext⟩, hrest⟩ := h
    have he : 0 < previous.sequence + 1 := hnext ▸ Int64.lt_of_le_of_lt hsince hlt
    exact ⟨by rw [hnext, toInt_succ he], ih hlt hrest⟩

theorem contiguous_of_adjoins {s : State} (hsince : 0 ≤ since)
    (hphase : s.phase = .reading since) (hadj : adjoins s (.read entries) = true)
    (hfree : gapFree since none (sorted entries) = true) : Contiguous since (sorted entries) := by
  simp only [adjoins, hphase] at hadj
  cases hs : sorted entries with
  | nil => trivial
  | cons =>
    simp only [hs, beq_iff_eq] at hadj
    simp only [hs, gapFree, Bool.or_false, Bool.and_eq_true, Bool.not_eq_true',
      decide_eq_false_iff_not, Int64.not_le] at hfree
    exact ⟨hadj, contiguous_of_gapFree hsince hfree.1 hfree.2⟩

theorem held_nextEntry (h : Contiguous since entries) : held (nextEntry since entries) = some (since, entries) := by
  cases entries with
  | nil => rfl
  | cons => simp [nextEntry, Int64.not_le.mpr (contiguous_lt h), held]

theorem resumeFrom_bounds (start : Int64) (row : Option Int64) :
    start ≤ resumeFrom start row ∧ loadReplicationProgress row ≤ resumeFrom start row := by
  unfold resumeFrom
  split_ifs with h
  · exact ⟨Int64.le_of_lt h, Int64.le_refl _⟩
  · exact ⟨Int64.le_refl _, Int64.not_lt.mp h⟩

theorem resumeFrom_save {start : Int64} {row : Option Int64} {n : Int64} (h : resumeFrom start row < n) :
    resumeFrom start (saveReplicationProgress row n) = n := by
  obtain ⟨hstart, hload⟩ := resumeFrom_bounds start row
  have hsaved : loadReplicationProgress (saveReplicationProgress row n) = n := by
    cases row with
    | none => rfl
    | some => exact if_pos (Int64.lt_of_le_of_lt hload h)
  rw [resumeFrom, hsaved, if_pos (Int64.lt_of_le_of_lt hstart h)]

structure Inv (start base : Int64) (s : State) : Prop extends NoSkip start base s where
  base_le : base ≤ resumeFrom start s.row
  reached : ∀ since entries, held s.phase = some (since, entries) →
    since = resumeFrom start s.row ∧ 0 ≤ since ∧ Contiguous since entries
  saving : ∀ since entry rest, s.phase = .saving since entry rest → entry.sequence ∈ s.attempted

variable {start base : Int64} {s t : State}

theorem inv_phase (h : Inv start base s)
    (hheld : ∀ r, held phase = some r → r.1 = resumeFrom start s.row ∧ 0 ≤ r.1 ∧ Contiguous r.1 r.2)
    (hsaving : ∀ since entry rest, phase ≠ .saving since entry rest) :
    Inv start base { s with phase := phase } :=
  ⟨⟨h.acknowledged, h.attempted, h.ahead⟩, h.base_le, fun _ _ hr => hheld _ hr,
    fun since entry rest hp => absurd hp (hsaving since entry rest)⟩

theorem inv_phase_of_held (h : Inv start base s) (hheld : held phase = none ∨ held phase = held s.phase)
    (hsaving : ∀ since entry rest, phase ≠ .saving since entry rest) :
    Inv start base { s with phase := phase } := by
  refine inv_phase h (fun r hr => ?_) hsaving
  rcases hheld with hnone | hsame
  · simp [hnone] at hr
  · exact h.reached r.1 r.2 (hsame ▸ hr)

theorem nextEntry_ne_saving (since : Int64) (entries : List Entry) (since' : Int64) (entry : Entry)
    (rest : List Entry) : nextEntry since entries ≠ .saving since' entry rest := by
  cases entries with
  | nil => simp [nextEntry]
  | cons => simp only [nextEntry]; split_ifs <;> simp

theorem inv_send (h : Inv start base s)
    (hnonneg : 0 ≤ resumeFrom start s.row) (hc : Contiguous (resumeFrom start s.row) (entry :: rest))
    (hheld : ∀ r, held phase = some r → r = (resumeFrom start s.row, entry :: rest)) :
    Inv start base { s with attempted := s.attempted ++ [entry.sequence], phase := phase } := by
  refine ⟨⟨h.acknowledged, fun n hn => List.mem_append_left _ (h.attempted n hn), ?_⟩, h.base_le, ?_, ?_⟩
  · intro n hn
    rcases List.mem_append.mp hn with hn | hn
    · exact h.ahead n hn
    · rw [List.mem_singleton.mp hn]
      exact ⟨Int64.lt_of_le_of_lt h.base_le (contiguous_lt hc), by rw [hc.1]⟩
  · grind
  · intro since e r hp
    have hr := hheld (since, e :: r) (by rw [show phase = _ from hp]; rfl)
    simp only [Prod.mk.injEq, List.cons.injEq] at hr
    simp [hr.2.1]

theorem inv_save (h : Inv start base s)
    (hnonneg : 0 ≤ resumeFrom start s.row) (hc : Contiguous (resumeFrom start s.row) (entry :: rest))
    (hattempted : entry.sequence ∈ s.attempted)
    (hheld : ∀ r, held phase = some r → r = (entry.sequence, rest))
    (hsaving : ∀ since entry rest, phase ≠ .saving since entry rest) :
    Inv start base { s with
      row := saveReplicationProgress s.row entry.sequence
      acknowledged := s.acknowledged ++ [entry.sequence]
      phase := phase } := by
  have hlt := contiguous_lt hc
  have hrow := resumeFrom_save hlt
  have hbase := Int64.lt_of_le_of_lt h.base_le hlt
  refine ⟨⟨?_, ?_, ?_⟩, ?_, ?_, fun since e r hp => absurd hp (hsaving since e r)⟩
  · intro n
    rw [List.mem_append, List.mem_singleton, h.acknowledged, hrow]
    have hnext : n ≤ entry.sequence ↔ n ≤ resumeFrom start s.row ∨ n = entry.sequence := by
      rw [← Int64.toInt_inj, Int64.le_iff_toInt_le, Int64.le_iff_toInt_le, hc.1]
      omega
    rw [hnext, and_or_left]
    exact or_congr_right ⟨fun hn => ⟨hn ▸ hbase, hn⟩, And.right⟩
  · intro n hn
    rcases List.mem_append.mp hn with hn | hn
    · exact h.attempted n hn
    · exact List.mem_singleton.mp hn ▸ hattempted
  · intro n hn
    have hahead := h.ahead n hn
    rw [hrow, hc.1]
    exact ⟨hahead.1, by omega⟩
  · rw [hrow]; exact Int64.le_of_lt hbase
  · intro since entries hr
    cases hheld _ hr
    exact ⟨hrow.symm, Int64.le_of_lt (Int64.lt_of_le_of_lt hnonneg hlt), hc.2⟩

theorem inv_batchRead
    (h : Inv start base s) (hphase : s.phase = .reading since) (hadj : adjoins s (.read entries) = true) :
    Inv start base { s with phase := batchRead cfg since entries } := by
  obtain ⟨rfl, hnonneg, -⟩ := h.reached since [] (by rw [hphase]; rfl)
  unfold batchRead
  split_ifs with hempty hfree
  · exact inv_phase_of_held h (.inr (by rw [hphase]; rfl)) (by simp)
  · have hc := contiguous_take cfg.batchSize.toNat (contiguous_of_adjoins hnonneg hphase hadj hfree)
    refine inv_phase h ?_ (nextEntry_ne_saving _ _)
    intro r hr
    rw [held_nextEntry hc] at hr
    cases hr
    exact ⟨rfl, hnonneg, hc⟩
  · exact inv_phase_of_held h (.inl rfl) (by simp)

theorem inv_runEntry (h : Inv start base s) : Inv start base { s with phase := runEntry (resumeFrom start s.row) } := by
  unfold runEntry
  split_ifs with hneg
  · exact inv_phase_of_held h (.inl rfl) (by simp)
  · exact inv_phase h (by rintro _ ⟨⟩; exact ⟨rfl, Int64.not_lt.mp hneg, trivial⟩) (by simp)

theorem step_inv {e : Event} (h : Inv start base s) (hadj : adjoins s e = true)
    (hs : step cfg start s e = some t) : Inv start base t := by
  cases e with
  | crash => cases hs; exact inv_phase_of_held h (.inl rfl) (by simp)
  | start =>
    cases hp : s.phase <;> simp only [step, hp, reduceCtorEq] at hs <;> cases hs <;> exact inv_runEntry h
  | read =>
    cases hp : s.phase <;> simp only [step, hp, reduceCtorEq] at hs
    cases hs
    exact inv_batchRead h hp hadj
  | readFails =>
    cases hp : s.phase <;> simp only [step, hp, reduceCtorEq] at hs
    cases hs
    exact inv_phase_of_held h (.inl rfl) (by simp)
  | wait done =>
    cases hp : s.phase <;> simp only [step, hp, reduceCtorEq] at hs <;> cases hs <;> cases done
    · exact inv_phase_of_held h (.inr (by rw [hp]; rfl)) (by simp)
    · exact inv_phase_of_held h (.inl rfl) (by simp)
    · exact inv_phase_of_held h (.inr (by rw [hp]; rfl)) (by simp)
    · exact inv_phase_of_held h (.inl rfl) (by simp)
  | encode outcome =>
    cases hp : s.phase <;> simp only [step, hp, reduceCtorEq] at hs
    cases hs
    cases outcome with
    | event => exact inv_phase_of_held h (.inr (by rw [hp]; rfl)) (by simp)
    | nilEvent | failed => exact inv_phase_of_held h (.inl rfl) (by simp)
  | send outcome =>
    cases hp : s.phase <;> simp only [step, hp, reduceCtorEq] at hs
    cases hs
    obtain ⟨rfl, hnonneg, hc⟩ := h.reached _ _ (by rw [hp]; rfl)
    refine inv_send h hnonneg hc ?_
    intro r hr
    cases outcome with
    | delivered => cases hr; rfl
    | failed code =>
      cases hcode : retryableSendError code <;> simp only [hcode] at hr
      · cases hr
      · cases hr; rfl
  | save outcome =>
    cases hp : s.phase <;> simp only [step, hp, reduceCtorEq] at hs
    cases hs
    obtain ⟨rfl, hnonneg, hc⟩ := h.reached _ _ (by rw [hp]; rfl)
    have hattempted := h.saving _ _ _ hp
    cases outcome with
    | refused => exact inv_phase_of_held h (.inl rfl) (by simp)
    | lost => exact inv_save h hnonneg hc hattempted (by rintro _ ⟨⟩) (by simp)
    | saved =>
      refine inv_save h hnonneg hc hattempted ?_ (nextEntry_ne_saving _ _)
      intro r hr
      rw [held_nextEntry hc.2] at hr
      exact (Option.some.inj hr).symm

theorem stopsAtGap_of_inv (h : Inv start base s)
    (hadj : adjoins s (.read entries) = true) : StopsAtGap cfg start s entries := by
  intro since hphase hgap
  obtain ⟨rfl, hnonneg, -⟩ := h.reached since [] (by rw [hphase]; rfl)
  have hne : entries.isEmpty = false := by
    cases entries with
    | nil => exact absurd trivial hgap
    | cons => rfl
  have hfree : ¬ gapFree (resumeFrom start s.row) none (sorted entries) = true := fun hfree =>
    hgap (contiguous_of_adjoins hnonneg hphase hadj hfree)
  simp [step, hphase, batchRead, hne, hfree]

def initial (row : Option Int64) : State := ⟨row, [], [], .idle⟩

theorem initial_inv (row : Option Int64) : Inv start (resumeFrom start row) (initial row) := by
  refine ⟨⟨fun n => ⟨fun hn => absurd hn (by simp [initial]), ?_⟩, by simp [initial], by simp [initial]⟩,
    Int64.le_refl _, by simp [initial, held], by simp [initial]⟩
  rintro ⟨hlt, hle⟩
  exact absurd hle (Int64.not_le.mpr hlt)

theorem run_noSkip {cfg : ReplicatorConfig} {row : Option Int64} {events : List Event}
    (hadj : Transitions.meets (step cfg start) adjoins (initial row) events = true)
    (hrun : Transitions.run (step cfg start) (initial row) events = some t) :
    NoSkip start (resumeFrom start row) t ∧
      ∀ entries, adjoins t (.read entries) = true → StopsAtGap cfg start t entries := by
  have h := Transitions.run_invariant (fun _ _ _ => step_inv) (initial_inv row) hadj hrun
  exact ⟨h.toNoSkip, fun _ => stopsAtGap_of_inv h⟩

def defaults : ReplicatorConfig := ⟨128, 100000000, 5000000000⟩

def entryAt (n : Int64) : Entry := ⟨n, [], 1, [], [], 0, 0⟩

def shipped (n : Int64) : List Event :=
  [.read [entryAt n], .encode .event, .send .delivered, .save .saved]

theorem gap_between_batches_is_skipped :
    ∃ t, Transitions.run (step defaults 0) (initial none) (.start :: shipped 1 ++ shipped 3) = some t ∧
      ¬ NoSkip 0 (resumeFrom 0 none) t :=
  ⟨_, rfl, fun h => absurd (h.acknowledged 2) (by decide)⟩

def shippedInOrder : List Event :=
  .start :: shipped 1 ++ [.read [entryAt 3, entryAt 2], .encode .event, .send (.failed .unavailable),
    .wait false, .send .delivered, .save .lost, .start]

theorem shippedInOrder_noSkip : ∃ t, Transitions.run (step defaults 0) (initial none) shippedInOrder = some t ∧
      NoSkip 0 (resumeFrom 0 none) t ∧ StopsAtGap defaults 0 t [entryAt 3, entryAt 5] := by
  have h := @run_noSkip 0 _ defaults none shippedInOrder (by decide) rfl
  exact ⟨_, rfl, h.1, h.2 _ (by decide)⟩

end AstraSync.Replicator
