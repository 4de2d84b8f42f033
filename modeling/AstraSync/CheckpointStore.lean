import AstraSync.Library.ByteStrings
import Mathlib.Data.List.Chain
import Mathlib.Logic.Function.Basic

namespace AstraSync.CheckpointStore

open ByteStrings (Bytes)

abbrev SplitPosition := List (String × String)

structure SplitPlan where
  fingerprint : String
  splitFingerprints : List (String × String)
  deriving DecidableEq

structure CheckpointRecord where
  jobId : String
  executionEpoch : ℤ
  (splitId splitFingerprint : String)
  checkpointSequence : ℤ
  sourcePosition : SplitPosition
  (sinkCommitToken batchDigest : Bytes)
  epoch_pos : 0 < executionEpoch
  sequence_pos : 0 < checkpointSequence
  deriving DecidableEq

structure SyncResult where
  (readCount writtenCount batchCount maxObservedBatchSize elapsedNanos : ℕ)
  written_le : writtenCount ≤ readCount
  deriving DecidableEq

structure CheckpointCompletion where
  jobId : String
  executionEpoch : ℤ
  (splitId splitFingerprint : String)
  checkpointSequence : ℤ
  workerId : String
  metrics : SyncResult
  epoch_pos : 0 < executionEpoch
  sequence_nonneg : 0 ≤ checkpointSequence
  deriving DecidableEq

structure CheckpointState (jobId : String) where
  plan : SplitPlan
  nextExecutionEpoch : ℤ
  records : String → Option CheckpointRecord
  completedSplits : String → Option CheckpointCompletion
  next_pos : 0 < nextExecutionEpoch
  record_identity : ∀ s r, records s = some r →
    r.splitId = s ∧ r.jobId = jobId ∧ plan.splitFingerprints.lookup s = some r.splitFingerprint
  completion_identity : ∀ s c, completedSplits s = some c →
    c.splitId = s ∧ c.jobId = jobId ∧ plan.splitFingerprints.lookup s = some c.splitFingerprint

inductive StoreError
  | invalidJobId
  | nonPositiveEpoch
  | planChanged (jobId : String)
  | cannotAdvance (epoch activeEpoch : ℤ)
  | notAcquired (jobId : String)
  | staleRecord (epoch activeEpoch : ℤ)
  | staleCompletion (epoch activeEpoch : ℤ)
  | splitNotInPlan (splitId : String)
  | splitDescriptorChanged (splitId : String)
  | splitComplete (splitId : String)
  | fingerprintChanged (splitId : String)
  | staleForSplit (epoch : ℤ) (splitId : String)
  | sequenceMustAdvance (previous expected : ℤ)
  | firstSequenceMustBeOne
  | completionSequence (got expected : ℤ)
  | access (jobId : String)
  | write (jobId : String)
  deriving DecidableEq

def dnsCharacter (c : Char) : Bool := c.isLower || c.isDigit

def requireJobId (jobId : String) : Bool :=
  let cs := jobId.toList
  cs.length ≤ 63 && cs.all (fun c => dnsCharacter c || c = '-') &&
    (cs.head?.any dnsCharacter) && (cs.getLast?.any dnsCharacter)

def longLimit : ℤ := 2 ^ 63

namespace CheckpointState

variable {jobId : String}

def empty (jobId : String) (plan : SplitPlan) : CheckpointState jobId :=
  ⟨plan, 1, fun _ => none, fun _ => none, by omega, by simp, by simp⟩

def activeEpoch (s : CheckpointState jobId) : ℤ := s.nextExecutionEpoch - 1

def advance (s : CheckpointState jobId) : Option (CheckpointState jobId) :=
  if s.nextExecutionEpoch + 1 < longLimit then
    some { s with
      nextExecutionEpoch := s.nextExecutionEpoch + 1
      next_pos := by have := s.next_pos; omega }
  else none

def withRecord (s : CheckpointState jobId) (r : CheckpointRecord) (hjob : r.jobId = jobId)
    (hplan : s.plan.splitFingerprints.lookup r.splitId = some r.splitFingerprint) : CheckpointState jobId :=
  { s with
    records := Function.update s.records r.splitId (some r)
    record_identity := by
      intro split other h
      by_cases hs : split = r.splitId
      · subst hs
        rw [Function.update_self] at h
        cases h
        exact ⟨rfl, hjob, hplan⟩
      · rw [Function.update_of_ne hs] at h
        exact s.record_identity split other h }

def withCompletedSplit (s : CheckpointState jobId) (c : CheckpointCompletion) (hjob : c.jobId = jobId)
    (hplan : s.plan.splitFingerprints.lookup c.splitId = some c.splitFingerprint) : CheckpointState jobId :=
  { s with
    completedSplits := Function.update s.completedSplits c.splitId (some c)
    completion_identity := by
      intro split other h
      by_cases hs : split = c.splitId
      · subst hs
        rw [Function.update_self] at h
        cases h
        exact ⟨rfl, hjob, hplan⟩
      · rw [Function.update_of_ne hs] at h
        exact s.completion_identity split other h }

end CheckpointState

abbrev Decision (jobId : String) (α : Type) := Except StoreError (Option (CheckpointState jobId) × α)

def acquireEpoch (jobId : String) (plan : SplitPlan) (stored : Option (CheckpointState jobId)) : Decision jobId ℤ :=
  let state := stored.getD (.empty jobId plan)
  if state.plan ≠ plan then .error (.planChanged jobId)
  else match state.advance with
  | none => .error (.access jobId)
  | some next => .ok (some next, state.nextExecutionEpoch)

def acquireGivenEpoch (jobId : String) (plan : SplitPlan) (executionEpoch : ℤ)
    (stored : Option (CheckpointState jobId)) : Decision jobId ℤ :=
  let state := stored.getD (.empty jobId plan)
  if executionEpoch ≤ 0 then .error .nonPositiveEpoch
  else if state.plan ≠ plan then .error (.planChanged jobId)
  else if executionEpoch = state.activeEpoch then .ok (none, executionEpoch)
  else if executionEpoch ≠ state.nextExecutionEpoch then
    .error (.cannotAdvance executionEpoch state.activeEpoch)
  else match state.advance with
  | none => .error (.access jobId)
  | some next => .ok (some next, executionEpoch)

def planIdentityError (plan : SplitPlan) (splitId : String) : StoreError :=
  match plan.splitFingerprints.lookup splitId with
  | none => .splitNotInPlan splitId
  | some _ => .splitDescriptorChanged splitId

def checkSequence (previous : Option CheckpointRecord) (r : CheckpointRecord) : Except StoreError Bool :=
  match previous with
  | none => if r.checkpointSequence ≠ 1 then .error .firstSequenceMustBeOne else .ok false
  | some previous =>
    if previous.splitFingerprint ≠ r.splitFingerprint then .error (.fingerprintChanged r.splitId)
    else if r.executionEpoch < previous.executionEpoch then .error (.staleForSplit r.executionEpoch r.splitId)
    else if previous = r then .ok true
    else if longLimit ≤ previous.checkpointSequence + 1 then .error (.access r.jobId)
    else if r.checkpointSequence ≠ previous.checkpointSequence + 1 then
      .error (.sequenceMustAdvance previous.checkpointSequence (previous.checkpointSequence + 1))
    else .ok false

def record (r : CheckpointRecord) (stored : Option (CheckpointState r.jobId)) : Decision r.jobId CheckpointRecord :=
  match stored with
  | none => .error (.notAcquired r.jobId)
  | some state =>
    if r.executionEpoch ≠ state.activeEpoch then .error (.staleRecord r.executionEpoch state.activeEpoch)
    else if hplan : state.plan.splitFingerprints.lookup r.splitId = some r.splitFingerprint then
      if (state.completedSplits r.splitId).isSome then .error (.splitComplete r.splitId)
      else match checkSequence (state.records r.splitId) r with
      | .error e => .error e
      | .ok true => .ok (none, r)
      | .ok false => .ok (some (state.withRecord r rfl hplan), r)
    else .error (planIdentityError state.plan r.splitId)

def lastSequence (previous : Option CheckpointRecord) : ℤ :=
  match previous with
  | none => 0
  | some r => r.checkpointSequence

def recordCompletion (c : CheckpointCompletion) (stored : Option (CheckpointState c.jobId)) :
    Decision c.jobId CheckpointCompletion :=
  match stored with
  | none => .error (.notAcquired c.jobId)
  | some state =>
    if c.executionEpoch ≠ state.activeEpoch then .error (.staleCompletion c.executionEpoch state.activeEpoch)
    else if hplan : state.plan.splitFingerprints.lookup c.splitId = some c.splitFingerprint then
      match state.completedSplits c.splitId with
      | some previous => if previous = c then .ok (none, previous) else .error (.splitComplete c.splitId)
      | none =>
        if c.checkpointSequence ≠ lastSequence (state.records c.splitId) then
          .error (.completionSequence c.checkpointSequence (lastSequence (state.records c.splitId)))
        else .ok (some (state.withCompletedSplit c rfl hplan), c)
    else .error (planIdentityError state.plan c.splitId)

inductive Call
  | acquireEpoch (jobId : String) (plan : SplitPlan)
  | acquireGivenEpoch (jobId : String) (plan : SplitPlan) (executionEpoch : ℤ)
  | record (r : CheckpointRecord)
  | recordCompletion (c : CheckpointCompletion)

inductive Reply
  | epoch (executionEpoch : ℤ)
  | record (r : CheckpointRecord)
  | completion (c : CheckpointCompletion)
  deriving DecidableEq

def Call.jobId : Call → String
  | .acquireEpoch jobId _ | .acquireGivenEpoch jobId _ _ => jobId
  | .record r => r.jobId
  | .recordCompletion c => c.jobId

def Call.acquires : Call → Bool
  | .acquireEpoch _ _ | .acquireGivenEpoch _ _ _ => true
  | .record _ | .recordCompletion _ => false

def reply {jobId : String} {α : Type} (wrap : α → Reply) : Decision jobId α → Decision jobId Reply
  | .error e => .error e
  | .ok (next, a) => .ok (next, wrap a)

def decision : (call : Call) → Option (CheckpointState call.jobId) → Decision call.jobId Reply
  | .acquireEpoch jobId plan, stored => reply .epoch (acquireEpoch jobId plan stored)
  | .acquireGivenEpoch jobId plan epoch, stored => reply .epoch (acquireGivenEpoch jobId plan epoch stored)
  | .record r, stored => reply .record (record r stored)
  | .recordCompletion c, stored => reply .completion (recordCompletion c stored)

inductive Disk
  | written
  | refused
  | lost
  deriving DecidableEq

abbrev Store := (jobId : String) → Option (CheckpointState jobId)

def perform (store : Store) (call : Call) (disk : Disk) : Store × Except StoreError Reply :=
  if !requireJobId call.jobId then (store, .error .invalidJobId)
  else match decision call (store call.jobId) with
  | .error e => (store, .error e)
  | .ok (none, reply) => (store, .ok reply)
  | .ok (some next, reply) =>
    match disk with
    | .written => (Function.update store call.jobId (some next), .ok reply)
    | .lost => (Function.update store call.jobId (some next), .error (.write call.jobId))
    | .refused => (store, .error (.write call.jobId))

def activeEpoch (store : Store) (jobId : String) : ℤ :=
  match store jobId with
  | none => 0
  | some state => state.activeEpoch

def recordOf (store : Store) (jobId splitId : String) : Option CheckpointRecord :=
  (store jobId).bind fun state => state.records splitId

def completionOf (store : Store) (jobId splitId : String) : Option CheckpointCompletion :=
  (store jobId).bind fun state => state.completedSplits splitId

def put {α : Type} (f : String → String → α) (jobId splitId : String) (a : α) : String → String → α :=
  Function.update f jobId (Function.update (f jobId) splitId a)

variable {α : Type} {jobId : String} {store : Store} {call : Call} {plan : SplitPlan} {next : Option (CheckpointState jobId)}
  {n : ℤ} {r : CheckpointRecord} {c : CheckpointCompletion} {out : Reply} {disk : Disk}

theorem put_self (f : String → String → α) (j s : String) (a : α) : put f j s a j s = a := by
  simp [put]

theorem put_of_ne (f : String → String → α) {j s j' s' : String} (a : α)
    (h : ¬ (j' = j ∧ s' = s)) : put f j s a j' s' = f j' s' := by
  by_cases hj : j' = j
  · subst hj
    have hs : s' ≠ s := fun hs => h ⟨rfl, hs⟩
    simp [put, hs]
  · simp [put, hj]

inductive Effect (store store' : Store) : Call → Prop
  | same {call : Call} (h : store' = store) : Effect store store' call
  | epoch {call : Call} (hvalid : requireJobId call.jobId = true) (hcall : call.acquires = true)
      (hactive : activeEpoch store' =
        Function.update (activeEpoch store) call.jobId (activeEpoch store call.jobId + 1))
      (hrecords : recordOf store' = recordOf store) (hcompletions : completionOf store' = completionOf store) :
      Effect store store' call
  | record {r : CheckpointRecord} (hvalid : requireJobId r.jobId = true)
      (hepoch : r.executionEpoch = activeEpoch store r.jobId)
      (hopen : completionOf store r.jobId r.splitId = none)
      (hnext : checkSequence (recordOf store r.jobId r.splitId) r = .ok false)
      (hactive : activeEpoch store' = activeEpoch store)
      (hrecords : recordOf store' = put (recordOf store) r.jobId r.splitId (some r))
      (hcompletions : completionOf store' = completionOf store) : Effect store store' (.record r)
  | completion {c : CheckpointCompletion} (hvalid : requireJobId c.jobId = true)
      (hopen : completionOf store c.jobId c.splitId = none)
      (hlast : c.checkpointSequence = lastSequence (recordOf store c.jobId c.splitId))
      (hactive : activeEpoch store' = activeEpoch store) (hrecords : recordOf store' = recordOf store)
      (hcompletions : completionOf store' = put (completionOf store) c.jobId c.splitId (some c)) :
      Effect store store' (.recordCompletion c)

section

variable (store : Store) {jobId : String} (state : CheckpointState jobId)

theorem activeEpoch_update : activeEpoch (Function.update store jobId (some state)) =
    Function.update (activeEpoch store) jobId state.activeEpoch := by
  funext j
  by_cases hj : j = jobId
  · subst hj; simp [activeEpoch]
  · simp [activeEpoch, hj]

theorem recordOf_update : recordOf (Function.update store jobId (some state)) =
    Function.update (recordOf store) jobId state.records := by
  funext j
  by_cases hj : j = jobId
  · subst hj; funext s; simp [recordOf]
  · funext s; simp [recordOf, hj]

theorem completionOf_update : completionOf (Function.update store jobId (some state)) =
    Function.update (completionOf store) jobId state.completedSplits := by
  funext j
  by_cases hj : j = jobId
  · subst hj; funext s; simp [completionOf]
  · funext s; simp [completionOf, hj]

end

theorem advance_some {state next : CheckpointState jobId} (h : state.advance = some next) :
    next.activeEpoch = state.activeEpoch + 1 ∧ next.records = state.records ∧
      next.completedSplits = state.completedSplits := by
  grind [CheckpointState.advance, CheckpointState.activeEpoch]

theorem activeEpoch_getD (store : Store) (jobId : String) (plan : SplitPlan) :
    ((store jobId).getD (.empty jobId plan)).activeEpoch = activeEpoch store jobId := by
  cases h : store jobId <;> simp [activeEpoch, h, CheckpointState.empty, CheckpointState.activeEpoch]

theorem records_getD (store : Store) (jobId : String) (plan : SplitPlan) :
    ((store jobId).getD (.empty jobId plan)).records = recordOf store jobId := by
  cases h : store jobId <;> simp [recordOf, h, CheckpointState.empty, funext_iff]

theorem completedSplits_getD (store : Store) (jobId : String) (plan : SplitPlan) :
    ((store jobId).getD (.empty jobId plan)).completedSplits = completionOf store jobId := by
  cases h : store jobId <;> simp [completionOf, h, CheckpointState.empty, funext_iff]

theorem effect_advance {next : CheckpointState call.jobId}
    (hvalid : requireJobId call.jobId = true) (hcall : call.acquires = true)
    (h : ((store call.jobId).getD (.empty call.jobId plan)).advance = some next) :
    Effect store (Function.update store call.jobId (some next)) call := by
  obtain ⟨hactive, hrecords, hcompleted⟩ := advance_some h
  rw [activeEpoch_getD] at hactive
  rw [records_getD] at hrecords
  rw [completedSplits_getD] at hcompleted
  refine .epoch hvalid hcall ?_ ?_ ?_
  · rw [activeEpoch_update, hactive]
  · rw [recordOf_update, hrecords, Function.update_eq_self]
  · rw [completionOf_update, hcompleted, Function.update_eq_self]

variable {stored : Option (CheckpointState jobId)}

theorem acquireEpoch_ok (h : acquireEpoch jobId plan stored = .ok (next, n)) :
    n = (stored.getD (.empty jobId plan)).activeEpoch + 1 ∧
      ∃ state, next = some state ∧ (stored.getD (.empty jobId plan)).advance = some state := by
  simp only [acquireEpoch] at h
  split_ifs at h
  cases ha : (stored.getD (.empty jobId plan)).advance with
  | none => simp [ha] at h
  | some => grind [Except.ok.injEq, Prod.mk.injEq, CheckpointState.activeEpoch]

theorem acquireGivenEpoch_ok {e : ℤ} (h : acquireGivenEpoch jobId plan e stored = .ok (next, n)) :
    n = e ∧ ((e = (stored.getD (.empty jobId plan)).activeEpoch ∧ next = none) ∨
      e = (stored.getD (.empty jobId plan)).activeEpoch + 1 ∧
        ∃ state, next = some state ∧ (stored.getD (.empty jobId plan)).advance = some state) := by
  simp only [acquireGivenEpoch] at h
  split_ifs at h with hpos hplan hsame hnext
  · cases h; exact ⟨rfl, .inl ⟨hsame, rfl⟩⟩
  · cases ha : (stored.getD (.empty jobId plan)).advance with
    | none => simp [ha] at h
    | some state =>
      simp only [ha, Except.ok.injEq, Prod.mk.injEq] at h
      refine ⟨h.2.symm, .inr ⟨?_, state, h.1.symm, rfl⟩⟩
      rw [not_not.mp hnext, CheckpointState.activeEpoch]
      omega

theorem record_ok {r' : CheckpointRecord} {stored next : Option (CheckpointState r.jobId)}
    (h : record r stored = .ok (next, r')) :
    r' = r ∧ ∃ state, stored = some state ∧ r.executionEpoch = state.activeEpoch ∧
      state.completedSplits r.splitId = none ∧
      ((next = none ∧ checkSequence (state.records r.splitId) r = .ok true) ∨
        ∃ hplan, next = some (state.withRecord r rfl hplan) ∧
          checkSequence (state.records r.splitId) r = .ok false) := by
  cases stored with
  | none => cases h
  | some state =>
    simp only [record] at h
    split_ifs at h with hepoch hplan hdone
    rw [Bool.not_eq_true, Option.isSome_eq_false_iff, Option.isNone_iff_eq_none] at hdone
    cases hc : checkSequence (state.records r.splitId) r with
    | error => simp [hc] at h
    | ok => grind

theorem recordCompletion_ok {c' : CheckpointCompletion} {stored next : Option (CheckpointState c.jobId)}
    (h : recordCompletion c stored = .ok (next, c')) :
    ∃ state, stored = some state ∧ c.executionEpoch = state.activeEpoch ∧
      ((next = none ∧ state.completedSplits c.splitId = some c) ∨
        ∃ hplan, next = some (state.withCompletedSplit c rfl hplan) ∧
        state.completedSplits c.splitId = none ∧
        c.checkpointSequence = lastSequence (state.records c.splitId)) := by
  cases stored with
  | none => cases h
  | some state =>
    simp only [recordCompletion] at h
    cases hdone : state.completedSplits c.splitId with
    | some => grind
    | none => grind

theorem reply_ok {wrap : α → Reply} {d : Decision jobId α} (h : reply wrap d = .ok (next, out)) :
    ∃ a, d = .ok (next, a) ∧ out = wrap a := by
  cases d with
  | error => cases h
  | ok p => cases h; exact ⟨p.2, rfl, rfl⟩

section

variable {store : Store} {jobId : String} {state : CheckpointState jobId} (hstored : store jobId = some state)

include hstored

theorem activeEpoch_of_stored : activeEpoch store jobId = state.activeEpoch := by
  simp [activeEpoch, hstored]

theorem recordOf_of_stored : recordOf store jobId = state.records := by
  funext s; simp [recordOf, hstored]

theorem completionOf_of_stored : completionOf store jobId = state.completedSplits := by
  funext s; simp [completionOf, hstored]

end

theorem effect_record {state : CheckpointState r.jobId}
    (hvalid : requireJobId r.jobId = true) (hstored : store r.jobId = some state)
    (hepoch : r.executionEpoch = state.activeEpoch) (hopen : state.completedSplits r.splitId = none)
    (hplan : state.plan.splitFingerprints.lookup r.splitId = some r.splitFingerprint)
    (hnext : checkSequence (state.records r.splitId) r = .ok false) :
    Effect store (Function.update store r.jobId (some (state.withRecord r rfl hplan))) (.record r) := by
  have hactive := activeEpoch_of_stored hstored
  have hrecords := recordOf_of_stored hstored
  have hcompletions := completionOf_of_stored hstored
  refine .record hvalid (hactive ▸ hepoch) (hcompletions ▸ hopen) (hrecords ▸ hnext) ?_ ?_ ?_
  · rw [activeEpoch_update, Function.update_eq_self_iff, hactive]
    rfl
  · rw [recordOf_update, put, hrecords]
    rfl
  · rw [completionOf_update, Function.update_eq_self_iff, hcompletions]
    rfl

theorem effect_completion {state : CheckpointState c.jobId}
    (hvalid : requireJobId c.jobId = true) (hstored : store c.jobId = some state)
    (hopen : state.completedSplits c.splitId = none)
    (hplan : state.plan.splitFingerprints.lookup c.splitId = some c.splitFingerprint)
    (hlast : c.checkpointSequence = lastSequence (state.records c.splitId)) :
    Effect store (Function.update store c.jobId (some (state.withCompletedSplit c rfl hplan)))
      (.recordCompletion c) := by
  have hactive := activeEpoch_of_stored hstored
  have hrecords := recordOf_of_stored hstored
  have hcompletions := completionOf_of_stored hstored
  refine .completion hvalid (hcompletions ▸ hopen) (hrecords ▸ hlast) ?_ ?_ ?_
  · rw [activeEpoch_update, Function.update_eq_self_iff, hactive]
    rfl
  · rw [recordOf_update, Function.update_eq_self_iff, hrecords]
    rfl
  · rw [completionOf_update, put, hcompletions]
    rfl

theorem effect_of_decision {next : CheckpointState call.jobId}
    (hvalid : requireJobId call.jobId = true) (h : decision call (store call.jobId) = .ok (some next, out)) :
    Effect store (Function.update store call.jobId (some next)) call := by
  cases call with
  | acquireEpoch =>
    obtain ⟨n, ha, -⟩ := reply_ok h
    obtain ⟨-, state, hnext, hadvance⟩ := acquireEpoch_ok ha
    cases hnext
    exact effect_advance hvalid rfl hadvance
  | acquireGivenEpoch =>
    obtain ⟨n, ha, -⟩ := reply_ok h
    obtain ⟨-, ⟨-, hnext⟩ | ⟨-, state, hnext, hadvance⟩⟩ := acquireGivenEpoch_ok ha
    · cases hnext
    · cases hnext
      exact effect_advance hvalid rfl hadvance
  | record =>
    obtain ⟨r', ha, -⟩ := reply_ok h
    obtain ⟨-, state, hstored, hepoch, hopen, ⟨hnext, -⟩ | ⟨hplan, hnext, hcheck⟩⟩ := record_ok ha
    · cases hnext
    · cases hnext
      exact effect_record hvalid hstored hepoch hopen hplan hcheck
  | recordCompletion =>
    obtain ⟨c', ha, -⟩ := reply_ok h
    obtain ⟨state, hstored, -, ⟨hnext, -⟩ | ⟨hplan, hnext, hopen, hlast⟩⟩ := recordCompletion_ok ha
    · cases hnext
    · cases hnext
      exact effect_completion hvalid hstored hopen hplan hlast

theorem perform_store (store : Store) (call : Call) (disk : Disk) : (perform store call disk).1 = store ∨
    ∃ next out, requireJobId call.jobId = true ∧ decision call (store call.jobId) = .ok (some next, out) ∧
      (perform store call disk).1 = Function.update store call.jobId (some next) := by
  unfold perform
  cases hvalid : requireJobId call.jobId with
  | false => exact .inl rfl
  | true => grind

theorem perform_ok (h : (perform store call disk).2 = .ok out) :
    ∃ next, decision call (store call.jobId) = .ok (next, out) ∧
      ((next = none ∧ (perform store call disk).1 = store) ∨
        ∃ state, next = some state ∧ (perform store call disk).1 = Function.update store call.jobId (some state)) := by
  unfold perform at h ⊢
  cases hvalid : requireJobId call.jobId with
  | false => simp [hvalid] at h
  | true =>
    cases hd : decision call (store call.jobId) with
    | error => simp [hvalid, hd] at h
    | ok p =>
      obtain ⟨_ | next, out'⟩ := p
      · grind
      · grind

theorem perform_effect (store : Store) (call : Call) (disk : Disk) : Effect store (perform store call disk).1 call := by
  rcases perform_store store call disk with hsame | ⟨next, out, hvalid, hd, hput⟩
  · rw [hsame]
    exact .same rfl
  · rw [hput]
    exact effect_of_decision hvalid hd

theorem activeEpoch_perform (store : Store) (disk : Disk) (hcall : call.acquires = false) :
    activeEpoch (perform store call disk).1 = activeEpoch store := by
  cases perform_effect store call disk with
  | same h => rw [h]
  | epoch _ hacquires => rw [hcall] at hacquires; cases hacquires
  | record _ _ _ _ hactive => exact hactive
  | completion _ _ _ hactive => exact hactive

theorem perform_acquires (store : Store) (disk : Disk) (hcall : call.acquires = true) :
    recordOf (perform store call disk).1 = recordOf store ∧
      completionOf (perform store call disk).1 = completionOf store := by
  cases perform_effect store call disk with
  | same h => rw [h]; exact ⟨rfl, rfl⟩
  | epoch _ _ _ hrecords hcompletions => exact ⟨hrecords, hcompletions⟩
  | record => cases hcall
  | completion => cases hcall

theorem perform_record (store : Store) (r : CheckpointRecord) (disk : Disk) :
    completionOf (perform store (.record r) disk).1 = completionOf store ∧
      (recordOf (perform store (.record r) disk).1 = recordOf store ∨
        recordOf (perform store (.record r) disk).1 = put (recordOf store) r.jobId r.splitId (some r)) := by
  cases perform_effect store (.record r) disk with
  | same h => rw [h]; exact ⟨rfl, .inl rfl⟩
  | epoch _ hacquires => cases hacquires
  | record _ _ _ _ _ hrecords hcompletions => exact ⟨hcompletions, .inr hrecords⟩

theorem perform_recordCompletion (store : Store) (c : CheckpointCompletion) (disk : Disk) :
    recordOf (perform store (.recordCompletion c) disk).1 = recordOf store ∧
      (completionOf (perform store (.recordCompletion c) disk).1 = completionOf store ∨
        completionOf (perform store (.recordCompletion c) disk).1 =
          put (completionOf store) c.jobId c.splitId (some c)) := by
  cases perform_effect store (.recordCompletion c) disk with
  | same h => rw [h]; exact ⟨rfl, .inl rfl⟩
  | epoch _ hacquires => cases hacquires
  | completion _ _ _ _ hrecords hcompletions => exact ⟨hrecords, .inr hcompletions⟩

variable {previous : Option CheckpointRecord}

theorem checkSequence_false
    (h : checkSequence previous r = .ok false) : r.checkpointSequence = lastSequence previous + 1 ∧
      previous ≠ some r ∧ ∀ p, previous = some p → p.executionEpoch ≤ r.executionEpoch := by
  cases previous with
  | none =>
    simp only [checkSequence] at h
    split_ifs at h with hone
    exact ⟨by simpa [lastSequence] using hone, by simp, by simp⟩
  | some =>
    simp only [checkSequence] at h
    split_ifs at h with hfp hepoch hsame hlimit hseq
    · simp at h
    · refine ⟨not_not.mp hseq, by simpa using hsame, ?_⟩
      rintro q ⟨⟩
      omega

theorem checkSequence_self (r : CheckpointRecord) : checkSequence (some r) r = .ok true := by
  simp [checkSequence]

theorem checkSequence_true (h : checkSequence previous r = .ok true) : previous = some r := by
  cases previous with
  | none =>
    simp only [checkSequence] at h
    split_ifs at h
    simp at h
  | some =>
    simp only [checkSequence] at h
    split_ifs at h with hfp hepoch hsame
    · exact congrArg some hsame
    · simp at h

theorem decision_epoch {next : Option (CheckpointState call.jobId)}
    (h : decision call (store call.jobId) = .ok (next, .epoch n)) :
    (n = activeEpoch store call.jobId ∧ next = none) ∨
      n = activeEpoch store call.jobId + 1 ∧ ∃ state, next = some state ∧ state.activeEpoch = n := by
  cases call with
  | acquireEpoch jobId plan =>
    obtain ⟨m, ha, hm⟩ := reply_ok h
    obtain ⟨hn, state, hnext, hadvance⟩ := acquireEpoch_ok ha
    cases hm
    have hactive := activeEpoch_getD store jobId plan
    exact .inr ⟨hn.trans (congrArg (· + 1) hactive), state, hnext, (advance_some hadvance).1.trans hn.symm⟩
  | acquireGivenEpoch jobId plan e =>
    obtain ⟨m, ha, hm⟩ := reply_ok h
    obtain ⟨hn, hcase⟩ := acquireGivenEpoch_ok ha
    cases hm
    subst hn
    have hactive := activeEpoch_getD store jobId plan
    rcases hcase with ⟨he, hnext⟩ | ⟨he, state, hnext, hadvance⟩
    · exact .inl ⟨he.trans hactive, hnext⟩
    · exact .inr ⟨he.trans (congrArg (· + 1) hactive), state, hnext, (advance_some hadvance).1.trans he.symm⟩
  | record => obtain ⟨m, -, hm⟩ := reply_ok h; cases hm
  | recordCompletion => obtain ⟨m, -, hm⟩ := reply_ok h; cases hm

theorem perform_epoch (h : (perform store call disk).2 = .ok (.epoch n)) :
    (n = activeEpoch store call.jobId ∧ (perform store call disk).1 = store) ∨
      (n = activeEpoch store call.jobId + 1 ∧ activeEpoch (perform store call disk).1 call.jobId = n) := by
  obtain ⟨next, hd, hstore⟩ := perform_ok h
  rcases decision_epoch hd with ⟨hn, rfl⟩ | ⟨hn, state, rfl, hactive⟩
  · grind
  · rcases hstore with ⟨hnext, -⟩ | ⟨state', hnext, hput⟩
    · cases hnext
    · cases hnext
      rw [hput, activeEpoch_update, Function.update_self]
      exact .inr ⟨hn, hactive⟩

theorem recordOf_perform_record {store : Store} {r : CheckpointRecord} {disk : Disk} {out : Reply}
    (h : (perform store (.record r) disk).2 = .ok out) :
    recordOf (perform store (.record r) disk).1 r.jobId r.splitId = some r := by
  obtain ⟨next, hd, hstore⟩ := perform_ok h
  obtain ⟨r', hrecord, -⟩ := reply_ok hd
  obtain ⟨-, state, hstored, -, -, ⟨rfl, hcheck⟩ | ⟨hplan, rfl, hcheck⟩⟩ := record_ok hrecord
  · rcases hstore with ⟨-, hsame⟩ | ⟨state', hnext, -⟩
    · have hrecords : recordOf store r.jobId = state.records := recordOf_of_stored hstored
      rw [hsame, hrecords]
      exact checkSequence_true hcheck
    · cases hnext
  · rcases hstore with ⟨hnext, -⟩ | ⟨state', hnext, hput⟩
    · cases hnext
    · cases hnext
      have hrecords := recordOf_update store (state.withRecord r rfl hplan)
      rw [hput]
      refine (congrFun (congrFun hrecords r.jobId) r.splitId).trans ?_
      rw [Function.update_self]
      exact Function.update_self r.splitId (some r) state.records

theorem completionOf_perform_recordCompletion {store : Store} {c : CheckpointCompletion} {disk : Disk} {out : Reply}
    (h : (perform store (.recordCompletion c) disk).2 = .ok out) :
    completionOf (perform store (.recordCompletion c) disk).1 c.jobId c.splitId = some c := by
  obtain ⟨next, hd, hstore⟩ := perform_ok h
  obtain ⟨c', hcompletion, -⟩ := reply_ok hd
  obtain ⟨state, hstored, -, ⟨rfl, hsame⟩ | ⟨hplan, rfl, -⟩⟩ := recordCompletion_ok hcompletion
  · rcases hstore with ⟨-, hstore⟩ | ⟨state', hnext, -⟩
    · have hcompletions : completionOf store c.jobId = state.completedSplits := completionOf_of_stored hstored
      rw [hstore, hcompletions]
      exact hsame
    · cases hnext
  · rcases hstore with ⟨hnext, -⟩ | ⟨state', hnext, hput⟩
    · cases hnext
    · cases hnext
      have hcompletions := completionOf_update store (state.withCompletedSplit c rfl hplan)
      rw [hput]
      refine (congrFun (congrFun hcompletions c.jobId) c.splitId).trans ?_
      rw [Function.update_self]
      exact Function.update_self c.splitId (some c) state.completedSplits

theorem perform_acquireGiven (store : Store) (jobId : String) (plan : SplitPlan) (e : ℤ) (disk : Disk) :
    (perform store (.acquireGivenEpoch jobId plan e) disk).1 = store ∨
      (e = activeEpoch store jobId + 1 ∧
        activeEpoch (perform store (.acquireGivenEpoch jobId plan e) disk).1 jobId = e) := by
  rcases perform_store store (.acquireGivenEpoch jobId plan e) disk with hsame | ⟨next, out, -, hd, hput⟩
  · exact .inl hsame
  · obtain ⟨n, ha, -⟩ := reply_ok hd
    have hactive := activeEpoch_getD store jobId plan
    obtain ⟨-, ⟨-, hnext⟩ | ⟨he, state, hnext, hadvance⟩⟩ := acquireGivenEpoch_ok ha
    · cases hnext
    · cases hnext
      have hstate := (advance_some hadvance).1.trans he.symm
      refine .inr ⟨he.trans (congrArg (· + 1) hactive), ?_⟩
      rw [hput, activeEpoch_update]
      exact (Function.update_self jobId _ _).trans hstate

end AstraSync.CheckpointStore
