import AstraSync.JobCompiler
import AstraSync.Library.Transitions
import AstraSync.RowBatches
import Mathlib.Data.Set.Function

namespace AstraSync.BatchWorker

open ByteStrings CommitTokens CheckpointStore JdbcRangeSplits RowBatches AdaptiveBatch JobCompiler

structure Job (K : Type) where
  registry : List ConnectorDescriptor
  spec : JobSpec
  plan : CompiledJobPlan
  source : Source K
  planFingerprint : String
  splitFingerprint : SourceSplit → String
  compiled : compileCheckpointed registry spec = .ok plan
  exactlyOnce : plan.deliveryGuarantee = .exactlyOnce

inductive Stage
  | idle
  | read (batch : RowBatch)
  | committed (batch : RowBatch)
  | ended
  deriving DecidableEq

structure Attempt (limits : BatchLimits) where
  split : SourceSplit
  executionEpoch : ℤ
  sequence : ℕ
  remaining : List SourceRow
  controller : AdaptiveBatchController limits
  stage : Stage

structure Coordinator (limits : BatchLimits) where
  executionEpoch : ℤ
  pending : List SourceSplit
  attempt : Option (Attempt limits)

structure Entry where
  split : SourceSplit
  sequence : ℕ
  batch : RowBatch
  deriving DecidableEq

abbrev Target := Multiset (List Cell)

/-- The checkpoint store, the target database with the batches committed to it so far, the coordinator, the
workers that have lost theirs, and the targets seen when a run completed. -/
structure World (limits : BatchLimits) where
  store : Store
  markers : Markers
  target : Target
  committed : List Entry
  coordinator : Option (Coordinator limits)
  orphans : List (Attempt limits)
  finished : List Target

def initial (limits : BatchLimits) (target : Target) : World limits :=
  ⟨fun _ => none, fun _ => none, target, [], none, [], []⟩

inductive Event
  | start (executionEpoch : ℕ) (disk : Disk)
  | dispatch
  | read (who : Option ℕ) (identity : ℕ → ℕ → UInt32)
  | write (who : Option ℕ) (commits : Bool) (readNanos writeNanos : ℕ)
  | record (disk : Disk)
  | finish (workerId : String) (metrics : SyncResult) (disk : Disk)
  | complete
  | crash (workerSurvives : Bool)

section

variable {K : Type} [LinearOrder K] (job : Job K) (sha256 : Bytes → Bytes)

def jobId : String := job.plan.jobName

def limits : BatchLimits := job.plan.runtime.toBatchLimits

def splitPlan (splits : List SourceSplit) : SplitPlan :=
  ⟨job.planFingerprint, splits.map fun split => (split.splitId, job.splitFingerprint split)⟩

def batchDigest (batch : RowBatch) : Bytes := sha256Digest sha256 job.source.columns batch

def commitToken (split : SourceSplit) (sequence : ℕ) (batch : RowBatch) : Bytes :=
  forBatch sha256 (jobId job) split.splitId sequence (batchDigest job sha256 batch)

def splitRecord (store : Store) (split : SourceSplit) : Option CheckpointRecord :=
  recordOf store (jobId job) split.splitId

def splitCompletion (store : Store) (split : SourceSplit) : Option CheckpointCompletion :=
  completionOf store (jobId job) split.splitId

def loadedSequence (store : Store) (split : SourceSplit) : ℕ := (lastSequence (splitRecord job store split)).toNat

def loadedPosition (store : Store) (split : SourceSplit) : SplitPosition :=
  match splitRecord job store split with
  | none => []
  | some r => r.sourcePosition

def insertRows (batch : RowBatch) (target : Target) : Except Unit Target :=
  .ok (target + (batch.rows.map (·.cells) : List (List Cell)))

def contents (entries : List Entry) : List (List Cell) := entries.flatMap fun e => e.batch.rows.map (·.cells)

variable (w : World (limits job))

def ended : World (limits job) := { w with coordinator := none }

def started (splits : List SourceSplit) (executionEpoch : ℕ) (disk : Disk) : World (limits job) :=
  let call : Call := if executionEpoch = 0 then .acquireEpoch (jobId job) (splitPlan job splits)
    else .acquireGivenEpoch (jobId job) (splitPlan job splits) executionEpoch
  let (store, reply) := perform w.store call disk
  match reply with
  | .ok (.epoch e) => { w with store := store, coordinator := some ⟨e, splits, none⟩ }
  | _ => { w with store := store }

def dispatched (c : Coordinator (limits job)) (split : SourceSplit) (rest : List SourceSplit) : World (limits job) :=
  if (splitCompletion job w.store split).isSome then { w with coordinator := some { c with pending := rest } }
  else
    match openAt job.source split (loadedPosition job w.store split) with
    | none => ended job w
    | some rows =>
      let attempt := ⟨split, c.executionEpoch, loadedSequence job w.store split, rows, .new (limits job), .idle⟩
      { w with coordinator := some { c with attempt := some attempt } }

def afterRead (identity : ℕ → ℕ → UInt32) (a : Attempt (limits job)) : Attempt (limits job) :=
  let batch := readBatch identity a.remaining a.controller.currentBatchRecords.toInt.toNat
  { a with stage := if batch.rows = [] then .ended else .read batch }

def afterWrite (batch : RowBatch) (readNanos writeNanos : ℕ) (a : Attempt (limits job)) : Attempt (limits job) :=
  { a with
    stage := .committed batch
    controller := a.controller.observe ⟨batch.rows.length, writeNanos, readNanos, 0, 1, by omega, by omega⟩ }

def afterRecord (batch : RowBatch) (a : Attempt (limits job)) : Attempt (limits job) :=
  { a with
    sequence := a.sequence + 1
    remaining := a.remaining.drop batch.rows.length
    stage := if batch.endOfInput then .ended else .idle }

def written (a : Attempt (limits job)) (batch : RowBatch) : Option (World (limits job)) :=
  if longLimit ≤ (a.sequence : ℤ) + 1 then none
  else
    let token := commitToken job sha256 a.split (a.sequence + 1) batch
    match writeBatch (insertRows batch) token (batchDigest job sha256 batch) w.markers w.target with
    | .error _ => none
    | .ok (markers, target) => some { w with
        markers := markers
        target := target
        committed := if w.markers token = none then w.committed ++ [⟨a.split, a.sequence + 1, batch⟩]
          else w.committed }

def progress (a : Attempt (limits job)) (batch : RowBatch) : Option CheckpointRecord :=
  match positionAfter job.source batch with
  | none => none
  | some position =>
    if h : 0 < a.executionEpoch then
      some {
        jobId := jobId job
        executionEpoch := a.executionEpoch
        splitId := a.split.splitId
        splitFingerprint := job.splitFingerprint a.split
        checkpointSequence := a.sequence + 1
        sourcePosition := position
        sinkCommitToken := commitToken job sha256 a.split (a.sequence + 1) batch
        batchDigest := batchDigest job sha256 batch
        epoch_pos := h
        sequence_pos := by omega }
    else none

def recordedWith (c : Coordinator (limits job)) (a : Attempt (limits job)) (r : CheckpointRecord) (disk : Disk) :
    World (limits job) :=
  let (store, reply) := perform w.store (.record r) disk
  { w with
    store := store
    coordinator := match reply with
      | .ok _ => some { c with attempt := some a }
      | .error _ => none }

def completion (a : Attempt (limits job)) (workerId : String) (metrics : SyncResult) : Option CheckpointCompletion :=
  if h : 0 < a.executionEpoch then
    some {
      jobId := jobId job
      executionEpoch := a.executionEpoch
      splitId := a.split.splitId
      splitFingerprint := job.splitFingerprint a.split
      checkpointSequence := a.sequence
      workerId := workerId
      metrics := metrics
      epoch_pos := h
      sequence_nonneg := by omega }
  else none

def completedWith (c : Coordinator (limits job)) (done : CheckpointCompletion) (disk : Disk) : World (limits job) :=
  let (store, reply) := perform w.store (.recordCompletion done) disk
  { w with
    store := store
    coordinator := match reply with
      | .ok _ => some { c with pending := c.pending.tail, attempt := none }
      | .error _ => none }

def worker : Option ℕ → Option (Attempt (limits job))
  | none => w.coordinator.bind (·.attempt)
  | some k => w.orphans[k]?

def setWorker (who : Option ℕ) (a : Attempt (limits job)) : World (limits job) :=
  match who with
  | none => { w with coordinator := w.coordinator.map fun c => { c with attempt := some a } }
  | some k => { w with orphans := w.orphans.set k a }

def loseWorker (who : Option ℕ) : World (limits job) :=
  match who with
  | none => ended job w
  | some k => { w with orphans := w.orphans.eraseIdx k }

def step : Event → Option (World (limits job))
  | .start executionEpoch disk =>
    match w.coordinator, enumerate job.source with
    | some _, _ => none
    | none, .error _ => some w
    | none, .ok splits => some (started job w splits executionEpoch disk)
  | .dispatch =>
    match w.coordinator with
    | some ⟨epoch, split :: rest, none⟩ => some (dispatched job w ⟨epoch, split :: rest, none⟩ split rest)
    | _ => none
  | .read who identity =>
    match worker job w who with
    | some a => if a.stage = .idle then some (setWorker job w who (afterRead job identity a)) else none
    | none => none
  | .write who commits readNanos writeNanos =>
    match worker job w who with
    | some a =>
      match a.stage with
      | .read batch =>
        match if commits then written job sha256 w a batch else none with
        | some w' => some (setWorker job w' who (afterWrite job batch readNanos writeNanos a))
        | none => some (loseWorker job w who)
      | _ => none
    | none => none
  | .record disk =>
    match w.coordinator with
    | some ⟨epoch, pending, some a⟩ =>
      match a.stage with
      | .committed batch =>
        match progress job sha256 a batch with
        | some r => some (recordedWith job w ⟨epoch, pending, some a⟩ (afterRecord job batch a) r disk)
        | none => some (ended job w)
      | _ => none
    | _ => none
  | .finish workerId metrics disk =>
    match w.coordinator with
    | some ⟨epoch, pending, some a⟩ =>
      if a.stage = .ended then
        match completion job a workerId metrics with
        | some done => some (completedWith job w ⟨epoch, pending, some a⟩ done disk)
        | none => some (ended job w)
      else none
    | _ => none
  | .complete =>
    match w.coordinator with
    | some ⟨_, [], none⟩ => some { w with coordinator := none, finished := w.finished ++ [w.target] }
    | _ => none
  | .crash workerSurvives =>
    match w.coordinator with
    | some c => some { w with
        coordinator := none
        orphans := if workerSurvives then w.orphans ++ c.attempt.toList else w.orphans }
    | none => none

def repeats : Event → Bool
  | .write who _ _ _ =>
    match worker job w who with
    | some a =>
      match a.stage with
      | .read batch =>
        w.committed.all fun e => e.split ≠ a.split || e.sequence ≠ a.sequence + 1 || e.batch = batch
      | _ => true
    | none => true
  | _ => true

inductive Outcome (w : World (limits job)) : Event → World (limits job) → Prop
  | refused {executionEpoch : ℕ} {disk : Disk} {e : SplitError} (henum : enumerate job.source = .error e) :
    Outcome w (.start executionEpoch disk) w
  | started {splits : List SourceSplit} (executionEpoch : ℕ) (disk : Disk) (henum : enumerate job.source = .ok splits) :
    Outcome w (.start executionEpoch disk) (started job w splits executionEpoch disk)
  | dispatched {c : Coordinator (limits job)} {split : SourceSplit} {rest : List SourceSplit}
    (hc : w.coordinator = some c) (hpending : c.pending = split :: rest) (hidle : c.attempt = none) :
    Outcome w .dispatch (dispatched job w c split rest)
  | read {who : Option ℕ} {a : Attempt (limits job)} (identity : ℕ → ℕ → UInt32) (ha : worker job w who = some a) :
    Outcome w (.read who identity) (setWorker job w who (afterRead job identity a))
  | written {who : Option ℕ} {a : Attempt (limits job)} {batch : RowBatch} {w' : World (limits job)}
    (readNanos writeNanos : ℕ) (ha : worker job w who = some a) (hread : a.stage = .read batch)
    (hw : written job sha256 w a batch = some w') :
    Outcome w (.write who true readNanos writeNanos)
      (setWorker job w' who (afterWrite job batch readNanos writeNanos a))
  | lost {who : Option ℕ} {commits : Bool} {readNanos writeNanos : ℕ} :
    Outcome w (.write who commits readNanos writeNanos) (loseWorker job w who)
  | recorded {c : Coordinator (limits job)} {a : Attempt (limits job)} {batch : RowBatch} {r : CheckpointRecord}
    (disk : Disk) (hc : w.coordinator = some c) (ha : c.attempt = some a) (hstage : a.stage = .committed batch)
    (hr : progress job sha256 a batch = some r) :
    Outcome w (.record disk) (recordedWith job w c (afterRecord job batch a) r disk)
  | unrecorded {disk : Disk} : Outcome w (.record disk) (ended job w)
  | finished {c : Coordinator (limits job)} {a : Attempt (limits job)} {workerId : String} {metrics : SyncResult}
    {done : CheckpointCompletion} (disk : Disk) (hc : w.coordinator = some c) (ha : c.attempt = some a)
    (hstage : a.stage = .ended) (hdone : completion job a workerId metrics = some done) :
    Outcome w (.finish workerId metrics disk) (completedWith job w c done disk)
  | unfinished {workerId : String} {metrics : SyncResult} {disk : Disk} :
    Outcome w (.finish workerId metrics disk) (ended job w)
  | completed {c : Coordinator (limits job)} (hc : w.coordinator = some c) (hpending : c.pending = []) :
    Outcome w .complete { w with coordinator := none, finished := w.finished ++ [w.target] }
  | crashed {c : Coordinator (limits job)} (workerSurvives : Bool) (hc : w.coordinator = some c) :
    Outcome w (.crash workerSurvives) { w with
      coordinator := none
      orphans := if workerSurvives then w.orphans ++ c.attempt.toList else w.orphans }

variable {job sha256} {w w' : World (limits job)} {event : Event}

theorem step_outcome (hstep : step job sha256 w event = some w') : Outcome job sha256 w event w' := by
  cases event with
  | start executionEpoch disk =>
    simp only [step] at hstep
    split at hstep <;> cases hstep
    · rename_i henum
      exact .refused henum
    · rename_i henum
      exact .started executionEpoch disk henum
  | dispatch =>
    simp only [step] at hstep
    split at hstep <;> cases hstep
    rename_i hc
    exact .dispatched hc rfl rfl
  | read who identity =>
    simp only [step] at hstep
    split at hstep
    · rename_i ha
      split_ifs at hstep
      cases hstep
      exact .read identity ha
    · cases hstep
  | write who commits readNanos writeNanos =>
    simp only [step] at hstep
    split at hstep
    · rename_i ha
      split at hstep
      · rename_i hread
        split at hstep <;> cases hstep
        · rename_i hw
          split_ifs at hw with hcommits
          cases hcommits
          exact .written readNanos writeNanos ha hread hw
        · exact .lost
      · cases hstep
    · cases hstep
  | record disk =>
    simp only [step] at hstep
    split at hstep
    · rename_i hc
      split at hstep
      · rename_i hstage
        split at hstep <;> cases hstep
        · rename_i hr
          exact .recorded disk hc rfl hstage hr
        · exact .unrecorded
      · cases hstep
    · cases hstep
  | finish workerId metrics disk =>
    simp only [step] at hstep
    split at hstep
    · rename_i hc
      split_ifs at hstep with hstage
      split at hstep <;> cases hstep
      · rename_i hdone
        exact .finished disk hc rfl hstage hdone
      · exact .unfinished
    · cases hstep
  | complete =>
    simp only [step] at hstep
    split at hstep <;> cases hstep
    rename_i hc
    exact .completed hc rfl
  | crash workerSurvives =>
    simp only [step] at hstep
    split at hstep <;> cases hstep
    rename_i hc
    exact .crashed workerSurvives hc

end

variable {K : Type} {job : Job K} {w : World (limits job)} {who : Option ℕ} {a : Attempt (limits job)} {disk : Disk}
  {c : Coordinator (limits job)}

theorem repeats_write {batch : RowBatch} {commits : Bool}
    {readNanos writeNanos : ℕ} (ha : worker job w who = some a) (hread : a.stage = .read batch) :
    repeats job w (.write who commits readNanos writeNanos) = true ↔
      ∀ e ∈ w.committed, e.split = a.split → e.sequence = a.sequence + 1 → e.batch = batch := by
  simp only [repeats, ha, hread, List.all_eq_true, Bool.or_eq_true, decide_eq_true_eq, or_assoc]
  refine forall_congr' fun e => forall_congr' fun _ => ?_
  rw [← imp_iff_not_or, ← imp_iff_not_or]

theorem worker_ended (h : worker job (ended job w) who = some a) : worker job w who = some a := by
  cases who with
  | none => cases h
  | some => exact h

theorem worker_loseWorker {lost : Option ℕ}
    (h : worker job (loseWorker job w lost) who = some a) : ∃ who', worker job w who' = some a := by
  cases lost with
  | none => exact ⟨who, worker_ended h⟩
  | some =>
    cases who with
    | none => exact ⟨none, h⟩
    | some =>
      obtain ⟨i, hi⟩ := List.mem_iff_getElem?.mp (List.mem_of_mem_eraseIdx (List.mem_of_getElem? h))
      exact ⟨some i, hi⟩

theorem worker_setWorker {set : Option ℕ} {a' b : Attempt (limits job)} (ha : worker job w set = some a)
    (h : worker job (setWorker job w set a') who = some b) : b = a' ∨ worker job w who = some b := by
  cases set with
  | none =>
    obtain ⟨c, hc, -⟩ := Option.bind_eq_some_iff.mp ha
    cases who with
    | none =>
      simp only [setWorker, worker, hc, Option.map_some, Option.bind_some, Option.some.injEq] at h
      exact .inl h.symm
    | some => exact .inr h
  | some =>
    cases who with
    | none => exact .inr h
    | some =>
      simp only [setWorker, worker, List.getElem?_set] at h
      split_ifs at h
      · exact .inl (Option.some.inj h).symm
      · exact .inr h

theorem worker_crash (hc : w.coordinator = some c) {workerSurvives : Bool} (h : worker job { w with
      coordinator := none
      orphans := if workerSurvives then w.orphans ++ c.attempt.toList else w.orphans } who = some a) :
    ∃ who', worker job w who' = some a := by
  cases who with
  | none => cases h
  | some =>
    have hmem : a ∈ w.orphans ++ c.attempt.toList := by
      have hget := List.mem_of_getElem? h
      split_ifs at hget
      · exact hget
      · exact List.mem_append_left _ hget
    rcases List.mem_append.mp hmem with hmem | hmem
    · obtain ⟨i, hi⟩ := List.mem_iff_getElem?.mp hmem
      exact ⟨some i, hi⟩
    · exact ⟨none, by simpa [worker, hc] using hmem⟩

end AstraSync.BatchWorker
