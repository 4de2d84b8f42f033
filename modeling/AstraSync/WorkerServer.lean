import AstraSync.CheckpointStore
import AstraSync.JobCompiler
import AstraSync.Library.Transitions

namespace AstraSync.WorkerServer

open AdaptiveBatch (AdaptiveBatchPolicy)
open CheckpointStore (SplitPosition SyncResult)
open JobCompiler (isBlank)

structure SplitDescriptor where
  (splitId sourceId : String)
  (startOffsets endOffsets : SplitPosition)
  deriving DecidableEq

structure AdaptiveBatchSettings where
  (minBatchRecords initialBatchRecords targetBatchNanos adjustmentCooldownSamples : ℤ)
  deriving DecidableEq

structure SpillSettings where
  enabled : Bool
  (maxBytes maxFiles : ℤ)
  deriving DecidableEq

structure ExecuteTaskRequest where
  (workerId taskId : String)
  split : Option SplitDescriptor
  (maxBatchRecords maxInFlightBatches : ℤ)
  adaptiveBatch : Option AdaptiveBatchSettings
  spill : Option SpillSettings
  jobId : String
  deriving DecidableEq

structure ExecuteCheckpointTaskRequest extends ExecuteTaskRequest where
  (executionEpoch checkpointSequence : ℤ)
  sourcePosition : SplitPosition
  splitFingerprint : String
  exactlyOnce : Bool
  deriving DecidableEq

inductive Operation
  | executeTask (r : ExecuteTaskRequest)
  | cancelTask (workerId taskId : String)
  | executeCheckpointTask (r : ExecuteCheckpointTaskRequest)
  | checkpointAck
  | notSet
  deriving DecidableEq

structure WorkerRequest where
  protocolVersion : ℕ
  operation : Operation
  deriving DecidableEq

inductive ErrorCode
  | protocolVersionMismatch
  | invalidRequest
  | resourceExhausted
  | taskNotFound
  | taskRejected
  | taskCancelled
  | internal
  | epochFenced
  deriving DecidableEq

structure TaskResult where
  (workerId taskId : String)
  success : Bool
  metrics : SyncResult
  (errorType errorMessage : String)
  deriving DecidableEq

inductive WorkerResponse
  | taskResult (protocolVersion : ℕ) (result : TaskResult)
  | error (protocolVersion : ℕ) (code : ErrorCode) (taskId message : String)
  | cancelResponse (taskId : String) (cancelled : Bool) (message : String)
  deriving DecidableEq

def currentVersion : ℕ := 1

def checkpointVersion : ℕ := 2

structure SourceSplit where
  (splitId sourceId : String)
  (start stop : SplitPosition)
  deriving DecidableEq

structure SpillPolicy where
  enabled : Bool
  (maxBytes maxFiles : ℤ)
  deriving DecidableEq

structure BatchTask where
  split : SourceSplit
  (maxBatchRecords maxInFlightBatches : ℤ)
  exactlyOnce : Bool
  batchPolicy : AdaptiveBatchPolicy
  spillPolicy : SpillPolicy

structure WorkerResult where
  (workerId taskId : String)
  metrics : SyncResult

structure Failure where
  className : String
  message : Option String
  deriving DecidableEq

def Failure.text (f : Failure) : String := f.message.getD f.className

def Failure.print (f : Failure) : String :=
  match f.message with
  | none => f.className
  | some message => f.className ++ ": " ++ message

def illegalArgument (message : String) : Failure := ⟨"java.lang.IllegalArgumentException", some message⟩

inductive Thrown
  | task (cause : Option Failure) (self : Failure) (partialResult : SyncResult)
  | fenced (f : Failure)
  | runtime (f : Failure)
  | error (f : Failure)

structure Conduct where
  created : Except Thrown BatchTask
  executed : Except Thrown WorkerResult

def toPosition (offsets : SplitPosition) : Except Failure SplitPosition :=
  if offsets.any fun offset => isBlank offset.1 then .error (illegalArgument "position key must not be blank")
  else .ok offsets

def toSplit (d : SplitDescriptor) : Except Failure SourceSplit := do
  let start ← toPosition d.startOffsets
  let stop ← toPosition d.endOffsets
  if isBlank d.splitId then throw (illegalArgument "splitId must not be blank")
  if isBlank d.sourceId then throw (illegalArgument "sourceId must not be blank")
  return ⟨d.splitId, d.sourceId, start, stop⟩

def matchesAdaptiveBatch (settings : Option AdaptiveBatchSettings) (policy : AdaptiveBatchPolicy) : Bool :=
  match settings with
  | none => !policy.enabled
  | some s =>
    if s.targetBatchNanos = 0 ∧ s.minBatchRecords = 0 then !policy.enabled
    else s.minBatchRecords = policy.minBatchRecords.toInt && s.initialBatchRecords = policy.initialBatchRecords.toInt
      && s.targetBatchNanos = policy.targetBatchNanos.toInt
      && s.adjustmentCooldownSamples = policy.adjustmentCooldownSamples.toInt

def matchesSpill (settings : Option SpillSettings) (policy : SpillPolicy) : Bool :=
  match settings with
  | none => !policy.enabled
  | some s => s.enabled = policy.enabled && s.maxBytes = policy.maxBytes && s.maxFiles = policy.maxFiles

def sameTask (r : ExecuteTaskRequest) (split : SourceSplit) (task : BatchTask) : Bool :=
  split = task.split && r.taskId = task.split.splitId && r.maxBatchRecords = task.maxBatchRecords
    && r.maxInFlightBatches = task.maxInFlightBatches && matchesAdaptiveBatch r.adaptiveBatch task.batchPolicy
    && matchesSpill r.spill task.spillPolicy

theorem none_written : 0 ≤ 0 := Nat.le_refl 0

def emptyResult : SyncResult := ⟨0, 0, 0, 0, 0, none_written⟩

def success (protocolVersion : ℕ) (result : WorkerResult) : WorkerResponse :=
  .taskResult protocolVersion ⟨result.workerId, result.taskId, true, result.metrics, "", ""⟩

def taskFailure (protocolVersion : ℕ) (workerId taskId : String) (failure : Failure) (metrics : SyncResult) :
    WorkerResponse :=
  .taskResult protocolVersion ⟨workerId, taskId, false, metrics, failure.className, failure.text⟩

def executeFailed (workerId taskId : String) : Thrown → Except Failure WorkerResponse
  | .task cause self partialResult =>
    .ok (taskFailure currentVersion workerId taskId (cause.getD self) partialResult)
  | .fenced f | .runtime f => .ok (taskFailure currentVersion workerId taskId f emptyResult)
  | .error f => .error f

def checkpointFailed (workerId taskId : String) : Thrown → Except Failure WorkerResponse
  | .task cause self partialResult =>
    .ok (taskFailure checkpointVersion workerId taskId (cause.getD self) partialResult)
  | .fenced f => .ok (.error checkpointVersion .epochFenced taskId f.text)
  | .runtime f => .ok (taskFailure checkpointVersion workerId taskId f emptyResult)
  | .error f => .error f

def executeTask (workerId : String) (r : ExecuteTaskRequest) (d : SplitDescriptor) (conduct : Conduct) :
    Except Failure WorkerResponse :=
  match toSplit d with
  | .error f => .error f
  | .ok split =>
    match conduct.created with
    | .error thrown => executeFailed workerId r.taskId thrown
    | .ok task =>
      if !sameTask r split task then
        .ok (.error currentVersion .taskRejected r.taskId "task factory changed the requested split")
      else
        match conduct.executed with
        | .error thrown => executeFailed workerId r.taskId thrown
        | .ok result => .ok (success currentVersion result)

def executeCheckpointTask (workerId : String) (checkpoints current : Bool) (r : ExecuteCheckpointTaskRequest)
    (d : SplitDescriptor) (conduct : Conduct) : Except Failure WorkerResponse :=
  match toPosition r.sourcePosition with
  | .error f => .error f
  | .ok _ =>
    if r.checkpointSequence < 0 then .error (illegalArgument "checkpointSequence must not be negative")
    else if !current then
      .ok (.error checkpointVersion .epochFenced r.taskId
        ("execution epoch " ++ toString r.executionEpoch ++ " is no longer active for job " ++ r.jobId))
    else
      match toSplit d with
      | .error f => .ok (taskFailure checkpointVersion workerId r.taskId f emptyResult)
      | .ok split =>
        match conduct.created with
        | .error thrown => checkpointFailed workerId r.taskId thrown
        | .ok task =>
          if !(sameTask r.toExecuteTaskRequest split task && r.exactlyOnce = task.exactlyOnce) then
            .ok (.error checkpointVersion .taskRejected r.taskId "task factory changed the requested split")
          else if !checkpoints then
            .ok (.error checkpointVersion .taskRejected r.taskId "Worker does not support checkpoint tasks")
          else if r.checkpointSequence + 1 = 2 ^ 63 then
            .ok (taskFailure checkpointVersion workerId r.taskId
              ⟨"java.lang.ArithmeticException", some "long overflow"⟩ emptyResult)
          else
            match conduct.executed with
            | .error thrown => checkpointFailed workerId r.taskId thrown
            | .ok result => .ok (success checkpointVersion result)

structure Connection where
  job : String
  number : ℕ
  deriving DecidableEq

inductive Stage
  | received
  | activated
  | registered
  | refused
  | waiting
  | woken (response : WorkerResponse)
  | released (response : WorkerResponse)
  | written (response : WorkerResponse)
  | found (target : Connection)
  | answered (response : WorkerResponse)
  deriving DecidableEq

inductive FutureState
  | fresh
  | done (result : Except Failure WorkerResponse)
  | cancelled

inductive TaskState
  | unsubmitted
  | pending
  | executing (current : Bool)
  | ended
  deriving DecidableEq

structure Handler where
  request : WorkerRequest
  stage : Stage
  future : FutureState
  task : TaskState

inductive Closing
  | running
  | closing
  | tasksStopped
  | stopped
  deriving DecidableEq

structure Worker where
  handlers : Connection → Option Handler
  activeTasks : String → Option Connection
  activeEpochs : String → ℤ
  closing : Closing

def initial : Worker := ⟨fun _ => none, fun _ => none, fun _ => 0, .running⟩

def Operation.taskId : Operation → String
  | .executeTask r => r.taskId
  | .cancelTask _ taskId => taskId
  | .executeCheckpointTask r => r.taskId
  | .checkpointAck | .notSet => ""

def Operation.checkpoint : Operation → Bool
  | .executeCheckpointTask _ => true
  | _ => false

def Handler.taskId (h : Handler) : String := h.request.operation.taskId

def Handler.checkpoint (h : Handler) : Bool := h.request.operation.checkpoint

def Handler.version (h : Handler) : ℕ := if h.checkpoint then checkpointVersion else currentVersion

def Handler.failing (h : Handler) (code : ErrorCode) (message : String) : WorkerResponse :=
  .error h.version code h.taskId message

section

variable (s : Worker) (c : Connection)

def put (h : Handler) : Worker := { s with handlers := Function.update s.handlers c (some h) }

def register (taskId : String) : Worker :=
  { s with activeTasks := Function.update s.activeTasks taskId (some c) }

def remove (taskId : String) : Worker :=
  if s.activeTasks taskId = some c then { s with activeTasks := Function.update s.activeTasks taskId none } else s

def activate (jobId : String) (executionEpoch : ℤ) : Worker :=
  { s with activeEpochs := Function.update s.activeEpochs jobId executionEpoch }

def answer (h : Handler) (response : WorkerResponse) : Worker := put s c { h with stage := .answered response }

def putIfAbsent (h : Handler) : Worker :=
  match s.activeTasks h.taskId with
  | some _ => answer s c h (h.failing .taskRejected "task is already active")
  | none => put (register s c h.taskId) c { h with stage := .registered }

def validTask (workerId : String) (r : ExecuteTaskRequest) : Bool :=
  workerId = r.workerId && !isBlank r.taskId && 0 < r.maxBatchRecords && 0 < r.maxInFlightBatches
    && r.split.any fun d => r.taskId = d.splitId

def executeWithContext (workerId : String) (h : Handler) (r : ExecuteTaskRequest) : Worker :=
  if !validTask workerId r then answer s c h (h.failing .invalidRequest "invalid task request")
  else putIfAbsent s c h

def validCheckpointTask (workerId : String) (protocolVersion : ℕ) (r : ExecuteCheckpointTaskRequest) : Bool :=
  protocolVersion = checkpointVersion && !isBlank r.jobId && 0 < r.executionEpoch && !isBlank r.splitFingerprint
    && validTask workerId r.toExecuteTaskRequest

def executeCheckpointWithContext (workerId : String) (h : Handler) (r : ExecuteCheckpointTaskRequest) : Worker :=
  if !validCheckpointTask workerId h.request.protocolVersion r then
    answer s c h (h.failing .invalidRequest "invalid checkpoint task request")
  else if r.executionEpoch < s.activeEpochs r.jobId then
    answer s c h (h.failing .epochFenced ("execution epoch " ++ toString r.executionEpoch ++
      " is stale; active epoch is " ++ toString (s.activeEpochs r.jobId)))
  else put (activate s r.jobId r.executionEpoch) c { h with stage := .activated }

def cancel (workerId : String) (h : Handler) (requestedWorkerId taskId : String) : Worker :=
  if workerId ≠ requestedWorkerId ∨ isBlank taskId then
    answer s c h (h.failing .invalidRequest "invalid cancel request")
  else
    match s.activeTasks taskId with
    | none => answer s c h (h.failing .taskNotFound "task is not active")
    | some target => put s c { h with stage := .found target }

def dispatch (workerId : String) (h : Handler) : Worker :=
  match h.request.operation with
  | .executeCheckpointTask r => executeCheckpointWithContext s c workerId h r
  | operation =>
    if h.request.protocolVersion ≠ currentVersion then
      answer s c h (.error currentVersion .protocolVersionMismatch ""
        ("unsupported Worker protocol version: " ++ toString h.request.protocolVersion))
    else
      match operation with
      | .executeTask r => executeWithContext s c workerId h r
      | .cancelTask requestedWorkerId taskId => cancel s c workerId h requestedWorkerId taskId
      | .executeCheckpointTask _ | .checkpointAck =>
        answer s c h (.error currentVersion .invalidRequest "" "checkpoint messages require a checkpoint task stream")
      | .notSet => answer s c h (.error currentVersion .invalidRequest "" "Worker request has no operation")

def cancelFuture (target : Connection) : Worker × Bool :=
  match s.handlers target with
  | some ⟨request, stage, .fresh, task⟩ => (put s target ⟨request, stage, .cancelled, task⟩, true)
  | _ => (s, false)

def cancelFound (h : Handler) (target : Connection) : Worker :=
  let attempt := cancelFuture s target
  answer attempt.1 c h (.cancelResponse h.taskId attempt.2
    (if attempt.2 then "task cancellation requested" else "task already completed"))

def replied (workerId : String) (h : Handler) : FutureState → Option WorkerResponse
  | .fresh => none
  | .done (.ok response) => some response
  | .done (.error f) =>
    some (if h.checkpoint then taskFailure checkpointVersion workerId h.taskId f emptyResult
      else h.failing .internal f.print)
  | .cancelled => some (h.failing .taskCancelled "task was cancelled")

def handle (workerId : String) (h : Handler) : Option Worker :=
  match h.stage with
  | .received => some (dispatch s c workerId h)
  | .activated => some (putIfAbsent s c h)
  | .found target => some (cancelFound s c h target)
  | .refused => some (answer (remove s c h.taskId) c h (h.failing .resourceExhausted "Worker task capacity is full"))
  | .waiting => (replied workerId h h.future).map fun response => put s c { h with stage := .woken response }
  | .woken response =>
    -- A checkpoint task's response is written before the registration is removed, a plain task's after.
    some (if h.checkpoint then put s c { h with stage := .written response }
      else put (remove s c h.taskId) c { h with stage := .released response })
  | .released response => some (answer s c h response)
  | .written response => some (answer (remove s c h.taskId) c h response)
  | .registered | .answered _ => none

def submit (accepted : Bool) (h : Handler) : Option Worker :=
  match h.stage with
  | .registered =>
    if accepted then
      if s.closing = .running ∨ s.closing = .closing then
        some (put s c { h with stage := .waiting, task := .pending })
      else none
    else some (put s c { h with stage := .refused })
  | _ => none

def currentEpoch : Operation → Bool
  | .executeCheckpointTask r => s.activeEpochs r.jobId = r.executionEpoch
  | _ => true

def start (h : Handler) : Option Worker :=
  match h.task with
  | .pending =>
    some (put s c { h with
      task := match h.future with
        | .fresh => .executing (currentEpoch s h.request.operation)
        | _ => .ended })
  | _ => none

def callable (workerId : String) (checkpoints current : Bool) (conduct : Conduct) :
    Operation → Option (Except Failure WorkerResponse)
  | .executeTask r => r.split.map fun d => executeTask workerId r d conduct
  | .executeCheckpointTask r =>
    r.split.map fun d => executeCheckpointTask workerId checkpoints current r d conduct
  | _ => none

def finish (workerId : String) (checkpoints : Bool) (conduct : Conduct) (h : Handler) : Option Worker :=
  match h.task with
  | .executing current =>
    (callable workerId checkpoints current conduct h.request.operation).map fun result =>
      put s c { h with
        task := .ended
        future := match h.future with
          | .fresh => .done result
          | other => other }
  | _ => none

def interrupt (h : Handler) : Option Worker :=
  match h.stage, h.future with
  | .waiting, .fresh =>
    if s.closing = .stopped then
      some (put s c { h with stage := .woken (h.failing .taskCancelled "task wait interrupted") })
    else none
  | _, _ => none

inductive Event
  | receive (c : Connection) (request : WorkerRequest)
  | handle (c : Connection)
  | submit (c : Connection) (accepted : Bool)
  | start (c : Connection)
  | finish (c : Connection) (conduct : Conduct)
  | interrupt (c : Connection)
  | close
  | closeCancel (c : Connection)
  | closeRemove (taskId : String)
  | closeTasks
  | closeConnections

/-- Whether the pool accepts a task is the environment's, until it is shut down. `close` cancels the futures and clears the
registry entry by entry, then shuts the pools down; it may be called again. -/
def step (workerId : String) (checkpoints : Bool) (s : Worker) : Event → Option Worker
  | .receive c request =>
    match s.handlers c with
    | none => if s.closing = .stopped then none else some (put s c ⟨request, .received, .fresh, .unsubmitted⟩)
    | some _ => none
  | .handle c => (s.handlers c).bind (handle s c workerId)
  | .submit c accepted => (s.handlers c).bind (submit s c accepted)
  | .start c => (s.handlers c).bind (start s c)
  | .finish c conduct => (s.handlers c).bind (finish s c workerId checkpoints conduct)
  | .interrupt c => (s.handlers c).bind (interrupt s c)
  | .close => if s.closing = .running then some { s with closing := .closing } else some s
  | .closeCancel c => if s.closing = .running then none else some (cancelFuture s c).1
  | .closeRemove taskId =>
    if s.closing = .running then none
    else some { s with activeTasks := Function.update s.activeTasks taskId none }
  | .closeTasks => if s.closing = .closing then some { s with closing := .tasksStopped } else none
  | .closeConnections => if s.closing = .tasksStopped then some { s with closing := .stopped } else none

end

variable {s : Worker} {c d : Connection} {h k : Handler}

theorem put_handlers : (put s c h).handlers d = some k ↔ (d = c ∧ h = k) ∨ (d ≠ c ∧ s.handlers d = some k) := by
  by_cases hd : d = c
  · subst hd; simp [put]
  · simp [put, hd]

theorem remove_handlers (taskId : String) : (remove s c taskId).handlers = s.handlers := by
  unfold remove
  split <;> rfl

theorem cancelFuture_other (hne : c ≠ d) : (cancelFuture s d).1.handlers c = s.handlers c := by
  unfold cancelFuture
  split
  · exact Function.update_of_ne hne _ _
  · rfl

theorem cancelFuture_request (hc : s.handlers c = some h) :
    ∃ k, (cancelFuture s d).1.handlers c = some k ∧ k.request = h.request := by
  by_cases hne : c = d
  · subst hne
    unfold cancelFuture
    split
    · next htarget =>
      obtain rfl := Option.some.inj (htarget.symm.trans hc)
      exact ⟨_, Function.update_self .., rfl⟩
    · exact ⟨h, hc, rfl⟩
  · exact ⟨h, (cancelFuture_other hne).trans hc, rfl⟩

theorem answer_cancelFuture (response : WorkerResponse) :
    answer (cancelFuture s c).1 c h response = answer s c h response := by
  unfold cancelFuture
  split
  · simp [answer, put]
  · rfl

end AstraSync.WorkerServer
