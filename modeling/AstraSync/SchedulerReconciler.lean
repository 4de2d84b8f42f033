import AstraSync.ExecutionDispatcher

namespace AstraSync.SchedulerReconciler

open ByteStrings JobLifecycle DispatchStore SchedulerWorld
open ExecutionDispatcher (Observation)

variable {S : Type}

structure Config where
  ownerID : Bytes
  host : String
  (leaseDuration heartbeatTimeout : Time)

def keepAlive (cfg : Config) (record : Record) (phase : Phase) (lastError : String) : Prog S (Except Fault Unit) := do
  let now ← Calls.clock
  Calls.updateDispatch record.identity cfg.ownerID phase lastError cfg.leaseDuration now

def recordTransientError (cfg : Config) (record : Record) (e : Fault) : Prog S (Except Fault Unit) := do
  match ← keepAlive cfg record record.phase e.text with
  | .error lease => pure (.error (if lease.isLeaseLost then e else .joined e lease))
  | .ok () => pure (.error e)

def complete (cfg : Config) (record : Record) (phase : Phase) (lastError : String) (stopped : Bool) :
    Prog S (Except Fault Unit) := do
  let now ← Calls.clock
  Calls.completeDispatch record.identity cfg.ownerID phase lastError now stopped

def phaseForTerminalState : State → Option Phase
  | .finished => some .succeeded
  | .failed => some .failed
  | .canceled => some .canceled
  | _ => none

def failureText : Option Failure → String
  | none => ""
  | some failure =>
    if failure.rootCause = "" then failure.reason else failure.reason ++ ": " ++ failure.rootCause

def updateState (current : Job S) (epoch : Int64) (target : State) (failure : Option Failure) :
    Prog S (Except Fault Unit) := do
  let now ← Calls.clock
  match advance current epoch target failure now with
  | .error e => pure (.error (.lifecycle e))
  | .ok (_, false) => pure (.ok ())
  | .ok (next, true) => Calls.updateJob next current.version

def stale (record : Record) (current : Job S) : Bool :=
  current.uid ≠ record.identity.jobUID || current.status.epoch ≠ record.identity.epoch

def attemptTransition (record : Record) (target : State) (failure : Option Failure) : ℕ → Prog S (Except Fault Unit)
  | 0 => pure (.error (.wrapped "job status update exceeded conflict retry limit" (.table .conflict)))
  | attempts + 1 => do
    match ← Calls.getJob record.key with
    | .error e => pure (.error e)
    | .ok current =>
      if stale record current then pure (.error .staleEpoch)
      else if current.status.state = target then pure (.ok ())
      else if target = .finished ∧ current.status.state = .initializing then
        match ← updateState current record.identity.epoch .running none with
        | .error e =>
          if e.isConflict then attemptTransition record target failure attempts else pure (.error e)
        | .ok () => attemptTransition record target failure attempts
      else if terminal current.status.state then
        pure (.error (.other ("execution already ended in state " ++ stateText current.status.state)))
      else
        match ← updateState current record.identity.epoch target failure with
        | .error e =>
          if e.isConflict then attemptTransition record target failure attempts else pure (.error e)
        | .ok () => pure (.ok ())

def transition (record : Record) (target : State) (failure : Option Failure) : Prog S (Except Fault Unit) :=
  attemptTransition record target failure 5

def failPermanently (cfg : Config) (record : Record) (reason rootCause : String) : Prog S (Except Fault Unit) := do
  let now ← Calls.clock
  match ← transition record .failed (some ⟨reason, rootCause, now, cfg.host⟩) with
  | .error e => pure (.error e)
  | .ok () => complete cfg record .failed rootCause false

def stopThen (c : Settings S) (cfg : Config) (record : Record) (lastError : String)
    (next : Prog S (Except Fault Unit)) : Prog S (Except Fault Unit) := do
  match ← ExecutionDispatcher.stop c record.identity with
  | .error e => recordTransientError cfg record e
  | .ok false => keepAlive cfg record .stopping lastError
  | .ok true => next

def failureTime (record : Record) : Prog S Time :=
  if record.updatedAt = zeroTime then Calls.clock else pure record.updatedAt

def finishHeartbeatFailure (c : Settings S) (cfg : Config) (record : Record) : Prog S (Except Fault Unit) := do
  let rootCause := if record.lastError = "" then "execution heartbeat timed out before failure cleanup completed"
    else record.lastError
  let timestamp ← failureTime record
  match ← transition record .failed (some ⟨"HeartbeatTimeout", rootCause, timestamp, cfg.host⟩) with
  | .error e => pure (.error e)
  | .ok () => stopThen c cfg record rootCause (complete cfg record .failed rootCause true)

def failHeartbeat (c : Settings S) (cfg : Config) (record : Record) (rootCause : String) :
    Prog S (Except Fault Unit) := do
  let now ← Calls.clock
  match ← Calls.fenceExpiredHeartbeat record.identity cfg.ownerID rootCause cfg.heartbeatTimeout cfg.leaseDuration
      now with
  | .error e => pure (.error e)
  | .ok false => pure (.ok ())
  | .ok true =>
    finishHeartbeatFailure c cfg { record with phase := .stopping, lastError := rootCause, updatedAt := now }

def heartbeatExpired (cfg : Config) (record : Record) : Prog S Bool :=
  match record.lastHeartbeatAt with
  | none => pure false
  | some last =>
    if last = zeroTime then pure false
    else do
      let now ← Calls.clock
      pure (heartbeatBefore (now - cfg.heartbeatTimeout) (some last))

def finishCancel (cfg : Config) (record : Record) : Prog S (Except Fault Unit) := do
  match ← transition record .canceled none with
  | .error e => pure (.error e)
  | .ok () => complete cfg record .canceled "" true

def cancel (c : Settings S) (cfg : Config) (record : Record) : Prog S (Except Fault Unit) := do
  match ← keepAlive cfg record .stopping "" with
  | .error e => pure (.error e)
  | .ok () =>
    let record := { record with phase := .stopping }
    stopThen c cfg record "" (finishCancel cfg record)

def desiredText : DesiredState → String
  | .stopped => "STOPPED"
  | .running => "RUNNING"

def dispatchFailed (c : Settings S) (cfg : Config) (record : Record) (claimedExecution : Bool) (e : Fault) :
    Prog S (Except Fault Unit) :=
  match if claimedExecution then e.permanent? else none with
  | some cause => failPermanently cfg record "DispatchRejected" cause.text
  | none => do
    if ← heartbeatExpired cfg record then failHeartbeat c cfg record e.text
    else recordTransientError cfg record e

def observed (c : Settings S) (cfg : Config) (record : Record) (observation : Observation) :
    Prog S (Except Fault Unit) :=
  match observation.state with
  | .pending => do
    if ← heartbeatExpired cfg record then
      failHeartbeat c cfg record "execution did not report a healthy Coordinator"
    else keepAlive cfg record record.phase ""
  | .running => do
    if ← heartbeatExpired cfg record then
      failHeartbeat c cfg record "Coordinator remained active without a heartbeat"
    else match ← transition record .running none with
      | .error e => pure (.error e)
      | .ok () => keepAlive cfg record .running ""
  | .succeeded => do
    match ← transition record .finished none with
    | .error e => pure (.error e)
    | .ok () => complete cfg record .succeeded "" false
  | .failed =>
    failPermanently cfg record (if observation.reason = "" then "CoordinatorFailed" else observation.reason)
      observation.message

def dispatch (c : Settings S) (cfg : Config) (record : Record) (claimedExecution : Bool) (current : Job S) :
    Prog S (Except Fault Unit) := do
  match ← ExecutionDispatcher.reconcile c current record with
  | .error e => dispatchFailed c cfg record claimedExecution e
  | .ok observation => observed c cfg record observation

def work (c : Settings S) (cfg : Config) (record : Record) (current : Job S) : Prog S (Except Fault Unit) := do
  let claimedExecution := decide (record.phase = .claimed)
  let workingPhase := if claimedExecution then .starting else record.phase
  match ← keepAlive cfg record workingPhase "" with
  | .error e => pure (.error e)
  | .ok () => dispatch c cfg { record with phase := workingPhase } claimedExecution current

def reconcile (c : Settings S) (cfg : Config) (record : Record) : Prog S (Except Fault Unit) := do
  match ← Calls.getJob record.key with
  | .error e => recordTransientError cfg record e
  | .ok current =>
    if stale record current then
      stopThen c cfg record "" (complete cfg record .canceled "stale execution identity" true)
    else match phaseForTerminalState current.status.state with
      | some phase =>
        if record.phase = .stopping then
          stopThen c cfg record "" (complete cfg record phase (failureText current.status.failure) true)
        else
          match ← ExecutionDispatcher.cleanup c record.identity with
          | .error e => recordTransientError cfg record e
          | .ok () => complete cfg record phase (failureText current.status.failure) false
      | none =>
        if current.status.desired = .stopped ∨ current.status.state = .canceling then cancel c cfg record
        else if current.status.desired ≠ .running ∨
            (current.status.state ≠ .initializing ∧ current.status.state ≠ .running) then
          recordTransientError cfg record (.other ("job has unsupported active lifecycle desired=" ++
            desiredText current.status.desired ++ " state=" ++ stateText current.status.state))
        else if record.phase = .stopping then finishHeartbeatFailure c cfg record
        else work c cfg record current

end AstraSync.SchedulerReconciler
