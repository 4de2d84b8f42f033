import AstraSync.Library.ByteStrings
import Mathlib.Data.Int.Order.Basic

namespace AstraSync.JobLifecycle

open ByteStrings

inductive DesiredState
  | stopped
  | running
  deriving DecidableEq

inductive State
  | created
  | initializing
  | running
  | canceling
  | canceled
  | finished
  | failed
  deriving DecidableEq

abbrev Time := ℤ

structure Failure where
  (reason rootCause : String)
  timestamp : Time
  host : String
  deriving DecidableEq

structure Checkpoint where
  id : Int64
  timestamp : Time
  stateSize : Int64
  durationMS : Int32
  deriving DecidableEq

structure Status where
  desired : DesiredState
  state : State
  epoch : Int64
  restartCount : Int32
  (startTime endTime : Option Time)
  lastCheckpoint : Option Checkpoint
  failure : Option Failure
  deriving DecidableEq

structure Key where
  (ns name : Bytes)
  deriving DecidableEq

structure Job (S : Type) where
  key : Key
  uid : Bytes
  version : Int64
  spec : S
  status : Status
  (createdAt updatedAt : Time)

inductive LifecycleError
  | invalidSpec (message : String)
  | cannotUpdateSpec (state : State)
  | cannotStart (state : State)
  | cannotStop (state : State)
  | staleEpoch (current supplied : Int64)
  | cannotAdvance (current next : State)
  | failureRequired
  | failureRequiresFailed
  deriving DecidableEq

structure Context (S : Type) where
  parseUUID : Bytes → Bool
  validate : S → Option String

variable {S : Type}

def new (key : Key) (uid : Bytes) (spec : S) (now : Time) : Job S :=
  ⟨key, uid, 1, spec, ⟨.stopped, .created, 0, 0, none, none, none, none⟩, now, now⟩

def allowedTransition : State → State → Bool
  | .initializing, next => next = .running || next = .failed
  | .running, next => next = .finished || next = .failed
  | .canceling, next => next = .canceled || next = .failed
  | _, _ => false

def terminal (state : State) : Bool := state = .canceled || state = .finished || state = .failed

def active (state : State) : Bool := state = .initializing || state = .running || state = .canceling

def replaceSpec (validate : S → Option String) (j : Job S) (spec : S) (now : Time) : Except LifecycleError (Job S) :=
  match validate spec with
  | some message => .error (.invalidSpec message)
  | none =>
    if active j.status.state then .error (.cannotUpdateSpec j.status.state)
    else .ok { j with spec, updatedAt := now }

def started (j : Job S) (now : Time) : Job S :=
  { j with
    status := { j.status with
      restartCount := if 0 < j.status.epoch then j.status.restartCount + 1 else j.status.restartCount
      epoch := j.status.epoch + 1
      desired := .running
      state := .initializing
      startTime := some now
      endTime := none
      failure := none }
    updatedAt := now }

def requestStart (j : Job S) (now : Time) : Except LifecycleError (Job S × Bool) :=
  if j.status.desired = .running ∧ (j.status.state = .initializing ∨ j.status.state = .running) then
    .ok (j, false)
  else match j.status.state with
  | .created | .canceled | .finished | .failed => .ok (started j now, true)
  | .initializing | .running =>
    if j.status.desired = .running then .ok (j, false) else .ok (started j now, true)
  | .canceling => .error (.cannotStart .canceling)

def requestStop (j : Job S) (now : Time) : Except LifecycleError (Job S × Bool) :=
  if j.status.desired = .stopped then .ok (j, false)
  else match j.status.state with
  | .initializing | .running =>
    .ok ({ j with status := { j.status with desired := .stopped, state := .canceling }, updatedAt := now }, true)
  | .canceled | .finished | .failed =>
    .ok ({ j with status := { j.status with desired := .stopped }, updatedAt := now }, true)
  | state => .error (.cannotStop state)

def advance (j : Job S) (epoch : Int64) (state : State) (failure : Option Failure) (now : Time) :
    Except LifecycleError (Job S × Bool) :=
  if epoch ≠ j.status.epoch then .error (.staleEpoch j.status.epoch epoch)
  else if state = j.status.state then .ok (j, false)
  else if !allowedTransition j.status.state state then .error (.cannotAdvance j.status.state state)
  else if state = .failed ∧ failure = none then .error .failureRequired
  else if state ≠ .failed ∧ failure ≠ none then .error .failureRequiresFailed
  else
    let endTime := if state = .running then none else j.status.endTime
    .ok ({ j with
      status := { j.status with
        state
        desired := if terminal state then .stopped else j.status.desired
        endTime := if terminal state then some now else endTime
        failure }
      updatedAt := now }, true)

inductive Request (S : Type)
  | start
  | stop
  | advance (epoch : Int64) (state : State) (failure : Option Failure)
  | replaceSpec (spec : S)

/-- A request against the stored job, at a moment of the caller's clock; `true` where it changes the job. -/
def request (validate : S → Option String) (j : Job S) (r : Request S) (now : Time) :
    Except LifecycleError (Job S × Bool) :=
  match r with
  | .start => requestStart j now
  | .stop => requestStop j now
  | .advance epoch state failure => advance j epoch state failure now
  | .replaceSpec spec =>
    match replaceSpec validate j spec now with
    | .ok next => .ok (next, true)
    | .error e => .error e

def requested (validate : S → Option String) (j : Job S) (r : Request S) (now : Time) : Job S :=
  match request validate j r now with
  | .ok (next, _) => next
  | .error _ => j

variable {j next : Job S} {now : Time} {changed : Bool}

theorem requestStart_ok (h : requestStart j now = .ok (next, changed)) :
    (next = j ∧ changed = false) ∨ (next = started j now ∧ changed = true) := by
  unfold requestStart at h
  by_cases hrunning : j.status.desired = .running ∧ (j.status.state = .initializing ∨ j.status.state = .running)
  · grind
  · grind

theorem requestStop_ok (h : requestStop j now = .ok (next, changed)) :
    next.status.epoch = j.status.epoch ∧ next.uid = j.uid := by
  unfold requestStop at h
  split_ifs at h
  · cases h; exact ⟨rfl, rfl⟩
  · grind

variable {epoch : Int64} {state : State} {failure : Option Failure}

theorem advance_cases (h : advance j epoch state failure now = .ok (next, changed)) :
    state = j.status.state ∧ next = j ∧ changed = false ∨
      allowedTransition j.status.state state = true ∧ changed = true ∧ ∃ desired endTime,
        next = { j with status := { j.status with state, desired, endTime, failure }, updatedAt := now } := by
  unfold advance at h
  split at h
  · cases h
  · split at h
    · next hstate =>
      cases h
      exact .inl ⟨hstate, rfl, rfl⟩
    · split at h
      · cases h
      · next hallowed =>
        split at h
        · cases h
        · split at h <;> cases h
          exact .inr ⟨by simpa using hallowed, rfl, _, _, rfl⟩

theorem advance_ok (h : advance j epoch state failure now = .ok (next, changed)) :
    next.status.epoch = j.status.epoch ∧ next.uid = j.uid := by
  rcases advance_cases h with ⟨-, rfl, -⟩ | ⟨-, -, _, _, rfl⟩ <;> exact ⟨rfl, rfl⟩

theorem replaceSpec_ok {validate : S → Option String} {spec : S} (h : replaceSpec validate j spec now = .ok next) :
    next.status.epoch = j.status.epoch ∧ next.uid = j.uid := by
  unfold replaceSpec at h
  cases hv : validate spec with
  | some => simp only [hv] at h; cases h
  | none => grind

def startCount (validate : S → Option String) (j : Job S) (r : Request S) (now : Time) : ℕ :=
  match r, request validate j r now with
  | .start, .ok (_, true) => 1
  | _, _ => 0

theorem requested_cases (validate : S → Option String) (j : Job S) (r : Request S) (now : Time) :
    (requested validate j r now).uid = j.uid ∧
      (((requested validate j r now).status.epoch = j.status.epoch ∧ startCount validate j r now = 0) ∨
        ((requested validate j r now).status.epoch = j.status.epoch + 1 ∧ startCount validate j r now = 1)) := by
  unfold requested startCount
  cases hr : request validate j r now with
  | error => exact ⟨rfl, .inl ⟨rfl, by cases r <;> rfl⟩⟩
  | ok p =>
    obtain ⟨next, changed⟩ := p
    cases r with
    | start =>
      rcases requestStart_ok hr with ⟨rfl, rfl⟩ | ⟨rfl, rfl⟩
      · exact ⟨rfl, .inl ⟨rfl, rfl⟩⟩
      · exact ⟨rfl, .inr ⟨rfl, rfl⟩⟩
    | stop =>
      obtain ⟨hepoch, huid⟩ := requestStop_ok hr
      exact ⟨huid, .inl ⟨hepoch, rfl⟩⟩
    | advance =>
      obtain ⟨hepoch, huid⟩ := advance_ok hr
      exact ⟨huid, .inl ⟨hepoch, rfl⟩⟩
    | replaceSpec spec =>
      simp only [request] at hr
      cases hs : replaceSpec validate j spec now with
      | error => rw [hs] at hr; cases hr
      | ok => grind [replaceSpec_ok]

end AstraSync.JobLifecycle
