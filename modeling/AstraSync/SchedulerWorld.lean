import AstraSync.DispatchDatabase
import AstraSync.JobTable
import AstraSync.Library.Programs

/-!
What the scheduler replicas share, the database and the Kubernetes namespace, and the calls their
reconcilers make on it. Each call is one atomic step; it can fail, with or without having taken effect.
-/

namespace AstraSync.SchedulerWorld

open ByteStrings JobLifecycle DispatchStore ExecutionResources DispatchDatabase Programs
open JobTable (TableError)

inductive Fault
  | table (e : TableError)
  | lifecycle (e : LifecycleError)
  | staleEpoch
  | dispatch (e : DispatchError)
  | absent
  | alreadyExists
  | credentialLeaseLost
  | providerPolicy
  | revisionMismatch
  | receiptConflict
  | permanent (cause : Fault)
  | wrapped (context : String) (cause : Fault)
  | joined (first second : Fault)
  | other (text : String)

def stateText : State → String
  | .created => "CREATED"
  | .initializing => "INITIALIZING"
  | .running => "RUNNING"
  | .canceling => "CANCELING"
  | .canceled => "CANCELED"
  | .finished => "FINISHED"
  | .failed => "FAILED"

def tableText : TableError → String
  | .invalid message => message
  | .notFound => "job not found"
  | .alreadyExists => "job already exists"
  | .conflict => "job version conflict"
  | .staleEpoch current supplied => s!"stale execution epoch: current={current} supplied={supplied}"
  | .outOfRange => "update job: bigint out of range"

def lifecycleText : LifecycleError → String
  | .invalidSpec message => message
  | .cannotUpdateSpec state => "invalid job state transition: cannot update spec while state is " ++ stateText state
  | .cannotStart state => "invalid job state transition: cannot start from " ++ stateText state
  | .cannotStop state => "invalid job state transition: cannot stop from " ++ stateText state
  | .staleEpoch current supplied => s!"stale execution epoch: current={current} supplied={supplied}"
  | .cannotAdvance current next =>
    "invalid job state transition: cannot advance from " ++ stateText current ++ " to " ++ stateText next
  | .failureRequired => "invalid job state transition: failure details are required"
  | .failureRequiresFailed => "invalid job state transition: failure details require FAILED state"

def dispatchText : DispatchError → String
  | .blankJobUID => "job UID must not be blank"
  | .nonPositiveEpoch => "execution epoch must be positive"
  | .blankOwner => "owner ID must not be blank"
  | .maximumActive => "maximum active dispatches must be positive"
  | .leaseDuration => "lease duration must be positive"
  | .heartbeatTimeout => "heartbeat timeout must be positive"
  | .invalidUpdate => "active dispatch update is invalid"
  | .invalidHeartbeat => "heartbeat update is invalid"
  | .heartbeatToken => "heartbeat token must be a UUID"
  | .invalidFence => "heartbeat timeout fence is invalid"
  | .invalidCompletion => "terminal dispatch update is invalid"
  | .leaseLost => "dispatch lease lost"

def Fault.text : Fault → String
  | .table e => tableText e
  | .lifecycle e => lifecycleText e
  | .staleEpoch => "stale execution epoch"
  | .dispatch e => dispatchText e
  | .absent => "not found"
  | .alreadyExists => "already exists"
  | .credentialLeaseLost => "materialization dispatch lease lost"
  | .providerPolicy => "credential provider policy rejected captured generation"
  | .revisionMismatch => "materialization revision mismatch"
  | .receiptConflict => "materialization receipt conflict"
  | .permanent cause => cause.text
  | .wrapped context cause => context ++ ": " ++ cause.text
  | .joined first second => first.text ++ "\n" ++ second.text
  | .other text => text

def Fault.permanent? : Fault → Option Fault
  | .permanent cause => some cause
  | .wrapped _ cause => cause.permanent?
  | .joined first second => first.permanent?.or second.permanent?
  | _ => none

def Fault.isConflict : Fault → Bool
  | .table .conflict => true
  | .wrapped _ cause => cause.isConflict
  | _ => false

def Fault.isLeaseLost : Fault → Bool
  | .dispatch .leaseLost => true
  | .wrapped _ cause => cause.isLeaseLost
  | _ => false

def Fault.rejectsCredentials : Fault → Bool
  | .providerPolicy | .revisionMismatch | .receiptConflict => true
  | .wrapped _ cause => cause.rejectsCredentials
  | _ => false

inductive Role
  | source
  | sink
  deriving DecidableEq

structure Binding where
  tenantID : Bytes
  role : Role
  jobUID : Bytes
  epoch : Int64
  connectionUID : Bytes
  generation : Int64
  (descriptorRevision compilerRevision schemaRevision : Bytes)
  deriving DecidableEq

structure ProviderReceipt where
  (kind objectUID versionToken : Bytes)
  deriving DecidableEq

structure Receipt where
  (tenantID jobUID : Bytes)
  epoch : Int64
  role : Role
  connectionUID : Bytes
  generation : Int64
  descriptorRevision : Bytes
  provider : ProviderReceipt
  (secretName secretUID resourceVersion : Bytes)
  createdAt : Time
  deriving DecidableEq

inductive ObligationState
  | pending
  | complete
  deriving DecidableEq

structure Obligation where
  (connectionUID jobUID : Bytes)
  epoch : Int64
  state : ObligationState
  deriving DecidableEq

inductive ConditionType
  | complete
  | failed
  | other
  deriving DecidableEq

structure Condition where
  type : ConditionType
  holds : Bool
  (reason message : String)
  deriving DecidableEq

structure ObjectStatus where
  (readyReplicas active succeeded : ℤ)
  conditions : List Condition
  deriving DecidableEq

structure Body where
  fingerprint : Bytes
  immutable : Bool
  data : List (Bytes × Bytes)
  deriving DecidableEq

structure Object where
  resource : Resource
  body : Body
  (uid resourceVersion : Bytes)
  status : ObjectStatus
  deriving DecidableEq

/-- `outcomes` are the terminal states jobs have reached, with the execution they ended. `completed` are the
executions whose row was completed after the dispatcher had stopped them, `resurrected` the resources
created for such an execution afterwards. -/
structure World (S : Type) where
  db : Database S
  outcomes : List (Identity × State)
  bindings : List Binding
  obligations : List Obligation
  receipts : List Receipt
  objects : List Object
  serial : ℕ
  completed : List Identity
  resurrected : List (Identity × Part)

/-- What the scheduler takes from its configuration and from elsewhere: the encoding of documents and
their fingerprints, the checks of a binding and of a receipt, and the identifiers the API server gives out. -/
structure Settings (S : Type) extends Context S where
  (materializes hasCredentials : Bool)
  workerReplicas : ℤ
  document : Job S → Except String (Bytes × Bytes)
  combinedFingerprint : Bytes → Bytes → Bytes
  bindingFingerprint : List Binding → Bytes
  references : S → Role → Bool
  validBinding : Binding → Bool
  validReceipt : Receipt → Bool
  (objectUID objectVersion : ℕ → Bytes)

variable {S : Type}

inductive Call (S : Type)
  | clock
  | getJob (key : Key)
  | updateJob (candidate : Job S) (expectedVersion : Int64)
  | updateDispatch (i : Identity) (ownerID : Bytes) (phase : Phase) (lastError : String) (leaseDuration now : Time)
  | fenceExpiredHeartbeat (i : Identity) (ownerID : Bytes) (lastError : String)
      (heartbeatTimeout leaseDuration now : Time)
  | completeDispatch (i : Identity) (ownerID : Bytes) (phase : Phase) (lastError : String) (now : Time)
      (stopped : Bool)
  | loadBindings (record : Record) (now : Time)
  | claimCleanup (record : Record) (bindings : List Binding) (now : Time)
  | readReceipts (i : Identity)
  | commitReceipts (record : Record) (receipts : List Receipt) (now : Time)
  | completeCleanup (i : Identity)
  | buildEnvelopes (bindings : List Binding)
  | getObject (kind : Kind) (name : Bytes)
  | createObject (i : Identity) (part : Part) (body : Body)
  | deleteObject (kind : Kind) (name : Bytes)

abbrev Answer : Call S → Type
  | .clock => Time
  | .getJob _ => Except Fault (Job S)
  | .updateJob _ _ => Except Fault Unit
  | .updateDispatch _ _ _ _ _ _ => Except Fault Unit
  | .fenceExpiredHeartbeat _ _ _ _ _ _ => Except Fault Bool
  | .completeDispatch _ _ _ _ _ _ => Except Fault Unit
  | .loadBindings _ _ => Except Fault (List Binding)
  | .claimCleanup _ _ _ => Except Fault Unit
  | .readReceipts _ => Except Fault (List Receipt)
  | .commitReceipts _ _ _ => Except Fault Unit
  | .completeCleanup _ => Except Fault Unit
  | .buildEnvelopes _ => Except Fault (List (Bytes × Bytes) × List ProviderReceipt)
  | .getObject _ _ => Except Fault Object
  | .createObject _ _ _ => Except Fault Object
  | .deleteObject _ _ => Except Fault Unit

abbrev Prog (S : Type) := Program (Call S) Answer

namespace Calls

abbrev clock : Prog S Time := perform Call.clock

abbrev getJob (key : Key) : Prog S (Except Fault (Job S)) := perform (Call.getJob key)

abbrev updateJob (candidate : Job S) (expectedVersion : Int64) : Prog S (Except Fault Unit) :=
  perform (Call.updateJob candidate expectedVersion)

abbrev updateDispatch (i : Identity) (ownerID : Bytes) (phase : Phase) (lastError : String)
    (leaseDuration now : Time) : Prog S (Except Fault Unit) :=
  perform (Call.updateDispatch i ownerID phase lastError leaseDuration now)

abbrev fenceExpiredHeartbeat (i : Identity) (ownerID : Bytes) (lastError : String)
    (heartbeatTimeout leaseDuration now : Time) : Prog S (Except Fault Bool) :=
  perform (Call.fenceExpiredHeartbeat i ownerID lastError heartbeatTimeout leaseDuration now)

abbrev completeDispatch (i : Identity) (ownerID : Bytes) (phase : Phase) (lastError : String) (now : Time)
    (stopped : Bool) : Prog S (Except Fault Unit) :=
  perform (Call.completeDispatch i ownerID phase lastError now stopped)

abbrev loadBindings (record : Record) (now : Time) : Prog S (Except Fault (List Binding)) :=
  perform (Call.loadBindings record now)

abbrev claimCleanup (record : Record) (bindings : List Binding) (now : Time) : Prog S (Except Fault Unit) :=
  perform (Call.claimCleanup record bindings now)

abbrev readReceipts (i : Identity) : Prog S (Except Fault (List Receipt)) := perform (Call.readReceipts i)

abbrev commitReceipts (record : Record) (receipts : List Receipt) (now : Time) : Prog S (Except Fault Unit) :=
  perform (Call.commitReceipts record receipts now)

abbrev completeCleanup (i : Identity) : Prog S (Except Fault Unit) := perform (Call.completeCleanup i)

abbrev buildEnvelopes (bindings : List Binding) :
    Prog S (Except Fault (List (Bytes × Bytes) × List ProviderReceipt)) := perform (Call.buildEnvelopes bindings)

abbrev getObject (kind : Kind) (name : Bytes) : Prog S (Except Fault Object) := perform (Call.getObject kind name)

abbrev createObject (i : Identity) (part : Part) (body : Body) : Prog S (Except Fault Object) :=
  perform (Call.createObject i part body)

abbrev deleteObject (kind : Kind) (name : Bytes) : Prog S (Except Fault Unit) := perform (Call.deleteObject kind name)

end Calls

/-- What the environment decides about a call: the time on the clock, the values the credential provider
returns or its refusal, whether a deletion is still pending, and a failure before or after the call took
effect. -/
inductive Choice
  | time (now : Time)
  | answer
  | envelopes (data : List (Bytes × Bytes)) (receipts : List ProviderReceipt)
  | refuse (e : Fault)
  | deferred
  | fail (text : String)
  | lose (text : String)

def settle {α : Type} (w : World S) (effect : World S × Except Fault α) : Choice → Option (World S × Except Fault α)
  | .answer => some effect
  | .fail text => some (w, .error (.other text))
  | .lose text => some (effect.1, .error (.other text))
  | _ => none

def refusable {α : Type} (w : World S) (effect : World S × Except Fault α) (choice : Choice) :
    Option (World S × Except Fault α) :=
  match choice with
  | .refuse e => some (w, .error e)
  | _ => settle w effect choice

def deferrable (w : World S) (effect : World S × Except Fault Unit) (choice : Choice) :
    Option (World S × Except Fault Unit) :=
  match choice with
  | .deferred => some (w, .ok ())
  | _ => settle w effect choice

def recordOutcome (outcomes : List (Identity × State)) (stored : Job S) : List (Identity × State) :=
  if terminal stored.status.state then outcomes ++ [(jobIdentity stored, stored.status.state)] else outcomes

def putJobs (w : World S) (jobs : List (Job S)) (stored : Job S) : World S :=
  { w with db := { w.db with jobs }, outcomes := recordOutcome w.outcomes stored }

def updateJob (c : Settings S) (w : World S) (candidate : Job S) (expectedVersion : Int64) :
    World S × Except Fault Unit :=
  match JobTable.update c.toContext w.db.jobs candidate expectedVersion with
  | .ok (jobs, stored) => (putJobs w jobs stored, .ok ())
  | .error e => (w, .error (.table e))

def setRows {α : Type} (w : World S) (change : Table × Except DispatchError α) : World S × Except Fault α :=
  ({ w with db := { w.db with rows := change.1 } }, change.2.mapError .dispatch)

def completeDispatch (w : World S) (i : Identity) (ownerID : Bytes) (phase : Phase) (lastError : String)
    (now : Time) (stopped : Bool) : World S × Except Fault Unit :=
  let done := setRows w (complete i ownerID phase lastError now w.db.rows)
  match stopped, done.2 with
  | true, .ok () => ({ done.1 with completed := w.completed ++ [i] }, .ok ())
  | _, _ => done

def verifyLease (rows : Table) (record : Record) (now : Time) : Bool :=
  record.identity.validate = none && record.ownerID ≠ [] &&
    rows.any fun r => leased record.identity record.ownerID now r && r.phase.live

def bound (i : Identity) (b : Binding) : Bool := b.jobUID = i.jobUID && b.epoch = i.epoch

def loadBindings (w : World S) (record : Record) (now : Time) : Except Fault (List Binding) :=
  if verifyLease w.db.rows record now then .ok (w.bindings.filter (bound record.identity))
  else .error .credentialLeaseLost

def obligationOf (b : Binding) (o : Obligation) : Bool :=
  o.connectionUID = b.connectionUID && o.jobUID = b.jobUID && o.epoch = b.epoch

def claimObligation (obligations : List Obligation) (b : Binding) : List Obligation :=
  if obligations.any (obligationOf b) then obligations
  else obligations ++ [⟨b.connectionUID, b.jobUID, b.epoch, .pending⟩]

def claimCleanup (w : World S) (record : Record) (bindings : List Binding) (now : Time) : World S × Except Fault Unit :=
  if verifyLease w.db.rows record now then
    ({ w with obligations := bindings.foldl claimObligation w.obligations }, .ok ())
  else (w, .error .credentialLeaseLost)

def sameReceipt (a b : Receipt) : Bool := { a with createdAt := b.createdAt } = b

def commitReceipt (c : Settings S) (w : World S) (i : Identity) (receipts : List Receipt) (r : Receipt) :
    Except Fault (List Receipt) :=
  if c.validReceipt r = false ∨ r.jobUID ≠ i.jobUID ∨ r.epoch ≠ i.epoch then
    .error (.other "materialization receipt does not match the leased execution")
  else if w.bindings.any (fun b => bound i b && b.role = r.role && b.tenantID = r.tenantID &&
      b.connectionUID = r.connectionUID && b.generation = r.generation &&
      b.descriptorRevision = r.descriptorRevision) = false then
    .error .revisionMismatch
  else match receipts.find? fun q => q.jobUID = r.jobUID && q.epoch = r.epoch && q.role = r.role with
    | some existing => if sameReceipt existing r then .ok receipts else .error .receiptConflict
    | none => .ok (receipts ++ [r])

def commitReceipts (c : Settings S) (w : World S) (record : Record) (receipts : List Receipt) (now : Time) :
    World S × Except Fault Unit :=
  if receipts.length = 0 ∨ 2 < receipts.length then
    (w, .error (.other "materialization receipt count is invalid"))
  else if verifyLease w.db.rows record now then
    match receipts.foldlM (commitReceipt c w record.identity) w.receipts with
    | .ok receipts => ({ w with receipts }, .ok ())
    | .error e => (w, .error e)
  else (w, .error .credentialLeaseLost)

def finishObligation (i : Identity) (o : Obligation) : Obligation :=
  if o.jobUID = i.jobUID ∧ o.epoch = i.epoch then { o with state := .complete } else o

def completeCleanup (w : World S) (i : Identity) : World S :=
  { w with obligations := w.obligations.map (finishObligation i) }

def isObject (kind : Kind) (name : Bytes) (o : Object) : Bool := o.resource.kind = kind && o.resource.name = name

def getObject (w : World S) (kind : Kind) (name : Bytes) : Except Fault Object :=
  match w.objects.find? (isObject kind name) with
  | some o => .ok o
  | none => .error .absent

def createObject (c : Settings S) (w : World S) (i : Identity) (part : Part) (body : Body) :
    World S × Except Fault Object :=
  if w.objects.any (isObject part.kind (partName i part)) then (w, .error .alreadyExists)
  else
    let o : Object := ⟨resourceOf i part, body, c.objectUID w.serial, c.objectVersion w.serial, ⟨0, 0, 0, []⟩⟩
    ({ w with
      objects := w.objects ++ [o]
      serial := w.serial + 1
      resurrected := if i ∈ w.completed then w.resurrected ++ [(i, part)] else w.resurrected }, .ok o)

def removeObject (w : World S) (kind : Kind) (name : Bytes) : World S :=
  { w with objects := w.objects.filter fun o => !isObject kind name o }

def deleteObject (w : World S) (kind : Kind) (name : Bytes) : World S × Except Fault Unit :=
  if w.objects.any (isObject kind name) then (removeObject w kind name, .ok ()) else (w, .error .absent)

def execute (c : Settings S) (w : World S) : (e : Call S) → Choice → Option (World S × Answer e)
  | .clock => fun
    | .time now => some (w, now)
    | _ => none
  | .getJob key => settle w (w, (JobTable.get w.db.jobs key).mapError .table)
  | .updateJob candidate expectedVersion => settle w (updateJob c w candidate expectedVersion)
  | .updateDispatch i ownerID phase lastError leaseDuration now =>
    settle w (setRows w (update i ownerID phase lastError leaseDuration now w.db.rows))
  | .fenceExpiredHeartbeat i ownerID lastError heartbeatTimeout leaseDuration now =>
    settle w (setRows w (fenceExpiredHeartbeat i ownerID lastError heartbeatTimeout leaseDuration now w.db.rows))
  | .completeDispatch i ownerID phase lastError now stopped =>
    settle w (completeDispatch w i ownerID phase lastError now stopped)
  | .loadBindings record now => refusable w (w, loadBindings w record now)
  | .claimCleanup record bindings now => settle w (claimCleanup w record bindings now)
  | .readReceipts i =>
    settle w (w, .ok (w.receipts.filter fun r => r.jobUID = i.jobUID && r.epoch = i.epoch))
  | .commitReceipts record receipts now => settle w (commitReceipts c w record receipts now)
  | .completeCleanup i => settle w (completeCleanup w i, .ok ())
  | .buildEnvelopes _ => fun
    | .envelopes data receipts => some (w, .ok (data, receipts))
    | .refuse e => some (w, .error e)
    | _ => none
  | .getObject kind name => settle w (w, getObject w kind name)
  | .createObject i part body => settle w (createObject c w i part body)
  | .deleteObject kind name => deferrable w (deleteObject w kind name)

def executes (c : Settings S) (w : World S) (e : Call S) (r : Answer e) (u : World S) : Prop :=
  ∃ choice, execute c w e choice = some (u, r)

section

variable {c : Settings S} {w u : World S} {choice : Choice}

theorem executes_of {e : Call S} {r : Answer e} (h : execute c w e choice = some (u, r)) : executes c w e r u :=
  ⟨choice, h⟩

def Call.reads : Call S → Bool
  | .clock | .getJob _ | .loadBindings _ _ | .readReceipts _ | .buildEnvelopes _ | .getObject _ _ => true
  | _ => false

def Call.quiet (i : Identity) : Call S → Prop
  | .updateJob _ _ | .updateDispatch _ _ _ _ _ _ | .fenceExpiredHeartbeat _ _ _ _ _ _
  | .completeDispatch _ _ _ _ _ _ => False
  | .createObject j _ _ => j = i
  | _ => True

variable {α : Type} {effect : World S × Except Fault α} {r : Except Fault Unit} {record : Record} {now : Time}

theorem settle_some {r : Except Fault α} (h : settle w effect choice = some (u, r)) :
    (u = effect.1 ∧ r = effect.2) ∨ ((u = w ∨ u = effect.1) ∧ ∃ text, r = .error (.other text)) := by
  cases choice with
  | answer =>
    cases h
    exact .inl ⟨rfl, rfl⟩
  | fail text =>
    cases h
    exact .inr ⟨.inl rfl, text, rfl⟩
  | lose text =>
    cases h
    exact .inr ⟨.inr rfl, text, rfl⟩
  | _ => cases h

theorem refusable_some {r : Except Fault α} (h : refusable w effect choice = some (u, r)) :
    (∃ e, u = w ∧ r = .error e) ∨ settle w effect choice = some (u, r) := by
  unfold refusable at h
  split at h
  · cases h
    exact .inl ⟨_, rfl, rfl⟩
  · exact .inr h

theorem deferrable_some {effect : World S × Except Fault Unit}
    (h : deferrable w effect choice = some (u, r)) : u = w ∨ settle w effect choice = some (u, r) := by
  unfold deferrable at h
  split at h
  · cases h
    exact .inl rfl
  · exact .inr h

theorem settle_world {r : Except Fault α} (h : settle w effect choice = some (u, r)) : u = w ∨ u = effect.1 := by
  grind [settle_some]

theorem settle_same {answer r : Except Fault α} (h : settle w (w, answer) choice = some (u, r)) : u = w := by
  rcases settle_world h with h | h <;> exact h

theorem execute_reads {e : Call S} {r : Answer e} (hreads : e.reads = true)
    (h : execute c w e choice = some (u, r)) : u = w := by
  cases e with
  | clock => cases choice <;> cases h; rfl
  | buildEnvelopes => cases choice <;> cases h <;> rfl
  | loadBindings =>
    rcases refusable_some h with ⟨e, rfl, -⟩ | h
    · rfl
    · exact settle_same h
  | getJob => exact settle_same h
  | readReceipts => exact settle_same h
  | getObject => exact settle_same h
  | _ => cases hreads

theorem execute_getObject {kind : Kind} {name : Bytes} {r : Except Fault Object}
    (h : execute c w (.getObject kind name) choice = some (u, r)) (habsent : r = .error .absent) :
    ∀ o ∈ w.objects, isObject kind name o = false := by
  rcases settle_some h with ⟨-, hr⟩ | ⟨-, text, hr⟩
  · rw [habsent] at hr
    unfold getObject at hr
    split at hr
    · cases hr
    · next hfind => simpa using hfind
  · rw [habsent] at hr
    cases hr

theorem execute_loadBindings {loaded : List Binding}
    (h : execute c w (.loadBindings record now) choice = some (u, .ok loaded)) :
    loaded = w.bindings.filter (bound record.identity) := by
  rcases refusable_some h with ⟨e, -, hr⟩ | h
  · cases hr
  rcases settle_some h with ⟨-, hr⟩ | ⟨-, text, hr⟩
  · simp only [loadBindings] at hr
    split_ifs at hr
    cases hr
    rfl
  · cases hr

theorem execute_getJob {key : Key} {j : Job S} (h : execute c w (.getJob key) choice = some (u, .ok j)) :
    j ∈ w.db.jobs ∧ j.key = key := by
  rcases settle_some h with ⟨-, hr⟩ | ⟨-, text, hr⟩
  · cases hget : JobTable.get w.db.jobs key with
    | error =>
      rw [hget] at hr
      cases hr
    | ok =>
      rw [hget] at hr
      cases hr
      exact JobTable.get_ok hget
  · cases hr

theorem execute_updateJob {candidate : Job S} {version : Int64}
    (h : execute c w (.updateJob candidate version) choice = some (u, r)) :
    (u = w ∧ r ≠ .ok ()) ∨ ∃ jobs stored,
      JobTable.update c.toContext w.db.jobs candidate version = .ok (jobs, stored) ∧ u = putJobs w jobs stored := by
  cases hupdate : JobTable.update c.toContext w.db.jobs candidate version with
  | ok written =>
    have heffect : updateJob c w candidate version = (putJobs w written.1 written.2, .ok ()) := by
      rw [updateJob, hupdate]
    rcases settle_some h with ⟨hu, -⟩ | ⟨hu, text, hr⟩
    · exact .inr ⟨_, _, rfl, by rw [hu, heffect]⟩
    · grind
  | error e =>
    have heffect : updateJob c w candidate version = (w, .error (.table e)) := by rw [updateJob, hupdate]
    left
    rcases settle_some h with ⟨hu, hr⟩ | ⟨hu, text, hr⟩
    · rw [heffect] at hu hr
      exact ⟨hu, by simp [hr]⟩
    · rw [heffect, or_self] at hu
      exact ⟨hu, by simp [hr]⟩

theorem completeDispatch_db (w : World S) (i : Identity) (ownerID : Bytes) (phase : Phase) (lastError : String)
    (now : Time) (stopped : Bool) : (completeDispatch w i ownerID phase lastError now stopped).1.db =
      { w.db with rows := (complete i ownerID phase lastError now w.db.rows).1 } := by
  unfold completeDispatch
  dsimp only
  split <;> rfl

theorem completeDispatch_outcomes (w : World S) (i : Identity) (ownerID : Bytes) (phase : Phase) (lastError : String)
    (now : Time) (stopped : Bool) :
    (completeDispatch w i ownerID phase lastError now stopped).1.outcomes = w.outcomes := by
  unfold completeDispatch
  dsimp only
  split <;> rfl

theorem execute_completeCleanup {i : Identity}
    (h : execute c w (.completeCleanup i) choice = some (u, r)) : u = w ∨ u = completeCleanup w i :=
  settle_world h

theorem execute_createObject {i : Identity} {part : Part} {body : Body} {r : Except Fault Object}
    (h : execute c w (.createObject i part body) choice = some (u, r)) :
    u = w ∨ (∃ o, o.resource = resourceOf i part ∧ u = { w with
      objects := w.objects ++ [o]
      serial := w.serial + 1
      resurrected := if i ∈ w.completed then w.resurrected ++ [(i, part)] else w.resurrected }) := by
  rcases settle_world h with rfl | rfl
  · exact .inl rfl
  · unfold createObject
    split
    · exact .inl rfl
    · exact .inr ⟨_, rfl, rfl⟩

theorem execute_deleteObject {kind : Kind} {name : Bytes}
    (h : execute c w (.deleteObject kind name) choice = some (u, r)) : u = w ∨ u = removeObject w kind name := by
  rcases deferrable_some h with rfl | h
  · exact .inl rfl
  rcases settle_world h with rfl | rfl
  · exact .inl rfl
  · unfold deleteObject
    split_ifs
    · exact .inr rfl
    · exact .inl rfl

theorem execute_commitReceipts {receipts : List Receipt}
    (h : execute c w (.commitReceipts record receipts now) choice = some (u, r)) :
    u = w ∨ ∃ committed, u = { w with receipts := committed } := by
  rcases settle_world h with rfl | rfl
  · exact .inl rfl
  · unfold commitReceipts
    split_ifs
    · exact .inl rfl
    · grind
    · exact .inl rfl

theorem execute_claimCleanup {bindings : List Binding}
    (h : execute c w (.claimCleanup record bindings now) choice = some (u, r)) :
    (u = w ∧ r ≠ .ok ()) ∨ u = { w with obligations := bindings.foldl claimObligation w.obligations } := by
  rcases settle_some h with ⟨hu, hr⟩ | ⟨hu, text, hr⟩
  · subst hu hr
    unfold claimCleanup
    split_ifs
    · exact .inr rfl
    · exact .inl ⟨rfl, by simp⟩
  · subst hr
    rcases hu with rfl | rfl
    · exact .inl ⟨rfl, by simp⟩
    · unfold claimCleanup
      split_ifs
      · exact .inr rfl
      · exact .inl ⟨rfl, by simp⟩

end

def sampleUID : Bytes := lit "11111111-1111-1111-1111-111111111111"

def sampleKey : Key := ⟨lit "default", lit "orders"⟩

def sampleSettings : Settings Unit where
  parseUUID := canonicalUUID
  validate := fun _ => none
  materializes := true
  hasCredentials := true
  workerReplicas := 1
  document := fun _ => .ok (lit "document", lit "spec")
  combinedFingerprint := fun a b => a ++ b
  bindingFingerprint := fun _ => lit "bindings"
  references := fun _ role => role = .source
  validBinding := fun _ => true
  validReceipt := fun _ => true
  objectUID := fun _ => sampleUID
  objectVersion := fun serial => base36 (serial + 1)

def sampleBinding : Binding :=
  ⟨lit "tenant", .source, sampleUID, 1, lit "connection", 1, lit "descriptor", lit "compiler", lit "schema"⟩

def worldWith (bindings : List Binding) : World Unit := ⟨empty, [], bindings, [], [], [], 0, [], []⟩

end AstraSync.SchedulerWorld
