import AstraSync.JobTable
import AstraSync.Library.Results

namespace AstraSync.JobMutations

open ByteStrings JobLifecycle JobRepository Results

inductive ConnectionRole
  | source
  | sink
  deriving DecidableEq

structure ConnectorSpec where
  (connector connectionRef : Bytes)
  options : List (String × String)
  deriving DecidableEq

structure TransformSpec where
  type : String
  options : List (String × String)
  deriving DecidableEq

inductive DeliveryGuarantee
  | atMostOnce
  | atLeastOnce
  | exactlyOnce
  deriving DecidableEq

structure Spec where
  (source sink : ConnectorSpec)
  transforms : List TransformSpec
  guarantee : DeliveryGuarantee
  maxBatchRecords : Int32
  deriving DecidableEq

def Spec.connectorOf (spec : Spec) : ConnectionRole → ConnectorSpec
  | .source => spec.source
  | .sink => spec.sink

def Spec.refers (spec : Spec) (role : ConnectionRole) : Bool := (spec.connectorOf role).connectionRef ≠ []

def connectorName (s : Bytes) : Bool :=
  s.head?.any labelByte && s.getLast?.any labelByte && s.all fun b => labelByte b || b = 46 || b = 95 || b = 45

def validateOptions (field : String) (options : List (String × String)) : Option String :=
  if options.any fun option => blank option.1 then some (field ++ " option key must not be blank") else none

def validateConnector (field : String) (spec : ConnectorSpec) : Option String :=
  if 128 < spec.connector.length ∨ connectorName spec.connector = false then
    some (field ++ " connector has an invalid canonical name")
  else validateOptions field spec.options

def validateTransforms : ℕ → List TransformSpec → Option String
  | _, [] => none
  | index, transform :: rest =>
    if blank transform.type then some s!"transform {index} type must not be blank"
    else (validateOptions s!"transform {index}" transform.options).or (validateTransforms (index + 1) rest)

def Spec.validate (spec : Spec) : Option String :=
  (validateConnector "source" spec.source).or <| (validateConnector "sink" spec.sink).or <|
  (validateTransforms 0 spec.transforms).or <|
  if spec.maxBatchRecords ≤ 0 then some "maxBatchRecords must be positive" else none

def revision (s : Bytes) : Bool :=
  s.length = 71 && s.take 7 = lit "sha256:" &&
    (s.drop 7).all fun b => (48 ≤ b && b ≤ 57) || (97 ≤ b && b ≤ 102)

structure ConnectionBinding where
  role : ConnectionRole
  (tenantID referenceName connectionUID connector : Bytes)
  generation : Int64
  (descriptorRevision connectionSchemaRevision : Bytes)

def ConnectionBinding.validate (parseUUID : Bytes → Bool) (b : ConnectionBinding) : Option String :=
  if parseUUID b.tenantID = false then some "Connection binding tenant ID must be a UUID"
  else (validateDNSLabel "Connection reference" b.referenceName).or <|
  if parseUUID b.connectionUID = false then some "Connection binding UID must be a UUID"
  else if 128 < b.connector.length ∨ connectorName b.connector = false ∨ b.generation ≤ 0 ∨
      revision b.descriptorRevision = false ∨ revision b.connectionSchemaRevision = false then
    some "Connection binding revision metadata is invalid"
  else none

structure ValidationFence where
  validationID : String
  (specDigest compilerRevision : Bytes)
  bindings : List ConnectionBinding

def validateBindings (parseUUID : Bytes → Bool) : List ConnectionRole → List ConnectionBinding → Option String
  | _, [] => none
  | roles, b :: rest =>
    (b.validate parseUUID).or <|
    if b.role ∈ roles then some "Job validation fence contains a duplicate Connection role"
    else validateBindings parseUUID (b.role :: roles) rest

def ValidationFence.validate (parseUUID : Bytes → Bool) (f : ValidationFence) : Option String :=
  if blank f.validationID ∨ 128 < f.validationID.utf8ByteSize ∨ revision f.specDigest = false ∨
      revision f.compilerRevision = false ∨ 2 < f.bindings.length then
    some "Job validation fence is invalid"
  else validateBindings parseUUID [] f.bindings

structure MutationIdentity where
  (actorID method : String)
  (keyFingerprint requestDigest : Bytes)
  (requestID auditEventID : String)
  occurredAt : Time

def MutationIdentity.validate (i : MutationIdentity) : Option String :=
  if blank i.actorID ∨ 256 < i.actorID.utf8ByteSize ∨ blank i.method ∨ 256 < i.method.utf8ByteSize ∨
      revision i.keyFingerprint = false ∨ revision i.requestDigest = false ∨
      blank i.requestID ∨ 128 < i.requestID.utf8ByteSize ∨
      blank i.auditEventID ∨ 128 < i.auditEventID.utf8ByteSize ∨ i.occurredAt = zeroTime then
    some "Job mutation identity is invalid"
  else none

inductive MutationKind
  | create
  | update
  | delete
  | start
  | stop
  deriving DecidableEq

structure Mutation where
  kind : MutationKind
  tenantID : Bytes
  key : Key
  expectedVersion : Int64
  uid : Bytes
  spec : Option Spec
  validation : Option ValidationFence
  identity : MutationIdentity
  auditAttributes : List (String × String)

def Mutation.validateShape (parseUUID : Bytes → Bool) (m : Mutation) : Option String :=
  match m.kind with
  | .create =>
    if m.expectedVersion ≠ 0 then some "Job Create must not contain an expected version"
    else if parseUUID m.uid = false then some "Job Create UID must be a UUID"
    else if m.spec.isNone ∨ m.validation.isNone then some "Job Create requires a spec and validation fence"
    else none
  | .update =>
    if m.expectedVersion ≤ 0 ∨ m.spec.isNone ∨ m.validation.isNone then
      some "Job Update requires a version, spec, and validation fence"
    else none
  | .start =>
    if m.expectedVersion ≤ 0 ∨ m.spec.isSome ∨ m.validation.isNone then
      some "Job Start requires a version and validation fence"
    else none
  | .stop | .delete =>
    if m.expectedVersion ≤ 0 ∨ m.spec.isSome ∨ m.validation.isSome then
      some "Job Stop/Delete mutation shape is invalid"
    else none

def Mutation.validate (c : Context Spec) (m : Mutation) : Option String :=
  if c.parseUUID m.tenantID = false then some "Job mutation tenant ID must be a UUID"
  else m.key.validate.or <| m.identity.validate.or <|
  if 32 < m.auditAttributes.length then some "Job mutation audit attributes exceed supported bounds"
  else (m.validateShape c.parseUUID).or <| (m.spec.bind c.validate).or <|
    m.validation.bind (ValidationFence.validate c.parseUUID)

inductive MutationOutcome
  | changed
  | noChange
  | replayed
  deriving DecidableEq

structure Tombstone where
  tenantID : Bytes
  key : Key
  uid : Bytes
  finalVersion : Int64
  deletedAt : Time

structure MutationResult where
  job : Option (Job Spec)
  tombstone : Option Tombstone
  outcome : MutationOutcome

inductive MutationError
  | invalid (message : String)
  | lifecycle (e : LifecycleError)
  | notFound
  | alreadyExists
  | conflict
  | validationStale
  | idempotencyReused
  | mutationInProgress
  | cannotDelete (state : State)
  | failed (text : String)

structure StableBinding where
  (jobUID tenantID : Bytes)
  role : ConnectionRole
  (connectionUID connector : Bytes)

structure ExecutionBinding where
  jobUID : Bytes
  epoch : Int64
  tenantID : Bytes
  role : ConnectionRole
  connectionUID : Bytes
  generation : Int64
  (descriptorRevision compilerRevision : Bytes)

structure CompletedMutation where
  kind : MutationKind
  (jobUID name : Bytes)
  version : Int64
  outcome : MutationOutcome

structure IdempotencyRecord where
  tenantID : Bytes
  (actorID method : String)
  (keyFingerprint requestDigest : Bytes)
  completed : Option CompletedMutation

structure AuditEvent where
  (eventID type actorID : String)
  tenantID : Bytes
  requestID : String
  outcome : MutationOutcome
  occurredAt : Time

structure ConnectionRow where
  (tenantID name uid connector : Bytes)
  active : Bool
  currentGeneration : Int64
  schemaRevision : Bytes

structure Store where
  jobs : List (Job Spec)
  stable : List StableBinding
  executions : List ExecutionBinding
  idempotency : List IdempotencyRecord
  tombstones : List Tombstone
  audit : List AuditEvent
  deleted : List Bytes

def emptyStore : Store := ⟨[], [], [], [], [], [], []⟩

def fenced (spec : Spec) (bindings : List ConnectionBinding) (role : ConnectionRole) : Bool :=
  -- a map of the source keeps the last binding of a role
  match bindings.reverse.find? fun b => b.role = role with
  | none => !spec.refers role
  | some b => spec.refers role && b.referenceName = (spec.connectorOf role).connectionRef &&
      b.connector = (spec.connectorOf role).connector

def verifyFenceSpec (spec : Spec) (tenantID : Bytes) (fence : ValidationFence) : Except MutationError Unit :=
  check (fence.bindings.all (fun b => b.tenantID = tenantID) &&
    [ConnectionRole.source, ConnectionRole.sink].all (fenced spec fence.bindings)) .validationStale

def lockValidatedConnections (connections : List ConnectionRow) (bindings : List ConnectionBinding) :
    Except MutationError Unit :=
  check (bindings.all fun b =>
    match connections.find? fun row => row.tenantID = b.tenantID && row.uid = b.connectionUID with
    | none => false
    | some row => row.name = b.referenceName && row.connector = b.connector && row.active &&
        row.currentGeneration = b.generation && row.schemaRevision = b.connectionSchemaRevision) .validationStale

def replaceStableBindings (stable : List StableBinding) (stored : Job Spec) (tenantID : Bytes)
    (bindings : List ConnectionBinding) : List StableBinding :=
  stable.filter (·.jobUID ≠ stored.uid) ++
    bindings.map fun b => ⟨stored.uid, tenantID, b.role, b.connectionUID, b.connector⟩

def verifyStableBindings (stable : List StableBinding) (stored : Job Spec) (tenantID : Bytes)
    (expected : List ConnectionBinding) : Except MutationError Unit :=
  let actual := stable.filter (·.jobUID = stored.uid)
  check (actual.length = expected.length && expected.all fun b =>
    match actual.find? fun row => row.role = b.role with
    | none => false
    | some row => row.tenantID = tenantID && row.connectionUID = b.connectionUID && row.connector = b.connector)
    .validationStale

def captured (j : Job Spec) (m : Mutation) (fence : ValidationFence) (b : ConnectionBinding) : ExecutionBinding :=
  ⟨j.uid, j.status.epoch, m.tenantID, b.role, b.connectionUID, b.generation, b.descriptorRevision,
    fence.compilerRevision⟩

def insertExecution (executions : List ExecutionBinding) (b : ExecutionBinding) :
    Except MutationError (List ExecutionBinding) :=
  if executions.any fun row => row.jobUID = b.jobUID && row.epoch = b.epoch && row.role = b.role then
    .error (.failed "capture execution Connection binding")
  else .ok (executions ++ [b])

section

variable (c : Context Spec) (connections : List ConnectionRow) (s : Store) (m : Mutation)

def lockJob : Except MutationError (Job Spec) :=
  match JobTable.find s.jobs m.key with
  | some stored => .ok stored
  | none => .error .notFound

def updateLockedJob (current next : Job Spec) : Except MutationError (List (Job Spec) × Job Spec) :=
  let stored := JobTable.written current next
  if current.version + 1 ≤ 0 then .error (.failed "commit locked Job state: bigint out of range")
  else match stored.validate c with
    | some message => .error (.invalid message)
    | none => .ok (JobTable.put s.jobs stored, stored)

def createJobMutation (spec : Spec) (fence : ValidationFence) : Except MutationError (Store × MutationResult) := do
  verifyFenceSpec spec m.tenantID fence
  lockValidatedConnections connections fence.bindings
  let created := new m.key m.uid spec m.identity.occurredAt
  check (!s.jobs.any fun j => j.key = created.key || j.uid = created.uid) .alreadyExists
  return ({ s with
    jobs := s.jobs ++ [created]
    stable := replaceStableBindings s.stable created m.tenantID fence.bindings }, ⟨some created, none, .changed⟩)

def updateJobMutation (spec : Spec) (fence : ValidationFence) : Except MutationError (Store × MutationResult) := do
  let current ← lockJob s m
  check (current.version = m.expectedVersion) .conflict
  verifyFenceSpec spec m.tenantID fence
  lockValidatedConnections connections fence.bindings
  let next ← (replaceSpec c.validate current spec m.identity.occurredAt).mapError .lifecycle
  let (jobs, updated) ← updateLockedJob c s current next
  return ({ s with jobs, stable := replaceStableBindings s.stable updated m.tenantID fence.bindings },
    ⟨some updated, none, .changed⟩)

def startJobMutation (fence : ValidationFence) : Except MutationError (Store × MutationResult) := do
  let current ← lockJob s m
  match ← (requestStart current m.identity.occurredAt).mapError .lifecycle with
  | (_, false) => return (s, ⟨some current, none, .noChange⟩)
  | (next, true) =>
    check (current.version = m.expectedVersion) .conflict
    verifyFenceSpec current.spec m.tenantID fence
    verifyStableBindings s.stable current m.tenantID fence.bindings
    lockValidatedConnections connections fence.bindings
    let (jobs, updated) ← updateLockedJob c s current next
    let executions ← (fence.bindings.map (captured updated m fence)).foldlM insertExecution s.executions
    return ({ s with jobs, executions }, ⟨some updated, none, .changed⟩)

def stopJobMutation : Except MutationError (Store × MutationResult) := do
  let current ← lockJob s m
  match ← (requestStop current m.identity.occurredAt).mapError .lifecycle with
  | (_, false) => return (s, ⟨some current, none, .noChange⟩)
  | (next, true) =>
    check (current.version = m.expectedVersion) .conflict
    let (jobs, updated) ← updateLockedJob c s current next
    return ({ s with jobs }, ⟨some updated, none, .changed⟩)

def deleteJobMutation : Except MutationError (Store × MutationResult) := do
  let current ← lockJob s m
  check (current.version = m.expectedVersion) .conflict
  check (!active current.status.state) (.cannotDelete current.status.state)
  let tombstone : Tombstone := ⟨m.tenantID, current.key, current.uid, current.version, m.identity.occurredAt⟩
  check (!s.tombstones.any fun t => t.tenantID = m.tenantID && t.uid = current.uid) (.failed "write Job tombstone")
  return ({ s with
    jobs := s.jobs.filter (·.uid ≠ current.uid)
    stable := s.stable.filter (·.jobUID ≠ current.uid)
    tombstones := s.tombstones ++ [tombstone]
    deleted := s.deleted ++ [current.uid] }, ⟨none, some tombstone, .changed⟩)

def applyJobMutation : Except MutationError (Store × MutationResult) :=
  match m.kind, m.spec, m.validation with
  | .create, some spec, some fence => createJobMutation connections s m spec fence
  | .update, some spec, some fence => updateJobMutation c connections s m spec fence
  | .start, _, some fence => startJobMutation c connections s m fence
  | .stop, _, _ => stopJobMutation c s m
  | .delete, _, _ => deleteJobMutation s m
  | _, _, _ => .error (.invalid "unsupported Job mutation")

def recordOf (r : IdempotencyRecord) : Bool :=
  r.tenantID = m.tenantID && r.actorID = m.identity.actorID && r.method = m.identity.method &&
    r.keyFingerprint = m.identity.keyFingerprint

def readMutationIdempotency : Except MutationError (Option MutationResult) :=
  match s.idempotency.find? (recordOf m) with
  | none => .ok none
  | some r =>
    if r.requestDigest ≠ m.identity.requestDigest then .error .idempotencyReused
    else match r.completed with
      | none => .error .mutationInProgress
      | some completed =>
        if completed.kind ≠ m.kind then .error .idempotencyReused
        else if m.kind = .delete then
          match s.tombstones.find? fun t => t.tenantID = m.tenantID && t.uid = completed.jobUID with
          | none => .error (.failed "read Job deletion replay tombstone")
          | some t => .ok (some ⟨none, some t, .replayed⟩)
        else match s.jobs.find? fun j => j.uid = completed.jobUID with
          | none => .error .notFound
          | some stored =>
            if stored.key.name ≠ completed.name ∨ stored.version < completed.version then
              .error (.failed "Job idempotency result is inconsistent")
            else .ok (some ⟨some stored, none, .replayed⟩)

def auditAction : MutationKind → String
  | .create => "job.create"
  | .update => "job.update"
  | .delete => "job.delete"
  | .start => "job.start"
  | .stop => "job.stop"

def roleText : ConnectionRole → String
  | .source => "SOURCE"
  | .sink => "SINK"

def auditEvents (outcome : MutationOutcome) : List AuditEvent :=
  let event (eventID type : String) : AuditEvent :=
    ⟨eventID, type, m.identity.actorID, m.tenantID, m.identity.requestID, outcome, m.identity.occurredAt⟩
  event m.identity.auditEventID (auditAction m.kind) ::
    match m.validation with
    | none => []
    | some fence =>
      if outcome = .noChange then []
      else fence.bindings.map fun b => event (m.identity.auditEventID ++ "/" ++ roleText b.role) "connection.use"

def insertAudit (audit : List AuditEvent) (e : AuditEvent) : Except MutationError (List AuditEvent) :=
  if audit.any fun row => row.eventID = e.eventID then .error (.failed "write Job mutation audit") else .ok (audit ++ [e])

def completedOf (result : MutationResult) : CompletedMutation :=
  match result.job, result.tombstone with
  | some j, _ => ⟨m.kind, j.uid, j.key.name, j.version, result.outcome⟩
  | none, some t => ⟨m.kind, t.uid, t.key.name, t.finalVersion, result.outcome⟩
  | none, none => ⟨m.kind, [], [], 0, result.outcome⟩

def applyMutation : Except MutationError (Store × MutationResult) := do
  refuse .invalid (m.validate c)
  match ← readMutationIdempotency s m with
  | some replayed => return (s, replayed)
  | none =>
    let (next, result) ← applyJobMutation c connections s m
    let audit ← (auditEvents m result.outcome).foldlM insertAudit next.audit
    let used : IdempotencyRecord := ⟨m.tenantID, m.identity.actorID, m.identity.method, m.identity.keyFingerprint,
      m.identity.requestDigest, some (completedOf m result)⟩
    return ({ next with audit, idempotency := next.idempotency ++ [used] }, result)

end

section

variable {parseUUID : Bytes → Bool} {spec : Spec} {tenantID : Bytes} {fence : ValidationFence}

theorem validateBindings_roles {roles : List ConnectionRole} {bindings : List ConnectionBinding}
    (h : validateBindings parseUUID roles bindings = none) :
    (bindings.map (·.role)).Nodup ∧ ∀ role ∈ bindings.map (·.role), role ∉ roles := by
  induction bindings generalizing roles with
  | nil => simp
  | cons b rest ih =>
    rw [validateBindings, Option.or_eq_none_iff] at h
    obtain ⟨-, h⟩ := h
    split_ifs at h with hseen
    obtain ⟨hnodup, hfresh⟩ := ih h
    rw [List.map_cons, List.nodup_cons]
    refine ⟨⟨fun hmem => hfresh _ hmem List.mem_cons_self, hnodup⟩, fun role hrole => ?_⟩
    rcases List.mem_cons.mp hrole with rfl | hrole
    · exact hseen
    · exact fun hmem => hfresh role hrole (List.mem_cons_of_mem _ hmem)

theorem ValidationFence.roles_nodup (h : fence.validate parseUUID = none) : (fence.bindings.map (·.role)).Nodup := by
  unfold ValidationFence.validate at h
  split_ifs at h
  exact (validateBindings_roles h).1

theorem fenced_iff {bindings : List ConnectionBinding} {role : ConnectionRole}
    (h : fenced spec bindings role = true) : role ∈ bindings.map (·.role) ↔ spec.refers role = true := by
  unfold fenced at h
  split at h
  · grind
  · grind

theorem fence_count (hvalid : fence.validate parseUUID = none)
    (h : verifyFenceSpec spec tenantID fence = .ok ()) (role : ConnectionRole) :
    fence.bindings.countP (·.role = role) = if spec.refers role then 1 else 0 := by
  have hfenced : fenced spec fence.bindings role = true := by
    have hall := check_ok.mp h
    simp only [Bool.and_eq_true, List.all_eq_true] at hall
    exact hall.2 role (by cases role <;> simp)
  have hcount : fence.bindings.countP (·.role = role) = (fence.bindings.map (·.role)).count role := by
    rw [List.count, List.countP_map]
    rfl
  rw [hcount, (ValidationFence.roles_nodup hvalid).count]
  simp only [fenced_iff hfenced]

end

inductive Effect (c : Context Spec) (m : Mutation) (s t : Store) : Prop
  | unchanged (jobs : t.jobs = s.jobs) (executions : t.executions = s.executions) (deleted : t.deleted = s.deleted)
  | created (j : Job Spec) (state : j.status.state = .created) (kind : m.kind = .create) (uid : j.uid = m.uid)
      (jobs : JobTable.create c s.jobs j = .ok t.jobs) (executions : t.executions = s.executions) (deleted : t.deleted = s.deleted)
  | moved (j stored : Job Spec) (find : JobTable.find s.jobs stored.key = some j)
      (advances : JobTable.Advances c j stored) (epoch : stored.status.epoch = j.status.epoch)
      (jobs : t.jobs = JobTable.put s.jobs stored) (executions : t.executions = s.executions)
      (deleted : t.deleted = s.deleted)
  | started (j stored : Job Spec) (added : List ExecutionBinding) (find : JobTable.find s.jobs stored.key = some j)
      (advances : JobTable.Advances c j stored) (epoch : stored.status.epoch = j.status.epoch + 1)
      (jobs : t.jobs = JobTable.put s.jobs stored) (executions : t.executions = s.executions ++ added)
      (own : ∀ b ∈ added, b.jobUID = stored.uid ∧ b.epoch = stored.status.epoch)
      (count : ∀ role, added.countP (·.role = role) = if stored.spec.refers role then 1 else 0)
      (deleted : t.deleted = s.deleted)
  | removed (j : Job Spec) (mem : j ∈ s.jobs) (inactive : active j.status.state = false)
      (jobs : t.jobs = s.jobs.filter (·.uid ≠ j.uid)) (executions : t.executions = s.executions)
      (deleted : t.deleted = s.deleted ++ [j.uid])

variable {c : Context Spec} {connections : List ConnectionRow} {s t : Store} {m : Mutation} {result : MutationResult}
  {spec : Spec} {fence : ValidationFence}

theorem new_valid {key : Key} {uid : Bytes} {now : Time} (hkey : key.validate = none)
    (huid : c.parseUUID uid = true) (hspec : c.validate spec = none) (hnow : now ≠ zeroTime) :
    (new key uid spec now).validate c = none := by
  refine Job.validate_eq_none.mpr ⟨hkey, huid, (by decide : (0 : Int64) < 1), hspec, rfl, ?_⟩
  simp [Job.validateTimes, new, hnow]

theorem createJobMutation_effect (hkind : m.kind = .create)
    (hvalid : (new m.key m.uid spec m.identity.occurredAt).validate c = none)
    (h : createJobMutation connections s m spec fence = .ok (t, result)) : Effect c m s t := by
  unfold createJobMutation at h
  replace h := bind_rest h
  replace h := bind_rest h
  obtain ⟨⟨⟩, hunused, h⟩ := bind_eq_ok.mp h
  cases h
  refine .created (new m.key m.uid spec m.identity.occurredAt) rfl hkind rfl ?_ rfl rfl
  unfold JobTable.create
  rw [hvalid]
  have hnone := check_ok.mp hunused
  rw [Bool.not_eq_true'] at hnone
  exact if_neg (by rw [hnone]; exact Bool.false_ne_true)

theorem lockJob_ok {current : Job Spec} (h : lockJob s m = .ok current) :
    JobTable.find s.jobs m.key = some current := by
  unfold lockJob at h
  split at h
  · cases h
    assumption
  · cases h

theorem updateLockedJob_ok {current next stored : Job Spec} {jobs : List (Job Spec)}
    (hlock : lockJob s m = .ok current) (hmove : Move current next)
    (h : updateLockedJob c s current next = .ok (jobs, stored)) :
    JobTable.find s.jobs stored.key = some current ∧ JobTable.Advances c current stored ∧
      stored.status = next.status ∧ stored.spec = next.spec ∧ jobs = JobTable.put s.jobs stored := by
  unfold updateLockedJob at h
  dsimp only at h
  split_ifs at h with hrange
  split at h
  · cases h
  · next hvalid =>
    cases h
    have hfind := lockJob_ok hlock
    rw [← (JobTable.find_some hfind).2] at hfind
    exact ⟨hfind, JobTable.advances_of_move hmove hvalid (Int64.not_le.mp hrange), rfl, rfl, rfl⟩

theorem updateJobMutation_effect
    (h : updateJobMutation c connections s m spec fence = .ok (t, result)) : Effect c m s t := by
  unfold updateJobMutation at h
  obtain ⟨current, hlock, h⟩ := bind_eq_ok.mp h
  replace h := bind_rest h
  replace h := bind_rest h
  replace h := bind_rest h
  obtain ⟨next, hnext, h⟩ := bind_eq_ok.mp h
  obtain ⟨⟨jobs, updated⟩, hupdate, h⟩ := bind_eq_ok.mp h
  cases h
  have hreplace := mapError_ok hnext
  obtain ⟨hfind, hadvances, hstatus, -, rfl⟩ := updateLockedJob_ok hlock (replaceSpec_move hreplace).2 hupdate
  refine .moved current updated hfind hadvances ?_ rfl rfl rfl
  rw [hstatus]
  exact (replaceSpec_ok hreplace).1

theorem stopJobMutation_effect (h : stopJobMutation c s m = .ok (t, result)) : Effect c m s t := by
  unfold stopJobMutation at h
  obtain ⟨current, hlock, h⟩ := bind_eq_ok.mp h
  obtain ⟨⟨next, changed⟩, hnext, h⟩ := bind_eq_ok.mp h
  have hstop := mapError_ok hnext
  cases changed with
  | false =>
    cases h
    exact .unchanged rfl rfl rfl
  | true =>
    replace h := bind_rest h
    obtain ⟨⟨jobs, updated⟩, hupdate, h⟩ := bind_eq_ok.mp h
    cases h
    obtain ⟨hfind, hadvances, hstatus, -, rfl⟩ := updateLockedJob_ok hlock (requestStop_move hstop).2 hupdate
    refine .moved current updated hfind hadvances ?_ rfl rfl rfl
    rw [hstatus]
    exact (requestStop_ok hstop).1

theorem foldlM_insertExecution {added executions executions' : List ExecutionBinding}
    (h : added.foldlM insertExecution executions = .ok executions') : executions' = executions ++ added := by
  induction added generalizing executions with
  | nil =>
    cases h
    simp
  | cons b added ih =>
    rw [List.foldlM_cons] at h
    obtain ⟨next, hinsert, h⟩ := bind_eq_ok.mp h
    unfold insertExecution at hinsert
    split_ifs at hinsert
    cases hinsert
    rw [ih h, List.append_assoc]
    rfl

theorem startJobMutation_effect (hsound : JobTable.Sound c s.jobs)
    (hfence : fence.validate c.parseUUID = none) (h : startJobMutation c connections s m fence = .ok (t, result)) :
    Effect c m s t := by
  unfold startJobMutation at h
  obtain ⟨current, hlock, h⟩ := bind_eq_ok.mp h
  obtain ⟨⟨next, changed⟩, hnext, h⟩ := bind_eq_ok.mp h
  have hstart := mapError_ok hnext
  cases changed with
  | false =>
    cases h
    exact .unchanged rfl rfl rfl
  | true =>
    replace h := bind_rest h
    obtain ⟨⟨⟩, hverify, h⟩ := bind_eq_ok.mp h
    replace h := bind_rest h
    replace h := bind_rest h
    obtain ⟨⟨jobs, updated⟩, hupdate, h⟩ := bind_eq_ok.mp h
    obtain ⟨executions, hinsert, h⟩ := bind_eq_ok.mp h
    cases h
    have hmem := (JobTable.find_some (lockJob_ok hlock)).1
    have hmove := (requestStart_move (Job.sound_of_validate (hsound.valid current hmem)) hstart).2
    obtain ⟨hfind, hadvances, hstatus, hspec, rfl⟩ := updateLockedJob_ok hlock hmove hupdate
    rcases requestStart_ok hstart with ⟨-, hchanged⟩ | ⟨rfl, -⟩
    · cases hchanged
    refine .started current updated _ hfind hadvances (by rw [hstatus]; rfl) rfl (foldlM_insertExecution hinsert)
      (fun b hb => ?_) (fun role => ?_) rfl
    · obtain ⟨binding, -, rfl⟩ := List.mem_map.mp hb
      exact ⟨rfl, rfl⟩
    · rw [List.countP_map, hspec]
      exact fence_count hfence hverify role

theorem deleteJobMutation_effect (h : deleteJobMutation s m = .ok (t, result)) : Effect c m s t := by
  unfold deleteJobMutation at h
  obtain ⟨current, hlock, h⟩ := bind_eq_ok.mp h
  replace h := bind_rest h
  obtain ⟨⟨⟩, hinactive, h⟩ := bind_eq_ok.mp h
  replace h := bind_rest h
  cases h
  exact .removed current (JobTable.find_some (lockJob_ok hlock)).1 (by simpa using check_ok.mp hinactive) rfl rfl rfl

theorem Mutation.validate_eq_none (h : m.validate c = none) :
    m.key.validate = none ∧ m.identity.validate = none ∧ m.validateShape c.parseUUID = none ∧
      (∀ spec, m.spec = some spec → c.validate spec = none) ∧
      ∀ fence, m.validation = some fence → fence.validate c.parseUUID = none := by
  unfold Mutation.validate at h
  split_ifs at h with htenant hattributes
  · rw [Option.or_eq_none_iff, Option.or_eq_none_iff] at h
    cases h.2.2
  · grind

theorem applyJobMutation_effect (hsound : JobTable.Sound c s.jobs) (hvalid : m.validate c = none)
    (h : applyJobMutation c connections s m = .ok (t, result)) : Effect c m s t := by
  obtain ⟨hkey, hidentity, hshape, hspec, hfence⟩ := Mutation.validate_eq_none hvalid
  unfold applyJobMutation at h
  split at h
  · next spec fence hkind hsome _ =>
    refine createJobMutation_effect hkind (new_valid hkey ?_ (hspec spec hsome) ?_) h
    · grind [Mutation.validateShape]
    · intro hzero
      simp [MutationIdentity.validate, hzero] at hidentity
  · exact updateJobMutation_effect h
  · next _ fence _ hsome => exact startJobMutation_effect hsound (hfence fence hsome) h
  · exact stopJobMutation_effect h
  · exact deleteJobMutation_effect h
  · cases h

theorem applyMutation_effect (hsound : JobTable.Sound c s.jobs)
    (h : applyMutation c connections s m = .ok (t, result)) : Effect c m s t := by
  unfold applyMutation at h
  obtain ⟨⟨⟩, hvalid, h⟩ := bind_eq_ok.mp h
  obtain ⟨replayed, -, h⟩ := bind_eq_ok.mp h
  cases replayed with
  | some =>
    cases h
    exact .unchanged rfl rfl rfl
  | none =>
    obtain ⟨⟨next, changed⟩, hmutation, h⟩ := bind_eq_ok.mp h
    obtain ⟨audit, -, h⟩ := bind_eq_ok.mp h
    cases h
    have hnone : m.validate c = none := by
      cases hm : m.validate c with
      | none => rfl
      | some =>
        rw [hm] at hvalid
        cases hvalid
    -- audit and idempotency records are of no concern to jobs and bindings
    cases applyJobMutation_effect hsound hnone hmutation with
    | unchanged jobs executions deleted => exact .unchanged jobs executions deleted
    | created j state kind uid jobs executions deleted => exact .created j state kind uid jobs executions deleted
    | moved j stored find advances epoch jobs executions deleted =>
      exact .moved j stored find advances epoch jobs executions deleted
    | started j stored added find advances epoch jobs executions own count deleted =>
      exact .started j stored added find advances epoch jobs executions own count deleted
    | removed j mem inactive jobs executions deleted => exact .removed j mem inactive jobs executions deleted

end AstraSync.JobMutations
