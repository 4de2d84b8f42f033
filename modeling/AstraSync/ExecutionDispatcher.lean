import AstraSync.CredentialMaterializer

namespace AstraSync.ExecutionDispatcher

open ByteStrings JobLifecycle DispatchStore ExecutionResources Programs SchedulerWorld CredentialMaterializer

variable {S : Type}

inductive ObservationState
  | pending
  | running
  | succeeded
  | failed
  deriving DecidableEq

structure Observation where
  state : ObservationState
  (reason message : String)
  deriving DecidableEq

def verifyManaged (i : Identity) (fingerprint : Bytes) (o : Object) : Option Fault :=
  if o.resource.labels.jobUID ≠ i.jobUID ∨ o.resource.labels.epoch ≠ formatInt i.epoch then
    some (.other "Kubernetes resource name collides with another execution")
  else if o.body.fingerprint ≠ fingerprint then
    some (.other "Kubernetes execution JobSpec fingerprint changed")
  else none

def checked (check : Object → Option Fault) (o : Object) : Except Fault Object :=
  match check o with
  | some e => .error (.permanent e)
  | none => .ok o

def createOrAdopt (i : Identity) (part : Part) (body : Body) (check : Object → Option Fault) (what : String) :
    Prog S (Except Fault Object) := do
  match ← Calls.createObject i part body with
  | .ok o => pure (.ok o)
  | .error .alreadyExists =>
    match ← Calls.getObject part.kind (partName i part) with
    | .ok o => pure (checked check o)
    | .error e => pure (.error (.wrapped ("get concurrently created " ++ what) e))
  | .error e => pure (.error (.wrapped ("create " ++ what) e))

def ensureResource (i : Identity) (part : Part) (body : Body) (check : Object → Option Fault) (what : String) :
    Prog S (Except Fault Object) := do
  match ← Calls.getObject part.kind (partName i part) with
  | .ok o => pure (checked check o)
  | .error .absent => createOrAdopt i part body check what
  | .error e => pure (.error (.wrapped ("get " ++ what) e))

def heartbeatTokenKey : Bytes := lit "heartbeat-token"

def verifySecret (i : Identity) (fingerprint heartbeatToken : Bytes) (o : Object) : Option Fault :=
  (verifyManaged i fingerprint o).or
    (if (o.body.data.lookup heartbeatTokenKey).getD [] ≠ heartbeatToken then
      some (.other "Kubernetes execution heartbeat token changed")
    else none)

def ensureSecret (i : Identity) (fingerprint document heartbeatToken : Bytes) : Prog S (Except Fault Object) :=
  ensureResource i .jobSpec
    ⟨fingerprint, true, [(lit "job.yaml", document), (heartbeatTokenKey, heartbeatToken)]⟩
    (verifySecret i fingerprint heartbeatToken) "JobSpec Secret"

def ensureService (i : Identity) (fingerprint : Bytes) : Prog S (Except Fault Object) :=
  ensureResource i .workerService ⟨fingerprint, false, []⟩ (verifyManaged i fingerprint) "Worker Service"

def ensureWorkers (i : Identity) (fingerprint : Bytes) : Prog S (Except Fault Object) :=
  ensureResource i .worker ⟨fingerprint, false, []⟩ (verifyManaged i fingerprint) "Worker StatefulSet"

def createCoordinator (i : Identity) (fingerprint : Bytes) : Prog S (Except Fault Object) :=
  createOrAdopt i .coordinator ⟨fingerprint, false, []⟩ (verifyManaged i fingerprint) "Coordinator Job"

def endingCondition : List Condition → Option Observation
  | [] => none
  | condition :: rest =>
    if condition.holds = false then endingCondition rest
    else match condition.type with
      | .complete => some ⟨.succeeded, "", ""⟩
      | .failed => some ⟨.failed, condition.reason, condition.message⟩
      | .other => endingCondition rest

def observeJob (status : ObjectStatus) : Observation × Bool :=
  match endingCondition status.conditions with
  | some observation => (observation, true)
  | none =>
    if 0 < status.succeeded then (⟨.succeeded, "", ""⟩, true)
    else if 0 < status.active then (⟨.running, "", ""⟩, false)
    else (⟨.pending, "", ""⟩, false)

def delete (kind : Kind) (name : Bytes) (what : String) : Prog S (Option Fault) := do
  match ← Calls.deleteObject kind name with
  | .ok () => pure none
  | .error .absent => pure none
  | .error e => pure (some (.wrapped ("delete " ++ what) e))

def join : List (Option Fault) → Option Fault
  | [] => none
  | none :: rest => join rest
  | some e :: rest =>
    match join rest with
    | some other => some (.joined e other)
    | none => some e

def deleteAuxiliary (i : Identity) : Prog S (Option Fault) := do
  let workers ← delete .statefulSet (partName i .worker) "Worker StatefulSet"
  let service ← delete .service (partName i .workerService) "Worker Service"
  let secret ← delete .secret (partName i .jobSpec) "JobSpec Secret"
  pure (join [workers, service, secret])

def allGone (i : Identity) : List Part → Prog S (Except Fault Bool)
  | [] => pure (.ok true)
  | part :: rest => do
    match ← Calls.getObject part.kind (partName i part) with
    | .ok _ => pure (.ok false)
    | .error .absent => allGone i rest
    | .error e => pure (.error e)

def resourcesGone (i : Identity) : Prog S (Except Fault Bool) :=
  allGone i [.coordinator, .worker, .workerService, .jobSpec]

def dataPlaneAuxiliaryGone (i : Identity) : Prog S (Except Fault Bool) := allGone i [.worker, .workerService, .jobSpec]

def cleanupAuxiliary (i : Identity) : Prog S (Except Fault Unit) := do
  match ← deleteAuxiliary i with
  | some e => pure (.error e)
  | none =>
    match ← dataPlaneAuxiliaryGone i with
    | .error e => pure (.error e)
    | .ok true => pure (.ok ())
    | .ok false => pure (.error (.other "execution resources are still terminating"))

def takeRoles : List Role → List Role → Option (List Role)
  | expected, [] => some expected
  | expected, role :: roles => if role ∈ expected then takeRoles (expected.erase role) roles else none

def verifyMaterializedRoles (c : Settings S) (candidate : Job S) (result : Materialized) : Option Fault :=
  let expected := [Role.source, Role.sink].filter (c.references candidate.spec)
  if result.required = expected.isEmpty ∨ result.roles.length ≠ expected.length ∨
      takeRoles expected result.roles ≠ some [] then
    some (.other "execution Connection bindings do not match the accepted Job")
  else none

def credentials (c : Settings S) (candidate : Job S) (record : Record) (fingerprint : Bytes) :
    Prog S (Except Fault Bytes) :=
  if c.materializes then do
    match ← ensure c record with
    | .error e => pure (.error (if e.rejectsCredentials then .permanent e else e))
    | .ok materialized =>
      match verifyMaterializedRoles c candidate materialized with
      | some e => pure (.error (.permanent e))
      | none =>
        pure (.ok (if materialized.required then c.combinedFingerprint fingerprint materialized.fingerprint
          else fingerprint))
  else if c.references candidate.spec .source ∨ c.references candidate.spec .sink then
    pure (.error (.permanent (.other "Connection materialization is disabled")))
  else pure (.ok fingerprint)

def observeActive (o : Object) : Observation := if 0 < o.status.active then ⟨.running, "", ""⟩ else ⟨.pending, "", ""⟩

def ensureResources (c : Settings S) (record : Record) (document fingerprint : Bytes) (existing : Option Object) :
    Prog S (Except Fault Observation) := do
  match ← ensureSecret record.identity fingerprint document record.heartbeatToken with
  | .error e => pure (.error e)
  | .ok _ =>
    match ← ensureService record.identity fingerprint with
    | .error e => pure (.error e)
    | .ok _ =>
      match ← ensureWorkers record.identity fingerprint with
      | .error e => pure (.error e)
      | .ok workers =>
        if workers.status.readyReplicas < c.workerReplicas then pure (.ok ⟨.pending, "", ""⟩)
        else match existing with
          | some coordinator => pure (.ok (observeActive coordinator))
          | none =>
            match ← createCoordinator record.identity fingerprint with
            | .error e => pure (.error e)
            | .ok coordinator => pure (.ok (observeActive coordinator))

def reconcileResources (c : Settings S) (record : Record) (document fingerprint : Bytes) :
    Prog S (Except Fault Observation) := do
  match ← Calls.getObject .job (partName record.identity .coordinator) with
  | .ok existing =>
    match verifyManaged record.identity fingerprint existing with
    | some e => pure (.error (.permanent e))
    | none =>
      match observeJob existing.status with
      | (observation, true) =>
        match ← cleanupAuxiliary record.identity with
        | .error e => pure (.error e)
        | .ok () => pure (.ok observation)
      | (_, false) => ensureResources c record document fingerprint (some existing)
  | .error .absent => ensureResources c record document fingerprint none
  | .error e => pure (.error (.wrapped "get Coordinator Job" e))

def reconcile (c : Settings S) (candidate : Job S) (record : Record) : Prog S (Except Fault Observation) :=
  if candidate.uid ≠ record.identity.jobUID then
    pure (.error (.permanent (.other "dispatch record does not match the Job execution")))
  else if c.parseUUID record.heartbeatToken = false then
    pure (.error (.permanent (.other "dispatch heartbeat token must be a UUID")))
  else match nameFault c record.identity with
    | some e => pure (.error (.permanent e))
    | none =>
      match c.document candidate with
      | .error message => pure (.error (.permanent (.other message)))
      | .ok (document, fingerprint) => do
        match ← credentials c candidate record fingerprint with
        | .error e => pure (.error e)
        | .ok fingerprint => reconcileResources c record document fingerprint

def cleanupCredentials (c : Settings S) (i : Identity) : Prog S (Except Fault Unit) :=
  if c.hasCredentials then CredentialMaterializer.cleanup c i else pure (.ok ())

def stop (c : Settings S) (i : Identity) : Prog S (Except Fault Bool) :=
  match nameFault c i with
  | some e => pure (.error e)
  | none => do
    let coordinator ← delete .job (partName i .coordinator) "Coordinator Job"
    let auxiliary ← deleteAuxiliary i
    match join [coordinator, auxiliary] with
    | some e => pure (.error e)
    | none =>
      match ← resourcesGone i with
      | .error e => pure (.error e)
      | .ok false => pure (.ok false)
      | .ok true =>
        match ← cleanupCredentials c i with
        | .error e => pure (.error e)
        | .ok () => pure (.ok true)

def cleanup (c : Settings S) (i : Identity) : Prog S (Except Fault Unit) :=
  match nameFault c i with
  | some e => pure (.error e)
  | none => do
    match ← cleanupAuxiliary i with
    | .error e => pure (.error e)
    | .ok () => cleanupCredentials c i

variable {c : Settings S} {i : Identity} {part : Part} {check : Object → Option Fault} {what : String}

theorem createOrAdopt_quiet {body : Body} : Only (Call.quiet (S := S) i) (createOrAdopt i part body check what) := by
  refine only_call rfl fun r => ?_
  split
  · trivial
  · refine only_call trivial fun r => ?_
    split <;> trivial
  · trivial

theorem ensureResource_quiet {body : Body} : Only (Call.quiet (S := S) i) (ensureResource i part body check what) := by
  refine only_call trivial fun r => ?_
  split
  · trivial
  · exact createOrAdopt_quiet
  · trivial

theorem delete_quiet {kind : Kind} {name : Bytes} : Only (Call.quiet (S := S) i) (delete kind name what) := by
  refine only_call trivial fun r => ?_
  split <;> trivial

theorem deleteAuxiliary_quiet : Only (Call.quiet (S := S) i) (deleteAuxiliary i) :=
  only_bind delete_quiet fun _ => only_bind delete_quiet fun _ => only_bind delete_quiet fun _ => trivial

theorem allGone_quiet {parts : List Part} : Only (Call.quiet (S := S) i) (allGone i parts) := by
  induction parts with
  | nil => trivial
  | cons part rest ih =>
    refine only_call trivial fun r => ?_
    split
    · trivial
    · exact ih
    · trivial

theorem cleanupAuxiliary_quiet : Only (Call.quiet (S := S) i) (cleanupAuxiliary i) := by
  refine only_bind deleteAuxiliary_quiet fun r => ?_
  split
  · trivial
  · refine only_bind allGone_quiet fun r => ?_
    split <;> trivial

variable {candidate : Job S} {record : Record}

theorem credentials_quiet {fingerprint : Bytes} :
    Only (Call.quiet record.identity) (credentials c candidate record fingerprint) := by
  unfold credentials
  split_ifs
  · refine only_bind ensure_quiet fun r => ?_
    split
    · trivial
    · split <;> trivial
  · trivial
  · trivial

theorem ensureResources_quiet {document fingerprint : Bytes} {existing : Option Object} :
    Only (Call.quiet record.identity) (ensureResources c record document fingerprint existing) := by
  refine only_bind ensureResource_quiet fun r => ?_
  split
  · trivial
  · refine only_bind ensureResource_quiet fun r => ?_
    split
    · trivial
    · refine only_bind ensureResource_quiet fun r => ?_
      split
      · trivial
      · split_ifs
        · trivial
        · split
          · trivial
          · refine only_bind createOrAdopt_quiet fun r => ?_
            split <;> trivial

theorem reconcile_quiet : Only (Call.quiet record.identity) (reconcile c candidate record) := by
  unfold reconcile
  split_ifs
  · trivial
  · trivial
  · split
    · trivial
    · split
      · trivial
      · refine only_bind credentials_quiet fun r => ?_
        split
        · trivial
        · refine only_call trivial fun r => ?_
          split
          · split
            · trivial
            · split
              · refine only_bind cleanupAuxiliary_quiet fun r => ?_
                split <;> trivial
              · exact ensureResources_quiet
          · exact ensureResources_quiet
          · trivial

theorem cleanupCredentials_quiet : Only (Call.quiet i) (cleanupCredentials c i) := by
  unfold cleanupCredentials
  split_ifs
  · exact cleanup_quiet
  · trivial

theorem stop_quiet : Only (Call.quiet i) (stop c i) := by
  unfold stop
  split
  · trivial
  · refine only_bind delete_quiet fun coordinator => only_bind deleteAuxiliary_quiet fun auxiliary => ?_
    split
    · trivial
    · refine only_bind allGone_quiet fun r => ?_
      split
      · trivial
      · trivial
      · refine only_bind cleanupCredentials_quiet fun r => ?_
        split <;> trivial

theorem dispatcher_cleanup_quiet : Only (Call.quiet i) (cleanup c i) := by
  unfold cleanup
  split
  · trivial
  · refine only_bind cleanupAuxiliary_quiet fun r => ?_
    split
    · trivial
    · exact cleanupCredentials_quiet

end AstraSync.ExecutionDispatcher
