import AstraSync.ConnectionMemory
import Mathlib.Data.List.Sort

namespace AstraSync.ConnectionService

open ByteStrings JobLifecycle Connections ConnectionRepository Results
open JobMutations (MutationIdentity MutationOutcome connectorName)

inductive Code
  | invalidArgument
  | failedPrecondition
  | notFound
  | alreadyExists
  | aborted
  | resourceExhausted
  | internal
  | permissionDenied
  deriving DecidableEq

structure Failure where
  code : Code
  message : String
  deriving DecidableEq

structure Descriptor where
  (name descriptorRevision connectionSchemaRevision : Bytes)
  acceptedConnectionSchemaRevisions : List Bytes
  connectionCapable : Bool
  secretFields : List (Bytes × Bool)

structure SecretBinding where
  (secretName secretUID : Bytes)
  fields : List SecretFieldMapping

abbrev BindingRequest := Option (Option SecretBinding)

inductive Body
  | create (connector displayName description : Bytes) (settings : List (Bytes × Bytes)) (secretBinding : BindingRequest)
  | update (expectedVersion : Int64) (displayName description : Bytes) (settings : List (Bytes × Bytes))
  | rotate (expectedVersion : Int64) (secretBinding : BindingRequest)
  | enable (expectedVersion : Int64)
  | disable (expectedVersion : Int64)
  | delete (expectedVersion : Int64)
  | test (expectedVersion : Int64)

structure Request where
  (tenantID name idempotencyKey : Bytes)
  body : Body

def Body.kind : Body → MutationKind
  | .create .. => .create
  | .update .. => .update
  | .rotate .. => .rotate
  | .enable _ => .enable
  | .disable _ => .disable
  | .delete _ => .delete
  | .test _ => .test

def Body.expectedVersion : Body → Int64
  | .create .. => 0
  | .update expectedVersion _ _ _ => expectedVersion
  | .rotate expectedVersion _ => expectedVersion
  | .enable expectedVersion => expectedVersion
  | .disable expectedVersion => expectedVersion
  | .delete expectedVersion => expectedVersion
  | .test expectedVersion => expectedVersion

/-- The settings of the service, the validation of settings against a descriptor, and the two steps to the digests of
requests and keys. -/
structure Config extends Context where
  (mutationsEnabled testsEnabled : Bool)
  testDeadline : Time
  validateConnectionSettings : Descriptor → List (Bytes × Bytes) → Except String (List Setting)
  marshal : Request → Bytes
  keyedDigest : Bytes → Bytes

structure Environment where
  actorID : Option String
  catalog : List Descriptor
  policy : Option EgressPolicy
  (now occurredAt : Time)
  uid : Bytes
  (auditEventID requestID : String)

section

variable (c : Config)

def findCurrentDescriptor (env : Environment) (connector : Bytes) : Option Descriptor :=
  env.catalog.find? fun d => d.name = connector

def currentDescriptor (env : Environment) (connector : Bytes) : Except Failure Descriptor :=
  if connectorName connector = false then .error ⟨.invalidArgument, "connector name is invalid"⟩
  else match findCurrentDescriptor env connector with
    | some d => .ok d
    | none => .error ⟨.failedPrecondition, "CONNECTOR_UNAVAILABLE"⟩

def secretBindingInvalid : Failure := ⟨.invalidArgument, "SECRET_BINDING_INVALID"⟩

def sortFields (fields : List SecretFieldMapping) : List SecretFieldMapping :=
  fields.insertionSort fun a b => ¬ b.logicalField < a.logicalField

def acceptsFields (accepted : List (Bytes × Bool)) (fields : List SecretFieldMapping) : Bool :=
  fields.all (fun f => accepted.lookup f.logicalField = some true && f.secretKey ≠ []) &&
    (fields.map (·.logicalField)).Nodup &&
    accepted.all fun field => !field.2 || fields.any fun f => f.logicalField = field.1

def validateKubernetesBinding (binding : Option SecretBinding) (accepted : List (Bytes × Bool)) :
    Except Failure SecretLocator :=
  match binding with
  | none => .error secretBindingInvalid
  | some source =>
    let locator : SecretLocator :=
      ⟨some .kubernetesSecretV1, source.secretName, source.secretUID, sortFields source.fields⟩
    if accepted.isEmpty ∨ acceptsFields accepted source.fields = false ∨ (locator.validate c.parseUUID).isSome then
      .error secretBindingInvalid
    else .ok locator

def requiredSecrets (fields : List (Bytes × Bool)) : Bool := fields.any (·.2)

def secretLocatorFromProto (d : Descriptor) (binding : BindingRequest) : Except Failure SecretLocator :=
  match binding with
  | none => if requiredSecrets d.secretFields then .error secretBindingInvalid else .ok ⟨none, [], [], []⟩
  | some binding => validateKubernetesBinding c binding d.secretFields

def secretLocatorForRotation (d : Option Descriptor) (current : SecretLocator) (binding : BindingRequest) :
    Except Failure SecretLocator :=
  match binding with
  | none => .error secretBindingInvalid
  | some binding =>
    validateKubernetesBinding c binding <| match d with
      | some d => d.secretFields
      | none => current.fields.map fun f => (f.logicalField, true)

def validateSecretPresence (d : Descriptor) (locator : SecretLocator) : Except Failure Unit :=
  if d.secretFields.isEmpty then
    if locator.provider.isSome then .error secretBindingInvalid else .ok ()
  else if locator.provider.isNone then
    if requiredSecrets d.secretFields then .error secretBindingInvalid else .ok ()
  else if d.secretFields.all fun field => !field.2 || locator.fields.any fun f => f.logicalField = field.1 then .ok ()
  else .error secretBindingInvalid

def compatibility (stored : Connection) (d : Option Descriptor) : Compatibility :=
  match d with
  | none => .connectorUnavailable
  | some d =>
    if d.name ≠ stored.connector then .connectorUnavailable
    else if stored.current.connectionSchemaRevision ∈ d.acceptedConnectionSchemaRevisions then .compatible
    else .revalidationRequired

def validateConnectionName (name : Bytes) : Except Failure Unit :=
  if name.length = 0 ∨ 63 < name.length ∨ dnsLabel name = false then
    .error ⟨.invalidArgument, "Connection name must be a lowercase DNS label"⟩
  else .ok ()

def connectionRepositoryError : RepositoryError → Failure
  | .notFound => ⟨.notFound, "Connection resource not found"⟩
  | .alreadyExists => ⟨.alreadyExists, "Connection already exists"⟩
  | .conflict => ⟨.aborted, "CONNECTION_VERSION_CONFLICT"⟩
  | .inUse => ⟨.failedPrecondition, "CONNECTION_IN_USE"⟩
  | .idempotencyReused => ⟨.alreadyExists, "IDEMPOTENCY_KEY_REUSED"⟩
  | .testLimitExceeded => ⟨.resourceExhausted, "TEST_LIMIT_EXCEEDED"⟩
  | .invalid _ | .failed _ => ⟨.internal, "Connection repository operation failed"⟩

def connectionDomainError : DomainError → Failure
  | .invalidTransition => ⟨.failedPrecondition, "Connection lifecycle transition is not allowed"⟩
  | .invalid _ => ⟨.invalidArgument, "Connection mutation is invalid"⟩

def method : MutationKind → String
  | .create => "/astra.control.v1.ConnectionService/CreateConnection"
  | .update => "/astra.control.v1.ConnectionService/UpdateConnection"
  | .rotate => "/astra.control.v1.ConnectionService/RotateConnection"
  | .enable => "/astra.control.v1.ConnectionService/EnableConnection"
  | .disable => "/astra.control.v1.ConnectionService/DisableConnection"
  | .delete => "/astra.control.v1.ConnectionService/DeleteConnection"
  | .test => "/astra.control.v1.ConnectionService/TestConnection"

def requestDigest (r : Request) : Bytes := c.keyedDigest (c.marshal { r with idempotencyKey := [] })

def mutation (env : Environment) (r : Request) (actorID : String) (candidate : Option Connection)
    (test : Option TestOperation) : Except Failure Mutation :=
  if r.idempotencyKey.length < 16 ∨ 128 < r.idempotencyKey.length ∨
      r.idempotencyKey.any (fun b => b = 13 || b = 10 || b = 0) then
    .error ⟨.invalidArgument, "idempotency_key must contain between 16 and 128 characters"⟩
  else .ok ⟨r.body.kind, r.tenantID, r.name, r.body.expectedVersion, candidate, test,
    ⟨actorID, method r.body.kind, c.keyedDigest r.idempotencyKey, requestDigest c r, env.requestID, env.auditEventID,
      env.occurredAt⟩⟩

variable (get : Bytes → Bytes → Except RepositoryError Connection) (env : Environment) (r : Request)

structure Prepared where
  read : Option Connection
  mutation : Mutation

def authorize : Except Failure String :=
  match env.actorID with
  | some actorID => .ok actorID
  | none => .error ⟨.permissionDenied, "tenant access denied"⟩

def mutationsDisabled : Failure := ⟨.failedPrecondition, "CONNECTION_MUTATIONS_DISABLED"⟩

def connectorUnavailable : Failure := ⟨.failedPrecondition, "CONNECTOR_UNAVAILABLE"⟩

def loadForMutation : Except Failure Connection := do
  validateConnectionName r.name
  check (0 < r.body.expectedVersion) ⟨.invalidArgument, "expected_version must be positive"⟩
  (get r.tenantID r.name).mapError connectionRepositoryError

def settingsError (message : String) : Failure := ⟨.invalidArgument, message⟩

def createConnection (connector displayName description : Bytes) (settings : List (Bytes × Bytes))
    (binding : BindingRequest) : Except Failure Prepared := do
  let actorID ← authorize env
  check c.mutationsEnabled mutationsDisabled
  validateConnectionName r.name
  let descriptor ← currentDescriptor env connector
  check descriptor.connectionCapable connectorUnavailable
  let settings ← (c.validateConnectionSettings descriptor settings).mapError settingsError
  let locator ← secretLocatorFromProto c descriptor binding
  validateSecretPresence descriptor locator
  let candidate ← (new c.parseUUID r.tenantID r.name env.uid descriptor.name displayName description
    ⟨1, descriptor.descriptorRevision, descriptor.connectionSchemaRevision, settings, locator, env.now⟩
    env.now).mapError fun _ => ⟨.invalidArgument, "Connection fields are invalid"⟩
  let m ← mutation c env r actorID (some candidate) none
  return ⟨none, m⟩

def updateConnection (displayName description : Bytes) (settings : List (Bytes × Bytes)) : Except Failure Prepared := do
  let actorID ← authorize env
  check c.mutationsEnabled mutationsDisabled
  let current ← loadForMutation get r
  let descriptor ← currentDescriptor env current.connector
  let settings ← (c.validateConnectionSettings descriptor settings).mapError settingsError
  validateSecretPresence descriptor current.current.secretLocator
  let (next, _) ← (replace c.parseUUID current displayName description settings descriptor.descriptorRevision
    descriptor.connectionSchemaRevision env.now).mapError connectionDomainError
  let m ← mutation c env r actorID (some next) none
  return ⟨some current, m⟩

def rotateConnection (binding : BindingRequest) : Except Failure Prepared := do
  let actorID ← authorize env
  check c.mutationsEnabled mutationsDisabled
  let current ← loadForMutation get r
  let locator ← secretLocatorForRotation c (findCurrentDescriptor env current.connector) current.current.secretLocator
    binding
  let next ← (rotate c.parseUUID current locator current.current.descriptorRevision
    current.current.connectionSchemaRevision env.now).mapError connectionDomainError
  let m ← mutation c env r actorID (some next) none
  return ⟨some current, m⟩

def verifyTarget (target : ConnectionState) (current : Connection) (d : Option Descriptor) : Except Failure Unit :=
  match target, d with
  | .disabled, _ => .ok ()
  | .active, none => .error connectorUnavailable
  | .active, some d => validateSecretPresence d current.current.secretLocator

def setConnectionState (target : ConnectionState) : Except Failure Prepared := do
  let actorID ← authorize env
  check c.mutationsEnabled mutationsDisabled
  let current ← loadForMutation get r
  verifyTarget target current (findCurrentDescriptor env current.connector)
  let (next, _) ← (setState c.parseUUID current target
    (compatibility current (findCurrentDescriptor env current.connector)) env.now).mapError connectionDomainError
  let m ← mutation c env r actorID (some next) none
  return ⟨some current, m⟩

def deleteConnection : Except Failure Prepared := do
  let actorID ← authorize env
  check c.mutationsEnabled mutationsDisabled
  let current ← loadForMutation get r
  let m ← mutation c env r actorID none none
  return ⟨some current, m⟩

def queuedTest (current : Connection) (policy : EgressPolicy) (actorID : String) : TestOperation :=
  ⟨r.tenantID, env.uid, current.uid, current.current.number, current.current.descriptorRevision, actorID, policy,
    .queued, none, none, false, "", env.now, env.now + c.testDeadline, none, none, env.now + day⟩

def testConnection : Except Failure Prepared := do
  let actorID ← authorize env
  check c.testsEnabled ⟨.failedPrecondition, "CONNECTION_TESTS_DISABLED"⟩
  let current ← loadForMutation get r
  check (compatibility current (findCurrentDescriptor env current.connector) = .compatible)
    ⟨.failedPrecondition, "CONNECTION_SCHEMA_INCOMPATIBLE"⟩
  match env.policy with
  | none => .error ⟨.failedPrecondition, "TEST_POLICY_UNAVAILABLE"⟩
  | some policy =>
    check (policy.validate c.toContext).isNone ⟨.failedPrecondition, "TEST_POLICY_UNAVAILABLE"⟩
    let m ← mutation c env r actorID none (some (queuedTest c env r current policy actorID))
    return ⟨some current, m⟩

def prepare : Except Failure Prepared :=
  match r.body with
  | .create connector displayName description settings binding =>
    createConnection c env r connector displayName description settings binding
  | .update _ displayName description settings => updateConnection c get env r displayName description settings
  | .rotate _ binding => rotateConnection c get env r binding
  | .enable _ => setConnectionState c get env r .active
  | .disable _ => setConnectionState c get env r .disabled
  | .delete _ => deleteConnection c get env r
  | .test _ => testConnection c get env r

end

section

def requestKey (c : Config) (r : Request) (actorID : String) : RequestKey :=
  ⟨r.tenantID, actorID, method r.body.kind, c.keyedDigest r.idempotencyKey⟩

structure Built (c : Config) (r : Request) (actorID : String) (candidate : Option Connection) (m : Mutation) : Prop where
  kind : m.kind = r.body.kind
  tenantID : m.tenantID = r.tenantID
  name : m.name = r.name
  expectedVersion : m.expectedVersion = r.body.expectedVersion
  candidate : m.candidate = candidate
  key : m.key = requestKey c r actorID
  digest : m.identity.requestDigest = requestDigest c r

def Body.changes (body : Body) : Bool :=
  body.kind = .update || body.kind = .rotate || body.kind = .enable || body.kind = .disable

def InForce (c : Config) (env : Environment) (stored : Connection) : Body → Prop
  | .update _ displayName description settings =>
    (stored.displayName = displayName ∧ stored.description = description) ∧
    ∃ d, findCurrentDescriptor env stored.connector = some d ∧
      c.validateConnectionSettings d settings = .ok stored.current.settings ∧
      stored.current.descriptorRevision = d.descriptorRevision ∧
      stored.current.connectionSchemaRevision = d.connectionSchemaRevision
  | .rotate _ binding => ∃ source, binding = some (some source) ∧
      stored.current.secretLocator.provider = some .kubernetesSecretV1 ∧
      stored.current.secretLocator.secretName = source.secretName ∧
      stored.current.secretLocator.secretUID = source.secretUID ∧
      stored.current.secretLocator.fields.Perm source.fields
  | .enable _ => stored.state = .active
  | .disable _ => stored.state = .disabled
  | _ => True

inductive Made (c : Config) (get : Bytes → Bytes → Except RepositoryError Connection) (env : Environment)
    (r : Request) (p : Prepared) (actorID : String) : Prop
  | created (candidate : Connection) (kind : r.body.kind = .create) (read : p.read = none)
      (built : Built c r actorID (some candidate) p.mutation)
  | changed (current next : Connection) (changes : r.body.changes = true)
      (got : get r.tenantID r.name = .ok current) (read : p.read = some current)
      (built : Built c r actorID (some next) p.mutation) (successor : Successor current next)
      (inForce : InForce c env next r.body)
  | other (current : Connection) (kind : r.body.kind = .delete ∨ r.body.kind = .test)
      (got : get r.tenantID r.name = .ok current) (read : p.read = some current)
      (built : Built c r actorID none p.mutation)

variable {c : Config} {get : Bytes → Bytes → Except RepositoryError Connection} {env : Environment} {r : Request}
  {p : Prepared} {actorID : String} {connector displayName description : Bytes} {settings : List (Bytes × Bytes)}
  {binding : BindingRequest} {candidate : Option Connection} {test : Option TestOperation}

theorem mutation_ok {m : Mutation}
    (h : mutation c env r actorID candidate test = .ok m) : Built c r actorID candidate m := by
  unfold mutation at h
  split_ifs at h
  cases h
  exact ⟨rfl, rfl, rfl, rfl, rfl, rfl, rfl⟩

theorem mutation_test {m : Mutation} (h : mutation c env r actorID candidate test = .ok m) : m.test = test := by
  unfold mutation at h
  split_ifs at h
  cases h
  rfl

theorem authorize_ok (h : authorize env = .ok actorID) : env.actorID = some actorID := by
  unfold authorize at h
  split at h
  · cases h
    assumption
  · cases h

theorem loadForMutation_ok {current : Connection} (h : loadForMutation get r = .ok current) :
    get r.tenantID r.name = .ok current := by
  unfold loadForMutation at h
  replace h := bind_rest h
  replace h := bind_rest h
  exact mapError_ok h

theorem currentDescriptor_ok {d : Descriptor} (h : currentDescriptor env connector = .ok d) :
    findCurrentDescriptor env connector = some d := by
  unfold currentDescriptor at h
  split_ifs at h
  split at h
  · cases h
    assumption
  · cases h

theorem createConnection_ok (h : createConnection c env r connector displayName description settings binding = .ok p) :
    ∃ actorID candidate, env.actorID = some actorID ∧ p.read = none ∧ Built c r actorID (some candidate) p.mutation ∧
      candidate.version = 1 ∧ candidate.current.number = 1 := by
  unfold createConnection at h
  obtain ⟨actorID, hactor, h⟩ := bind_eq_ok.mp h
  replace h := bind_rest h
  replace h := bind_rest h
  obtain ⟨descriptor, -, h⟩ := bind_eq_ok.mp h
  replace h := bind_rest h
  obtain ⟨settings, -, h⟩ := bind_eq_ok.mp h
  obtain ⟨locator, -, h⟩ := bind_eq_ok.mp h
  replace h := bind_rest h
  obtain ⟨candidate, hnew, h⟩ := bind_eq_ok.mp h
  obtain ⟨m, hm, h⟩ := bind_eq_ok.mp h
  cases h
  have hcandidate := checked_ok (mapError_ok hnew)
  refine ⟨actorID, candidate, authorize_ok hactor, rfl, mutation_ok hm, ?_, ?_⟩
  · rw [hcandidate]
  · rw [hcandidate]

theorem createConnection_made (hkind : r.body.kind = .create)
    (h : createConnection c env r connector displayName description settings binding = .ok p) :
    ∃ actorID, env.actorID = some actorID ∧ Made c get env r p actorID := by
  obtain ⟨actorID, candidate, hactor, hread, hbuilt, -⟩ := createConnection_ok h
  exact ⟨actorID, hactor, .created candidate hkind hread hbuilt⟩

theorem updateConnection_ok (h : updateConnection c get env r displayName description settings = .ok p) :
    ∃ actorID current d accepted next changed, env.actorID = some actorID ∧ get r.tenantID r.name = .ok current ∧
      findCurrentDescriptor env current.connector = some d ∧ c.validateConnectionSettings d settings = .ok accepted ∧
      replace c.parseUUID current displayName description accepted d.descriptorRevision d.connectionSchemaRevision
        env.now = .ok (next, changed) ∧
      p.read = some current ∧ Built c r actorID (some next) p.mutation := by
  unfold updateConnection at h
  obtain ⟨actorID, hactor, h⟩ := bind_eq_ok.mp h
  replace h := bind_rest h
  obtain ⟨current, hload, h⟩ := bind_eq_ok.mp h
  obtain ⟨d, hdescriptor, h⟩ := bind_eq_ok.mp h
  obtain ⟨accepted, hsettings, h⟩ := bind_eq_ok.mp h
  replace h := bind_rest h
  obtain ⟨⟨next, changed⟩, hreplace, h⟩ := bind_eq_ok.mp h
  obtain ⟨m, hm, h⟩ := bind_eq_ok.mp h
  cases h
  exact ⟨actorID, current, d, accepted, next, changed, authorize_ok hactor, loadForMutation_ok hload,
    currentDescriptor_ok hdescriptor, mapError_ok hsettings, mapError_ok hreplace, rfl, mutation_ok hm⟩

theorem updateConnection_made {version : Int64} (hbody : r.body = .update version displayName description settings)
    (h : updateConnection c get env r displayName description settings = .ok p) :
    ∃ actorID, env.actorID = some actorID ∧ Made c get env r p actorID := by
  obtain ⟨actorID, current, d, accepted, next, changed, hactor, hget, hdescriptor, hsettings, hreplace, hread, hbuilt⟩ :=
    updateConnection_ok h
  obtain ⟨hsuccessor, hmetadata, haccepted, hrevisions⟩ := replace_ok hreplace
  refine ⟨actorID, hactor, .changed current next ?_ hget hread hbuilt hsuccessor ?_⟩
  · rw [hbody]
    rfl
  · rw [hbody]
    refine ⟨hmetadata, d, ?_, ?_, hrevisions⟩
    · rw [hsuccessor.connector]
      exact hdescriptor
    · rw [haccepted]
      exact hsettings

theorem validateKubernetesBinding_ok {binding : Option SecretBinding} {accepted : List (Bytes × Bool)}
    {locator : SecretLocator} (h : validateKubernetesBinding c binding accepted = .ok locator) :
    ∃ source, binding = some source ∧ locator.provider = some .kubernetesSecretV1 ∧
      locator.secretName = source.secretName ∧ locator.secretUID = source.secretUID ∧
      locator.fields.Perm source.fields := by
  unfold validateKubernetesBinding at h
  split at h
  · cases h
  · next source =>
    dsimp only at h
    split_ifs at h
    cases h
    exact ⟨source, rfl, rfl, rfl, rfl, List.perm_insertionSort _ _⟩

theorem rotateConnection_ok (h : rotateConnection c get env r binding = .ok p) :
    ∃ actorID current d locator next, env.actorID = some actorID ∧ get r.tenantID r.name = .ok current ∧
      secretLocatorForRotation c d current.current.secretLocator binding = .ok locator ∧
      rotate c.parseUUID current locator current.current.descriptorRevision current.current.connectionSchemaRevision
        env.now = .ok next ∧
      p.read = some current ∧ Built c r actorID (some next) p.mutation := by
  unfold rotateConnection at h
  obtain ⟨actorID, hactor, h⟩ := bind_eq_ok.mp h
  replace h := bind_rest h
  obtain ⟨current, hload, h⟩ := bind_eq_ok.mp h
  obtain ⟨locator, hlocator, h⟩ := bind_eq_ok.mp h
  obtain ⟨next, hrotate, h⟩ := bind_eq_ok.mp h
  obtain ⟨m, hm, h⟩ := bind_eq_ok.mp h
  cases h
  exact ⟨actorID, current, _, locator, next, authorize_ok hactor, loadForMutation_ok hload, hlocator, mapError_ok hrotate,
    rfl, mutation_ok hm⟩

theorem rotateConnection_made {version : Int64} (hbody : r.body = .rotate version binding)
    (h : rotateConnection c get env r binding = .ok p) :
    ∃ actorID, env.actorID = some actorID ∧ Made c get env r p actorID := by
  obtain ⟨actorID, current, d, locator, next, hactor, hget, hlocator, hrotate, hread, hbuilt⟩ := rotateConnection_ok h
  obtain ⟨hsuccessor, hnew⟩ := rotate_ok hrotate
  refine ⟨actorID, hactor, .changed current next ?_ hget hread hbuilt hsuccessor ?_⟩
  · rw [hbody]
    rfl
  · rw [hbody]
    unfold secretLocatorForRotation at hlocator
    split at hlocator
    · cases hlocator
    · obtain ⟨source, hsource, hfields⟩ := validateKubernetesBinding_ok hlocator
      refine ⟨source, congrArg some hsource, ?_⟩
      rw [hnew]
      exact hfields

variable {target : ConnectionState}

theorem setConnectionState_ok (h : setConnectionState c get env r target = .ok p) :
    ∃ actorID current compatibility next changed, env.actorID = some actorID ∧ get r.tenantID r.name = .ok current ∧
      setState c.parseUUID current target compatibility env.now = .ok (next, changed) ∧
      p.read = some current ∧ Built c r actorID (some next) p.mutation := by
  unfold setConnectionState at h
  obtain ⟨actorID, hactor, h⟩ := bind_eq_ok.mp h
  replace h := bind_rest h
  obtain ⟨current, hload, h⟩ := bind_eq_ok.mp h
  replace h := bind_rest h
  obtain ⟨⟨next, changed⟩, hset, h⟩ := bind_eq_ok.mp h
  obtain ⟨m, hm, h⟩ := bind_eq_ok.mp h
  cases h
  exact ⟨actorID, current, _, next, changed, authorize_ok hactor, loadForMutation_ok hload, mapError_ok hset, rfl,
    mutation_ok hm⟩

theorem setConnectionState_made (hchanges : r.body.changes = true)
    (hforce : ∀ stored : Connection, stored.state = target → InForce c env stored r.body)
    (h : setConnectionState c get env r target = .ok p) :
    ∃ actorID, env.actorID = some actorID ∧ Made c get env r p actorID := by
  obtain ⟨actorID, current, compatibility, next, changed, hactor, hget, hset, hread, hbuilt⟩ := setConnectionState_ok h
  obtain ⟨hsuccessor, hstate⟩ := setState_ok hset
  exact ⟨actorID, hactor, .changed current next hchanges hget hread hbuilt hsuccessor (hforce next hstate)⟩

theorem deleteConnection_ok (h : deleteConnection c get env r = .ok p) :
    ∃ actorID current, env.actorID = some actorID ∧ get r.tenantID r.name = .ok current ∧ p.read = some current ∧
      Built c r actorID none p.mutation := by
  unfold deleteConnection at h
  obtain ⟨actorID, hactor, h⟩ := bind_eq_ok.mp h
  replace h := bind_rest h
  obtain ⟨current, hload, h⟩ := bind_eq_ok.mp h
  obtain ⟨m, hm, h⟩ := bind_eq_ok.mp h
  cases h
  exact ⟨actorID, current, authorize_ok hactor, loadForMutation_ok hload, rfl, mutation_ok hm⟩

theorem testConnection_ok (h : testConnection c get env r = .ok p) :
    ∃ actorID current policy, env.actorID = some actorID ∧ get r.tenantID r.name = .ok current ∧ p.read = some current ∧
      p.mutation.test = some (queuedTest c env r current policy actorID) ∧ Built c r actorID none p.mutation := by
  unfold testConnection at h
  obtain ⟨actorID, hactor, h⟩ := bind_eq_ok.mp h
  replace h := bind_rest h
  obtain ⟨current, hload, h⟩ := bind_eq_ok.mp h
  replace h := bind_rest h
  split at h
  · cases h
  · next policy _ =>
    replace h := bind_rest h
    obtain ⟨m, hm, h⟩ := bind_eq_ok.mp h
    cases h
    exact ⟨actorID, current, policy, authorize_ok hactor, loadForMutation_ok hload, rfl, mutation_test hm, mutation_ok hm⟩

theorem prepare_made (h : prepare c get env r = .ok p) :
    ∃ actorID, env.actorID = some actorID ∧ Made c get env r p actorID := by
  unfold prepare at h
  split at h
  · next hbody => exact createConnection_made (by rw [hbody]; rfl) h
  · next hbody => exact updateConnection_made hbody h
  · next hbody => exact rotateConnection_made hbody h
  · next hbody => exact setConnectionState_made (by rw [hbody]; rfl) (fun _ hstate => by rw [hbody]; exact hstate) h
  · next hbody => exact setConnectionState_made (by rw [hbody]; rfl) (fun _ hstate => by rw [hbody]; exact hstate) h
  · next hbody =>
    obtain ⟨actorID, current, hactor, hget, hread, hbuilt⟩ := deleteConnection_ok h
    exact ⟨actorID, hactor, .other current (.inl (by rw [hbody]; rfl)) hget hread hbuilt⟩
  · next hbody =>
    obtain ⟨actorID, current, policy, hactor, hget, hread, -, hbuilt⟩ := testConnection_ok h
    exact ⟨actorID, hactor, .other current (.inr (by rw [hbody]; rfl)) hget hread hbuilt⟩

theorem Made.key (h : Made c get env r p actorID) :
    p.mutation.key = requestKey c r actorID ∧ p.mutation.identity.requestDigest = requestDigest c r := by
  cases h with
  | created candidate kind read built => exact ⟨built.key, built.digest⟩
  | changed current next changes got read built successor inForce => exact ⟨built.key, built.digest⟩
  | other current kind got read built => exact ⟨built.key, built.digest⟩

theorem Made.kind (h : Made c get env r p actorID) : p.mutation.kind = r.body.kind := by
  cases h with
  | created candidate kind read built => exact built.kind
  | changed current next changes got read built successor inForce => exact built.kind
  | other current kind got read built => exact built.kind

theorem prepare_key (hactor : env.actorID = some actorID) (h : prepare c get env r = .ok p) :
    p.mutation.key = requestKey c r actorID ∧ p.mutation.identity.requestDigest = requestDigest c r := by
  obtain ⟨actorID', hactor', hmade⟩ := prepare_made h
  cases hactor.symm.trans hactor'
  exact hmade.key

end

section

inductive Derived : MutationKind → Option Connection → Connection → Prop
  | created {candidate : Connection} (version : candidate.version = 1) (number : candidate.current.number = 1) :
      Derived .create none candidate
  | updated {current next : Connection} (replaced : Replaced current next) : Derived .update (some current) next
  | rotated {current next : Connection} (rotated : Rotated current next) : Derived .rotate (some current) next
  | enabled {current next : Connection} (kept : next.current = current.current) : Derived .enable (some current) next
  | disabled {current next : Connection} (kept : next.current = current.current) : Derived .disable (some current) next

variable {c : Config} {get : Bytes → Bytes → Except RepositoryError Connection} {env : Environment} {r : Request}
  {p : Prepared} {candidate : Connection}

theorem Built.candidate_eq {actorID : String} {next : Connection} (h : Built c r actorID (some next) p.mutation)
    (hcandidate : p.mutation.candidate = some candidate) : candidate = next := by
  rw [h.candidate] at hcandidate
  cases hcandidate
  rfl

theorem prepare_derived (h : prepare c get env r = .ok p) (hcandidate : p.mutation.candidate = some candidate) :
    Derived r.body.kind p.read candidate := by
  unfold prepare at h
  split at h
  · next hbody =>
    obtain ⟨actorID, next, -, hread, hbuilt, hversion, hnumber⟩ := createConnection_ok h
    rw [hbody, hread, hbuilt.candidate_eq hcandidate]
    exact .created hversion hnumber
  · next hbody =>
    obtain ⟨actorID, current, d, accepted, next, changed, -, -, -, -, hreplace, hread, hbuilt⟩ := updateConnection_ok h
    rw [hbody, hread, hbuilt.candidate_eq hcandidate]
    exact .updated (replace_replaced hreplace)
  · next hbody =>
    obtain ⟨actorID, current, d, locator, next, -, -, -, hrotate, hread, hbuilt⟩ := rotateConnection_ok h
    rw [hbody, hread, hbuilt.candidate_eq hcandidate]
    exact .rotated (rotate_rotated hrotate)
  · next hbody =>
    obtain ⟨actorID, current, compatibility, next, changed, -, -, hset, hread, hbuilt⟩ := setConnectionState_ok h
    rw [hbody, hread, hbuilt.candidate_eq hcandidate]
    exact .enabled (setState_current hset)
  · next hbody =>
    obtain ⟨actorID, current, compatibility, next, changed, -, -, hset, hread, hbuilt⟩ := setConnectionState_ok h
    rw [hbody, hread, hbuilt.candidate_eq hcandidate]
    exact .disabled (setState_current hset)
  · obtain ⟨actorID, current, -, -, -, hbuilt⟩ := deleteConnection_ok h
    rw [hbuilt.candidate] at hcandidate
    cases hcandidate
  · obtain ⟨actorID, current, policy, -, -, -, -, hbuilt⟩ := testConnection_ok h
    rw [hbuilt.candidate] at hcandidate
    cases hcandidate

end

structure TestSummary where
  operationID : Bytes
  generation : Int64
  state : TestState
  currentGeneration : Bool
  completedAt : Option Time

structure ConnectionView where
  (tenantID name uid connector : Bytes)
  (version generation : Int64)
  state : ConnectionState
  compatibility : Compatibility
  (displayName description descriptorRevision connectionSchemaRevision : Bytes)
  secretProvider : Option ProviderKind
  secretConfigured : Bool
  referenceCounts : ReferenceCounts
  (createdAt updatedAt : Time)
  outcome : Option MutationOutcome
  publicSettings : List (Bytes × Bytes)
  lastTest : Option TestSummary

def projectConnection (stored : Connection) (d : Option Descriptor) (outcome : Option MutationOutcome)
    (counts : ReferenceCounts) (latest : Option TestOperation) : ConnectionView :=
  ⟨stored.tenantID, stored.name, stored.uid, stored.connector, stored.version, stored.current.number, stored.state,
    compatibility stored d, stored.displayName, stored.description, stored.current.descriptorRevision,
    stored.current.connectionSchemaRevision, stored.current.secretLocator.provider,
    stored.current.secretLocator.provider.isSome, counts, stored.createdAt, stored.updatedAt, outcome,
    (stored.current.settings.filter (·.sensitivity = .publicSetting)).map fun setting => (setting.key, setting.value),
    latest.map fun t => ⟨t.operationID, t.generation, t.state, t.generation = stored.current.number, t.completedAt⟩⟩

structure TestView where
  (tenantID operationID connectionUID : Bytes)
  generation : Int64
  state : TestState
  phase : Option TestPhase
  resultCode : Option TestResultCode
  success : Bool
  remediationKey : String
  currentGeneration : Bool
  createdAt : Time
  (startedAt completedAt : Option Time)
  expiresAt : Time

def testToProto (t : TestOperation) (current : Bool) : TestView :=
  ⟨t.tenantID, t.operationID, t.connectionUID, t.generation, t.state, t.phase, t.resultCode, t.success,
    t.remediationKey, current, t.createdAt, t.startedAt, t.completedAt, t.expiresAt⟩

theorem projectConnection_safe (stored : Connection) (d : Option Descriptor) (outcome : Option MutationOutcome)
    (counts : ReferenceCounts) (latest : Option TestOperation) :
    projectConnection (safeConnection stored) d outcome counts latest =
      projectConnection stored d outcome counts latest := by
  have hsettings : (safeConnection stored).current.settings.filter (·.sensitivity = .publicSetting) =
      stored.current.settings.filter (·.sensitivity = .publicSetting) := by
    simp [safeConnection, List.filter_filter]
  unfold projectConnection
  rw [hsettings]
  rfl

theorem testToProto_safe (t : TestOperation) (current : Bool) :
    testToProto (safeTest t) current = testToProto t current := rfl

end AstraSync.ConnectionService
