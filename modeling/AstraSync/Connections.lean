import AstraSync.JobMutations

namespace AstraSync.Connections

open ByteStrings JobLifecycle JobMutations

inductive ConnectionState
  | disabled
  | active
  deriving DecidableEq

inductive Compatibility
  | compatible
  | revalidationRequired
  | connectorUnavailable
  deriving DecidableEq

inductive Sensitivity
  | publicSetting
  | restrictedSetting
  deriving DecidableEq

inductive ProviderKind
  | kubernetesSecretV1
  deriving DecidableEq

structure Setting where
  (key value : Bytes)
  sensitivity : Sensitivity
  deriving DecidableEq

structure SecretFieldMapping where
  (logicalField secretKey : Bytes)
  deriving DecidableEq

structure SecretLocator where
  provider : Option ProviderKind
  (secretName secretUID : Bytes)
  fields : List SecretFieldMapping
  deriving DecidableEq

structure Generation where
  number : Int64
  (descriptorRevision connectionSchemaRevision : Bytes)
  settings : List Setting
  secretLocator : SecretLocator
  createdAt : Time
  deriving DecidableEq

structure Connection where
  (tenantID name uid connector : Bytes)
  version : Int64
  state : ConnectionState
  (displayName description : Bytes)
  current : Generation
  (createdAt updatedAt : Time)
  deriving DecidableEq

def letter (b : UInt8) : Bool := (65 ≤ b && b ≤ 90) || (97 ≤ b && b ≤ 122)

def optionName (s : Bytes) : Bool :=
  s.head?.any letter && s.length ≤ 128 &&
    s.all fun b => letter b || (48 ≤ b && b ≤ 57) || b = 46 || b = 95 || b = 45

def validateFields : Bytes → List SecretFieldMapping → Option String
  | _, [] => none
  | previous, field :: rest =>
    if optionName field.logicalField = false ∨ ¬ previous < field.logicalField ∨ field.secretKey.length = 0 ∨
        253 < field.secretKey.length ∨ field.secretKey.any fun b => b = 13 || b = 10 || b = 0 then
      some "Secret field mappings must be valid, unique, and ordered"
    else validateFields field.logicalField rest

def SecretLocator.validate (parseUUID : Bytes → Bool) (l : SecretLocator) : Option String :=
  if l.provider ≠ some .kubernetesSecretV1 ∨ l.secretName.length = 0 ∨ 63 < l.secretName.length ∨
      dnsLabel l.secretName = false then some "Kubernetes Secret locator is invalid"
  else if parseUUID l.secretUID = false then some "Kubernetes Secret UID must be a UUID"
  else if l.fields.length = 0 ∨ 64 < l.fields.length then some "Secret field mapping count is invalid"
  else validateFields [] l.fields

def validateSettings : Bytes → List Setting → Option String
  | _, [] => none
  | previous, setting :: rest =>
    if optionName setting.key = false ∨ ¬ previous < setting.key ∨ 65536 < setting.value.length then
      some "Connection settings must be bounded, unique, and ordered"
    else validateSettings setting.key rest

def Generation.validate (parseUUID : Bytes → Bool) (g : Generation) : Option String :=
  if g.number ≤ 0 ∨ revision g.descriptorRevision = false ∨ revision g.connectionSchemaRevision = false ∨
      g.createdAt = zeroTime then some "Connection generation identity is invalid"
  else if 256 < g.settings.length then some "Connection setting count exceeds the supported limit"
  else (validateSettings [] g.settings).or <|
    if g.secretLocator.provider.isSome then g.secretLocator.validate parseUUID else none

def Connection.validate (parseUUID : Bytes → Bool) (c : Connection) : Option String :=
  if parseUUID c.tenantID = false then some "tenant ID must be a UUID"
  else if c.name.length = 0 ∨ 63 < c.name.length ∨ dnsLabel c.name = false then
    some "Connection name must be a lowercase DNS label"
  else if parseUUID c.uid = false then some "Connection UID must be a UUID"
  else if c.connector.length = 0 ∨ 128 < c.connector.length ∨ connectorName c.connector = false then
    some "connector name is invalid"
  else if c.version ≤ 0 ∨ c.current.number ≤ 0 then some "Connection version, generation, or state is invalid"
  else if 256 < c.displayName.length ∨ 2048 < c.description.length ∨ 0 ∈ c.displayName ∨ 0 ∈ c.description then
    some "Connection display metadata exceeds supported bounds"
  else (c.current.validate parseUUID).or <|
    if c.createdAt = zeroTime ∨ c.updatedAt = zeroTime ∨ c.updatedAt < c.createdAt ∨
        c.current.createdAt < c.createdAt ∨ c.updatedAt < c.current.createdAt then
      some "Connection timestamps are invalid"
    else none

section

variable (parseUUID : Bytes → Bool)

inductive DomainError
  | invalidTransition
  | invalid (message : String)
  deriving DecidableEq

def checked (next : Connection) : Except DomainError Connection :=
  match next.validate parseUUID with
  | some message => .error (.invalid message)
  | none => .ok next

def new (tenantID name uid connector displayName description : Bytes) (generation : Generation) (now : Time) :
    Except DomainError Connection :=
  checked parseUUID ⟨tenantID, name, uid, connector, 1, .disabled, displayName, description, generation, now, now⟩

def effective (c : Connection) (settings : List Setting) (descriptorRevision schemaRevision : Bytes) : Bool :=
  c.current.settings ≠ settings || c.current.descriptorRevision ≠ descriptorRevision ||
    c.current.connectionSchemaRevision ≠ schemaRevision

def Connection.replaced (c : Connection) (displayName description : Bytes) (settings : List Setting)
    (descriptorRevision schemaRevision : Bytes) (now : Time) : Connection :=
  { c with
    displayName, description, version := c.version + 1, updatedAt := now
    current :=
      if effective c settings descriptorRevision schemaRevision then
        ⟨c.current.number + 1, descriptorRevision, schemaRevision, settings, c.current.secretLocator, now⟩
      else c.current }

def replace (c : Connection) (displayName description : Bytes) (settings : List Setting)
    (descriptorRevision schemaRevision : Bytes) (now : Time) : Except DomainError (Connection × Bool) :=
  let effectiveChanged := effective c settings descriptorRevision schemaRevision
  let metadataChanged := c.displayName ≠ displayName || c.description ≠ description
  if !effectiveChanged && !metadataChanged then .ok (c, false)
  else if effectiveChanged && c.state ≠ .disabled then .error .invalidTransition
  else
    (checked parseUUID (c.replaced displayName description settings descriptorRevision schemaRevision now)).map
      fun next => (next, true)

def Connection.rotated (c : Connection) (locator : SecretLocator) (descriptorRevision schemaRevision : Bytes)
    (now : Time) : Connection :=
  { c with
    version := c.version + 1
    current := ⟨c.current.number + 1, descriptorRevision, schemaRevision, c.current.settings, locator, now⟩
    updatedAt := now }

def rotate (c : Connection) (locator : SecretLocator) (descriptorRevision schemaRevision : Bytes) (now : Time) :
    Except DomainError Connection :=
  match locator.validate parseUUID with
  | some message => .error (.invalid message)
  | none =>
    if c.current.secretLocator = locator then .error .invalidTransition
    else checked parseUUID (c.rotated locator descriptorRevision schemaRevision now)

def Connection.moved (c : Connection) (target : ConnectionState) (now : Time) : Connection :=
  { c with state := target, version := c.version + 1, updatedAt := now }

def setState (c : Connection) (target : ConnectionState) (compatibility : Compatibility) (now : Time) :
    Except DomainError (Connection × Bool) :=
  if c.state = target then .ok (c, false)
  else if target = .active ∧ compatibility ≠ .compatible then .error .invalidTransition
  else
    (checked parseUUID (c.moved target now)).map fun next => (next, true)

end

structure Successor (current next : Connection) : Prop where
  tenantID : next.tenantID = current.tenantID
  name : next.name = current.name
  uid : next.uid = current.uid
  connector : next.connector = current.connector
  createdAt : next.createdAt = current.createdAt
  version : next = current ∨ next.version = current.version + 1
  generation : next.current = current.current ∨ next.current.number = current.current.number + 1

section

variable {parseUUID : Bytes → Bool} {current next : Connection} {changed : Bool} {now : Time}

theorem Successor.refl (current : Connection) : Successor current current :=
  ⟨rfl, rfl, rfl, rfl, rfl, .inl rfl, .inl rfl⟩

variable {candidate : Connection}

theorem checked_ok (h : checked parseUUID candidate = .ok next) : next = candidate := by
  unfold checked at h
  split at h
  · cases h
  · cases h
    rfl

theorem checked_of_valid (h : candidate.validate parseUUID = none) : checked parseUUID candidate = .ok candidate := by
  unfold checked
  rw [h]

theorem checked_map_ok
    (h : (checked parseUUID candidate).map (fun next => (next, true)) = .ok (next, changed)) : next = candidate := by
  cases hchecked : checked parseUUID candidate with
  | error =>
    rw [hchecked] at h
    cases h
  | ok =>
    rw [hchecked] at h
    cases h
    exact checked_ok hchecked

variable {settings : List Setting} {descriptorRevision schemaRevision : Bytes}

theorem effective_false (h : effective current settings descriptorRevision schemaRevision = false) :
    current.current.settings = settings ∧ current.current.descriptorRevision = descriptorRevision ∧
      current.current.connectionSchemaRevision = schemaRevision := by
  simp only [effective, Bool.or_eq_false_iff, decide_eq_false_iff_not, not_not] at h
  tauto

variable {displayName description : Bytes}

section

variable (h : replace parseUUID current displayName description settings descriptorRevision schemaRevision now =
  .ok (next, changed))

include h

theorem replace_cases : (effective current settings descriptorRevision schemaRevision = false ∧ next = current ∧
      current.displayName = displayName ∧ current.description = description) ∨
    (effective current settings descriptorRevision schemaRevision = false ∧
      next = { current with displayName, description, version := current.version + 1, updatedAt := now }) ∨
    (current.state = .disabled ∧
      next = { current with
        displayName, description, version := current.version + 1, updatedAt := now
        current := ⟨current.current.number + 1, descriptorRevision, schemaRevision, settings,
          current.current.secretLocator, now⟩ }) := by
  unfold replace at h
  cases heffective : effective current settings descriptorRevision schemaRevision with
  | false =>
    simp only [Connection.replaced, heffective, Bool.not_false, Bool.true_and, Bool.false_and, Bool.false_eq_true,
      if_false] at h
    split_ifs at h with hmetadata
    · grind
    · exact .inr (.inl ⟨rfl, checked_map_ok h⟩)
  | true =>
    simp only [Connection.replaced, heffective, Bool.not_true, Bool.false_and, Bool.true_and, Bool.false_eq_true,
      if_false, if_true] at h
    split_ifs at h with hdisabled
    exact .inr (.inr ⟨by simpa using hdisabled, checked_map_ok h⟩)

theorem replace_ok : Successor current next ∧ (next.displayName = displayName ∧ next.description = description) ∧
      next.current.settings = settings ∧ next.current.descriptorRevision = descriptorRevision ∧
      next.current.connectionSchemaRevision = schemaRevision := by
  obtain ⟨heffective, rfl, hmetadata⟩ | ⟨heffective, rfl⟩ | ⟨-, rfl⟩ := replace_cases h
  · exact ⟨.refl _, hmetadata, effective_false heffective⟩
  · exact ⟨⟨rfl, rfl, rfl, rfl, rfl, .inr rfl, .inl rfl⟩, ⟨rfl, rfl⟩, effective_false heffective⟩
  · exact ⟨⟨rfl, rfl, rfl, rfl, rfl, .inr rfl, .inr rfl⟩, ⟨rfl, rfl⟩, rfl, rfl, rfl⟩

end

theorem replace_of_valid
    (h : (effective current settings descriptorRevision schemaRevision = false ∧ current.displayName = displayName ∧
        current.description = description) ∨
      (effective current settings descriptorRevision schemaRevision = true → current.state = .disabled) ∧
        (current.replaced displayName description settings descriptorRevision schemaRevision now).validate
          parseUUID = none) :
    ∃ written, replace parseUUID current displayName description settings descriptorRevision schemaRevision now =
      .ok written := by
  unfold replace
  dsimp only
  split_ifs with hsame hactive
  · exact ⟨_, rfl⟩
  · rw [Bool.and_eq_true, decide_eq_true_eq] at hactive
    obtain ⟨heffective, -⟩ | ⟨hstate, -⟩ := h
    · rw [heffective] at hactive
      cases hactive.1
    · exact absurd (hstate hactive.1) hactive.2
  · obtain ⟨heffective, hname, hdescription⟩ | ⟨-, hvalid⟩ := h
    · simp [heffective, hname, hdescription] at hsame
    · rw [checked_of_valid hvalid]
      exact ⟨_, rfl⟩

variable {locator : SecretLocator}

theorem rotate_of_valid (hlocator : locator.validate parseUUID = none) (hne : current.current.secretLocator ≠ locator)
    (hvalid : (current.rotated locator descriptorRevision schemaRevision now).validate parseUUID = none) :
    ∃ next, rotate parseUUID current locator descriptorRevision schemaRevision now = .ok next := by
  unfold rotate
  rw [hlocator]
  dsimp only
  rw [if_neg hne, checked_of_valid hvalid]
  exact ⟨_, rfl⟩

section

variable (h : rotate parseUUID current locator descriptorRevision schemaRevision now = .ok next)

include h

theorem rotate_cases : current.current.secretLocator ≠ locator ∧
      next = { current with
        version := current.version + 1
        current := ⟨current.current.number + 1, descriptorRevision, schemaRevision, current.current.settings, locator, now⟩
        updatedAt := now } := by
  unfold rotate at h
  split at h
  · cases h
  · split_ifs at h with hlocator
    exact ⟨hlocator, checked_ok h⟩

theorem rotate_ok : Successor current next ∧ next.current.secretLocator = locator := by
  obtain ⟨-, rfl⟩ := rotate_cases h
  exact ⟨⟨rfl, rfl, rfl, rfl, rfl, .inr rfl, .inr rfl⟩, rfl⟩

end

variable {target : ConnectionState} {compatibility : Compatibility}

theorem setState_of_valid (h : current.state = target ∨
    (target = .active → compatibility = .compatible) ∧ (current.moved target now).validate parseUUID = none) :
    ∃ written, setState parseUUID current target compatibility now = .ok written := by
  unfold setState
  split_ifs with hsame hincompatible
  · exact ⟨_, rfl⟩
  · exact absurd ((h.resolve_left hsame).1 hincompatible.1) hincompatible.2
  · rw [checked_of_valid (h.resolve_left hsame).2]
    exact ⟨_, rfl⟩

section

variable (h : setState parseUUID current target compatibility now = .ok (next, changed))

include h

theorem setState_cases : (next = current ∧ current.state = target) ∨
      next = { current with state := target, version := current.version + 1, updatedAt := now } := by
  unfold setState at h
  split_ifs at h with htarget
  · cases h
    exact .inl ⟨rfl, htarget⟩
  · exact .inr (checked_map_ok h)

theorem setState_ok : Successor current next ∧ next.state = target := by
  obtain ⟨rfl, htarget⟩ | rfl := setState_cases h
  · exact ⟨.refl _, htarget⟩
  · exact ⟨⟨rfl, rfl, rfl, rfl, rfl, .inr rfl, .inl rfl⟩, rfl⟩

end

end

section

def Generation.content (g : Generation) : List Setting × Bytes × Bytes :=
  (g.settings, g.descriptorRevision, g.connectionSchemaRevision)

def Replaced (current next : Connection) : Prop :=
  next.current = current.current ∨ (current.state = .disabled ∧ next.current.number = current.current.number + 1)

structure Rotated (current next : Connection) : Prop where
  number : next.current.number = current.current.number + 1
  content : next.current.content = current.current.content
  locator : next.current.secretLocator ≠ current.current.secretLocator

variable {parseUUID : Bytes → Bool} {current next : Connection} {changed : Bool} {now : Time}

theorem replace_replaced {displayName description descriptorRevision schemaRevision : Bytes} {settings : List Setting}
    (h : replace parseUUID current displayName description settings descriptorRevision schemaRevision now =
      .ok (next, changed)) : Replaced current next := by
  obtain ⟨-, rfl, -⟩ | ⟨-, rfl⟩ | ⟨hdisabled, rfl⟩ := replace_cases h
  · exact .inl rfl
  · exact .inl rfl
  · exact .inr ⟨hdisabled, rfl⟩

theorem rotate_rotated {locator : SecretLocator}
    (h : rotate parseUUID current locator current.current.descriptorRevision current.current.connectionSchemaRevision now =
      .ok next) : Rotated current next := by
  obtain ⟨hlocator, rfl⟩ := rotate_cases h
  exact ⟨rfl, rfl, hlocator.symm⟩

theorem setState_current {target : ConnectionState} {compatibility : Compatibility}
    (h : setState parseUUID current target compatibility now = .ok (next, changed)) : next.current = current.current := by
  obtain ⟨rfl, -⟩ | rfl := setState_cases h <;> rfl

end

inductive TestState
  | queued
  | running
  | succeeded
  | failed
  | timedOut
  | canceled
  | expired
  deriving DecidableEq

inductive TestPhase
  | policy
  | dns
  | transport
  | tls
  | authentication
  | handshake
  | complete
  deriving DecidableEq

inductive TestResultCode
  | ok
  | policyDenied
  | secretUnavailable
  | dnsFailed
  | transportFailed
  | tlsFailed
  | authenticationFailed
  | handshakeFailed
  | deadlineExceeded
  | executorUnavailable
  deriving DecidableEq

structure EgressPolicy where
  revision : Bytes
  allowedCIDRs : List String
  deriving DecidableEq

structure TestOperation where
  (tenantID operationID connectionUID : Bytes)
  generation : Int64
  descriptorRevision : Bytes
  actorID : String
  egressPolicy : EgressPolicy
  state : TestState
  phase : Option TestPhase
  resultCode : Option TestResultCode
  success : Bool
  remediationKey : String
  (createdAt deadlineAt : Time)
  (startedAt completedAt : Option Time)
  expiresAt : Time
  deriving DecidableEq

structure Context where
  parseUUID : Bytes → Bool
  canonicalPolicy : EgressPolicy → Bool

def EgressPolicy.validate (c : Context) (p : EgressPolicy) : Option String :=
  if JobMutations.revision p.revision = false ∨ 64 < p.allowedCIDRs.length then
    some "Connection test egress policy is invalid"
  else if c.canonicalPolicy p then none
  else some "Connection test egress policy is not canonical"

def TestState.active (state : TestState) : Bool := state = .queued || state = .running

def validRunningTestPhase (phase : Option TestPhase) : Bool := phase.any (· ≠ .complete)

structure TestCompletion where
  state : TestState
  phase : Option TestPhase
  resultCode : Option TestResultCode
  success : Bool
  remediationKey : String

def TestCompletion.validate (t : TestCompletion) : Option String :=
  if t.state ≠ .succeeded ∧ t.state ≠ .failed ∧ t.state ≠ .timedOut ∧ t.state ≠ .canceled then
    some "Connection test completion state is invalid"
  else if t.phase.isNone ∨ t.resultCode.isNone ∨ 128 < t.remediationKey.utf8ByteSize ∨
      t.remediationKey.toList.any (fun ch => ch.toNat = 0 || ch.toNat = 13 || ch.toNat = 10) then
    some "Connection test completion result is invalid"
  else if t.state = .succeeded ∧ (t.success = false ∨ t.phase ≠ some .complete ∨ t.resultCode ≠ some .ok ∨
      t.remediationKey ≠ "") then some "successful Connection test completion is inconsistent"
  else if t.state ≠ .succeeded ∧ (t.success ∨ t.resultCode = some .ok) then
    some "failed Connection test completion is inconsistent"
  else if t.state = .timedOut ∧ t.resultCode ≠ some .deadlineExceeded then
    some "timed out Connection test completion is inconsistent"
  else none

def TestOperation.ended (t : TestOperation) : Bool :=
  match t.startedAt, t.completedAt with
  | some startedAt, some completedAt => startedAt ≤ completedAt
  | _, _ => false

def TestOperation.validateState (t : TestOperation) : Option String :=
  match t.state with
  | .queued =>
    if t.phase.isSome ∨ t.resultCode.isSome ∨ t.success ∨ t.remediationKey ≠ "" ∨ t.startedAt.isSome ∨
        t.completedAt.isSome then some "queued Connection test state is inconsistent"
    else none
  | .running =>
    if validRunningTestPhase t.phase = false ∨ t.resultCode.isSome ∨ t.success ∨ t.remediationKey ≠ "" ∨
        t.startedAt.isNone ∨ t.completedAt.isSome then some "running Connection test state is inconsistent"
    else none
  | .succeeded | .failed | .timedOut | .canceled =>
    if t.ended = false then some "terminal Connection test timestamps are inconsistent"
    else TestCompletion.validate ⟨t.state, t.phase, t.resultCode, t.success, t.remediationKey⟩
  | .expired =>
    if t.phase.isSome ∨ t.resultCode.isSome ∨ t.success ∨ t.remediationKey ≠ "" ∨ t.ended = false then
      some "expired Connection test state is inconsistent"
    else none

def TestOperation.validate (c : Context) (t : TestOperation) : Option String :=
  if c.parseUUID t.tenantID = false then some "test tenant ID must be a UUID"
  else if c.parseUUID t.operationID = false then some "test operation ID must be a UUID"
  else if c.parseUUID t.connectionUID = false ∨ t.generation ≤ 0 ∨ revision t.descriptorRevision = false ∨
      t.createdAt = zeroTime ∨ blank t.actorID ∨ 256 < t.actorID.utf8ByteSize ∨ t.deadlineAt = zeroTime ∨
      t.deadlineAt ≤ t.createdAt ∨ t.expiresAt ≤ t.deadlineAt then some "Connection test identity is invalid"
  else (t.egressPolicy.validate c).or t.validateState

end AstraSync.Connections
