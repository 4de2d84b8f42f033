import AstraSync.Connections
import AstraSync.Library.CompletedRequests

namespace AstraSync.ConnectionRepository

open ByteStrings SignedNumerals JobLifecycle Connections CompletedRequests Results
open JobMutations (MutationIdentity MutationOutcome AuditEvent)

inductive MutationKind
  | create
  | update
  | rotate
  | enable
  | disable
  | delete
  | test
  deriving DecidableEq

structure Mutation where
  kind : MutationKind
  (tenantID name : Bytes)
  expectedVersion : Int64
  candidate : Option Connection
  test : Option TestOperation
  identity : MutationIdentity

structure Tombstone where
  (tenantID name uid : Bytes)
  deletedAt : Time
  deriving DecidableEq

structure MutationResult where
  connection : Option Connection
  test : Option TestOperation
  tombstone : Option Tombstone
  outcome : MutationOutcome
  deriving DecidableEq

inductive RepositoryError
  | invalid (message : String)
  | notFound
  | alreadyExists
  | conflict
  | inUse
  | idempotencyReused
  | testLimitExceeded
  | failed (text : String)
  deriving DecidableEq

structure RequestKey where
  tenantID : Bytes
  (actorID method : String)
  keyFingerprint : Bytes
  deriving DecidableEq

def Mutation.key (m : Mutation) : RequestKey :=
  ⟨m.tenantID, m.identity.actorID, m.identity.method, m.identity.keyFingerprint⟩

def Mutation.invalid (m : Mutation) : Option String :=
  m.identity.validate.map fun _ => "Connection mutation identity is invalid"

structure ConnectionRow where
  (tenantID name uid connector : Bytes)
  (version currentGeneration : Int64)
  state : ConnectionState
  (displayName description : Bytes)
  (createdAt updatedAt : Time)

structure GenerationRow where
  connectionUID : Bytes
  generation : Generation

inductive ReferenceKind
  | job
  | execution
  | cleanupPending
  | cleanupComplete
  | receipt
  deriving DecidableEq

structure Reference where
  connectionUID : Bytes
  kind : ReferenceKind

structure DeletedConnection where
  tombstone : Tombstone
  (finalVersion finalGeneration : Int64)

structure Store where
  rows : List ConnectionRow
  generations : List GenerationRow
  tests : List TestOperation
  references : List Reference
  tombstones : List DeletedConnection
  idempotency : List (Entry RequestKey Bytes MutationResult)
  audit : List AuditEvent
  listRevisions : List (Bytes × Int64)

def emptyStore : Store := ⟨[], [], [], [], [], [], [], []⟩

def find (rows : List ConnectionRow) (tenantID name : Bytes) : Option ConnectionRow :=
  rows.find? fun row => row.tenantID = tenantID && row.name = name

def findGeneration (generations : List GenerationRow) (uid : Bytes) (number : Int64) : Option GenerationRow :=
  generations.find? fun g => g.connectionUID = uid && g.generation.number = number

def ConnectionRow.join (row : ConnectionRow) (g : Generation) : Connection :=
  ⟨row.tenantID, row.name, row.uid, row.connector, row.version, row.state, row.displayName, row.description, g,
    row.createdAt, row.updatedAt⟩

def scanConnection (c : Context) (s : Store) (tenantID name : Bytes) : Except RepositoryError Connection :=
  match find s.rows tenantID name with
  | none => .error .notFound
  | some row =>
    match findGeneration s.generations row.uid row.currentGeneration with
    | none => .error .notFound
    | some g =>
      match (row.join g.generation).validate c.parseUUID with
      | some message => .error (.failed ("validate stored Connection: " ++ message))
      | none => .ok (row.join g.generation)

def get (c : Context) (s : Store) (tenantID name : Bytes) : Except RepositoryError Connection :=
  scanConnection c s tenantID name

def rowOf (candidate : Connection) : ConnectionRow :=
  ⟨candidate.tenantID, candidate.name, candidate.uid, candidate.connector, candidate.version, candidate.current.number,
    candidate.state, candidate.displayName, candidate.description, candidate.createdAt, candidate.updatedAt⟩

def insertGeneration (generations : List GenerationRow) (uid : Bytes) (g : Generation) :
    Except RepositoryError (List GenerationRow) :=
  if (findGeneration generations uid g.number).isSome then .error (.failed "insert immutable Connection generation")
  else .ok (generations ++ [⟨uid, g⟩])

def ConnectionRow.write (row : ConnectionRow) (candidate : Connection) : ConnectionRow :=
  { row with
    version := candidate.version
    currentGeneration := candidate.current.number
    state := candidate.state
    displayName := candidate.displayName
    description := candidate.description
    updatedAt := candidate.updatedAt }

def updateRow (current candidate : Connection) (row : ConnectionRow) : ConnectionRow :=
  if row.tenantID = candidate.tenantID ∧ row.name = candidate.name ∧ row.version = current.version ∧
      row.uid = candidate.uid then row.write candidate
  else row

section

variable (c : Context) (s : Store) (m : Mutation)

def needed {α : Type} (value : Option α) (text : String) : Except RepositoryError α :=
  match value with
  | some a => .ok a
  | none => .error (.failed text)

def createConnection : Except RepositoryError (Store × MutationResult) := do
  let candidate ← needed m.candidate "create candidate identity is invalid"
  check (candidate.tenantID = m.tenantID && candidate.name = m.name) (.failed "create candidate identity is invalid")
  refuse .invalid (candidate.validate c.parseUUID)
  check (!s.rows.any fun row => (row.tenantID = candidate.tenantID && row.name = candidate.name) ||
    row.uid = candidate.uid) .alreadyExists
  let generations ← insertGeneration s.generations candidate.uid candidate.current
  return ({ s with rows := s.rows ++ [rowOf candidate], generations }, ⟨some candidate, none, none, .changed⟩)

def sameConnection (current candidate : Connection) : Bool :=
  candidate.uid = current.uid && candidate.tenantID = current.tenantID && candidate.name = current.name &&
    candidate.connector = current.connector &&
    (candidate.version = current.version || candidate.version = current.version + 1) &&
    (candidate.current.number = current.current.number || candidate.current.number = current.current.number + 1)

def nextGeneration (generations : List GenerationRow) (current candidate : Connection) :
    Except RepositoryError (List GenerationRow) :=
  if candidate.current.number = current.current.number + 1 then
    insertGeneration generations candidate.uid candidate.current
  else .ok generations

def updateConnection : Except RepositoryError (Store × MutationResult) := do
  let current ← scanConnection c s m.tenantID m.name
  check (0 < m.expectedVersion && current.version = m.expectedVersion) .conflict
  let candidate ← needed m.candidate "Connection mutation candidate is required"
  check (sameConnection current candidate) .conflict
  refuse .invalid (candidate.validate c.parseUUID)
  -- a candidate at the version of the row is taken for one without changes
  if candidate.version = current.version then return (s, ⟨some candidate, none, none, .noChange⟩)
  else
    let generations ← nextGeneration s.generations current candidate
    return ({ s with rows := s.rows.map (updateRow current candidate), generations },
      ⟨some candidate, none, none, .changed⟩)

structure ReferenceCounts where
  (jobs executions tests cleanupObligations : ℕ)
  deriving DecidableEq

def referenceCounts (uid : Bytes) : ReferenceCounts :=
  let counted (kind : ReferenceKind) := s.references.countP fun r => r.connectionUID = uid && r.kind = kind
  ⟨counted .job, counted .execution, s.tests.countP fun t => t.connectionUID = uid && t.state.active,
    counted .cleanupPending⟩

def restricted (uid : Bytes) : Bool :=
  s.references.any (fun r => r.connectionUID = uid) || s.tests.any fun t => t.connectionUID = uid

def deleteConnection : Except RepositoryError (Store × MutationResult) := do
  let current ← scanConnection c s m.tenantID m.name
  check (current.version = m.expectedVersion && 0 < m.expectedVersion) .conflict
  check (current.state = .disabled) .inUse
  check (referenceCounts s current.uid = ⟨0, 0, 0, 0⟩) .inUse
  let tombstone : Tombstone := ⟨current.tenantID, current.name, current.uid, m.identity.occurredAt⟩
  check (!s.tombstones.any fun t => t.tombstone.tenantID = current.tenantID && t.tombstone.uid = current.uid)
    (.failed "write Connection tombstone")
  check (!restricted s current.uid) (.failed "delete Connection")
  return ({ s with
    rows := s.rows.filter fun row => !(row.tenantID = current.tenantID && row.name = current.name)
    generations := s.generations.filter (·.connectionUID ≠ current.uid)
    tombstones := s.tombstones ++ [⟨tombstone, current.version, current.current.number⟩] },
    ⟨none, none, some tombstone, .changed⟩)

def day : Time := 86400000000000

def testLimitExceeded (tests : List TestOperation) (t : TestOperation) : Bool :=
  let own := tests.filter fun row => row.tenantID = t.tenantID
  8 ≤ own.countP (·.state.active) ||
    2 ≤ own.countP (fun row => row.state.active && row.actorID = t.actorID) ||
    1 ≤ own.countP (fun row => row.state.active && row.connectionUID = t.connectionUID) ||
    100 ≤ own.countP fun row => t.createdAt - day ≤ row.createdAt

def testFits (c : Context) (current : Connection) (t : TestOperation) (actorID : String) : Bool :=
  (t.validate c).isNone && t.connectionUID = current.uid && t.generation = current.current.number &&
    t.actorID = actorID

def createConnectionTest : Except RepositoryError (Store × MutationResult) := do
  let current ← scanConnection c s m.tenantID m.name
  check (current.version = m.expectedVersion && 0 < m.expectedVersion) .conflict
  let test ← needed m.test "Connection test operation is required"
  check (testFits c current test m.identity.actorID) (.failed "Connection test does not match current generation")
  check (!testLimitExceeded s.tests test) .testLimitExceeded
  check (!s.tests.any fun row => row.operationID = test.operationID) (.failed "queue Connection test")
  return ({ s with tests := s.tests ++ [test] }, ⟨none, some test, none, .changed⟩)

def applyMutation : Except RepositoryError (Store × MutationResult) :=
  match m.kind with
  | .create => createConnection c s m
  | .update | .rotate | .enable | .disable => updateConnection c s m
  | .delete => deleteConnection c s m
  | .test => createConnectionTest c s m

def auditAction : MutationKind → String
  | .create => "connection.create"
  | .update => "connection.update"
  | .rotate => "connection.rotate"
  | .enable => "connection.enable"
  | .disable => "connection.disable"
  | .delete => "connection.delete"
  | .test => "connection.test.request"

def safeConnection (stored : Connection) : Connection :=
  { stored with
    current := { stored.current with
      settings := stored.current.settings.filter (·.sensitivity = .publicSetting)
      secretLocator := ⟨stored.current.secretLocator.provider, [], [], []⟩ } }

def safeTest (t : TestOperation) : TestOperation :=
  { t with actorID := "", egressPolicy := ⟨[], []⟩, deadlineAt := zeroTime }

def safeResult (result : MutationResult) : MutationResult :=
  { result with connection := result.connection.map safeConnection, test := result.test.map safeTest }

def replayed (result : MutationResult) : MutationResult := { result with outcome := .replayed }

def advanceRevision (revisions : List (Bytes × Int64)) (tenantID : Bytes) : List (Bytes × Int64) :=
  if revisions.any fun r => r.1 = tenantID then
    revisions.map fun r => if r.1 = tenantID then (r.1, r.2 + 1) else r
  else revisions ++ [(tenantID, 2)]

def apply : Except RepositoryError (Store × MutationResult) := do
  refuse .invalid m.invalid
  match look s.idempotency m.key m.identity.requestDigest with
  | .reused => .error .idempotencyReused
  | .replay result => return (s, replayed result)
  | .fresh =>
    let (next, result) ← applyMutation c s m
    check (!next.audit.any fun row => row.eventID = m.identity.auditEventID)
      (.failed "write Connection mutation audit")
    let event : AuditEvent := ⟨m.identity.auditEventID, auditAction m.kind, m.identity.actorID, m.tenantID,
      m.identity.requestID, result.outcome, m.identity.occurredAt⟩
    return ({ next with
      audit := next.audit ++ [event]
      idempotency := next.idempotency ++ [⟨m.key, m.identity.requestDigest, safeResult result⟩]
      listRevisions :=
        if result.outcome = .changed then advanceRevision next.listRevisions m.tenantID else next.listRevisions }, result)

end

theorem needed_ok {α : Type} {value : Option α} {text : String} {a : α} : needed value text = .ok a ↔ value = some a := by
  cases value <;> simp [needed]

structure Written (c : Context) (current candidate : Connection) (s t : Store) : Prop where
  next : candidate.version = current.version + 1
  valid : candidate.validate c.parseUUID = none
  rows : t.rows = s.rows.map (updateRow current candidate)
  generations : (candidate.current.number = current.current.number ∧ t.generations = s.generations) ∨
    (candidate.current.number = current.current.number + 1 ∧
      findGeneration s.generations candidate.uid candidate.current.number = none ∧
      t.generations = s.generations ++ [⟨candidate.uid, candidate.current⟩])

inductive Effect (c : Context) (m : Mutation) (s t : Store) (result : MutationResult) : Prop
  | kept (rows : t.rows = s.rows) (generations : t.generations = s.generations)
  | created (candidate : Connection) (kind : m.kind = .create) (mutated : m.candidate = some candidate)
      (unused : ∀ row ∈ s.rows, row.uid ≠ candidate.uid)
      (first : findGeneration s.generations candidate.uid candidate.current.number = none)
      (rows : t.rows = s.rows ++ [rowOf candidate])
      (generations : t.generations = s.generations ++ [⟨candidate.uid, candidate.current⟩])
  | changed (current candidate : Connection) (scan : scanConnection c s m.tenantID m.name = .ok current)
      (version : current.version = m.expectedVersion) (mutated : m.candidate = some candidate)
      (same : sameConnection current candidate = true) (returned : result.connection = some candidate)
      (written : Written c current candidate s t)
  | deleted (current : Connection) (scan : scanConnection c s m.tenantID m.name = .ok current)
      (rows : t.rows = s.rows.filter fun row => !(row.tenantID = current.tenantID && row.name = current.name))
      (generations : t.generations = s.generations.filter (·.connectionUID ≠ current.uid))

section

variable {c : Context} {m : Mutation} {s t : Store} {result : MutationResult}

theorem insertGeneration_ok {generations generations' : List GenerationRow} {uid : Bytes} {g : Generation}
    (h : insertGeneration generations uid g = .ok generations') :
    findGeneration generations uid g.number = none ∧ generations' = generations ++ [⟨uid, g⟩] := by
  unfold insertGeneration at h
  split_ifs at h with hsome
  cases h
  exact ⟨by simpa using hsome, rfl⟩

theorem createConnection_ok (h : createConnection c s m = .ok (t, result)) :
    ∃ candidate, m.candidate = some candidate ∧ candidate.validate c.parseUUID = none ∧
      (∀ row ∈ s.rows, row.uid ≠ candidate.uid ∧ ¬(row.tenantID = candidate.tenantID ∧ row.name = candidate.name)) ∧
      findGeneration s.generations candidate.uid candidate.current.number = none ∧
      t = { s with
        rows := s.rows ++ [rowOf candidate]
        generations := s.generations ++ [⟨candidate.uid, candidate.current⟩] } ∧
      result = ⟨some candidate, none, none, .changed⟩ := by
  unfold createConnection at h
  obtain ⟨candidate, hcandidate, h⟩ := bind_eq_ok.mp h
  replace h := bind_rest h
  obtain ⟨⟨⟩, hvalid, h⟩ := bind_eq_ok.mp h
  obtain ⟨⟨⟩, hunused, h⟩ := bind_eq_ok.mp h
  obtain ⟨generations, hinsert, h⟩ := bind_eq_ok.mp h
  cases h
  obtain ⟨hfirst, rfl⟩ := insertGeneration_ok hinsert
  refine ⟨candidate, needed_ok.mp hcandidate, refuse_ok.mp hvalid, fun row hrow => ?_, hfirst, rfl, rfl⟩
  have hany := check_ok.mp hunused
  rw [Bool.not_eq_true', List.any_eq_false] at hany
  have hrow := hany row hrow
  simp only [Bool.or_eq_true, Bool.and_eq_true, decide_eq_true_eq, not_or] at hrow
  exact ⟨hrow.2, hrow.1⟩

theorem createConnection_effect (hkind : m.kind = .create) (h : createConnection c s m = .ok (t, result)) :
    Effect c m s t result := by
  obtain ⟨candidate, hcandidate, -, hunused, hfirst, rfl, -⟩ := createConnection_ok h
  exact .created candidate hkind hcandidate (fun row hrow => (hunused row hrow).1) hfirst rfl rfl

theorem sameConnection_spec {current candidate : Connection} (h : sameConnection current candidate = true) :
    (candidate.uid = current.uid ∧ candidate.tenantID = current.tenantID ∧ candidate.name = current.name ∧
      candidate.connector = current.connector) ∧
    (candidate.version = current.version ∨ candidate.version = current.version + 1) ∧
    (candidate.current.number = current.current.number ∨ candidate.current.number = current.current.number + 1) := by
  simp only [sameConnection, Bool.and_eq_true, Bool.or_eq_true, decide_eq_true_eq] at h
  tauto

theorem updateConnection_ok (h : updateConnection c s m = .ok (t, result)) :
    ∃ current candidate, scanConnection c s m.tenantID m.name = .ok current ∧ current.version = m.expectedVersion ∧
      m.candidate = some candidate ∧ sameConnection current candidate = true ∧ result.connection = some candidate ∧
      ((candidate.version = current.version ∧ t = s ∧ result.outcome = .noChange) ∨
        (Written c current candidate s t ∧ result.outcome = .changed)) := by
  unfold updateConnection at h
  obtain ⟨current, hscan, h⟩ := bind_eq_ok.mp h
  obtain ⟨⟨⟩, hversion, h⟩ := bind_eq_ok.mp h
  obtain ⟨candidate, hcandidate, h⟩ := bind_eq_ok.mp h
  obtain ⟨⟨⟩, hsame, h⟩ := bind_eq_ok.mp h
  obtain ⟨⟨⟩, hvalid, h⟩ := bind_eq_ok.mp h
  have hexpected : current.version = m.expectedVersion := by
    have hboth := check_ok.mp hversion
    rw [Bool.and_eq_true, decide_eq_true_iff, decide_eq_true_iff] at hboth
    exact hboth.2
  have hmutated := needed_ok.mp hcandidate
  have hcommon := check_ok.mp hsame
  obtain ⟨-, hnext, hnumber⟩ := sameConnection_spec hcommon
  split_ifs at h with hunchanged
  · cases h
    exact ⟨current, candidate, hscan, hexpected, hmutated, hcommon, rfl, .inl ⟨hunchanged, rfl, rfl⟩⟩
  · have hnext := hnext.resolve_left hunchanged
    obtain ⟨generations, hgenerations, h⟩ := bind_eq_ok.mp h
    cases h
    refine ⟨current, candidate, hscan, hexpected, hmutated, hcommon, rfl, .inr ⟨?_, rfl⟩⟩
    refine ⟨hnext, refuse_ok.mp hvalid, rfl, ?_⟩
    unfold nextGeneration at hgenerations
    split_ifs at hgenerations with hinsert
    · grind [insertGeneration_ok]
    · cases hgenerations
      exact .inl ⟨hnumber.resolve_right hinsert, rfl⟩

theorem updateConnection_store (h : updateConnection c s m = .ok (t, result)) :
    t = { s with rows := t.rows, generations := t.generations } := by
  unfold updateConnection at h
  obtain ⟨current, -, h⟩ := bind_eq_ok.mp h
  replace h := bind_rest h
  obtain ⟨candidate, -, h⟩ := bind_eq_ok.mp h
  replace h := bind_rest h
  replace h := bind_rest h
  split_ifs at h
  · cases h
    rfl
  · obtain ⟨generations, -, h⟩ := bind_eq_ok.mp h
    cases h
    rfl

theorem deleteConnection_ok (h : deleteConnection c s m = .ok (t, result)) :
    ∃ current, scanConnection c s m.tenantID m.name = .ok current ∧ current.version = m.expectedVersion ∧
      current.state = .disabled ∧ referenceCounts s current.uid = ⟨0, 0, 0, 0⟩ ∧ restricted s current.uid = false ∧
      t = { s with
        rows := s.rows.filter fun row => !(row.tenantID = current.tenantID && row.name = current.name)
        generations := s.generations.filter (·.connectionUID ≠ current.uid)
        tombstones := s.tombstones ++ [⟨⟨current.tenantID, current.name, current.uid, m.identity.occurredAt⟩,
          current.version, current.current.number⟩] } ∧
      result = ⟨none, none, some ⟨current.tenantID, current.name, current.uid, m.identity.occurredAt⟩, .changed⟩ := by
  unfold deleteConnection at h
  obtain ⟨current, hscan, h⟩ := bind_eq_ok.mp h
  obtain ⟨⟨⟩, hversion, h⟩ := bind_eq_ok.mp h
  obtain ⟨⟨⟩, hstate, h⟩ := bind_eq_ok.mp h
  obtain ⟨⟨⟩, hcounts, h⟩ := bind_eq_ok.mp h
  replace h := bind_rest h
  obtain ⟨⟨⟩, hrestricted, h⟩ := bind_eq_ok.mp h
  cases h
  have hexpected : current.version = m.expectedVersion := by
    have hboth := check_ok.mp hversion
    rw [Bool.and_eq_true, decide_eq_true_iff, decide_eq_true_iff] at hboth
    exact hboth.1
  refine ⟨current, hscan, hexpected, ?_, ?_, ?_, rfl, rfl⟩
  · exact of_decide_eq_true (check_ok.mp hstate)
  · exact of_decide_eq_true (check_ok.mp hcounts)
  · simpa using check_ok.mp hrestricted

theorem deleteConnection_effect (h : deleteConnection c s m = .ok (t, result)) : Effect c m s t result := by
  obtain ⟨current, hscan, -, -, -, -, rfl, -⟩ := deleteConnection_ok h
  exact .deleted current hscan rfl rfl

theorem createConnectionTest_ok (h : createConnectionTest c s m = .ok (t, result)) :
    ∃ current test, scanConnection c s m.tenantID m.name = .ok current ∧ m.test = some test ∧
      testFits c current test m.identity.actorID = true ∧ testLimitExceeded s.tests test = false ∧
      (∀ row ∈ s.tests, row.operationID ≠ test.operationID) ∧
      t = { s with tests := s.tests ++ [test] } ∧ result = ⟨none, some test, none, .changed⟩ := by
  unfold createConnectionTest at h
  obtain ⟨current, hscan, h⟩ := bind_eq_ok.mp h
  replace h := bind_rest h
  obtain ⟨test, htest, h⟩ := bind_eq_ok.mp h
  obtain ⟨⟨⟩, hfits, h⟩ := bind_eq_ok.mp h
  obtain ⟨⟨⟩, hlimit, h⟩ := bind_eq_ok.mp h
  obtain ⟨⟨⟩, hnew, h⟩ := bind_eq_ok.mp h
  cases h
  refine ⟨current, test, hscan, needed_ok.mp htest, check_ok.mp hfits, ?_, ?_, rfl, rfl⟩
  · simpa using check_ok.mp hlimit
  · grind [check_ok, Bool.not_eq_true', List.any_eq_false]

theorem createConnectionTest_effect (h : createConnectionTest c s m = .ok (t, result)) : Effect c m s t result := by
  obtain ⟨current, test, -, -, -, -, -, rfl, -⟩ := createConnectionTest_ok h
  exact .kept rfl rfl

structure Untouched (s t : Store) : Prop where
  references : t.references = s.references
  idempotency : t.idempotency = s.idempotency
  audit : t.audit = s.audit
  listRevisions : t.listRevisions = s.listRevisions

theorem updateConnection_untouched (h : updateConnection c s m = .ok (t, result)) : Untouched s t := by
  rw [updateConnection_store h]
  exact ⟨rfl, rfl, rfl, rfl⟩

theorem applyMutation_untouched (h : applyMutation c s m = .ok (t, result)) : Untouched s t := by
  unfold applyMutation at h
  split at h
  · grind [Untouched, createConnection_ok]
  · exact updateConnection_untouched h
  · exact updateConnection_untouched h
  · exact updateConnection_untouched h
  · exact updateConnection_untouched h
  · grind [Untouched, deleteConnection_ok]
  · grind [Untouched, createConnectionTest_ok]

theorem updateConnection_effect (h : updateConnection c s m = .ok (t, result)) : Effect c m s t result := by
  obtain ⟨current, candidate, hscan, hversion, hmutated, hsame, hreturned, ⟨-, rfl, -⟩ | ⟨hwritten, -⟩⟩ :=
    updateConnection_ok h
  · exact .kept rfl rfl
  · exact .changed current candidate hscan hversion hmutated hsame hreturned hwritten

theorem applyMutation_effect (h : applyMutation c s m = .ok (t, result)) : Effect c m s t result := by
  unfold applyMutation at h
  split at h
  · next hkind => exact createConnection_effect hkind h
  · exact updateConnection_effect h
  · exact updateConnection_effect h
  · exact updateConnection_effect h
  · exact updateConnection_effect h
  · exact deleteConnection_effect h
  · exact createConnectionTest_effect h

theorem apply_ok (h : apply c s m = .ok (t, result)) : m.invalid = none ∧
    ((∃ kept, look s.idempotency m.key m.identity.requestDigest = .replay kept ∧ t = s ∧ result = replayed kept) ∨
      (look s.idempotency m.key m.identity.requestDigest = .fresh ∧ ∃ next, applyMutation c s m = .ok (next, result) ∧
        t.rows = next.rows ∧ t.generations = next.generations ∧
        t.idempotency = next.idempotency ++ [⟨m.key, m.identity.requestDigest, safeResult result⟩] ∧
        t.tests = next.tests)) := by
  unfold apply at h
  obtain ⟨⟨⟩, hvalid, h⟩ := bind_eq_ok.mp h
  refine ⟨refuse_ok.mp hvalid, ?_⟩
  split at h
  · cases h
  · next kept hlook =>
    cases h
    exact .inl ⟨kept, hlook, rfl, rfl⟩
  · next hlook =>
    obtain ⟨⟨next, result'⟩, happly, h⟩ := bind_eq_ok.mp h
    replace h := bind_rest h
    cases h
    exact .inr ⟨hlook, next, happly, rfl, rfl, rfl, rfl⟩

theorem Written.congr {current candidate : Connection} {next : Store} (h : Written c current candidate s next)
    (hrows : t.rows = next.rows) (hgenerations : t.generations = next.generations) :
    Written c current candidate s t := by
  grind [Written]

theorem Effect.congr {next : Store} (h : Effect c m s next result) (hrows : t.rows = next.rows)
    (hgenerations : t.generations = next.generations) : Effect c m s t result := by
  cases h with
  | kept rows generations => exact .kept (hrows.trans rows) (hgenerations.trans generations)
  | created candidate kind mutated unused first rows generations =>
    exact .created candidate kind mutated unused first (hrows.trans rows) (hgenerations.trans generations)
  | changed current candidate scan version mutated same returned written =>
    exact .changed current candidate scan version mutated same returned (written.congr hrows hgenerations)
  | deleted current scan rows generations =>
    exact .deleted current scan (hrows.trans rows) (hgenerations.trans generations)

theorem apply_effect (h : apply c s m = .ok (t, result)) : Effect c m s t result := by
  obtain ⟨-, ⟨kept, -, rfl, -⟩ | ⟨-, next, happly, hrows, hgenerations, -⟩⟩ := apply_ok h
  · exact .kept rfl rfl
  · exact (applyMutation_effect happly).congr hrows hgenerations

theorem scanConnection_congr {tenantID name : Bytes} (hrows : t.rows = s.rows)
    (hgenerations : t.generations = s.generations) :
    scanConnection c t tenantID name = scanConnection c s tenantID name := by
  unfold scanConnection
  rw [hrows, hgenerations]

end

def createdUID (m : Mutation) : List Bytes :=
  if m.kind = .create then (m.candidate.map (·.uid)).toList else []

def Holds (s : Store) (stored : Connection) : Prop :=
  ∃ row ∈ s.rows, ∃ g, findGeneration s.generations row.uid row.currentGeneration = some g ∧
    stored = row.join g.generation

structure Sound (used : List Bytes) (s : Store) : Prop where
  uids : (s.rows.map (·.uid)).Nodup
  joined : ∀ row ∈ s.rows, ∃ g, findGeneration s.generations row.uid row.currentGeneration = some g
  used : ∀ row ∈ s.rows, row.uid ∈ used

def Since (used : List Bytes) (s t : Store) : Prop :=
  ∀ stored', Holds t stored' → stored'.uid ∈ used →
    ∃ stored, Holds s stored ∧ stored.uid = stored'.uid ∧ (stored' = stored ∨ stored.version < stored'.version)

variable {c : Context} {m : Mutation} {s t : Store} {result : MutationResult} {used : List Bytes}
  {tenantID name uid : Bytes} {current candidate : Connection} {row : ConnectionRow} {generations : List GenerationRow}
  {g : GenerationRow}

theorem scanConnection_ok (h : scanConnection c s tenantID name = .ok current) :
    ∃ row g, find s.rows tenantID name = some row ∧
      findGeneration s.generations row.uid row.currentGeneration = some g ∧ current = row.join g.generation := by
  unfold scanConnection at h
  split at h
  · cases h
  · grind

theorem find_some {rows : List ConnectionRow}
    (h : find rows tenantID name = some row) : row ∈ rows ∧ row.tenantID = tenantID ∧ row.name = name := by
  refine ⟨List.mem_of_find?_eq_some h, ?_⟩
  have hkey := List.find?_some h
  rwa [Bool.and_eq_true, decide_eq_true_iff, decide_eq_true_iff] at hkey

theorem scanConnection_holds (h : scanConnection c s tenantID name = .ok current) : Holds s current := by
  obtain ⟨row, g, hrow, hg, rfl⟩ := scanConnection_ok h
  exact ⟨row, (find_some hrow).1, g, hg, rfl⟩

theorem findGeneration_number {number : Int64}
    (h : findGeneration generations uid number = some g) : g.generation.number = number := by
  have hkey := List.find?_some h
  rw [Bool.and_eq_true, decide_eq_true_iff, decide_eq_true_iff] at hkey
  exact hkey.2

theorem findGeneration_append {number : Int64}
    (h : findGeneration generations uid number = some g) (more : List GenerationRow) :
    findGeneration (generations ++ more) uid number = some g := by
  rw [findGeneration, List.find?_append, show generations.find? _ = some g from h]
  rfl

theorem findGeneration_added {g : Generation} (h : findGeneration generations uid g.number = none) :
    findGeneration (generations ++ [⟨uid, g⟩]) uid g.number = some ⟨uid, g⟩ := by
  rw [findGeneration, List.find?_append, show generations.find? _ = none from h]
  simp

theorem findGeneration_filter {removed : Bytes} (number : Int64) (hne : uid ≠ removed) :
    findGeneration (generations.filter (·.connectionUID ≠ removed)) uid number = findGeneration generations uid number := by
  unfold findGeneration
  rw [List.find?_filter]
  congr 1
  funext g
  by_cases huid : g.connectionUID = uid
  · simp [huid, hne]
  · simp [huid]

section

variable (h : Sound used s)

include h

theorem Sound.row_of_uid {row' : ConnectionRow} (hrow : row ∈ s.rows) (hrow' : row' ∈ s.rows)
    (huid : row.uid = row'.uid) : row = row' :=
  List.inj_on_of_nodup_map h.uids hrow hrow' huid

theorem Sound.holds_of_uid {a b : Connection} (ha : Holds s a) (hb : Holds s b) (huid : a.uid = b.uid) : a = b := by
  obtain ⟨row, hrow, g, hg, rfl⟩ := ha
  obtain ⟨row', hrow', g', hg', rfl⟩ := hb
  cases h.row_of_uid hrow hrow' huid
  rw [hg] at hg'
  cases hg'
  rfl

theorem Sound.holds_used {stored : Connection} (hstored : Holds s stored) : stored.uid ∈ used := by
  obtain ⟨row, hrow, g, -, rfl⟩ := hstored
  exact h.used row hrow

theorem Sound.holds_row (hrow : row ∈ s.rows) {more : List GenerationRow}
    (hg : findGeneration (s.generations ++ more) row.uid row.currentGeneration = some g) :
    Holds s (row.join g.generation) := by
  obtain ⟨g', hg'⟩ := h.joined row hrow
  rw [findGeneration_append hg' more] at hg
  cases hg
  exact ⟨row, hrow, _, hg', rfl⟩

theorem Sound.other_uid (hscan : scanConnection c s tenantID name = .ok current) (hrow : row ∈ s.rows)
    (hother : (!(row.tenantID = current.tenantID && row.name = current.name)) = true) : row.uid ≠ current.uid := by
  intro huid
  obtain ⟨row', g, hfind, -, rfl⟩ := scanConnection_ok hscan
  cases h.row_of_uid hrow (find_some hfind).1 huid
  simp [ConnectionRow.join] at hother

end

theorem updateRow_uid (current candidate : Connection) (row : ConnectionRow) :
    (updateRow current candidate row).uid = row.uid := by
  unfold updateRow
  split_ifs <;> rfl

theorem validate_positive {parseUUID : Bytes → Bool} (h : candidate.validate parseUUID = none) :
    0 < candidate.version ∧ 0 < candidate.current.number := by
  unfold Connection.validate at h
  replace h := (check_passed h).2
  replace h := (check_passed h).2
  replace h := (check_passed h).2
  replace h := (check_passed h).2
  have hversion := (check_passed h).1
  rw [not_or, Int64.not_le, Int64.not_le] at hversion
  exact hversion

theorem Effect.since (h : Effect c m s t result) (hs : Sound used s) (hfresh : ∀ uid ∈ createdUID m, uid ∉ used) :
    Since used s t := by
  rintro stored' ⟨row, hrow, g, hg, rfl⟩ hused
  cases h with
  | kept rows generations =>
    rw [rows] at hrow
    rw [generations] at hg
    exact ⟨_, ⟨row, hrow, g, hg, rfl⟩, rfl, .inl rfl⟩
  | created candidate kind mutated unused first rows generations =>
    rw [rows] at hrow
    rw [generations] at hg
    rcases List.mem_append.mp hrow with hrow | hrow
    · exact ⟨_, hs.holds_row hrow hg, rfl, .inl rfl⟩
    · -- the new identifier was not used before
      rw [List.mem_singleton.mp hrow] at hused
      exact absurd hused (hfresh _ (by simp [createdUID, kind, mutated, rowOf, ConnectionRow.join]))
  | changed current candidate scan version mutated same returned written =>
    rw [written.rows] at hrow
    obtain ⟨row, hmem, rfl⟩ := List.mem_map.mp hrow
    obtain ⟨old, hold⟩ := hs.joined row hmem
    unfold updateRow at hg ⊢
    split_ifs at hg ⊢ with hmatch
    · refine ⟨row.join old.generation, ⟨row, hmem, old, hold, rfl⟩, rfl, .inr ?_⟩
      change row.version < candidate.version
      rw [hmatch.2.2.1, written.next]
      exact lt_succ_self (written.next ▸ (validate_positive written.valid).1)
    · refine ⟨_, ?_, rfl, .inl rfl⟩
      rcases written.generations with ⟨-, heq⟩ | ⟨-, -, heq⟩
      · exact ⟨row, hmem, g, heq ▸ hg, rfl⟩
      · exact hs.holds_row hmem (heq ▸ hg)
  | deleted current scan rows generations =>
    rw [rows] at hrow
    obtain ⟨hmem, hother⟩ := List.mem_filter.mp hrow
    rw [generations, findGeneration_filter _ (hs.other_uid scan hmem hother)] at hg
    exact ⟨_, ⟨row, hmem, g, hg, rfl⟩, rfl, .inl rfl⟩

theorem Written.generation
    (h : Written c current candidate s t) (hscan : scanConnection c s tenantID name = .ok current)
    (huid : candidate.uid = current.uid) :
    ∃ g, findGeneration t.generations candidate.uid candidate.current.number = some g ∧
      (g.generation = candidate.current ∨
        (g.generation = current.current ∧ candidate.current.number = current.current.number)) := by
  rcases h.generations with ⟨hnumber, heq⟩ | ⟨-, hfirst, heq⟩
  · obtain ⟨row, g, -, hg, rfl⟩ := scanConnection_ok hscan
    refine ⟨g, ?_, .inr ⟨rfl, hnumber⟩⟩
    rw [heq, huid, hnumber]
    change findGeneration s.generations row.uid g.generation.number = some g
    rw [findGeneration_number hg]
    exact hg
  · rw [heq]
    exact ⟨_, findGeneration_added hfirst, .inl rfl⟩

theorem find_updateRow (rows : List ConnectionRow) (current candidate : Connection) (tenantID name : Bytes) :
    find (rows.map (updateRow current candidate)) tenantID name =
      (find rows tenantID name).map (updateRow current candidate) := by
  rw [find, List.find?_map]
  congr 2
  funext row
  unfold updateRow
  dsimp only [Function.comp]
  split_ifs <;> rfl

theorem join_write (htenant : candidate.tenantID = row.tenantID)
    (hname : candidate.name = row.name) (huid : candidate.uid = row.uid) (hconnector : candidate.connector = row.connector)
    (hcreated : candidate.createdAt = row.createdAt) : (row.write candidate).join candidate.current = candidate := by
  unfold ConnectionRow.join ConnectionRow.write
  rw [← htenant, ← hname, ← huid, ← hconnector, ← hcreated]

theorem Written.scan (h : Written c current candidate s t)
    (hscan : scanConnection c s tenantID name = .ok current) (hsuccessor : Successor current candidate) :
    scanConnection c t tenantID name = .ok candidate := by
  obtain ⟨g, hg, hcurrent⟩ := h.generation hscan hsuccessor.uid
  have hgeneration : g.generation = candidate.current := by
    rcases hcurrent with heq | ⟨heq, hnumber⟩
    · exact heq
    · rcases hsuccessor.generation with hkept | hnext
      · exact heq.trans hkept.symm
      · exact absurd (hnext.symm.trans hnumber) (succ_ne _)
  obtain ⟨row, old, hfind, -, hjoin⟩ := scanConnection_ok hscan
  have hrow : updateRow current candidate row = row.write candidate := by
    refine if_pos ⟨?_, ?_, ?_, ?_⟩
    · rw [hsuccessor.tenantID, hjoin]
      rfl
    · rw [hsuccessor.name, hjoin]
      rfl
    · rw [hjoin]
      rfl
    · rw [hsuccessor.uid, hjoin]
      rfl
  have hwritten : (row.write candidate).join candidate.current = candidate := by
    apply join_write
    · rw [hsuccessor.tenantID, hjoin]
      rfl
    · rw [hsuccessor.name, hjoin]
      rfl
    · rw [hsuccessor.uid, hjoin]
      rfl
    · rw [hsuccessor.connector, hjoin]
      rfl
    · rw [hsuccessor.createdAt, hjoin]
      rfl
  have huid : (row.write candidate).uid = candidate.uid := congrArg Connection.uid hwritten
  have hnew : findGeneration t.generations (row.write candidate).uid (row.write candidate).currentGeneration = some g := by
    rw [huid]
    exact hg
  unfold scanConnection
  rw [h.rows, find_updateRow, hfind, Option.map_some, hrow]
  simp only [hnew, hgeneration, hwritten, h.valid]

theorem Effect.sound (h : Effect c m s t result) (hs : Sound used s) : Sound (used ++ createdUID m) t := by
  have hused : ∀ row ∈ s.rows, row.uid ∈ used ++ createdUID m := fun row hrow => List.mem_append_left _ (hs.used row hrow)
  cases h with
  | kept => grind [Sound]
  | created candidate kind mutated unused first rows generations =>
    refine ⟨?_, fun row hrow => ?_, fun row hrow => ?_⟩
    · rw [rows, List.map_append, List.nodup_append]
      refine ⟨hs.uids, List.nodup_singleton _, fun uid huid uid' huid' heq => ?_⟩
      obtain ⟨row, hrow, rfl⟩ := List.mem_map.mp huid
      rw [List.map_singleton, List.mem_singleton] at huid'
      exact unused row hrow (heq.trans huid')
    · rw [rows] at hrow
      rw [generations]
      rcases List.mem_append.mp hrow with hrow | hrow
      · grind [Sound, findGeneration_append]
      · rw [List.mem_singleton.mp hrow]
        exact ⟨_, findGeneration_added first⟩
    · rw [rows] at hrow
      rcases List.mem_append.mp hrow with hrow | hrow
      · exact hused row hrow
      · rw [List.mem_singleton.mp hrow]
        exact List.mem_append_right _ (by simp [createdUID, kind, mutated, rowOf])
  | changed current candidate scan version mutated same returned written =>
    refine ⟨?_, fun row hrow => ?_, fun row hrow => ?_⟩
    · have huids : (s.rows.map (updateRow current candidate)).map (·.uid) = s.rows.map (·.uid) := by
        rw [List.map_map]
        exact List.map_congr_left fun row _ => updateRow_uid current candidate row
      rw [written.rows, huids]
      exact hs.uids
    · rw [written.rows] at hrow
      obtain ⟨row, hmem, rfl⟩ := List.mem_map.mp hrow
      unfold updateRow
      split_ifs with hmatch
      · obtain ⟨g, hg, -⟩ := written.generation scan (sameConnection_spec same).1.1
        exact ⟨g, hmatch.2.2.2 ▸ hg⟩
      · obtain ⟨old, hold⟩ := hs.joined row hmem
        rcases written.generations with ⟨-, heq⟩ | ⟨-, -, heq⟩
        · exact ⟨old, heq ▸ hold⟩
        · exact ⟨old, heq ▸ findGeneration_append hold _⟩
    · rw [written.rows] at hrow
      obtain ⟨row, hmem, rfl⟩ := List.mem_map.mp hrow
      rw [updateRow_uid]
      exact hused row hmem
  | deleted current scan rows generations =>
    refine ⟨?_, fun row hrow => ?_, fun row hrow => ?_⟩
    · rw [rows]
      exact hs.uids.sublist (List.filter_sublist.map _)
    · rw [rows] at hrow
      obtain ⟨hmem, hother⟩ := List.mem_filter.mp hrow
      rw [generations, findGeneration_filter _ (hs.other_uid scan hmem hother)]
      exact hs.joined row hmem
    · rw [rows] at hrow
      exact hused row (List.mem_of_mem_filter hrow)

end AstraSync.ConnectionRepository
