import AstraSync.ConnectionRepository

namespace AstraSync.ConnectionMemory

open ByteStrings JobLifecycle Connections ConnectionRepository CompletedRequests Results
open JobMutations (MutationOutcome)

structure AuditEvent where
  tenantID : Bytes
  action : MutationKind
  (actorID requestID : String)
  outcome : MutationOutcome

structure Store where
  connections : List Connection
  generations : List GenerationRow
  tests : List TestOperation
  references : List (Bytes × ReferenceCounts)
  idempotency : List (Entry RequestKey Bytes MutationResult)
  audits : List AuditEvent
  revision : UInt64

def emptyStore : Store := ⟨[], [], [], [], [], [], 0⟩

def named (tenantID name : Bytes) (stored : Connection) : Bool := stored.tenantID = tenantID && stored.name = name

def find (s : Store) (tenantID name : Bytes) : Option Connection := s.connections.find? (named tenantID name)

def get (s : Store) (tenantID name : Bytes) : Except RepositoryError Connection :=
  match find s tenantID name with
  | some stored => .ok stored
  | none => .error .notFound

def putGeneration (generations : List GenerationRow) (uid : Bytes) (g : Generation) : List GenerationRow :=
  generations.filter (fun row => !(row.connectionUID = uid && row.generation.number = g.number)) ++ [⟨uid, g⟩]

section

variable (c : Context) (s : Store) (m : Mutation)

def found : Except RepositoryError Connection := get s m.tenantID m.name

def createConnection : Except RepositoryError (Store × MutationResult) := do
  check (find s m.tenantID m.name).isNone .alreadyExists
  let candidate ← needed m.candidate "create candidate identity is invalid"
  check (candidate.tenantID = m.tenantID && candidate.name = m.name) (.failed "create candidate identity is invalid")
  refuse .invalid (candidate.validate c.parseUUID)
  return ({ s with
    connections := s.connections ++ [candidate]
    generations := s.generations.filter (·.connectionUID ≠ candidate.uid) ++ [⟨candidate.uid, candidate.current⟩] },
    ⟨some candidate, none, none, .changed⟩)

def updateConnection : Except RepositoryError (Store × MutationResult) := do
  let current ← found s m
  check (0 < m.expectedVersion && current.version = m.expectedVersion) .conflict
  let candidate ← needed m.candidate "mutation candidate is required"
  check (sameConnection current candidate) .conflict
  refuse .invalid (candidate.validate c.parseUUID)
  let outcome := if candidate.version = current.version then .noChange else .changed
  let generations :=
    if candidate.current.number ≠ current.current.number then
      putGeneration s.generations current.uid candidate.current
    else s.generations
  return ({ s with
    connections := s.connections.map fun stored => if named m.tenantID m.name stored then candidate else stored
    generations }, ⟨some candidate, none, none, outcome⟩)

def zeroReferences (uid : Bytes) : Bool := ((s.references.lookup uid).getD ⟨0, 0, 0, 0⟩) = ⟨0, 0, 0, 0⟩

def hasActiveTest (uid : Bytes) : Bool := s.tests.any fun t => t.connectionUID = uid && t.state.active

def deleteConnection : Except RepositoryError (Store × MutationResult) := do
  let current ← found s m
  check (0 < m.expectedVersion && current.version = m.expectedVersion) .conflict
  check (current.state = .disabled && zeroReferences s current.uid && !hasActiveTest s current.uid) .inUse
  return ({ s with
    connections := s.connections.filter fun stored => !named m.tenantID m.name stored
    references := s.references.filter (·.1 ≠ current.uid)
    generations := s.generations.filter (·.connectionUID ≠ current.uid) },
    ⟨none, none, some ⟨current.tenantID, current.name, current.uid, m.identity.occurredAt⟩, .changed⟩)

def createConnectionTest : Except RepositoryError (Store × MutationResult) := do
  let current ← found s m
  check (0 < m.expectedVersion && current.version = m.expectedVersion) .conflict
  let test ← needed m.test "test operation is required"
  check (testFits c current test m.identity.actorID)
    (.failed "test operation does not match current Connection generation")
  check (!testLimitExceeded s.tests test) .testLimitExceeded
  return ({ s with tests := s.tests.filter (·.operationID ≠ test.operationID) ++ [test] },
    ⟨none, some test, none, .changed⟩)

def applyLocked : Except RepositoryError (Store × MutationResult) :=
  match m.kind with
  | .create => createConnection c s m
  | .update | .rotate | .enable | .disable => updateConnection c s m
  | .delete => deleteConnection s m
  | .test => createConnectionTest c s m

def apply : Except RepositoryError (Store × MutationResult) := do
  refuse .invalid m.invalid
  match look s.idempotency m.key m.identity.requestDigest with
  | .reused => .error .idempotencyReused
  | .replay result => return (s, replayed result)
  | .fresh =>
    let (next, result) ← applyLocked c s m
    return ({ next with
      revision := next.revision + 1
      audits := next.audits ++ [⟨m.tenantID, m.kind, m.identity.actorID, m.identity.requestID, result.outcome⟩]
      idempotency := next.idempotency ++ [⟨m.key, m.identity.requestDigest, result⟩] }, result)

end

variable {c : Context} {m : Mutation} {s t : Store} {result : MutationResult}

theorem apply_ok (h : apply c s m = .ok (t, result)) : (t = s ∧ result.outcome = .replayed) ∨
      ∃ next, applyLocked c s m = .ok (next, result) ∧ t.connections = next.connections ∧ t.tests = next.tests := by
  unfold apply at h
  replace h := bind_rest h
  split at h
  · cases h
  · cases h
    exact .inl ⟨rfl, rfl⟩
  · obtain ⟨⟨next, result'⟩, happly, h⟩ := bind_eq_ok.mp h
    cases h
    exact .inr ⟨next, happly, rfl, rfl⟩

theorem found_ok {current : Connection} (h : found s m = .ok current) : find s m.tenantID m.name = some current := by
  unfold found get at h
  split at h
  · cases h
    assumption
  · cases h

theorem updateConnection_ok (h : updateConnection c s m = .ok (t, result)) :
    ∃ current candidate, find s m.tenantID m.name = some current ∧ m.candidate = some candidate ∧
      sameConnection current candidate = true ∧ result.connection = some candidate ∧
      t.connections = s.connections.map (fun stored => if named m.tenantID m.name stored then candidate else stored) ∧
      t.tests = s.tests := by
  unfold updateConnection at h
  obtain ⟨current, hfound, h⟩ := bind_eq_ok.mp h
  replace h := bind_rest h
  obtain ⟨candidate, hcandidate, h⟩ := bind_eq_ok.mp h
  obtain ⟨⟨⟩, hsame, h⟩ := bind_eq_ok.mp h
  replace h := bind_rest h
  cases h
  exact ⟨current, candidate, found_ok hfound, needed_ok.mp hcandidate, check_ok.mp hsame, rfl, rfl, rfl⟩

theorem updateConnection_get (h : updateConnection c s m = .ok (t, result)) :
    ∃ candidate, m.candidate = some candidate ∧ result.connection = some candidate ∧
      get t m.tenantID m.name = .ok candidate := by
  obtain ⟨current, candidate, hfind, hcandidate, hsame, hresult, hconnections, -⟩ := updateConnection_ok h
  refine ⟨candidate, hcandidate, hresult, ?_⟩
  have hcurrent : named m.tenantID m.name current = true := List.find?_some hfind
  have hnamed : named m.tenantID m.name candidate = true := by
    obtain ⟨⟨-, htenant, hname, -⟩, -⟩ := sameConnection_spec hsame
    unfold named at hcurrent ⊢
    rw [htenant, hname]
    exact hcurrent
  unfold get find
  rw [hconnections, List.find?_map]
  have hcomp : (named m.tenantID m.name ∘ fun stored => if named m.tenantID m.name stored then candidate else stored) =
      named m.tenantID m.name := by
    grind
  rw [hcomp, show s.connections.find? _ = some current from hfind, Option.map_some, if_pos hcurrent]

end AstraSync.ConnectionMemory
