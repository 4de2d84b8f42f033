import AstraSync.SchedulerWorld

namespace AstraSync.CredentialMaterializer

open ByteStrings JobLifecycle DispatchStore ExecutionResources Programs SchedulerWorld

variable {S : Type}

structure Materialized where
  required : Bool
  (secretName fingerprint compilerRevision : Bytes)
  roles : List Role
  deriving DecidableEq

def sortBindings (bindings : List Binding) : List Binding :=
  bindings.filter (·.role = .sink) ++ bindings.filter (·.role = .source)

def rolesDiffer : List Binding → Bool
  | a :: b :: rest => a.role ≠ b.role && rolesDiffer (b :: rest)
  | _ => true

def consistent (c : Settings S) (i : Identity) (first : Binding) (bindings : List Binding) : Bool :=
  bindings.all (fun b => c.validBinding b && bound i b && b.compilerRevision = first.compilerRevision) &&
    rolesDiffer bindings

def nameFault (c : Settings S) (i : Identity) : Option Fault :=
  match i.validate with
  | some e => some (.dispatch e)
  | none => if c.parseUUID i.jobUID then none else some (.other "job UID must be a UUID")

def verifyCredentialSecret (i : Identity) (fingerprint : Bytes) (o : Object) : Bool :=
  o.body.immutable && o.resource.labels = labels i Part.credentials.component && o.body.fingerprint = fingerprint

def completeReceiptSet (receipts : List Receipt) (bindings : List Binding) (o : Object) : Bool :=
  receipts.length = bindings.length && bindings.all fun b =>
    match receipts.reverse.find? fun r => r.role = b.role with
    | some r => r.tenantID = b.tenantID && r.connectionUID = b.connectionUID && r.generation = b.generation &&
        r.descriptorRevision = b.descriptorRevision && r.secretName = o.resource.name && r.secretUID = o.uid &&
        r.resourceVersion = o.resourceVersion
    | none => false

def sameSecretData (left right : List (Bytes × Bytes)) : Bool :=
  left.length = right.length && left.all fun entry => (right.lookup entry.1).getD [] = entry.2

def receiptFor (o : Object) (now : Time) (b : Binding) (provider : ProviderReceipt) : Receipt :=
  ⟨b.tenantID, b.jobUID, b.epoch, b.role, b.connectionUID, b.generation, b.descriptorRevision, provider,
    o.resource.name, o.uid, o.resourceVersion, now⟩

def commit (c : Settings S) (record : Record) (bindings : List Binding) (now : Time) (result : Materialized)
    (providers : List ProviderReceipt) (o : Object) : Prog S (Except Fault Materialized) :=
  if c.parseUUID o.uid = false ∨ o.resourceVersion = [] then pure (.error .receiptConflict)
  else do
    match ← Calls.commitReceipts record (bindings.zipWith (receiptFor o now) providers) now with
    | .error e => pure (.error e)
    | .ok () => pure (.ok result)

def adopt (i : Identity) (fingerprint : Bytes) (data : List (Bytes × Bytes)) : Prog S (Except Fault Object) := do
  match ← Calls.getObject .secret (partName i .credentials) with
  | .error e => pure (.error e)
  | .ok o =>
    if verifyCredentialSecret i fingerprint o = false then pure (.error .receiptConflict)
    else if sameSecretData o.body.data data = false then pure (.error .receiptConflict)
    else pure (.ok o)

def createSecret (i : Identity) (fingerprint : Bytes) (data : List (Bytes × Bytes)) : Prog S (Except Fault Object) := do
  match ← Calls.createObject i .credentials ⟨fingerprint, true, data⟩ with
  | .ok o => pure (.ok o)
  | .error .alreadyExists => adopt i fingerprint data
  | .error e => pure (.error e)

def materialize (c : Settings S) (record : Record) (bindings : List Binding) (now : Time) (result : Materialized) :
    Prog S (Except Fault Materialized) := do
  match ← Calls.getObject .secret (partName record.identity .credentials) with
  | .error .absent =>
    match ← Calls.readReceipts record.identity with
    | .error e => pure (.error e)
    | .ok _ =>
      match ← Calls.buildEnvelopes bindings with
      | .error e => pure (.error e)
      | .ok (data, providers) =>
        match ← createSecret record.identity result.fingerprint data with
        | .error e => pure (.error (.wrapped "create execution credential Secret" e))
        | .ok o => commit c record bindings now result providers o
  | .error e => pure (.error (.wrapped "get execution credential Secret" e))
  | .ok o =>
    match ← Calls.readReceipts record.identity with
    | .error e => pure (.error e)
    | .ok receipts =>
      if verifyCredentialSecret record.identity result.fingerprint o = false then pure (.error .receiptConflict)
      else if completeReceiptSet receipts bindings o then pure (.ok result)
      else match ← Calls.buildEnvelopes bindings with
        | .error e => pure (.error e)
        | .ok (data, providers) =>
          if sameSecretData o.body.data data then commit c record bindings now result providers o
          else pure (.error .receiptConflict)

def ensure (c : Settings S) (record : Record) : Prog S (Except Fault Materialized) := do
  let now ← Calls.clock
  match ← Calls.loadBindings record now with
  | .error e => pure (.error e)
  | .ok loaded =>
    match sortBindings loaded with
    | [] => pure (.ok ⟨false, [], [], [], []⟩)
    | first :: rest =>
      let bindings := first :: rest
      if 2 < bindings.length ∨ consistent c record.identity first bindings = false then
        pure (.error .revisionMismatch)
      else match ← Calls.claimCleanup record bindings now with
        | .error e => pure (.error e)
        | .ok () =>
          match nameFault c record.identity with
          | some e => pure (.error e)
          | none =>
            let result : Materialized := ⟨true, partName record.identity .credentials,
              c.bindingFingerprint bindings, first.compilerRevision, bindings.map (·.role)⟩
            materialize c record bindings now result

def confirmCleanup (i : Identity) : Prog S (Except Fault Unit) := do
  match ← Calls.getObject .secret (partName i .credentials) with
  | .ok _ => pure (.error (.other "execution credential Secret is still terminating"))
  | .error .absent => Calls.completeCleanup i
  | .error e => pure (.error (.wrapped "confirm execution credential Secret cleanup" e))

def cleanup (c : Settings S) (i : Identity) : Prog S (Except Fault Unit) :=
  match nameFault c i with
  | some e => pure (.error e)
  | none => do
    match ← Calls.getObject .secret (partName i .credentials) with
    | .ok o =>
      if o.resource.labels ≠ labels i Part.credentials.component then pure (.error .receiptConflict)
      else match ← Calls.deleteObject .secret (partName i .credentials) with
        | .error .absent => confirmCleanup i
        | .error e => pure (.error (.wrapped "delete execution credential Secret" e))
        | .ok () => confirmCleanup i
    | .error .absent => confirmCleanup i
    | .error e => pure (.error (.wrapped "get execution credential Secret for cleanup" e))

variable {c : Settings S} {record : Record} {i : Identity} {bindings : List Binding} {result : Materialized}

theorem commit_quiet {now : Time} {providers : List ProviderReceipt} {o : Object} :
    Only (Call.quiet i) (commit c record bindings now result providers o) := by
  unfold commit
  split_ifs
  · trivial
  · refine only_call trivial fun r => ?_
    split <;> trivial

theorem createSecret_quiet {fingerprint : Bytes} {data : List (Bytes × Bytes)} :
    Only (Call.quiet (S := S) i) (createSecret i fingerprint data) := by
  refine only_call rfl fun r => ?_
  split
  · trivial
  · refine only_call trivial fun r => ?_
    split
    · trivial
    · split_ifs <;> trivial
  · trivial

theorem materialize_quiet {now : Time} :
    Only (Call.quiet record.identity) (materialize c record bindings now result) := by
  refine only_call trivial fun r => ?_
  split
  · refine only_call trivial fun r => ?_
    split
    · trivial
    · refine only_call trivial fun r => ?_
      split
      · trivial
      · refine only_bind createSecret_quiet fun r => ?_
        split
        · trivial
        · exact commit_quiet
  · trivial
  · refine only_call trivial fun r => ?_
    split
    · trivial
    · split_ifs
      · trivial
      · trivial
      · refine only_call trivial fun r => ?_
        split
        · trivial
        · split_ifs
          · exact commit_quiet
          · trivial

theorem ensure_quiet : Only (Call.quiet record.identity) (ensure c record) := by
  refine only_call trivial fun now => only_call trivial fun r => ?_
  split
  · trivial
  · split
    · trivial
    · dsimp only
      split_ifs
      · trivial
      · refine only_call trivial fun r => ?_
        split
        · trivial
        · split
          · trivial
          · exact materialize_quiet

theorem confirmCleanup_quiet : Only (Call.quiet (S := S) i) (confirmCleanup i) := by
  refine only_call trivial fun r => ?_
  split
  · trivial
  · exact only_perform trivial
  · trivial

theorem cleanup_quiet : Only (Call.quiet i) (cleanup c i) := by
  unfold cleanup
  split
  · trivial
  · refine only_call trivial fun r => ?_
    split
    · split_ifs
      · trivial
      · refine only_call trivial fun r => ?_
        split
        · exact confirmCleanup_quiet
        · trivial
        · exact confirmCleanup_quiet
    · exact confirmCleanup_quiet
    · trivial

end AstraSync.CredentialMaterializer
