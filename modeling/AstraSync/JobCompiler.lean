import AstraSync.AdaptiveBatch

namespace AstraSync.JobCompiler

open AdaptiveBatch

inductive Capability
  | batchRead
  | batchWrite
  | streamRead
  | parallelSnapshot
  | replayableOffset
  | schemaEvolution
  | exactlyOnceSource
  | columnProjection
  | predicatePushdown
  | splitMultiplexing
  | changeDataCapture
  | append
  | upsert
  | delete
  | transactionalCommit
  | idempotentWrite
  | bulkWrite
  | partitionWrite
  | sortedWrite
  | schemaRegistration
  | transformSupport
  | transactionRecovery
  | faultTolerance
  deriving DecidableEq

inductive ConnectorRole
  | source
  | sink
  deriving DecidableEq

structure ConnectorDescriptor where
  (name version : String)
  roles : List ConnectorRole
  capabilities : List Capability

def ConnectorDescriptor.hasCapability (d : ConnectorDescriptor) (capability : Capability) : Bool :=
  capability ∈ d.capabilities

inductive DeliveryGuarantee
  | atMostOnce
  | atLeastOnce
  | exactlyOnce
  deriving DecidableEq

inductive ExecutionMode
  | batch
  | cdc
  deriving DecidableEq

abbrev Options := List (String × String)

structure ConnectorSpec where
  connector : String
  options : Options

structure RuntimeSpec extends BatchLimits where
  fixed_initial : targetBatchNanos = 0 → initialBatchRecords = minBatchRecords ∧ adjustmentCooldownSamples = 0
  fixed_max : targetBatchNanos = 0 → minBatchRecords = maxBatchRecords

structure JobSpec where
  name : String
  (source sink : ConnectorSpec)
  transforms : List String
  guarantee : DeliveryGuarantee
  runtime : RuntimeSpec

structure ConnectorPlan where
  role : ConnectorRole
  (connector version : String)
  options : Options

structure CompiledJobPlan where
  jobName : String
  (source sink : ConnectorPlan)
  executionMode : ExecutionMode
  deliveryGuarantee : DeliveryGuarantee
  runtime : RuntimeSpec

inductive CompilationError
  | connectorNotFound (role : ConnectorRole) (connector : String)
  | roleUnsupported (role : ConnectorRole) (connector : String)
  | capabilityMissing (role : ConnectorRole) (connector : String) (capability : Capability)
  | transformUnsupported
  | cdcNeedsCheckpoints
  | exactlyOnceNeedsCheckpoints
  | atLeastOnceNeedsCheckpoints
  | resumeColumnMissing (guarantee : DeliveryGuarantee)
  | commitCapabilityMissing
  deriving DecidableEq

variable (registry : List ConnectorDescriptor)

def resolve (spec : ConnectorSpec) (role : ConnectorRole) : Except CompilationError ConnectorDescriptor :=
  match registry.find? fun d => d.name = spec.connector with
  | none => .error (.connectorNotFound role spec.connector)
  | some d => .ok d

def requireRole (d : ConnectorDescriptor) (role : ConnectorRole) : Except CompilationError Unit :=
  if role ∈ d.roles then .ok () else .error (.roleUnsupported role d.name)

def requireCapability (d : ConnectorDescriptor) (capability : Capability) (role : ConnectorRole) :
    Except CompilationError Unit :=
  if d.hasCapability capability then .ok () else .error (.capabilityMissing role d.name capability)

def isWhitespace (c : Char) : Bool :=
  let n := c.toNat
  (9 ≤ n && n ≤ 13) || (28 ≤ n && n ≤ 32) || n = 0x1680 || (0x2000 ≤ n && n ≤ 0x2006) ||
    (0x2008 ≤ n && n ≤ 0x200A) || n = 0x2028 || n = 0x2029 || n = 0x205F || n = 0x3000

def isBlank (s : String) : Bool := s.toList.all isWhitespace

def requireReplayableSource (spec : JobSpec) (d : ConnectorDescriptor) (cdc : Bool) : Except CompilationError Unit := do
  requireCapability d .replayableOffset .source
  if cdc then return ()
  match spec.source.options.lookup "resumeColumn" with
  | none => throw (.resumeColumnMissing spec.guarantee)
  | some column => if isBlank column then throw (.resumeColumnMissing spec.guarantee)

def requireDelivery (spec : JobSpec) (source sink : ConnectorDescriptor) (cdc checkpointRuntime : Bool) :
    Except CompilationError Unit :=
  match spec.guarantee with
  | .atMostOnce => .ok ()
  | .atLeastOnce => do
    if !checkpointRuntime then throw .atLeastOnceNeedsCheckpoints
    requireReplayableSource spec source cdc
  | .exactlyOnce => do
    if !checkpointRuntime then throw .exactlyOnceNeedsCheckpoints
    requireReplayableSource spec source cdc
    if cdc then requireCapability source .exactlyOnceSource .source
    if !sink.hasCapability .transactionalCommit && !sink.hasCapability .idempotentWrite then
      throw .commitCapabilityMissing

def requireReading (source sink : ConnectorDescriptor) (cdc checkpointRuntime : Bool) : Except CompilationError Unit :=
  if cdc then do
    if !checkpointRuntime then throw .cdcNeedsCheckpoints
    requireCapability source .streamRead .source
    requireCapability source .replayableOffset .source
    requireCapability sink .upsert .sink
    requireCapability sink .delete .sink
  else requireCapability source .batchRead .source

def requireNoTransforms (spec : JobSpec) : Except CompilationError Unit :=
  if spec.transforms.isEmpty then .ok () else .error .transformUnsupported

def compile (spec : JobSpec) (checkpointRuntime : Bool) : Except CompilationError CompiledJobPlan := do
  let source ← resolve registry spec.source .source
  let sink ← resolve registry spec.sink .sink
  requireRole source .source
  requireRole sink .sink
  let cdc := source.hasCapability .changeDataCapture
  requireReading source sink cdc checkpointRuntime
  requireCapability sink .batchWrite .sink
  requireNoTransforms spec
  requireDelivery spec source sink cdc checkpointRuntime
  return {
    jobName := spec.name
    source := ⟨.source, source.name, source.version, spec.source.options⟩
    sink := ⟨.sink, sink.name, sink.version, spec.sink.options⟩
    executionMode := if cdc then .cdc else .batch
    deliveryGuarantee := spec.guarantee
    runtime := spec.runtime }

def compileCheckpointed (spec : JobSpec) : Except CompilationError CompiledJobPlan := compile registry spec true

end AstraSync.JobCompiler
