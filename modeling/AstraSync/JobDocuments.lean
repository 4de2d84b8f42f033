import AstraSync.JobMutations
import AstraSync.JobCompiler
import AstraSync.ExecutionResources

namespace AstraSync.JobDocuments

open ByteStrings JobLifecycle JobMutations Results
open ExecutionResources (runtimeID)
open JobCompiler (isBlank isWhitespace)

inductive Json
  | null
  | bool (b : Bool)
  | number (n : ℤ)
  | decimal (text : String)
  | text (s : String)
  | array (items : List Json)
  | object (fields : List (String × Json))

structure Libraries where
  marshalIndent : Json → String
  /-- The documents of a stream. -/
  readTrees : String → Option (List Json)
  fingerprint : String → String

def ascii (s : Bytes) : String := String.ofList (s.map fun b => Char.ofNat b.toNat)

def omitEmpty (name : String) (empty : Bool) (value : Json) : List (String × Json) :=
  if empty then [] else [(name, value)]

def optionsTree (options : List (String × String)) : List (String × Json) :=
  omitEmpty "options" options.isEmpty (.object (options.map fun option => (option.1, .text option.2)))

def connectorTree (spec : ConnectorSpec) : Json :=
  .object (("connector", .text (ascii spec.connector)) ::
    omitEmpty "connectionRef" spec.connectionRef.isEmpty (.text (ascii spec.connectionRef)) ++ optionsTree spec.options)

def transformTree (t : TransformSpec) : Json := .object (("type", .text t.type) :: optionsTree t.options)

def externalName : DeliveryGuarantee → String
  | .atMostOnce => "at-most-once"
  | .atLeastOnce => "at-least-once"
  | .exactlyOnce => "exactly-once"

def specFields (spec : Spec) : List (String × Json) :=
  [("source", connectorTree spec.source), ("sink", connectorTree spec.sink)] ++
    omitEmpty "transforms" spec.transforms.isEmpty (.array (spec.transforms.map transformTree)) ++
    [("delivery", .object [("guarantee", .text (externalName spec.guarantee))]),
      ("runtime", .object [("maxBatchRecords", .number spec.maxBatchRecords.toInt)])]

def withoutConnections (spec : Spec) : Spec :=
  { spec with source := { spec.source with connectionRef := [] }, sink := { spec.sink with connectionRef := [] } }

def documentTree (candidate : Job Spec) : Json :=
  .object [("apiVersion", .text "sync.astrasync.io/v1"), ("kind", .text "SyncJob"),
    ("metadata", .object [("name", .text (ascii (runtimeID candidate.uid)))]),
    ("spec", .object (specFields (withoutConnections candidate.spec)))]

def jobDocument (lib : Libraries) (candidate : Job Spec) : Except String (String × String) :=
  match candidate.spec.validate with
  | some e => .error e
  | none =>
    let encoded := lib.marshalIndent (documentTree candidate) ++ "\n"
    .ok (encoded, lib.fingerprint encoded)

structure ParseFailure where
  (path message : String)
  deriving DecidableEq

structure AdaptiveBatchSpec where
  (minBatchRecords initialBatchRecords : Int32)
  targetBatchNanos : Int64
  adjustmentCooldownSamples : Int32
  deriving DecidableEq

def AdaptiveBatchSpec.invalid (s : AdaptiveBatchSpec) : Option String :=
  if s.minBatchRecords ≤ 0 then some "minBatchRecords must be positive"
  else if s.initialBatchRecords < s.minBatchRecords then some "initialBatchRecords must not be below minBatchRecords"
  else if s.targetBatchNanos < 0 then some "targetBatchNanos must not be negative"
  else if s.adjustmentCooldownSamples < 0 then some "adjustmentCooldownSamples must not be negative"
  else if s.targetBatchNanos = 0 ∧ (s.initialBatchRecords ≠ s.minBatchRecords ∨ s.adjustmentCooldownSamples ≠ 0) then
    some "disabled adaptive batch spec must use fixed bounds and zero cooldown"
  else none

structure AdaptiveParallelismSpec where
  (minParallelism initialParallelism maxParallelism : Int32)
  targetTaskNanos : Int64
  adjustmentCooldownSamples : Int32
  deriving DecidableEq

def AdaptiveParallelismSpec.invalid (s : AdaptiveParallelismSpec) : Option String :=
  if s.minParallelism ≤ 0 then some "minParallelism must be positive"
  else if s.initialParallelism < s.minParallelism then some "initialParallelism must not be below minParallelism"
  else if s.maxParallelism < s.initialParallelism then some "maxParallelism must not be below initialParallelism"
  else if s.targetTaskNanos < 0 then some "targetTaskNanos must not be negative"
  else if s.adjustmentCooldownSamples < 0 then some "adjustmentCooldownSamples must not be negative"
  else if s.targetTaskNanos = 0 ∧ (s.minParallelism ≠ 1 ∨ s.initialParallelism ≠ 1 ∨ s.maxParallelism ≠ 1 ∨
      s.adjustmentCooldownSamples ≠ 0) then
    some "disabled adaptive parallelism spec must use one worker and zero cooldown"
  else none

structure SpillSpec where
  enabled : Bool
  maxBytes : Int64
  maxFiles : Int32
  deriving DecidableEq

def SpillSpec.invalid (s : SpillSpec) : Option String :=
  if s.enabled then
    if s.maxBytes ≤ 0 then some "enabled spill maxBytes must be positive"
    else if s.maxFiles ≤ 0 then some "enabled spill maxFiles must be positive"
    else none
  else if s.maxBytes ≠ 0 ∨ s.maxFiles ≠ 0 then some "disabled spill must use zero bounds"
  else none

structure RuntimeSpec where
  maxBatchRecords : Int32
  adaptiveBatch : AdaptiveBatchSpec
  adaptiveParallelism : AdaptiveParallelismSpec
  spill : SpillSpec
  deriving DecidableEq

structure JobConfiguration where
  source : JobCompiler.ConnectorSpec
  transforms : List TransformSpec
  sink : JobCompiler.ConnectorSpec
  guarantee : DeliveryGuarantee
  runtime : RuntimeSpec

structure JobSpec where
  (apiVersion kind name : String)
  spec : JobConfiguration

abbrev Parsed (α : Type) := Except ParseFailure α

def simplePathSegment (name : String) : Bool :=
  match name.toList with
  | [] => false
  | c :: rest => (c.isAlpha || c = '_') && rest.all fun c => c.isAlpha || c.isDigit || c = '_' || c = '-'

def child (parent name : String) : String :=
  if simplePathSegment name then parent ++ "." ++ name
  else parent ++ "['" ++ String.join (name.toList.map fun c => if c = '\'' then "\\'" else c.toString) ++ "']"

def failure {α : Type} (path message : String) : Parsed α := .error ⟨path, message⟩

def requireObject (node : Json) (path : String) : Parsed (List (String × Json)) :=
  match node with
  | .object fields => .ok fields
  | _ => failure path "must be an object"

def requiredObject (parent : List (String × Json)) (field path : String) : Parsed (List (String × Json)) :=
  match parent.lookup field with
  | none => failure (child path field) "is required"
  | some node => requireObject node (child path field)

def requiredText (parent : List (String × Json)) (field path : String) : Parsed String :=
  match parent.lookup field with
  | none => failure (child path field) "is required"
  | some (.text s) => .ok s
  | some _ => failure (child path field) "must be a string"

def integerValue (node : Json) (path : String) : Parsed Int32 :=
  match node with
  | .number n =>
    if -2 ^ 31 ≤ n ∧ n < 2 ^ 31 then .ok (Int32.ofInt n) else failure path "must be a 32-bit integer"
  | _ => failure path "must be a 32-bit integer"

def optionalInt (parent : List (String × Json)) (field path : String) (default : Int32) : Parsed Int32 :=
  match parent.lookup field with
  | none => .ok default
  | some node => integerValue node (child path field)

def requiredInt (parent : List (String × Json)) (field path : String) : Parsed Int32 :=
  match parent.lookup field with
  | none => failure (child path field) "is required"
  | some node => integerValue node (child path field)

def requiredLong (parent : List (String × Json)) (field path : String) : Parsed Int64 :=
  match parent.lookup field with
  | none => failure (child path field) "is required"
  | some (.number n) =>
    if -2 ^ 63 ≤ n ∧ n < 2 ^ 63 then .ok (Int64.ofInt n) else failure (child path field) "must be a 64-bit integer"
  | some _ => failure (child path field) "must be a 64-bit integer"

def requiredBoolean (parent : List (String × Json)) (field path : String) : Parsed Bool :=
  match parent.lookup field with
  | none => failure (child path field) "is required"
  | some (.bool b) => .ok b
  | some _ => failure (child path field) "must be a boolean"

def rejectUnknownFields (fields : List (String × Json)) (allowed : List String) (path : String) : Parsed Unit :=
  match fields.find? fun field => !allowed.contains field.1 with
  | some field => failure (child path field.1) "unknown field"
  | none => .ok ()

def parseOptionFields (path : String) : List (String × Json) → Parsed (List (String × String))
  | [] => .ok []
  | (key, value) :: rest =>
    if isBlank key then failure (child path key) "option key must not be blank"
    else match value with
      | .text s => (parseOptionFields path rest).map ((key, s) :: ·)
      | _ => failure (child path key) "option value must be a string"

def parseOptions (node : Option Json) (path : String) : Parsed (List (String × String)) :=
  match node with
  | none => .ok []
  | some node => requireObject node path >>= parseOptionFields path

def labelChar (c : Char) : Bool := c.isLower || c.isDigit

def connectorPattern (s : String) : Bool :=
  s.toList.length ≤ 128 && s.toList.head?.any labelChar && s.toList.getLast?.any labelChar &&
    s.toList.all fun c => labelChar c || c = '.' || c = '_' || c = '-'

def jobNamePattern (s : String) : Bool :=
  s.toList.length ≤ 63 && s.toList.head?.any labelChar && s.toList.getLast?.any labelChar &&
    s.toList.all fun c => labelChar c || c = '-'

def parseConnector (fields : List (String × Json)) (path : String) : Parsed JobCompiler.ConnectorSpec := do
  rejectUnknownFields fields ["connector", "options"] path
  let connector ← requiredText fields "connector" path
  if connectorPattern connector then
    let options ← parseOptions (fields.lookup "options") (child path "options")
    return ⟨connector, options⟩
  else failure (child path "connector") "invalid canonical connector name"

def parseTransformFields (fields : List (String × Json)) (path : String) : Parsed TransformSpec := do
  rejectUnknownFields fields ["type", "options"] path
  let type ← requiredText fields "type" path
  if isBlank type then failure (child path "type") "must not be blank"
  else
    let options ← parseOptions (fields.lookup "options") (child path "options")
    return ⟨type, options⟩

def parseTransform (node : Json) (path : String) : Parsed TransformSpec := do
  let fields ← requireObject node path
  parseTransformFields fields path

def parseTransformItems (path : String) : ℕ → List Json → Parsed (List TransformSpec)
  | _, [] => .ok []
  | index, node :: rest => do
    let transform ← parseTransform node s!"{path}[{index}]"
    let transforms ← parseTransformItems path (index + 1) rest
    return transform :: transforms

def parseTransforms (node : Option Json) (path : String) : Parsed (List TransformSpec) :=
  match node with
  | none => .ok []
  | some (.array items) => parseTransformItems path 0 items
  | some _ => failure path "must be an array"

def fromExternalName (value : String) : Option DeliveryGuarantee :=
  [DeliveryGuarantee.atMostOnce, .atLeastOnce, .exactlyOnce].find? fun guarantee => externalName guarantee = value

def parseDelivery (fields : List (String × Json)) (path : String) : Parsed DeliveryGuarantee := do
  rejectUnknownFields fields ["guarantee"] path
  let value ← requiredText fields "guarantee" path
  match fromExternalName value with
  | some guarantee => return guarantee
  | none => failure (child path "guarantee") ("unsupported delivery guarantee: " ++ value)

def checked {α : Type} (path : String) (invalid : α → Option String) (value : α) : Parsed α :=
  match invalid value with
  | some message => failure path message
  | none => .ok value

def AdaptiveBatchSpec.disabled (maxBatchRecords : Int32) : AdaptiveBatchSpec := ⟨maxBatchRecords, maxBatchRecords, 0, 0⟩

def parseAdaptiveBatch (node : Option Json) (path : String) (maxBatchRecords : Int32) : Parsed AdaptiveBatchSpec :=
  match node with
  | none => .ok (.disabled maxBatchRecords)
  | some node => do
    let fields ← requireObject node path
    rejectUnknownFields fields
      ["minBatchRecords", "initialBatchRecords", "targetBatchNanos", "adjustmentCooldownSamples"] path
    let minBatchRecords ← requiredInt fields "minBatchRecords" path
    let initialBatchRecords ← requiredInt fields "initialBatchRecords" path
    let targetBatchNanos ← requiredLong fields "targetBatchNanos" path
    let adjustmentCooldownSamples ← requiredInt fields "adjustmentCooldownSamples" path
    checked path AdaptiveBatchSpec.invalid
      ⟨minBatchRecords, initialBatchRecords, targetBatchNanos, adjustmentCooldownSamples⟩

def AdaptiveParallelismSpec.disabled : AdaptiveParallelismSpec := ⟨1, 1, 1, 0, 0⟩

def parseAdaptiveParallelism (node : Option Json) (path : String) : Parsed AdaptiveParallelismSpec :=
  match node with
  | none => .ok .disabled
  | some node => do
    let fields ← requireObject node path
    rejectUnknownFields fields
      ["minParallelism", "initialParallelism", "maxParallelism", "targetTaskNanos", "adjustmentCooldownSamples"] path
    let minParallelism ← requiredInt fields "minParallelism" path
    let initialParallelism ← requiredInt fields "initialParallelism" path
    let maxParallelism ← requiredInt fields "maxParallelism" path
    let targetTaskNanos ← requiredLong fields "targetTaskNanos" path
    let adjustmentCooldownSamples ← requiredInt fields "adjustmentCooldownSamples" path
    checked path AdaptiveParallelismSpec.invalid
      ⟨minParallelism, initialParallelism, maxParallelism, targetTaskNanos, adjustmentCooldownSamples⟩

def SpillSpec.disabled : SpillSpec := ⟨false, 0, 0⟩

def parseSpill (node : Option Json) (path : String) : Parsed SpillSpec :=
  match node with
  | none => .ok .disabled
  | some node => do
    let fields ← requireObject node path
    rejectUnknownFields fields ["enabled", "maxBytes", "maxFiles"] path
    let enabled ← requiredBoolean fields "enabled" path
    let maxBytes ← requiredLong fields "maxBytes" path
    let maxFiles ← requiredInt fields "maxFiles" path
    checked path SpillSpec.invalid ⟨enabled, maxBytes, maxFiles⟩

def RuntimeSpec.fixed (maxBatchRecords : Int32) : RuntimeSpec :=
  ⟨maxBatchRecords, .disabled maxBatchRecords, .disabled, .disabled⟩

def defaultMaxBatchRecords : Int32 := 1024

def parseRuntimeFields (fields : List (String × Json)) (path : String) : Parsed RuntimeSpec := do
  rejectUnknownFields fields ["maxBatchRecords", "adaptiveBatch", "adaptiveParallelism", "spill"] path
  let maxBatchRecords ← optionalInt fields "maxBatchRecords" path defaultMaxBatchRecords
  if maxBatchRecords ≤ 0 then failure (child path "maxBatchRecords") "must be positive"
  else
    let adaptiveBatch ← parseAdaptiveBatch (fields.lookup "adaptiveBatch") (child path "adaptiveBatch") maxBatchRecords
    let adaptiveParallelism ←
      parseAdaptiveParallelism (fields.lookup "adaptiveParallelism") (child path "adaptiveParallelism")
    let spill ← parseSpill (fields.lookup "spill") (child path "spill")
    if maxBatchRecords < adaptiveBatch.minBatchRecords ∨ maxBatchRecords < adaptiveBatch.initialBatchRecords then
      failure (child path "adaptiveBatch")
        s!"batch bounds must not exceed maxBatchRecords ({maxBatchRecords.toInt})"
    else return ⟨maxBatchRecords, adaptiveBatch, adaptiveParallelism, spill⟩

def parseRuntime (node : Option Json) (path : String) : Parsed RuntimeSpec :=
  match node with
  | none => .ok (.fixed defaultMaxBatchRecords)
  | some node => do
    let fields ← requireObject node path
    parseRuntimeFields fields path

def apiVersion : String := "sync.astrasync.io/v1"

def kind : String := "SyncJob"

def parseName (metadata : List (String × Json)) (path : String) : Parsed String := do
  rejectUnknownFields metadata ["name"] path
  let name ← requiredText metadata "name" path
  if jobNamePattern name then return name
  else failure (child path "name") "must be a lowercase DNS label of at most 63 characters"

def parseConfiguration (spec : List (String × Json)) (path : String) : Parsed JobConfiguration := do
  rejectUnknownFields spec ["source", "transforms", "sink", "delivery", "runtime"] path
  let sourceFields ← requiredObject spec "source" path
  let source ← parseConnector sourceFields (child path "source")
  let transforms ← parseTransforms (spec.lookup "transforms") (child path "transforms")
  let sinkFields ← requiredObject spec "sink" path
  let sink ← parseConnector sinkFields (child path "sink")
  let deliveryFields ← requiredObject spec "delivery" path
  let guarantee ← parseDelivery deliveryFields (child path "delivery")
  let runtime ← parseRuntime (spec.lookup "runtime") (child path "runtime")
  return ⟨source, transforms, sink, guarantee, runtime⟩

def parseRoot (root : Json) : Parsed JobSpec := do
  let fields ← requireObject root "$"
  rejectUnknownFields fields ["apiVersion", "kind", "metadata", "spec"] "$"
  let version ← requiredText fields "apiVersion" "$"
  if version ≠ apiVersion then failure "$.apiVersion" ("unsupported apiVersion: " ++ version)
  else
    let found ← requiredText fields "kind" "$"
    if found ≠ kind then failure "$.kind" ("unsupported kind: " ++ found)
    else
      let metadata ← requiredObject fields "metadata" "$"
      let name ← parseName metadata "$.metadata"
      let specFields ← requiredObject fields "spec" "$"
      let spec ← parseConfiguration specFields "$.spec"
      return ⟨version, found, name, spec⟩

mutual

def duplicateField (path : String) : Json → Option String
  | .object fields => duplicateIn path [] fields
  | .array items => duplicateItem path 0 items
  | _ => none

def duplicateIn (path : String) (seen : List String) : List (String × Json) → Option String
  | [] => none
  | (name, value) :: rest =>
    if name ∈ seen then some (child path name)
    else (duplicateField (child path name) value).or (duplicateIn path (name :: seen) rest)

def duplicateItem (path : String) (index : ℕ) : List Json → Option String
  | [] => none
  | item :: rest => (duplicateField s!"{path}[{index}]" item).or (duplicateItem path (index + 1) rest)

end

def parse (lib : Libraries) (document : String) : Parsed JobSpec :=
  if isBlank document then failure "$" "document must not be blank"
  else
    match lib.readTrees document with
    | none => failure "$" "invalid YAML or JSON"
    | some trees =>
      match trees.findSome? (duplicateField "$") with
      | some path => failure path "duplicate field"
      | none =>
        match trees with
        | [] => failure "$" "document is empty"
        | [root] => parseRoot root
        | _ => failure "$" "multiple documents are not supported"

theorem labelChar_ofNat {b : UInt8} (h : labelByte b = true) : labelChar (Char.ofNat b.toNat) = true := by
  have hall : ∀ n < 256, labelByte (UInt8.ofNat n) = true → labelChar (Char.ofNat n) = true := by decide +kernel
  exact hall b.toNat b.toNat_lt (by rwa [UInt8.ofNat_toNat])

theorem ascii_toList (s : Bytes) : (ascii s).toList = s.map fun b => Char.ofNat b.toNat := String.toList_ofList

theorem any_ofNat {o : Option UInt8} (h : o.any labelByte = true) :
    (o.map fun b => Char.ofNat b.toNat).any labelChar = true := by
  cases o with
  | none => cases h
  | some => exact labelChar_ofNat h

theorem connectorPattern_ascii {s : Bytes} (hlength : s.length ≤ 128) (hname : connectorName s = true) :
    connectorPattern (ascii s) = true := by
  simp only [connectorName, Bool.and_eq_true, List.all_eq_true, Bool.or_eq_true, decide_eq_true_eq] at hname
  obtain ⟨⟨hhead, hlast⟩, hall⟩ := hname
  rw [connectorPattern, ascii_toList, List.length_map, List.head?_map, List.getLast?_map, any_ofNat hhead,
    any_ofNat hlast]
  simp only [hlength, decide_true, Bool.true_and, Bool.and_true, List.all_eq_true, List.mem_map]
  rintro c ⟨b, hb, rfl⟩
  rcases hall b hb with ((hlabel | rfl) | rfl) | rfl
  · rw [labelChar_ofNat hlabel, Bool.true_or, Bool.true_or, Bool.true_or]
  · decide
  · decide
  · decide

theorem jobNamePattern_runtimeID {uid : Bytes} (h : ExecutionResources.canonicalUUID uid = true) :
    jobNamePattern (ascii (runtimeID uid)) = true := by
  have hlength := ExecutionResources.runtimeID_length h
  have heq := ExecutionResources.runtimeID_eq h
  have hdigits : ∀ b ∈ uid.filter (· ≠ ExecutionResources.dash), labelByte b = true := by
    intro b hb
    obtain ⟨hmem, hdash⟩ := List.mem_filter.mp hb
    simp only [ExecutionResources.canonicalUUID, Bool.and_eq_true, List.all_eq_true, Bool.or_eq_true,
      decide_eq_true_eq, List.contains_iff_mem] at h
    have hhex := (h.1.2 b hmem).resolve_left (by simpa using hdash)
    have hall : ∀ d ∈ ExecutionResources.hexDigits, labelByte d = true := by decide +kernel
    exact hall b hhex
  have hne : uid.filter (· ≠ ExecutionResources.dash) ≠ [] := by
    intro hnil
    rw [heq, hnil] at hlength
    cases hlength
  rw [jobNamePattern, ascii_toList, List.length_map, hlength, List.head?_map, List.getLast?_map, heq,
    List.getLast?_append_of_ne_nil _ hne]
  have hlast : ((uid.filter (· ≠ ExecutionResources.dash)).getLast?.map fun b => Char.ofNat b.toNat).any labelChar =
      true := by
    refine any_ofNat ?_
    rw [List.getLast?_eq_getLast_of_ne_nil hne]
    exact hdigits _ (List.getLast_mem hne)
  rw [hlast]
  simp only [Nat.reduceLeDiff, decide_true, Bool.true_and, Bool.and_true, Bool.and_eq_true, List.all_eq_true,
    List.mem_map, List.mem_append]
  refine ⟨rfl, ?_⟩
  rintro c ⟨b, hb | hb, rfl⟩
  · have hall : ∀ b ∈ lit "job-", (labelChar (Char.ofNat b.toNat) || Char.ofNat b.toNat = '-') = true := by
      decide +kernel
    exact hall b hb
  · rw [labelChar_ofNat (hdigits b hb), Bool.true_or]

def expected (candidate : Job Spec) : JobSpec where
  apiVersion := apiVersion
  kind := kind
  name := ascii (runtimeID candidate.uid)
  spec :=
    { source := ⟨ascii candidate.spec.source.connector, candidate.spec.source.options⟩
      transforms := candidate.spec.transforms
      sink := ⟨ascii candidate.spec.sink.connector, candidate.spec.sink.options⟩
      guarantee := candidate.spec.guarantee
      runtime := .fixed candidate.spec.maxBatchRecords }

def Visible (options : List (String × String)) : Prop := ∀ option ∈ options, isBlank option.1 = false

variable {options : List (String × String)} {ts : List TransformSpec} {spec : Spec} {candidate : Job Spec} {path : String}

theorem parseOptionFields_text (path : String) (h : Visible options) :
    parseOptionFields path (options.map fun option => (option.1, .text option.2)) = .ok options := by
  induction options with
  | nil => rfl
  | cons option rest ih =>
    have hrest := ih fun o ho => h o (List.mem_cons_of_mem option ho)
    rw [List.map_cons, parseOptionFields, h option List.mem_cons_self]
    simp only [Bool.false_eq_true, if_false, hrest]
    rfl

theorem parseOptions_tree (path : String) (h : Visible options) (name : String)
    (value : Json) (hname : name ≠ "options") :
    parseOptions (((name, value) :: optionsTree options).lookup "options") path = .ok options := by
  have hlookup : ((name, value) :: optionsTree options).lookup "options" = (optionsTree options).lookup "options" := by
    rw [List.lookup_cons, beq_eq_false_iff_ne.mpr hname.symm]
  rw [hlookup]
  cases options with
  | nil => rfl
  | cons option rest =>
    show parseOptionFields path ((option :: rest).map fun option => (option.1, .text option.2)) = _
    exact parseOptionFields_text path h

theorem rejectUnknownFields_tree (path name : String) (value : Json) :
    rejectUnknownFields ((name, value) :: optionsTree options) [name, "options"] path = .ok () := by
  unfold rejectUnknownFields
  rw [List.find?_eq_none.mpr]
  intro field hfield
  rcases List.mem_cons.mp hfield with rfl | hmem
  · simp
  · unfold optionsTree omitEmpty at hmem
    split at hmem
    · exact absurd hmem List.not_mem_nil
    · rw [List.mem_singleton] at hmem
      simp [hmem]

theorem parseConnector_tree {connector : Bytes} (path : String)
    (hname : connectorPattern (ascii connector) = true) (h : Visible options) :
    parseConnector (("connector", .text (ascii connector)) :: optionsTree options) path =
      .ok ⟨ascii connector, options⟩ := by
  unfold parseConnector
  rw [rejectUnknownFields_tree, parseOptions_tree _ h _ _ (by decide)]
  show (if connectorPattern (ascii connector) = true then _ else _) = _
  rw [if_pos hname]
  rfl

theorem parseTransform_tree {t : TransformSpec} (path : String) (htype : isBlank t.type = false) (h : Visible t.options) :
    parseTransform (transformTree t) path = .ok t := by
  show parseTransformFields (("type", .text t.type) :: optionsTree t.options) path = _
  unfold parseTransformFields
  rw [rejectUnknownFields_tree, parseOptions_tree _ h _ _ (by decide)]
  show (if isBlank t.type = true then _ else _) = _
  rw [htype]
  rfl

theorem parseTransformItems_tree (path : String) (index : ℕ)
    (h : ∀ t ∈ ts, isBlank t.type = false ∧ Visible t.options) :
    parseTransformItems path index (ts.map transformTree) = .ok ts := by
  induction ts generalizing index with
  | nil => rfl
  | cons t ts ih =>
    have hrest := ih (index + 1) fun t' ht' => h t' (List.mem_cons_of_mem t ht')
    rw [List.map_cons, parseTransformItems, parseTransform_tree _ (h t List.mem_cons_self).1 (h t List.mem_cons_self).2,
      hrest]
    rfl

theorem integerValue_toInt (x : Int32) (path : String) : integerValue (.number x.toInt) path = .ok x := by
  have hlow := x.le_toInt
  have hhigh := x.toInt_lt
  dsimp only [integerValue]
  rw [if_pos ⟨by omega, by omega⟩, Int32.ofInt_toInt]

theorem parseRuntimeFields_tree {x : Int32} (path : String) (h : 0 < x) :
    parseRuntimeFields [("maxBatchRecords", .number x.toInt)] path = .ok (.fixed x) := by
  have hread : optionalInt [("maxBatchRecords", .number x.toInt)] "maxBatchRecords" path defaultMaxBatchRecords = .ok x :=
    integerValue_toInt x _
  unfold parseRuntimeFields
  rw [hread]
  show (if x ≤ 0 then _ else _) = _
  rw [if_neg (Int32.not_le.mpr h)]
  show (if x < x ∨ x < x then _ else _) = _
  rw [if_neg (by simp)]
  rfl

structure Readable (spec : Spec) : Prop where
  source : connectorPattern (ascii spec.source.connector) = true ∧ Visible spec.source.options
  sink : connectorPattern (ascii spec.sink.connector) = true ∧ Visible spec.sink.options
  transforms : ∀ t ∈ spec.transforms, isBlank t.type = false ∧ Visible t.options
  batch : 0 < spec.maxBatchRecords

theorem parseTransforms_tree (path : String) (h : Readable spec) :
    parseTransforms ((specFields (withoutConnections spec)).lookup "transforms") path = .ok spec.transforms := by
  have hitems := parseTransformItems_tree path 0 h.transforms
  cases hts : spec.transforms with
  | nil =>
    have hlookup : (specFields (withoutConnections spec)).lookup "transforms" = none := by
      simp only [specFields, withoutConnections, hts]
      rfl
    rw [hlookup]
    rfl
  | cons =>
    have hlookup : (specFields (withoutConnections spec)).lookup "transforms" =
        some (.array (spec.transforms.map transformTree)) := by
      simp only [specFields, withoutConnections, hts]
      rfl
    rw [hlookup, ← hts]
    exact hitems

theorem parseConfiguration_tree (path : String) (h : Readable candidate.spec) :
    parseConfiguration (specFields (withoutConnections candidate.spec)) path = .ok (expected candidate).spec := by
  have hunknown : rejectUnknownFields (specFields (withoutConnections candidate.spec))
      ["source", "transforms", "sink", "delivery", "runtime"] path = .ok () := by
    unfold specFields withoutConnections
    cases candidate.spec.transforms <;> rfl
  have hdelivery : parseDelivery [("guarantee", .text (externalName candidate.spec.guarantee))] (child path "delivery") =
      .ok candidate.spec.guarantee := by
    cases candidate.spec.guarantee <;> rfl
  have hruntime : (specFields (withoutConnections candidate.spec)).lookup "runtime" =
      some (.object [("maxBatchRecords", .number candidate.spec.maxBatchRecords.toInt)]) := by
    unfold specFields withoutConnections
    cases candidate.spec.transforms <;> rfl
  have hguarantee : requiredObject (specFields (withoutConnections candidate.spec)) "delivery" path =
      .ok [("guarantee", .text (externalName candidate.spec.guarantee))] := by
    unfold specFields withoutConnections
    cases candidate.spec.transforms <;> rfl
  have hbatch : parseRuntime (some (.object [("maxBatchRecords", .number candidate.spec.maxBatchRecords.toInt)]))
      (child path "runtime") = .ok (.fixed candidate.spec.maxBatchRecords) := parseRuntimeFields_tree _ h.batch
  unfold parseConfiguration
  rw [hruntime]
  refine bind_eq_ok.mpr ⟨(), hunknown, ?_⟩
  refine bind_eq_ok.mpr ⟨_, rfl, bind_eq_ok.mpr ⟨_, parseConnector_tree _ h.source.1 h.source.2, ?_⟩⟩
  refine bind_eq_ok.mpr ⟨_, parseTransforms_tree _ h, ?_⟩
  refine bind_eq_ok.mpr ⟨_, rfl, bind_eq_ok.mpr ⟨_, parseConnector_tree _ h.sink.1 h.sink.2, ?_⟩⟩
  refine bind_eq_ok.mpr ⟨_, hguarantee, bind_eq_ok.mpr ⟨_, hdelivery, ?_⟩⟩
  exact bind_eq_ok.mpr ⟨_, hbatch, rfl⟩

theorem parseRoot_tree (huid : ExecutionResources.canonicalUUID candidate.uid = true)
    (h : Readable candidate.spec) : parseRoot (documentTree candidate) = .ok (expected candidate) := by
  have hname : parseName [("name", .text (ascii (runtimeID candidate.uid)))] "$.metadata" =
      .ok (ascii (runtimeID candidate.uid)) := by
    refine bind_eq_ok.mpr ⟨(), rfl, bind_eq_ok.mpr ⟨_, rfl, ?_⟩⟩
    rw [if_pos (jobNamePattern_runtimeID huid)]
    rfl
  refine bind_eq_ok.mpr ⟨_, rfl, bind_eq_ok.mpr ⟨(), rfl, bind_eq_ok.mpr ⟨apiVersion, rfl, ?_⟩⟩⟩
  rw [if_neg (not_not.mpr rfl)]
  refine bind_eq_ok.mpr ⟨kind, rfl, ?_⟩
  rw [if_neg (not_not.mpr rfl)]
  refine bind_eq_ok.mpr ⟨_, rfl, bind_eq_ok.mpr ⟨_, hname, ?_⟩⟩
  exact bind_eq_ok.mpr ⟨_, rfl, bind_eq_ok.mpr ⟨_, parseConfiguration_tree _ h, rfl⟩⟩

theorem duplicateIn_options (path : String) (seen : List String)
    (hkeys : (options.map Prod.fst).Nodup) (hseen : ∀ option ∈ options, option.1 ∉ seen) :
    duplicateIn path seen (options.map fun option => (option.1, .text option.2)) = none := by
  induction options generalizing seen with
  | nil => rfl
  | cons option rest ih =>
    obtain ⟨hnot, hkeys⟩ := List.nodup_cons.mp hkeys
    rw [List.map_cons, duplicateIn, if_neg (hseen option List.mem_cons_self)]
    refine Option.or_eq_none_iff.mpr ⟨by simp only [duplicateField], ih _ hkeys fun o ho => ?_⟩
    rw [List.mem_cons, not_or]
    exact ⟨fun heq => hnot (heq ▸ List.mem_map_of_mem ho), hseen o (List.mem_cons_of_mem option ho)⟩

theorem duplicateIn_cons {name : String} {seen : List String} {value : Json} {rest : List (String × Json)}
    (hname : name ∉ seen) (hvalue : duplicateField (child path name) value = none)
    (hrest : duplicateIn path (name :: seen) rest = none) : duplicateIn path seen ((name, value) :: rest) = none := by
  rw [duplicateIn, if_neg hname]
  exact Option.or_eq_none_iff.mpr ⟨hvalue, hrest⟩

theorem duplicateIn_nil {seen : List String} : duplicateIn path seen [] = none := by
  simp only [duplicateIn]

theorem duplicateField_text {s : String} : duplicateField path (.text s) = none := by
  simp only [duplicateField]

theorem duplicateField_object {fields : List (String × Json)} :
    duplicateField path (.object fields) = duplicateIn path [] fields := by
  simp only [duplicateField]

theorem duplicateIn_optionsTree (path : String) (seen : List String)
    (hkeys : (options.map Prod.fst).Nodup) (hseen : "options" ∉ seen) :
    duplicateIn path seen (optionsTree options) = none := by
  unfold optionsTree omitEmpty
  split
  · exact duplicateIn_nil
  · grind [duplicateIn_cons, duplicateIn_nil, duplicateField_object, duplicateIn_options]

structure Mapped (spec : Spec) : Prop where
  source : (spec.source.options.map Prod.fst).Nodup
  sink : (spec.sink.options.map Prod.fst).Nodup
  transforms : ∀ t ∈ spec.transforms, (t.options.map Prod.fst).Nodup

theorem duplicateItem_transforms (path : String) (index : ℕ)
    (h : ∀ t ∈ ts, (t.options.map Prod.fst).Nodup) : duplicateItem path index (ts.map transformTree) = none := by
  induction ts generalizing index with
  | nil => simp only [List.map_nil, duplicateItem]
  | cons t ts ih =>
    rw [List.map_cons, duplicateItem]
    refine Option.or_eq_none_iff.mpr ⟨?_, ih _ fun t' ht' => h t' (List.mem_cons_of_mem t ht')⟩
    rw [transformTree, duplicateField_object]
    exact duplicateIn_cons List.not_mem_nil duplicateField_text
      (duplicateIn_optionsTree _ _ (h t List.mem_cons_self) (by decide))

theorem duplicateField_connector {spec : ConnectorSpec} (path : String) (h : (spec.options.map Prod.fst).Nodup) :
    duplicateField path (connectorTree { spec with connectionRef := [] }) = none := by
  show duplicateField path (.object (("connector", .text (ascii spec.connector)) :: optionsTree spec.options)) = none
  rw [duplicateField_object]
  exact duplicateIn_cons List.not_mem_nil duplicateField_text (duplicateIn_optionsTree _ _ h (by decide))

theorem duplicateIn_closing (path : String) (seen : List String) (hdelivery : "delivery" ∉ seen)
    (hruntime : "runtime" ∉ seen) :
    duplicateIn path seen [("delivery", .object [("guarantee", .text (externalName spec.guarantee))]),
      ("runtime", .object [("maxBatchRecords", .number spec.maxBatchRecords.toInt)])] = none := by
  refine duplicateIn_cons hdelivery ?_ (duplicateIn_cons ?_ ?_ duplicateIn_nil)
  · rw [duplicateField_object]
    exact duplicateIn_cons List.not_mem_nil duplicateField_text duplicateIn_nil
  · rw [List.mem_cons, not_or]
    exact ⟨by decide, hruntime⟩
  · rw [duplicateField_object]
    exact duplicateIn_cons List.not_mem_nil (by simp only [duplicateField]) duplicateIn_nil

theorem duplicateIn_spec (path : String) (h : Mapped spec) :
    duplicateIn path [] (specFields (withoutConnections spec)) = none := by
  refine duplicateIn_cons List.not_mem_nil (duplicateField_connector _ h.source)
    (duplicateIn_cons (by decide) (duplicateField_connector _ h.sink) ?_)
  show duplicateIn path ["sink", "source"] (omitEmpty "transforms" spec.transforms.isEmpty
    (.array (spec.transforms.map transformTree)) ++ _) = none
  unfold omitEmpty
  split
  · exact duplicateIn_closing path _ (by decide) (by decide)
  · refine duplicateIn_cons (by decide) ?_ (duplicateIn_closing path _ (by decide) (by decide))
    simp only [duplicateField]
    exact duplicateItem_transforms _ 0 h.transforms

theorem duplicateField_document (h : Mapped candidate.spec) : duplicateField "$" (documentTree candidate) = none := by
  rw [documentTree, duplicateField_object]
  refine duplicateIn_cons List.not_mem_nil duplicateField_text (duplicateIn_cons (by decide) duplicateField_text
    (duplicateIn_cons (by decide) ?_ (duplicateIn_cons (by decide) ?_ duplicateIn_nil)))
  · rw [duplicateField_object]
    exact duplicateIn_cons List.not_mem_nil duplicateField_text duplicateIn_nil
  · rw [duplicateField_object]
    exact duplicateIn_spec _ h

def separator (c : Char) : Bool := 0x1c ≤ c.toNat && c.toNat ≤ 0x1f

def hidden (s : String) : Bool := isBlank s && s.toList.any separator

structure Shown (spec : Spec) : Prop where
  source : ∀ option ∈ spec.source.options, hidden option.1 = false
  sink : ∀ option ∈ spec.sink.options, hidden option.1 = false
  transforms : ∀ t ∈ spec.transforms, hidden t.type = false ∧ ∀ option ∈ t.options, hidden option.1 = false

theorem isSpace_of_isWhitespace {c : Char} (h : isWhitespace c = true) (hseparator : separator c = false) :
    isSpace c = true := by
  simp only [isWhitespace, isSpace, separator, Bool.or_eq_true, Bool.and_eq_true, Bool.and_eq_false_iff,
    decide_eq_true_eq, decide_eq_false_iff_not, List.contains_cons, beq_iff_eq, List.contains_nil] at h hseparator ⊢
  omega

theorem not_isBlank {s : String} (hblank : blank s = false) (hhidden : hidden s = false) : isBlank s = false := by
  by_contra hjava
  rw [Bool.not_eq_false] at hjava
  rw [hidden, hjava, Bool.true_and] at hhidden
  have hgo : blank s = true := by
    refine List.all_eq_true.mpr fun c hc => isSpace_of_isWhitespace (List.all_eq_true.mp hjava c hc) ?_
    exact Bool.eq_false_iff.mpr (List.any_eq_false.mp hhidden c hc)
  rw [hgo] at hblank
  cases hblank

theorem visible_of_validateOptions {field : String}
    (h : validateOptions field options = none) (hshown : ∀ option ∈ options, hidden option.1 = false) :
    Visible options := by
  unfold validateOptions at h
  split at h
  · cases h
  · rename_i hany
    intro option hmem
    refine not_isBlank ?_ (hshown option hmem)
    exact Bool.eq_false_iff.mpr fun hblank => hany (List.any_eq_true.mpr ⟨option, hmem, hblank⟩)

theorem readable_connector {field : String} {spec : ConnectorSpec} (h : validateConnector field spec = none)
    (hshown : ∀ option ∈ spec.options, hidden option.1 = false) :
    connectorPattern (ascii spec.connector) = true ∧ Visible spec.options := by
  unfold validateConnector at h
  split at h
  · cases h
  · rename_i hname
    rw [not_or, not_lt, Bool.not_eq_false] at hname
    exact ⟨connectorPattern_ascii hname.1 hname.2, visible_of_validateOptions h hshown⟩

theorem readable_transforms {index : ℕ} (h : validateTransforms index ts = none)
    (hshown : ∀ t ∈ ts, hidden t.type = false ∧ ∀ option ∈ t.options, hidden option.1 = false) :
    ∀ t ∈ ts, isBlank t.type = false ∧ Visible t.options := by
  induction ts generalizing index with
  | nil => exact fun t ht => absurd ht List.not_mem_nil
  | cons t ts ih =>
    unfold validateTransforms at h
    split at h
    · cases h
    · rename_i hblank
      rw [Option.or_eq_none_iff] at h
      intro t' ht'
      rcases List.mem_cons.mp ht' with rfl | ht'
      · obtain ⟨htype, hkeys⟩ := hshown t' List.mem_cons_self
        exact ⟨not_isBlank (Bool.eq_false_iff.mpr hblank) htype, visible_of_validateOptions h.1 hkeys⟩
      · exact ih h.2 (fun u hu => hshown u (List.mem_cons_of_mem t hu)) t' ht'

theorem readable_of_validate (h : spec.validate = none) (hshown : Shown spec) : Readable spec := by
  unfold Spec.validate at h
  simp only [Option.or_eq_none_iff] at h
  obtain ⟨hsource, hsink, htransforms, hbatch⟩ := h
  refine ⟨readable_connector hsource hshown.source, readable_connector hsink hshown.sink,
    readable_transforms htransforms hshown.transforms, ?_⟩
  split at hbatch
  · cases hbatch
  · exact Int32.not_le.mp ‹_›

structure Reads (lib : Libraries) (candidate : Job Spec) : Prop where
  trees : lib.readTrees (lib.marshalIndent (documentTree candidate) ++ "\n") = some [documentTree candidate]
  text : isBlank (lib.marshalIndent (documentTree candidate) ++ "\n") = false

theorem jobDocument_ok (lib : Libraries) (h : candidate.spec.validate = none) :
    ∃ fingerprint, jobDocument lib candidate = .ok (lib.marshalIndent (documentTree candidate) ++ "\n", fingerprint) := by
  unfold jobDocument
  rw [h]
  exact ⟨_, rfl⟩

theorem parse_document {lib : Libraries} (hreads : Reads lib candidate) (hmaps : Mapped candidate.spec) :
    parse lib (lib.marshalIndent (documentTree candidate) ++ "\n") = parseRoot (documentTree candidate) := by
  unfold parse
  rw [hreads.text, hreads.trees]
  simp only [Bool.false_eq_true, if_false, List.findSome?_cons, List.findSome?_nil, duplicateField_document hmaps]

section

variable {fields : List (String × Json)} {node : Json}

theorem parseOptionFields_visible (h : parseOptionFields path fields = .ok options) : Visible options := by
  induction fields generalizing options with
  | nil =>
    cases h
    exact fun _ hmem => absurd hmem List.not_mem_nil
  | cons field fields ih =>
    unfold parseOptionFields at h
    split_ifs at h with hblank
    · cases h
    · split at h
      · cases hrest : parseOptionFields path fields with
        | error =>
          rw [hrest] at h
          cases h
        | ok rest =>
          rw [hrest] at h
          cases h
          intro option hmem
          rcases List.mem_cons.mp hmem with rfl | hmem
          · exact Bool.eq_false_iff.mpr hblank
          · exact ih hrest option hmem
      · cases h

theorem parseOptions_visible {node : Option Json} (h : parseOptions node path = .ok options) : Visible options := by
  unfold parseOptions at h
  split at h
  · cases h
    exact fun _ hmem => absurd hmem List.not_mem_nil
  · obtain ⟨fields, -, h⟩ := bind_eq_ok.mp h
    exact parseOptionFields_visible h

theorem parseConnector_visible {connector : JobCompiler.ConnectorSpec} (h : parseConnector fields path = .ok connector) :
    Visible connector.options := by
  obtain ⟨_, -, h⟩ := bind_eq_ok.mp h
  obtain ⟨name, -, h⟩ := bind_eq_ok.mp h
  split_ifs at h
  · obtain ⟨options, hoptions, h⟩ := bind_eq_ok.mp h
    cases h
    exact parseOptions_visible hoptions
  · cases h

theorem parseTransform_visible {t : TransformSpec} (h : parseTransform node path = .ok t) :
    isBlank t.type = false ∧ Visible t.options := by
  obtain ⟨fields, -, h⟩ := bind_eq_ok.mp h
  obtain ⟨_, -, h⟩ := bind_eq_ok.mp h
  obtain ⟨type, -, h⟩ := bind_eq_ok.mp h
  split_ifs at h with hblank
  · cases h
  · obtain ⟨options, hoptions, h⟩ := bind_eq_ok.mp h
    cases h
    exact ⟨Bool.eq_false_iff.mpr hblank, parseOptions_visible hoptions⟩

theorem parseTransformItems_visible {items : List Json} {index : ℕ} (h : parseTransformItems path index items = .ok ts) :
    ∀ t ∈ ts, isBlank t.type = false ∧ Visible t.options := by
  induction items generalizing index ts with
  | nil =>
    cases h
    exact fun _ hmem => absurd hmem List.not_mem_nil
  | cons item items ih =>
    obtain ⟨first, hfirst, h⟩ := bind_eq_ok.mp h
    obtain ⟨rest, hrest, h⟩ := bind_eq_ok.mp h
    cases h
    intro t ht
    rcases List.mem_cons.mp ht with rfl | ht
    · exact parseTransform_visible hfirst
    · exact ih hrest t ht

theorem parseTransforms_visible {node : Option Json} (h : parseTransforms node path = .ok ts) :
    ∀ t ∈ ts, isBlank t.type = false ∧ Visible t.options := by
  unfold parseTransforms at h
  split at h
  · cases h
    exact fun _ hmem => absurd hmem List.not_mem_nil
  · exact parseTransformItems_visible h
  · cases h

theorem parseRoot_visible {found : JobSpec} (h : parseRoot node = .ok found) : Visible found.spec.source.options ∧
    Visible found.spec.sink.options ∧ ∀ t ∈ found.spec.transforms, isBlank t.type = false ∧ Visible t.options := by
  obtain ⟨fields, -, h⟩ := bind_eq_ok.mp h
  obtain ⟨_, -, h⟩ := bind_eq_ok.mp h
  obtain ⟨version, -, h⟩ := bind_eq_ok.mp h
  split_ifs at h
  · cases h
  obtain ⟨found, -, h⟩ := bind_eq_ok.mp h
  split_ifs at h
  · cases h
  obtain ⟨metadata, -, h⟩ := bind_eq_ok.mp h
  obtain ⟨name, -, h⟩ := bind_eq_ok.mp h
  obtain ⟨specFields, -, h⟩ := bind_eq_ok.mp h
  obtain ⟨spec, hspec, h⟩ := bind_eq_ok.mp h
  cases h
  simp only [parseConfiguration, bind_eq_ok] at hspec
  obtain ⟨_, -, _, -, _, hsource, _, htransforms, _, -, _, hsink, _, -, _, -, _, -, hspec⟩ := hspec
  cases hspec
  exact ⟨parseConnector_visible hsource, parseConnector_visible hsink, parseTransforms_visible htransforms⟩

end

theorem hidden_of_visible {s : String} (h : isBlank s = false) : hidden s = false := by
  rw [hidden, h, Bool.false_and]

theorem document_handed_over (lib : Libraries) (candidate : Job Spec) (hreads : Reads lib candidate)
    (huid : ExecutionResources.canonicalUUID candidate.uid = true) (hmaps : Mapped candidate.spec)
    (hspec : candidate.spec.validate = none) :
    ∃ text fingerprint, jobDocument lib candidate = .ok (text, fingerprint) ∧
      (parse lib text = .ok (expected candidate) ↔ Shown candidate.spec) := by
  obtain ⟨fingerprint, hdocument⟩ := jobDocument_ok lib hspec
  refine ⟨_, fingerprint, hdocument, ?_⟩
  rw [parse_document hreads hmaps]
  constructor
  · intro hparse
    obtain ⟨hsource, hsink, htransforms⟩ := parseRoot_visible hparse
    exact ⟨fun option hmem => hidden_of_visible (hsource option hmem),
      fun option hmem => hidden_of_visible (hsink option hmem), fun t ht => ⟨hidden_of_visible (htransforms t ht).1,
        fun option hmem => hidden_of_visible ((htransforms t ht).2 option hmem)⟩⟩
  · exact fun hshown => parseRoot_tree huid (readable_of_validate hspec hshown)

def sampleSpec (type : String) : Spec where
  source := ⟨lit "csv", lit "files", [("path", "/in")]⟩
  sink := ⟨lit "jdbc", [], [("table", "t")]⟩
  transforms := [⟨type, [("column", "a")]⟩]
  guarantee := .atLeastOnce
  maxBatchRecords := 1024

def sampleJob (type : String) : Job Spec :=
  new ⟨lit "n", lit "j"⟩ (lit "01234567-89ab-cdef-0123-456789abcdef") (sampleSpec type) 1

theorem sampleJob_mapped (type : String) : Mapped (sampleJob type).spec := by
  refine ⟨List.nodup_singleton _, List.nodup_singleton _, fun t ht => ?_⟩
  cases List.mem_singleton.mp ht
  exact List.nodup_singleton _

theorem document_handed_over_filter : ∃ lib text fingerprint, jobDocument lib (sampleJob "filter") = .ok (text, fingerprint) ∧
    parse lib text = .ok (expected (sampleJob "filter")) := by
  refine ⟨⟨fun _ => "0", fun _ => some [documentTree (sampleJob "filter")], id⟩, ?_⟩
  obtain ⟨text, fingerprint, hdocument, hparse⟩ := document_handed_over
    ⟨fun _ => "0", fun _ => some [documentTree (sampleJob "filter")], id⟩ (sampleJob "filter") ⟨rfl, by decide⟩ (by decide)
    (sampleJob_mapped _) (by decide)
  refine ⟨text, fingerprint, hdocument, hparse.mpr ⟨by decide, by decide, fun t ht => ?_⟩⟩
  cases List.mem_singleton.mp ht
  exact ⟨by decide, by decide⟩

/-- A transform type that is text to the control plane and blank to the coordinator. -/
theorem hidden_type_refused : (sampleJob "\x1c").spec.validate = none ∧
    ExecutionResources.canonicalUUID (sampleJob "\x1c").uid = true ∧ Mapped (sampleJob "\x1c").spec ∧
    ∀ lib, Reads lib (sampleJob "\x1c") → ∃ text fingerprint,
      jobDocument lib (sampleJob "\x1c") = .ok (text, fingerprint) ∧
      parse lib text = .error ⟨"$.spec.transforms[0].type", "must not be blank"⟩ := by
  have hvalid : (sampleJob "\x1c").spec.validate = none := by decide
  refine ⟨hvalid, by decide, sampleJob_mapped _, fun lib hreads => ?_⟩
  obtain ⟨fingerprint, hdocument⟩ := jobDocument_ok lib hvalid
  refine ⟨_, fingerprint, hdocument, ?_⟩
  rw [parse_document hreads (sampleJob_mapped _)]
  rfl

end AstraSync.JobDocuments
