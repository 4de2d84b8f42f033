import AstraSync.Library.Results
import AstraSync.JobValidation

namespace AstraSync.CatalogInventories

open ByteStrings Results
open JobLifecycle (Time zeroTime blank)

structure ConnectorOptionDefinition where
  key : String
  roles : List Int32
  (owner valueType : Int32)
  required : Bool
  defaultValue : Option String
  enumValues : List String
  (minimum maximum : Option Int64)
  (minLength maxLength : Option Int32)
  patternKey : Option String
  sensitivity : Int32
  advanced : Bool
  (labelKey helpKey : String)
  unknown : Bytes
  deriving DecidableEq

structure ConnectorOptionPrefix where
  namePrefix : String
  roles : List Int32
  (owner sensitivity maxEntries maxValueLength : Int32)
  keyPattern : String
  unknown : Bytes
  deriving DecidableEq

structure ConnectorRoleConnectionRequirement where
  (role requirement : Int32)
  unknown : Bytes
  deriving DecidableEq

structure ConnectorDescriptor where
  descriptorSchemaVersion : Int32
  (name artifactVersion displayName descriptionKey descriptorRevision connectionSchemaRevision : String)
  (roles capabilities executionModes deliveryConstraints : List Int32)
  options : List ConnectorOptionDefinition
  optionPrefixes : List ConnectorOptionPrefix
  connectionRequirements : List ConnectorRoleConnectionRequirement
  acceptedConnectionSchemaRevisions : List String
  unknown : Bytes
  deriving DecidableEq

structure ConnectorInventory where
  inventorySchemaVersion : Int32
  (inventoryRevision compilerRevision jobSpecSchemaRevision compilerBuild executionProfile : String)
  descriptors : List ConnectorDescriptor
  unknown : Bytes
  deriving DecidableEq

structure ConnectorConnectionSchemaIdentity where
  connectorName : String
  options : List ConnectorOptionDefinition
  optionPrefixes : List ConnectorOptionPrefix
  connectionRequirements : List ConnectorRoleConnectionRequirement

structure ConnectorInventoryEntry where
  (name artifactVersion descriptorRevision : String)

structure ConnectorCompilerIdentity where
  (inventoryRevision jobSpecSchemaRevision compilerBuild executionProfile : String)

structure Encoding where
  unmarshal : Bytes → Option ConnectorInventory
  marshalInventory : ConnectorInventory → Bytes
  marshalDescriptor : ConnectorDescriptor → Bytes
  marshalConnectionSchema : ConnectorConnectionSchemaIdentity → Bytes
  marshalInventoryIdentity : List ConnectorInventoryEntry → Bytes
  marshalCompilerIdentity : ConnectorCompilerIdentity → Bytes
  /-- In lower-case hexadecimal. -/
  sha256 : Bytes → String

def Encoding.digest (enc : Encoding) (payload : Bytes) : String := "sha256:" ++ enc.sha256 payload

def roleSource : Int32 := 1
def roleSink : Int32 := 2
def ownerConnection : Int32 := 2
def typeString : Int32 := 1
def typeInteger : Int32 := 2
def typeBoolean : Int32 := 3
def typeDuration : Int32 := 4
def typeEnum : Int32 := 5
def sensitivityPublic : Int32 := 1
def sensitivityRestricted : Int32 := 2
def sensitivitySecret : Int32 := 3
def unspecified : Int32 := 0

def lowerAlphanumeric (c : Char) : Bool := c.isLower || c.isDigit

def extended (c : Char) : Bool := c = '.' || c = '_' || c = '-'

def hexDigit (c : Char) : Bool := c.isDigit || ('a' ≤ c && c ≤ 'f')

def revisionPattern (s : String) : Bool :=
  match s.toList with
  | 's' :: 'h' :: 'a' :: '2' :: '5' :: '6' :: ':' :: digits => digits.length = 64 && digits.all hexDigit
  | _ => false

def namePattern (s : String) : Bool :=
  s.toList.head?.any lowerAlphanumeric && s.toList.getLast?.any lowerAlphanumeric && s.toList.length ≤ 128 &&
    s.toList.all fun c => lowerAlphanumeric c || extended c

def optionPattern (s : String) : Bool :=
  s.toList.head?.any Char.isAlpha && s.toList.length ≤ 128 && s.toList.all fun c => c.isAlphanum || extended c

structure DescriptorSnapshot where
  (revision name artifactVersion : String)
  payload : Bytes
  deriving DecidableEq

structure Snapshot where
  (inventoryRevision compilerRevision executionProfile : String)
  payload : Bytes
  descriptors : List DescriptorSnapshot
  activatedAt : Time
  deriving DecidableEq

def maximumPayload : ℕ := 4 * 1024 * 1024

def DescriptorSnapshot.bounded (d : DescriptorSnapshot) : Bool :=
  revisionPattern d.revision && !blank d.name && d.name.utf8ByteSize ≤ 128 &&
    !blank d.artifactVersion && d.artifactVersion.utf8ByteSize ≤ 128 &&
    0 < d.payload.length && d.payload.length ≤ 512 * 1024

def validateDescriptors (previousName : String) (seenRevisions : List String) :
    List DescriptorSnapshot → Except String Unit
  | [] => .ok ()
  | d :: rest => do
    check d.bounded "catalog contains an invalid descriptor snapshot"
    check (previousName < d.name) "catalog descriptors must use unique canonical name ordering"
    check (!seenRevisions.contains d.revision) "catalog contains duplicate descriptor revisions"
    validateDescriptors d.name (seenRevisions ++ [d.revision]) rest

def Snapshot.validate (s : Snapshot) : Except String Unit := do
  check (revisionPattern s.inventoryRevision && revisionPattern s.compilerRevision)
    "catalog revisions must be lowercase SHA-256 identifiers"
  check (!blank s.executionProfile && s.executionProfile.utf8ByteSize ≤ 128)
    "execution profile must contain between 1 and 128 characters"
  check (0 < s.payload.length && s.payload.length ≤ maximumPayload)
    "catalog payload must contain between 1 byte and 4 MiB"
  check (0 < s.descriptors.length && s.descriptors.length ≤ 256) "catalog must contain between 1 and 256 descriptors"
  validateDescriptors "" [] s.descriptors
  check (s.activatedAt ≠ zeroTime) "catalog activation timestamp must be set"

section

def validateOrderedEnumSet (previous : Int32) : List Int32 → Except String Unit
  | [] => .ok ()
  | value :: rest => do
    check (value ≠ unspecified && previous < value) "values must be specified, unique, and in enum order"
    validateOrderedEnumSet value rest

def orderedEnumSet (values : List Int32) : Except String Unit := validateOrderedEnumSet (-1) values

def expectedModes (capabilities : List Int32) : List Int32 :=
  (if capabilities.contains 1 || capabilities.contains 2 then [1] else []) ++
    (if capabilities.contains 11 || (capabilities.contains 13 && capabilities.contains 14) then [2] else [])

def expectedDelivery (capabilities : List Int32) : List Int32 :=
  [1] ++ (if capabilities.contains 5 then [2] else []) ++ (if capabilities.contains 7 then [3] else []) ++
    (if capabilities.contains 16 then [4] else []) ++ (if capabilities.contains 15 then [5] else [])

def validateDerivedFields (d : ConnectorDescriptor) : Except String Unit := do
  check (d.executionModes = expectedModes d.capabilities) "execution modes do not match capabilities"
  check (d.deliveryConstraints = expectedDelivery d.capabilities) "delivery constraints do not match capabilities"

def hasBlankOrDuplicate (values : List String) : Bool := values.any blank || !decide values.Nodup

def inverted {α : Type} [LT α] [DecidableLT α] (minimum maximum : Option α) : Bool :=
  match minimum, maximum with
  | some lower, some upper => upper < lower
  | _, _ => false

def optionText (key text : String) : String := "option \"" ++ key ++ "\" " ++ text

def validateOption (roles : List Int32) (previous : String) (o : ConnectorOptionDefinition) : Except String Unit := do
  check (o.unknown.isEmpty && optionPattern o.key && previous < o.key) "options must use unique canonical key ordering"
  check ((orderedEnumSet o.roles).isOk && !o.roles.isEmpty && o.roles.all roles.contains)
    (optionText o.key "roles are invalid")
  check (o.owner ≠ unspecified && o.valueType ≠ unspecified && o.sensitivity ≠ unspecified)
    (optionText o.key "has unspecified policy")
  check (o.sensitivity = sensitivityPublic || (o.owner = ownerConnection && o.defaultValue.isNone))
    (optionText o.key "has unsafe sensitive ownership or default")
  if o.valueType = typeEnum then
    check (!o.enumValues.isEmpty && !hasBlankOrDuplicate o.enumValues) (optionText o.key "has invalid enum values")
  else
    check o.enumValues.isEmpty (optionText o.key "has enum values for a non-enum type")
  check (!inverted o.minimum o.maximum && !inverted o.minLength o.maxLength) (optionText o.key "has inverted bounds")

def validateExactOptions (roles : List Int32) (previous : String) : List ConnectorOptionDefinition → Except String Unit
  | [] => .ok ()
  | o :: rest => do
    validateOption roles previous o
    validateExactOptions roles o.key rest

def startsWith (key namePrefix : String) : Bool := namePrefix.toList.isPrefixOf key.toList

def prefixText (namePrefix text : String) : String := "option prefix \"" ++ namePrefix ++ "\" " ++ text

def validatePrefix (options : List ConnectorOptionDefinition) (previous : String) (p : ConnectorOptionPrefix) :
    Except String Unit := do
  check (p.unknown.isEmpty && p.namePrefix.toList.getLast? = some '.' && previous < p.namePrefix &&
      0 < p.maxEntries && p.maxEntries ≤ 256 && 0 < p.maxValueLength && p.maxValueLength ≤ 65536)
    "option prefixes are invalid or not canonically ordered"
  check (p.sensitivity = sensitivityPublic || p.owner = ownerConnection)
    (prefixText p.namePrefix "has unsafe sensitive ownership")
  check (!options.any fun o => startsWith o.key p.namePrefix) (prefixText p.namePrefix "overlaps an exact key")

def validatePrefixes (options : List ConnectorOptionDefinition) (previous : String) :
    List ConnectorOptionPrefix → Except String Unit
  | [] => .ok ()
  | p :: rest => do
    validatePrefix options previous p
    validatePrefixes options p.namePrefix rest

def validateOptions (d : ConnectorDescriptor) : Except String Unit := do
  validateExactOptions d.roles "" d.options
  validatePrefixes d.options "" d.optionPrefixes

def validateRequirements (d : ConnectorDescriptor) : Except String Unit := do
  check (d.connectionRequirements.map (·.role) = [roleSource, roleSink])
    "Connection requirements must contain SOURCE and SINK in enum order"
  check (d.connectionRequirements.all (·.requirement ≠ unspecified)) "Connection requirement is unspecified"

def stringsAreSorted : List String → Bool
  | a :: b :: rest => !decide (b < a) && stringsAreSorted (b :: rest)
  | _ => true

def connectionSchema (d : ConnectorDescriptor) : ConnectorConnectionSchemaIdentity where
  connectorName := d.name
  options := d.options.filter (·.owner = ownerConnection)
  optionPrefixes := d.optionPrefixes.filter (·.owner = ownerConnection)
  connectionRequirements := d.connectionRequirements

def canonicalDescriptor (d : ConnectorDescriptor) : ConnectorDescriptor := { d with descriptorRevision := "" }

variable (enc : Encoding)

def descriptorDigest (d : ConnectorDescriptor) : String := enc.digest (enc.marshalDescriptor (canonicalDescriptor d))

def validateDescriptor (d : ConnectorDescriptor) : Except String Unit := do
  check d.unknown.isEmpty "descriptor is nil or contains unknown fields"
  check (d.descriptorSchemaVersion = 1 && namePattern d.name && !blank d.artifactVersion && !blank d.displayName &&
    !blank d.descriptionKey) "descriptor identity is invalid"
  check (revisionPattern d.descriptorRevision && revisionPattern d.connectionSchemaRevision)
    "descriptor revisions are invalid"
  (orderedEnumSet d.roles).mapError ("roles: " ++ ·)
  check (!d.roles.isEmpty) "roles must not be empty"
  (orderedEnumSet d.capabilities).mapError ("capabilities: " ++ ·)
  validateDerivedFields d
  validateOptions d
  validateRequirements d
  check (stringsAreSorted d.acceptedConnectionSchemaRevisions &&
      d.acceptedConnectionSchemaRevisions.contains d.connectionSchemaRevision)
    "accepted Connection schema revisions are not canonical"
  check (d.acceptedConnectionSchemaRevisions.all revisionPattern) "accepted Connection schema revision is invalid"
  check (enc.digest (enc.marshalConnectionSchema (connectionSchema d)) = d.connectionSchemaRevision)
    "Connection schema revision does not match canonical content"
  check (descriptorDigest enc d = d.descriptorRevision) "descriptor revision does not match canonical content"

def descriptorSnapshot (d : ConnectorDescriptor) : DescriptorSnapshot :=
  ⟨d.descriptorRevision, d.name, d.artifactVersion, enc.marshalDescriptor d⟩

def validateInventoryDescriptors (previousName : String) : List ConnectorDescriptor → Except String Unit
  | [] => .ok ()
  | d :: rest => do
    (validateDescriptor enc d).mapError ("descriptor \"" ++ d.name ++ "\": " ++ ·)
    check (previousName < d.name) "descriptors must be ordered by unique canonical name"
    validateInventoryDescriptors d.name rest

def inventoryIdentity (i : ConnectorInventory) : List ConnectorInventoryEntry :=
  i.descriptors.map fun d => ⟨d.name, d.artifactVersion, d.descriptorRevision⟩

def compilerIdentity (i : ConnectorInventory) : ConnectorCompilerIdentity :=
  ⟨i.inventoryRevision, i.jobSpecSchemaRevision, i.compilerBuild, i.executionProfile⟩

def inventorySnapshot (i : ConnectorInventory) (payload : Bytes) (activatedAt : Time) : Snapshot :=
  ⟨i.inventoryRevision, i.compilerRevision, i.executionProfile, payload, i.descriptors.map (descriptorSnapshot enc),
    activatedAt⟩

def decode (payload : Bytes) : Except String ConnectorInventory :=
  match enc.unmarshal payload with
  | some i => .ok i
  | none => .error "decode inventory"

def validate (payload : Bytes) (activatedAt : Time) : Except String Snapshot := do
  check (0 < payload.length && payload.length ≤ maximumPayload)
    "inventory payload is outside the supported size range"
  let i ← decode enc payload
  check i.unknown.isEmpty "inventory contains unknown fields"
  check (enc.marshalInventory i = payload) "inventory is not in canonical deterministic protobuf form"
  check (i.inventorySchemaVersion = 1) "unsupported inventory schema version"
  check (!blank i.executionProfile && !blank i.jobSpecSchemaRevision && !blank i.compilerBuild)
    "inventory compiler identity is incomplete"
  check (0 < i.descriptors.length && i.descriptors.length ≤ 256)
    "inventory descriptor count is outside the supported range"
  validateInventoryDescriptors enc "" i.descriptors
  check (enc.digest (enc.marshalInventoryIdentity (inventoryIdentity i)) = i.inventoryRevision)
    "inventory revision does not match canonical content"
  check (enc.digest (enc.marshalCompilerIdentity (compilerIdentity i)) = i.compilerRevision)
    "compiler revision does not match canonical identity"
  let snapshot := inventorySnapshot enc i payload activatedAt
  snapshot.validate
  return snapshot

end

variable {enc : Encoding} {d : ConnectorDescriptor} {payload : Bytes} {activatedAt : Time} {s : Snapshot}

theorem validateDescriptor_digest (h : validateDescriptor enc d = .ok ()) :
    descriptorDigest enc d = d.descriptorRevision := by
  unfold validateDescriptor at h
  simp only [bind_eq_ok, check_ok] at h
  obtain ⟨-, -, -, -, -, -, -, -, -, -, -, -, -, -, -, -, -, -, -, -, -, -, -, -, h⟩ := h
  exact of_decide_eq_true h

theorem validateDescriptor_name (h : validateDescriptor enc d = .ok ()) : namePattern d.name = true := by
  unfold validateDescriptor at h
  replace h := bind_rest h
  obtain ⟨⟨⟩, hidentity, -⟩ := bind_eq_ok.mp h
  simp only [check_ok, Bool.and_eq_true] at hidentity
  exact hidentity.1.1.1.2

theorem validateInventoryDescriptors_ok {previous : String} {ds : List ConnectorDescriptor}
    (h : validateInventoryDescriptors enc previous ds = .ok ()) : ∀ d ∈ ds, validateDescriptor enc d = .ok () := by
  induction ds generalizing previous with
  | nil => simp
  | cons d ds ih =>
    obtain ⟨⟨⟩, hd, h⟩ := bind_eq_ok.mp h
    replace h := bind_rest h
    intro e he
    rcases List.mem_cons.mp he with rfl | he
    · exact mapError_ok hd
    · exact ih h e he

theorem validate_ok (h : validate enc payload activatedAt = .ok s) :
    ∃ i, enc.unmarshal payload = some i ∧ s = inventorySnapshot enc i payload activatedAt ∧
      (∀ d ∈ i.descriptors, validateDescriptor enc d = .ok ()) ∧ s.validate = .ok () := by
  unfold validate at h
  replace h := bind_rest h
  obtain ⟨i, hdecode, h⟩ := bind_eq_ok.mp h
  replace h := bind_rest h
  replace h := bind_rest h
  replace h := bind_rest h
  replace h := bind_rest h
  replace h := bind_rest h
  obtain ⟨⟨⟩, hdescriptors, h⟩ := bind_eq_ok.mp h
  replace h := bind_rest h
  replace h := bind_rest h
  obtain ⟨⟨⟩, hsnapshot, h⟩ := bind_eq_ok.mp h
  cases h
  refine ⟨i, ?_, rfl, validateInventoryDescriptors_ok hdescriptors, hsnapshot⟩
  unfold decode at hdecode
  split at hdecode <;> cases hdecode
  assumption

theorem validateDescriptors_nodup {previous : String} {seen : List String} {ds : List DescriptorSnapshot}
    (h : validateDescriptors previous seen ds = .ok ()) :
    (ds.map (·.revision)).Nodup ∧ ∀ d ∈ ds, d.revision ∉ seen := by
  induction ds generalizing previous seen with
  | nil => simp
  | cons d ds ih =>
    replace h := bind_rest h
    replace h := bind_rest h
    obtain ⟨⟨⟩, hseen, h⟩ := bind_eq_ok.mp h
    obtain ⟨hnodup, hrest⟩ := ih h
    have hnew : d.revision ∉ seen := by simpa [check_ok] using hseen
    constructor
    · grind
    · grind

theorem Snapshot.validate_nodup (h : s.validate = .ok ()) : (s.descriptors.map (·.revision)).Nodup := by
  unfold Snapshot.validate at h
  replace h := bind_rest h
  replace h := bind_rest h
  replace h := bind_rest h
  replace h := bind_rest h
  obtain ⟨⟨⟩, hdescriptors, h⟩ := bind_eq_ok.mp h
  exact (validateDescriptors_nodup hdescriptors).1

end AstraSync.CatalogInventories
