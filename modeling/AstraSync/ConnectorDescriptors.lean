import AstraSync.CatalogInventories
import AstraSync.JobCompiler
import AstraSync.Library.Registries

namespace AstraSync.ConnectorDescriptors

open Results Registries
open JobCompiler (Capability ConnectorRole isBlank)
open CatalogInventories (inverted lowerAlphanumeric extended namePattern optionPattern startsWith)

structure Jdk where
  compiles : String → Bool
  /-- Whether a text as a whole is matched by a pattern. -/
  textMatches : String → String → Bool
  parseLong : String → Option Int64
  /-- The milliseconds of a duration in ISO-8601 form. -/
  parseDuration : String → Option Int64

def utf16Length (s : String) : ℕ := (s.toList.map fun c => if c.toNat < 0x10000 then 1 else 2).sum

inductive ConnectorOptionOwner
  | job
  | connection
  deriving DecidableEq

inductive ConnectorOptionType
  | string
  | integer
  | boolean
  | duration
  | enum
  deriving DecidableEq

inductive ConnectorOptionSensitivity
  | unrestricted
  | restricted
  | secret
  deriving DecidableEq

inductive ConnectionRequirement
  | none
  | optional
  | required
  deriving DecidableEq

section

structure OptionFields where
  key : String
  roles : List ConnectorRole
  owner : ConnectorOptionOwner
  valueType : ConnectorOptionType
  required : Bool
  defaultValue : Option String
  enumValues : List String
  (minimum maximum : Option Int64)
  (minLength maxLength : Option Int32)
  patternKey : Option String
  sensitivity : ConnectorOptionSensitivity
  advanced : Bool
  (labelKey helpKey : String)
  deriving DecidableEq

def presentationKey (s : String) : Bool :=
  s.toList.head?.any lowerAlphanumeric && s.toList.length ≤ 256 && s.toList.all fun c => lowerAlphanumeric c || extended c

def within {α : Type} [LE α] [DecidableLE α] (minimum maximum : Option α) (value : α) : Bool :=
  minimum.all (· ≤ value) && maximum.all (value ≤ ·)

def lengthWithin (o : OptionFields) (length : ℕ) : Bool :=
  within (o.minLength.map Int32.toInt) (o.maxLength.map Int32.toInt) length

variable (jdk : Jdk)

def OptionFields.validateDefault (o : OptionFields) (value : String) : Except String Unit := do
  check (o.valueType ≠ .boolean || value = "true" || value = "false") "BOOLEAN defaultValue must be true or false"
  check (o.valueType ≠ .enum || o.enumValues.contains value) "ENUM defaultValue must be one of enumValues"
  if o.valueType = .integer ∨ o.valueType = .duration then
    match jdk.parseLong value with
    | none => .error "defaultValue must be an integer"
    | some parsed => check (within o.minimum o.maximum parsed) "defaultValue must be within declared bounds"
  check (lengthWithin o (utf16Length value)) "defaultValue must be within declared length bounds"

def OptionFields.checkBounds (o : OptionFields) : Except String Unit := do
  check (!inverted o.minimum o.maximum) "numeric minimum must not exceed maximum"
  check (!inverted o.minLength o.maxLength) "length minimum must not exceed maximum"
  check (o.minLength.all (0 ≤ ·) && o.maxLength.all (0 ≤ ·)) "length bounds must not be negative"
  check ((o.minimum.isNone && o.maximum.isNone) || o.valueType = .integer || o.valueType = .duration)
    "numeric bounds require INTEGER or DURATION value type"
  check ((o.minLength.isNone && o.maxLength.isNone) || o.valueType = .string || o.valueType = .enum)
    "length bounds require STRING or ENUM value type"

def OptionFields.checkEnumValues (o : OptionFields) : Except String Unit := do
  check (o.valueType ≠ .enum || !o.enumValues.isEmpty) "ENUM option must declare enumValues"
  check (o.valueType = .enum || o.enumValues.isEmpty) "enumValues require the ENUM value type"
  check (!o.enumValues.any isBlank) "enumValues must not contain blank values"
  check (decide o.enumValues.Nodup) "enumValues must be unique"

def OptionFields.checkSensitivity (o : OptionFields) : Except String Unit := do
  check (o.sensitivity = .unrestricted || o.owner = .connection) "sensitive option must be owned by CONNECTION"
  check (o.sensitivity = .unrestricted || o.defaultValue.isNone) "sensitive option must not declare a default value"

def OptionFields.checkPresentation (o : OptionFields) : Except String Unit := do
  check (o.patternKey.all presentationKey) "patternKey must be a canonical presentation key"
  check (presentationKey o.labelKey) "labelKey must be a canonical presentation key"
  check (presentationKey o.helpKey) "helpKey must be a canonical presentation key"

def OptionFields.construct (o : OptionFields) : Except String Unit := do
  check (optionPattern o.key) ("key must be a canonical connector option key: " ++ o.key)
  check (!o.roles.isEmpty) "roles must not be empty"
  check (o.enumValues.length ≤ 128) "enumValues must contain at most 128 values"
  o.checkBounds
  check (o.patternKey.isNone || o.valueType = .string) "patternKey requires the STRING value type"
  o.checkEnumValues
  o.checkSensitivity
  if let some value := o.defaultValue then o.validateDefault jdk value
  o.checkPresentation

structure ConnectorOptionDescriptor extends OptionFields where
  built : toOptionFields.construct jdk = .ok ()

structure PrefixFields where
  namePrefix : String
  roles : List ConnectorRole
  owner : ConnectorOptionOwner
  sensitivity : ConnectorOptionSensitivity
  (maxEntries maxValueLength : Int32)
  keyPattern : String
  deriving DecidableEq

def prefixPattern (s : String) : Bool :=
  let name := s.toList.dropLast
  s.toList.getLast? = some '.' && name.head?.any Char.isAlpha && name.length ≤ 64 &&
    name.all fun c => c.isAlphanum || c = '_' || c = '-'

def PrefixFields.construct (p : PrefixFields) : Except String Unit := do
  check (prefixPattern p.namePrefix) "prefix must be a canonical option namespace"
  check (!p.roles.isEmpty) "roles must not be empty"
  check (p.sensitivity = .unrestricted || p.owner = .connection) "sensitive option prefix must be owned by CONNECTION"
  check (0 < p.maxEntries && p.maxEntries ≤ 256 && 0 < p.maxValueLength && p.maxValueLength ≤ 65536)
    "option prefix bounds are invalid"
  check (jdk.compiles p.keyPattern) "keyPattern does not compile"

structure ConnectorOptionPrefixDescriptor extends PrefixFields where
  built : toPrefixFields.construct jdk = .ok ()

structure DescriptorFields extends JobCompiler.ConnectorDescriptor where
  (displayName descriptionKey : String)
  /-- In the order of their keys. -/
  options : List (ConnectorOptionDescriptor jdk)
  optionPrefixes : List (ConnectorOptionPrefixDescriptor jdk)
  connectionRequirement : ConnectorRole → ConnectionRequirement
  connectionSchemaRevision : String
  acceptedConnectionSchemaRevisions : List String
  descriptorRevision : String

variable {jdk}

def checkedText (value label : String) (maximumLength : ℕ) : Except String Unit :=
  check (!isBlank value && utf16Length value ≤ maximumLength)
    (label ++ " must be between 1 and " ++ toString maximumLength ++ " characters")

def roleCapabilities : List (ConnectorRole × Capability) :=
  [(.source, .batchRead), (.sink, .batchWrite), (.source, .streamRead), (.source, .replayableOffset),
    (.source, .changeDataCapture), (.sink, .upsert), (.sink, .delete), (.sink, .transactionalCommit),
    (.sink, .idempotentWrite)]

def validateCapabilities (d : DescriptorFields jdk) : Except String Unit := do
  check (roleCapabilities.all fun (role, capability) => !d.capabilities.contains capability || d.roles.contains role)
    "capability requires a role"
  check (!d.capabilities.contains .changeDataCapture ||
      (d.capabilities.contains .streamRead && d.capabilities.contains .replayableOffset))
    "CHANGE_DATA_CAPTURE capability requires STREAM_READ and REPLAYABLE_OFFSET"
  check (!d.capabilities.contains .exactlyOnceSource || d.capabilities.contains .replayableOffset)
    "EXACTLY_ONCE_SOURCE capability requires REPLAYABLE_OFFSET"

def checkedOptions (d : DescriptorFields jdk) : Except String Unit := do
  check (d.options.all fun o => o.roles.all d.roles.contains) "option roles must be supported by the connector"
  check (decide (d.options.map (·.key)).Nodup) "duplicate connector option key"

def overlapping (p q : String) : Bool := startsWith p q || startsWith q p

def pairwiseApart : List String → Bool
  | [] => true
  | p :: rest => !rest.any (overlapping p) && pairwiseApart rest

def checkedPrefixes (d : DescriptorFields jdk) : Except String Unit := do
  check (d.optionPrefixes.all fun p => p.roles.all d.roles.contains) "option prefix roles must be supported"
  check (pairwiseApart (d.optionPrefixes.map (·.namePrefix))) "overlapping connector option prefix"
  check (!d.optionPrefixes.any fun p => d.options.any fun o => startsWith o.key p.namePrefix)
    "option prefix overlaps an exact key"

def checkedRequirements (d : DescriptorFields jdk) : Except String Unit := do
  check ([ConnectorRole.source, .sink].all fun role => d.roles.contains role || d.connectionRequirement role = .none)
    "unsupported role cannot accept a Connection"
  check (d.options.all fun o => o.owner ≠ .connection || o.roles.all (d.connectionRequirement · ≠ .none))
    "Connection-owned option requires a Connection policy for role"
  check (d.options.all fun o => o.owner ≠ .connection || !o.required ||
      o.roles.all (d.connectionRequirement · = .required))
    "required Connection-owned option requires a REQUIRED Connection for role"
  check (d.optionPrefixes.all fun p => p.owner ≠ .connection || p.roles.all (d.connectionRequirement · ≠ .none))
    "Connection-owned option prefix requires a Connection policy for role"
  check (d.roles.all fun role => d.connectionRequirement role = .none ||
      d.options.any (fun o => o.owner = .connection && o.roles.contains role) ||
      d.optionPrefixes.any (fun p => p.owner = .connection && p.roles.contains role))
    "Connection policy requires at least one Connection-owned option for role"

def DescriptorFields.construct (d : DescriptorFields jdk) : Except String Unit := do
  check (namePattern d.name) ("name must contain only lowercase letters, digits, dots, underscores, and hyphens" ++
    " and must start and end with a letter or digit: " ++ d.name)
  checkedText d.version "version" 128
  checkedText d.displayName "displayName" 128
  check (presentationKey d.descriptionKey) "descriptionKey must be a canonical presentation key"
  check (!d.roles.isEmpty) "roles must not be empty"
  validateCapabilities d
  checkedOptions d
  checkedPrefixes d
  checkedRequirements d

variable (jdk)

structure ConnectorDescriptor extends DescriptorFields jdk where
  built : toDescriptorFields.construct = .ok ()
  sorted : options.Pairwise fun a b => a.key < b.key
  sortedPrefixes : optionPrefixes.Pairwise fun a b => a.namePrefix < b.namePrefix
  accepted : connectionSchemaRevision ∈ acceptedConnectionSchemaRevisions

end

section

variable (jdk : Jdk)

def jdbcPattern (further dot : Char → Bool) (value : String) : Bool :=
  match value.toList with
  | 'j' :: 'd' :: 'b' :: 'c' :: ':' :: rest =>
    let subprotocol := rest.takeWhile (· ≠ ':')
    let name := (rest.dropWhile (· ≠ ':')).drop 1
    subprotocol.head?.any Char.isAlphanum && subprotocol.all (fun c => c.isAlphanum || further c) &&
      !name.isEmpty && name.all dot
  | _ => false

def lineTerminator (c : Char) : Bool :=
  c = '\n' || c = '\r' || c = '\x85' || c = '\u2028' || c = '\u2029'

def jdbcUrl (value : String) : Bool :=
  jdbcPattern (fun c => c = '+' || c = '.' || c = '-') (fun c => !lineTerminator c) value

def sqlIdentifier (cs : List Char) : Bool :=
  cs.head?.any (fun c => c.isAlpha || c = '_') && cs.all fun c => c.isAlphanum || c = '_' || c = '$'

def sqlIdentifierList (cs : List Char) : Bool := (cs.splitOn ',').all sqlIdentifier

def topicPrefix (cs : List Char) : Bool :=
  0 < cs.length && cs.length ≤ 249 && cs.all fun c => c.isAlphanum || extended c

def validPattern (patternKey : Option String) (value : String) : Bool :=
  match patternKey with
  | none => true
  | some "" => true
  | some "jdbc.url" => jdbcUrl value
  | some "sql.column" => sqlIdentifier value.toList
  | some "sql.table" => sqlIdentifier value.toList
  | some "postgres.identifier" => sqlIdentifier value.toList
  | some "sql.column-list" => sqlIdentifierList value.toList
  | some "debezium.topic-prefix" => topicPrefix value.toList
  | some "local.path" => !value.toList.any fun c => c = '\x00' || c = '\r' || c = '\n'
  | some _ => true

def validInteger (o : OptionFields) (value : String) : Bool :=
  match jdk.parseLong value with
  | some parsed => within o.minimum o.maximum parsed
  | none => false

def plainNumber (cs : List Char) : Bool :=
  match cs with
  | '-' :: digits => !digits.isEmpty && digits.all Char.isDigit
  | digits => !digits.isEmpty && digits.all Char.isDigit

def validDuration (o : OptionFields) (value : String) : Bool :=
  match if plainNumber value.toList then jdk.parseLong value else jdk.parseDuration value with
  | some millis => within o.minimum o.maximum millis
  | none => false

def validValue (o : OptionFields) (value : String) : Bool :=
  lengthWithin o value.length &&
    match o.valueType with
    | .string => validPattern o.patternKey value
    | .integer => validInteger jdk o value
    | .boolean => value = "true" || value = "false"
    | .duration => validDuration jdk o value
    | .enum => o.enumValues.contains value

def maximumValueBytes : ℕ := 65536

def maximumOptions : ℕ := 256

def remainder (key namePrefix : String) : String := String.ofList (key.toList.drop namePrefix.toList.length)

variable {jdk}

def findOption (d : ConnectorDescriptor jdk) (key : String) : Option (ConnectorOptionDescriptor jdk) :=
  find (·.key) key d.options

def matchingPrefix (d : ConnectorDescriptor jdk) (key : String) : Option (ConnectorOptionPrefixDescriptor jdk) :=
  d.optionPrefixes.find? fun p => startsWith key p.namePrefix && jdk.textMatches p.keyPattern (remainder key p.namePrefix)

inductive Declared (jdk : Jdk)
  | exact (o : ConnectorOptionDescriptor jdk)
  | family (p : ConnectorOptionPrefixDescriptor jdk)

def Declared.owner : Declared jdk → ConnectorOptionOwner
  | .exact o => o.owner
  | .family p => p.owner

def Declared.sensitivity : Declared jdk → ConnectorOptionSensitivity
  | .exact o => o.sensitivity
  | .family p => p.sensitivity

def Declared.roles : Declared jdk → List ConnectorRole
  | .exact o => o.roles
  | .family p => p.roles

def Declared.admits : Declared jdk → String → Bool
  | .exact o, value => validValue jdk o.toOptionFields value
  | .family p, value => utf16Length value ≤ p.maxValueLength.toInt

def declared (d : ConnectorDescriptor jdk) (key : String) : Option (Declared jdk) :=
  match findOption d key with
  | some o => some (.exact o)
  | none => (matchingPrefix d key).map .family

end

variable {jdk : Jdk}

theorem ConnectorOptionDescriptor.key_pattern (o : ConnectorOptionDescriptor jdk) : optionPattern o.key = true := by
  have hbuilt := o.built
  unfold OptionFields.construct at hbuilt
  obtain ⟨⟨⟩, hkey, -⟩ := bind_eq_ok.mp hbuilt
  exact check_ok.mp hkey

section

variable (d : ConnectorDescriptor jdk)

include d

theorem ConnectorDescriptor.lists :
    checkedPrefixes d.toDescriptorFields = .ok () ∧ checkedRequirements d.toDescriptorFields = .ok () := by
  have hbuilt := d.built
  unfold DescriptorFields.construct at hbuilt
  replace hbuilt := bind_rest hbuilt
  replace hbuilt := bind_rest hbuilt
  replace hbuilt := bind_rest hbuilt
  replace hbuilt := bind_rest hbuilt
  replace hbuilt := bind_rest hbuilt
  replace hbuilt := bind_rest hbuilt
  replace hbuilt := bind_rest hbuilt
  obtain ⟨⟨⟩, hprefixes, hrequirements⟩ := bind_eq_ok.mp hbuilt
  exact ⟨hprefixes, hrequirements⟩

theorem ConnectorDescriptor.keys_nodup : (d.options.map (·.key)).Nodup := by
  refine List.pairwise_map.mpr (d.sorted.imp fun h heq => ?_)
  rw [heq] at h
  exact String.lt_irrefl _ h

end

theorem pairwiseApart_iff {names : List String} :
    pairwiseApart names = true ↔ names.Pairwise fun p q => overlapping p q = false := by
  induction names with
  | nil => simp [pairwiseApart]
  | cons p rest ih => simp [pairwiseApart, ih]

theorem ConnectorDescriptor.prefixes_apart (d : ConnectorDescriptor jdk) {p q : ConnectorOptionPrefixDescriptor jdk}
    (hp : p ∈ d.optionPrefixes) (hq : q ∈ d.optionPrefixes) (hne : p ≠ q) :
    overlapping p.namePrefix q.namePrefix = false := by
  have hprefixes := d.lists.1
  unfold checkedPrefixes at hprefixes
  replace hprefixes := bind_rest hprefixes
  obtain ⟨⟨⟩, hapart, -⟩ := bind_eq_ok.mp hprefixes
  have hpairwise := List.pairwise_map.mp (pairwiseApart_iff.mp (check_ok.mp hapart))
  have hsymm : Std.Symm fun a b : ConnectorOptionPrefixDescriptor jdk =>
      overlapping a.namePrefix b.namePrefix = false := by
    refine ⟨fun a b h => ?_⟩
    rwa [overlapping, Bool.or_comm]
  exact hpairwise.forall hp hq hne

theorem ConnectorDescriptor.find_of_mem (d : ConnectorDescriptor jdk) {o : ConnectorOptionDescriptor jdk}
    (ho : o ∈ d.options) : findOption d o.key = some o := by
  exact Registries.find_of_mem d.keys_nodup ho

end AstraSync.ConnectorDescriptors
