import AstraSync.ConnectorOptions
import Mathlib.Data.String.Basic

namespace AstraSync.ConnectionSettings

open Results Registries ConnectorDescriptors ConnectorOptions
open JobCompiler (Capability ConnectorRole)
open CatalogInventories (ConnectorOptionDefinition ConnectorOptionPrefix ConnectorRoleConnectionRequirement Encoding
  optionPattern startsWith roleSource roleSink ownerConnection typeString typeInteger typeBoolean typeDuration typeEnum
  sensitivityPublic sensitivityRestricted sensitivitySecret validateDescriptor)

def roleNumber : ConnectorRole → Int32
  | .source => roleSource
  | .sink => roleSink

def ownerNumber : ConnectorOptionOwner → Int32
  | .job => 1
  | .connection => ownerConnection

def typeNumber : ConnectorOptionType → Int32
  | .string => typeString
  | .integer => typeInteger
  | .boolean => typeBoolean
  | .duration => typeDuration
  | .enum => typeEnum

def sensitivityNumber : ConnectorOptionSensitivity → Int32
  | .unrestricted => sensitivityPublic
  | .restricted => sensitivityRestricted
  | .secret => sensitivitySecret

def requirementNumber : ConnectionRequirement → Int32
  | .none => 1
  | .optional => 2
  | .required => 3

def capabilityNumber : Capability → Int32
  | .batchRead => 1
  | .batchWrite => 2
  | .streamRead => 3
  | .parallelSnapshot => 4
  | .replayableOffset => 5
  | .schemaEvolution => 6
  | .exactlyOnceSource => 7
  | .columnProjection => 8
  | .predicatePushdown => 9
  | .splitMultiplexing => 10
  | .changeDataCapture => 11
  | .append => 12
  | .upsert => 13
  | .delete => 14
  | .transactionalCommit => 15
  | .idempotentWrite => 16
  | .bulkWrite => 17
  | .partitionWrite => 18
  | .sortedWrite => 19
  | .schemaRegistration => 20
  | .transformSupport => 21
  | .transactionRecovery => 22
  | .faultTolerance => 23

def option (o : OptionFields) : ConnectorOptionDefinition where
  key := o.key
  roles := o.roles.map roleNumber
  owner := ownerNumber o.owner
  valueType := typeNumber o.valueType
  required := o.required
  defaultValue := o.defaultValue
  enumValues := o.enumValues
  minimum := o.minimum
  maximum := o.maximum
  minLength := o.minLength
  maxLength := o.maxLength
  patternKey := o.patternKey
  sensitivity := sensitivityNumber o.sensitivity
  advanced := o.advanced
  labelKey := o.labelKey
  helpKey := o.helpKey
  unknown := []

def optionPrefix (p : PrefixFields) : ConnectorOptionPrefix where
  namePrefix := p.namePrefix
  roles := p.roles.map roleNumber
  owner := ownerNumber p.owner
  sensitivity := sensitivityNumber p.sensitivity
  maxEntries := p.maxEntries
  maxValueLength := p.maxValueLength
  keyPattern := p.keyPattern
  unknown := []

def executionModes (d : JobCompiler.ConnectorDescriptor) : List Int32 :=
  (if d.hasCapability .batchRead || d.hasCapability .batchWrite then [1] else []) ++
    (if d.hasCapability .changeDataCapture || (d.hasCapability .upsert && d.hasCapability .delete) then [2] else [])

def deliveryConstraints (d : JobCompiler.ConnectorDescriptor) : List Int32 :=
  [1] ++ (if d.hasCapability .replayableOffset then [2] else []) ++
    (if d.hasCapability .exactlyOnceSource then [3] else []) ++ (if d.hasCapability .idempotentWrite then [4] else []) ++
    (if d.hasCapability .transactionalCommit then [5] else [])

def requirements (requirement : ConnectorRole → ConnectionRequirement) : List ConnectorRoleConnectionRequirement :=
  [.source, .sink].map fun role => ⟨roleNumber role, requirementNumber (requirement role), []⟩

def descriptor {jdk : Jdk} (d : ConnectorDescriptor jdk) : CatalogInventories.ConnectorDescriptor where
  descriptorSchemaVersion := 1
  name := d.name
  artifactVersion := d.version
  displayName := d.displayName
  descriptionKey := d.descriptionKey
  descriptorRevision := d.descriptorRevision
  connectionSchemaRevision := d.connectionSchemaRevision
  roles := d.roles.map roleNumber
  capabilities := d.capabilities.map capabilityNumber
  executionModes := executionModes d.toConnectorDescriptor
  deliveryConstraints := deliveryConstraints d.toConnectorDescriptor
  options := d.options.map fun o => option o.toOptionFields
  optionPrefixes := d.optionPrefixes.map fun p => optionPrefix p.toPrefixFields
  connectionRequirements := requirements d.connectionRequirement
  acceptedConnectionSchemaRevisions := d.acceptedConnectionSchemaRevisions
  unknown := []

section

inductive Sensitivity
  | publicSetting
  | restrictedSetting
  deriving DecidableEq

structure Setting where
  (key value : String)
  sensitivity : Sensitivity
  deriving DecidableEq

def Setting.entry (s : Setting) : String × String := (s.key, s.value)

def maximumSettings : ℕ := 256

def maximumSettingValue : ℕ := 64 * 1024

def parseInt (s : String) : Option Int64 :=
  let (negative, digits) : Bool × List Char :=
    match s.toList with
    | '+' :: rest => (false, rest)
    | '-' :: rest => (true, rest)
    | rest => (false, rest)
  let magnitude : ℕ := digits.foldl (fun n c => 10 * n + (c.toNat - 48)) 0
  if digits.isEmpty || !digits.all Char.isDigit then none
  else if negative then if magnitude ≤ 2 ^ 63 then some (Int64.ofInt (-(magnitude : ℤ))) else none
  else if magnitude < 2 ^ 63 then some (Int64.ofNat magnitude) else none

def jdbcURLPattern (value : String) : Bool := jdbcPattern (fun c => c = '_' || c = '-') (· ≠ '\n') value

variable (parseDuration : String → Except String Int64)

def validateOptionValue (definition : ConnectorOptionDefinition) (value : String) : Except String Unit := do
  check (within definition.minLength definition.maxLength (Int32.ofNat value.length)) "value length is invalid"
  if definition.valueType = typeString then
    check (definition.patternKey ≠ some "jdbc.url" || jdbcURLPattern value) "JDBC URL is invalid"
  else if definition.valueType = typeInteger then
    check ((parseInt value).any (within definition.minimum definition.maximum)) "integer is outside bounds"
  else if definition.valueType = typeBoolean then
    check (value = "true" || value = "false") "boolean must be true or false"
  else if definition.valueType = typeDuration then
    let _ ← parseDuration value
    return ()
  else if definition.valueType = typeEnum then
    check (definition.enumValues.contains value) "enum value is not accepted"
  else .error "option type is not supported"

def prefixDefinition (key : String) (p : ConnectorOptionPrefix) : ConnectorOptionDefinition where
  key := key
  roles := []
  owner := p.owner
  valueType := typeString
  required := false
  defaultValue := none
  enumValues := []
  minimum := none
  maximum := none
  minLength := none
  maxLength := some p.maxValueLength
  patternKey := none
  sensitivity := p.sensitivity
  advanced := false
  labelKey := ""
  helpKey := ""
  unknown := []

variable (d : CatalogInventories.ConnectorDescriptor)

def matchingPrefixDefinition (key : String) : Option ConnectorOptionDefinition :=
  (d.optionPrefixes.find? fun p => startsWith key p.namePrefix && p.owner = ownerConnection).map (prefixDefinition key)

def definitionFor (key : String) : Option ConnectorOptionDefinition :=
  (latest (·.key) key d.options).or (matchingPrefixDefinition d key)

def acceptedDefinition (key : String) : Except String ConnectorOptionDefinition :=
  match definitionFor d key with
  | some definition =>
    if definition.owner = ownerConnection ∧ definition.sensitivity ≠ sensitivitySecret then .ok definition
    else .error ("Connection setting \"" ++ key ++ "\" is not accepted")
  | none => .error ("Connection setting \"" ++ key ++ "\" is not accepted")

def collectSettings (seen : List String) : List (Option (String × String)) → Except String (List Setting)
  | [] => return []
  | none :: _ => .error "Connection setting is invalid"
  | some (key, value) :: rest => do
    check (optionPattern key && value.utf8ByteSize ≤ maximumSettingValue) "Connection setting is invalid"
    check (!seen.contains key) "Connection settings contain duplicate keys"
    let definition ← acceptedDefinition d key
    (validateOptionValue parseDuration definition value).mapError fun _ => "Connection setting \"" ++ key ++ "\" is invalid"
    let settings ← collectSettings (seen ++ [key]) rest
    return ⟨key, value, if definition.sensitivity = sensitivityRestricted then .restrictedSetting else .publicSetting⟩ ::
      settings

def mandatory (definition : ConnectorOptionDefinition) : Bool :=
  definition.owner = ownerConnection && definition.sensitivity ≠ sensitivitySecret && definition.required &&
    definition.defaultValue.isNone

def requireSettings (seen : List String) : List ConnectorOptionDefinition → Except String Unit
  | [] => .ok ()
  | definition :: rest => do
    check (!mandatory definition || seen.contains definition.key)
      ("required Connection setting \"" ++ definition.key ++ "\" is missing")
    requireSettings seen rest

def validateConnectionSettings (requested : List (Option (String × String))) : Except String (List Setting) := do
  check (requested.length ≤ maximumSettings) "too many Connection settings"
  let settings ← collectSettings parseDuration d [] requested
  requireSettings (settings.map (·.key)) d.options
  return settings.insertionSort fun a b => !decide (b.key < a.key)

end

section

variable {parseDuration : String → Except String Int64} {d : CatalogInventories.ConnectorDescriptor}

structure AcceptedSetting (parseDuration : String → Except String Int64) (d : CatalogInventories.ConnectorDescriptor)
    (entry : String × String) : Prop where
  pattern : optionPattern entry.1 = true
  bytes : entry.2.utf8ByteSize ≤ maximumSettingValue
  definition : ∃ definition, definitionFor d entry.1 = some definition ∧ definition.owner = ownerConnection ∧
    definition.sensitivity ≠ sensitivitySecret ∧ validateOptionValue parseDuration definition entry.2 = .ok ()

theorem acceptedDefinition_ok {key : String} {definition : ConnectorOptionDefinition}
    (h : acceptedDefinition d key = .ok definition) :
    definitionFor d key = some definition ∧ definition.owner = ownerConnection ∧
      definition.sensitivity ≠ sensitivitySecret := by
  unfold acceptedDefinition at h
  split at h
  · grind
  · cases h

variable {requested : List (Option (String × String))} {seen : List String} {settings : List Setting}

theorem collectSettings_ok (h : collectSettings parseDuration d seen requested = .ok settings) :
    requested = settings.map (fun s => some s.entry) ∧ (∀ s ∈ settings, AcceptedSetting parseDuration d s.entry) ∧
      (seen.Nodup → (seen ++ settings.map (·.key)).Nodup) := by
  induction requested generalizing seen settings with
  | nil =>
    cases h
    exact ⟨rfl, fun _ hs => absurd hs List.not_mem_nil, fun hnodup => by simpa using hnodup⟩
  | cons setting rest ih =>
    cases setting with
    | none => cases h
    | some entry =>
      obtain ⟨key, value⟩ := entry
      unfold collectSettings at h
      obtain ⟨⟨⟩, hform, h⟩ := bind_eq_ok.mp h
      obtain ⟨⟨⟩, hnew, h⟩ := bind_eq_ok.mp h
      obtain ⟨definition, hdefinition, h⟩ := bind_eq_ok.mp h
      obtain ⟨⟨⟩, hvalue, h⟩ := bind_eq_ok.mp h
      obtain ⟨settings', hrest, h⟩ := bind_eq_ok.mp h
      cases h
      obtain ⟨hrequested, haccepted, hnodup⟩ := ih hrest
      rw [check_ok, Bool.and_eq_true, decide_eq_true_eq] at hform
      rw [check_ok, Bool.not_eq_true', List.contains_eq_mem, decide_eq_false_iff_not] at hnew
      obtain ⟨hfound, howner, hsecret⟩ := acceptedDefinition_ok hdefinition
      refine ⟨?_, ?_, ?_⟩
      · rw [hrequested]
        rfl
      · intro s hs
        rcases List.mem_cons.mp hs with rfl | hs
        · exact ⟨hform.1, hform.2, definition, hfound, howner, hsecret, mapError_ok hvalue⟩
        · exact haccepted s hs
      · grind

theorem requireSettings_ok {definitions : List ConnectorOptionDefinition}
    (h : requireSettings seen definitions = .ok ()) :
    ∀ definition ∈ definitions, mandatory definition = true → definition.key ∈ seen := by
  induction definitions with
  | nil => exact fun _ hmem => absurd hmem List.not_mem_nil
  | cons definition rest ih =>
    obtain ⟨⟨⟩, hfirst, hrest⟩ := bind_eq_ok.mp h
    intro other hother hmandatory
    rcases List.mem_cons.mp hother with rfl | hother
    · simpa [check_ok, hmandatory] using hfirst
    · exact ih hrest other hother hmandatory

theorem validateConnectionSettings_ok (h : validateConnectionSettings parseDuration d requested = .ok settings) :
    requested.Perm (settings.map fun s => some s.entry) ∧ (∀ s ∈ settings, AcceptedSetting parseDuration d s.entry) ∧
      (settings.map (·.key)).Nodup ∧
      ∀ definition ∈ d.options, mandatory definition = true → definition.key ∈ settings.map (·.key) := by
  unfold validateConnectionSettings at h
  replace h := bind_rest h
  obtain ⟨collected, hcollect, h⟩ := bind_eq_ok.mp h
  obtain ⟨⟨⟩, hrequire, h⟩ := bind_eq_ok.mp h
  cases h
  have hperm : (collected.insertionSort fun a b => !decide (b.key < a.key)).Perm collected :=
    List.perm_insertionSort _ _
  obtain ⟨hrequested, haccepted, hnodup⟩ := collectSettings_ok hcollect
  refine ⟨?_, ?_, ?_, ?_⟩
  · rw [hrequested]
    exact (hperm.map _).symm
  · intro s hs
    exact haccepted s (hperm.mem_iff.mp hs)
  · rw [(hperm.map _).nodup_iff]
    exact hnodup List.nodup_nil
  · intro definition hdefinition hmandatory
    exact (hperm.map _).mem_iff.mpr (requireSettings_ok hrequire definition hdefinition hmandatory)

end

section

variable {jdk : Jdk} {parseDuration : String → Except String Int64} {o : OptionFields} {value : String}

def subprotocol (value : String) : List Char := (value.toList.drop 5).takeWhile (· ≠ ':')

theorem lineTerminator_name {c : Char} (h : (c.isAlphanum || (decide (c = '_') || decide (c = '-'))) = true) :
    lineTerminator c = false := by
  by_contra hterminator
  rw [Bool.not_eq_false] at hterminator
  simp only [lineTerminator, Bool.or_eq_true, decide_eq_true_eq] at hterminator
  rcases hterminator with (((rfl | rfl) | rfl) | rfl) | rfl <;> revert h <;> decide

theorem mem_split {rest : List Char} {c : Char} (h : c ∈ rest) :
    c ∈ rest.takeWhile (· ≠ ':') ∨ c = ':' ∨ c ∈ (rest.dropWhile (· ≠ ':')).drop 1 := by
  rw [← List.takeWhile_append_dropWhile (p := (· ≠ ':')) (l := rest), List.mem_append] at h
  refine h.imp_right fun h => ?_
  have hhead := List.head?_dropWhile_not (fun c : Char => decide (c ≠ ':')) rest
  cases hdrop : rest.dropWhile (· ≠ ':') with
  | nil =>
    rw [hdrop] at h
    cases h
  | cons first name =>
    rw [hdrop] at h hhead
    rcases List.mem_cons.mp h with rfl | h
    · exact .inl (by simpa using hhead)
    · exact .inr h

theorem jdbcUrl_iff (h : jdbcURLPattern value = true) :
    jdbcUrl value = true ↔ '_' ∉ subprotocol value ∧ ∀ c ∈ value.toList, lineTerminator c = false := by
  unfold jdbcURLPattern jdbcPattern at h
  unfold jdbcUrl jdbcPattern
  split at h
  · next rest hrest =>
    have hsub : subprotocol value = rest.takeWhile (· ≠ ':') := by
      unfold subprotocol
      rw [hrest]
      rfl
    rw [hsub, hrest]
    simp only [Bool.and_eq_true, List.all_eq_true] at h ⊢
    obtain ⟨⟨⟨hhead, hall⟩, hname⟩, -⟩ := h
    constructor
    · rintro ⟨⟨⟨-, hjava⟩, -⟩, hlines⟩
      refine ⟨fun hunderscore => absurd (hjava _ hunderscore) (by decide), fun c hc => ?_⟩
      have hscheme : c ∈ ['j', 'd', 'b', 'c', ':'] ∨ c ∈ rest := by simpa [or_assoc] using hc
      rcases hscheme with hscheme | hc
      · have hplain : (['j', 'd', 'b', 'c', ':'].all fun c => !lineTerminator c) = true := by decide
        simpa using List.all_eq_true.mp hplain c hscheme
      · rcases mem_split hc with hc | rfl | hc
        · exact lineTerminator_name (hall c hc)
        · decide
        · simpa using hlines c hc
    · rintro ⟨hunderscore, hlines⟩
      refine ⟨⟨⟨hhead, fun c hc => ?_⟩, hname⟩, fun c hc => ?_⟩
      · have hgo := hall c hc
        simp only [Bool.or_eq_true, decide_eq_true_eq] at hgo ⊢
        rcases hgo with halphanum | rfl | hdash
        · exact .inl halphanum
        · exact absurd hc hunderscore
        · exact .inr (.inr hdash)
      · have hmem : c ∈ rest := (List.dropWhile_suffix _).subset (List.mem_of_mem_drop hc)
        simp [hlines c (by simp [hmem])]
  · cases h

def uncheckedPatterns : List String :=
  ["sql.column", "sql.table", "postgres.identifier", "sql.column-list", "debezium.topic-prefix", "local.path"]

structure Portable (jdk : Jdk) (o : OptionFields) (value : String) : Prop where
  duration : o.valueType = .duration → validDuration jdk o value = true
  url : o.valueType = .string → o.patternKey = some "jdbc.url" →
    '_' ∉ subprotocol value ∧ ∀ c ∈ value.toList, lineTerminator c = false
  pattern : o.valueType = .string → ∀ key ∈ o.patternKey, key ∈ uncheckedPatterns → validPattern o.patternKey value = true

theorem length_le_utf8ByteSize (s : String) : s.length ≤ s.utf8ByteSize := by
  have hlist : ∀ cs : List Char, cs.length ≤ String.utf8Len cs := by
    intro cs
    induction cs with
    | nil => exact Nat.le_refl _
    | cons c cs ih =>
      have hpos := c.utf8Size_pos
      rw [String.utf8Len_cons, List.length_cons]
      omega
  have h := hlist s.toList
  rwa [← String.utf8ByteSize_ofList, String.ofList_toList, String.length_toList] at h

theorem lengthWithin_of_within (hbytes : value.utf8ByteSize ≤ maximumSettingValue)
    (h : within o.minLength o.maxLength (Int32.ofNat value.length) = true) : lengthWithin o value.length = true := by
  have hlength := length_le_utf8ByteSize value
  have hexact : (Int32.ofNat value.length).toInt = value.length := by
    unfold maximumSettingValue at hbytes
    exact Int32.toInt_ofNat_of_lt (by omega)
  unfold within at h
  unfold lengthWithin within
  rw [Bool.and_eq_true] at h ⊢
  refine ⟨?_, ?_⟩
  · cases hmin : o.minLength with
    | none => rfl
    | some =>
      have hle := h.1
      simp only [hmin, Option.all_some, decide_eq_true_eq, Int32.le_iff_toInt_le, hexact] at hle
      simpa using hle
  · cases hmax : o.maxLength with
    | none => rfl
    | some =>
      have hle := h.2
      simp only [hmax, Option.all_some, decide_eq_true_eq, Int32.le_iff_toInt_le, hexact] at hle
      simpa using hle

theorem validPattern_iff (htype : o.valueType = .string)
    (hurl : o.patternKey ≠ some "jdbc.url" ∨ jdbcURLPattern value = true) :
    validPattern o.patternKey value = true ↔ Portable jdk o value := by
  constructor
  · intro h
    refine ⟨fun hduration => ?_, fun _ hkey => ?_, fun _ _ _ _ => h⟩
    · rw [htype] at hduration
      cases hduration
    · rw [hkey] at h
      exact (jdbcUrl_iff (hurl.resolve_left (not_not.mpr hkey))).mp h
  · intro h
    by_cases hkey : o.patternKey = some "jdbc.url"
    · rw [hkey]
      exact (jdbcUrl_iff (hurl.resolve_left (not_not.mpr hkey))).mpr (h.url htype hkey)
    · cases hpattern : o.patternKey with
      | none => rfl
      | some key =>
        by_cases hunchecked : key ∈ uncheckedPatterns
        · rw [← hpattern]
          exact h.pattern htype key hpattern hunchecked
        · rw [hpattern] at hkey
          unfold validPattern
          split
          case h_3 heq => exact absurd heq hkey
          case h_4 heq | h_5 heq | h_6 heq | h_7 heq | h_8 heq | h_9 heq =>
            cases heq
            exact absurd (by decide) hunchecked
          all_goals rfl

theorem portable_of_type (hstring : o.valueType ≠ .string) (hduration : o.valueType ≠ .duration) : Portable jdk o value :=
  ⟨fun h => absurd h hduration, fun h => absurd h hstring, fun h => absurd h hstring⟩

theorem validValue_iff (hparse : ∀ s n, parseInt s = some n → jdk.parseLong s = some n)
    (hbytes : value.utf8ByteSize ≤ maximumSettingValue)
    (h : validateOptionValue parseDuration (option o) value = .ok ()) :
    validValue jdk o value = true ↔ Portable jdk o value := by
  unfold validateOptionValue at h
  obtain ⟨⟨⟩, hlength, h⟩ := bind_eq_ok.mp h
  unfold validValue
  rw [lengthWithin_of_within hbytes (check_ok.mp hlength), Bool.true_and]
  cases htype : o.valueType with
  | string =>
    have hkind : (option o).valueType = typeString := by simp [option, htype, typeNumber]
    rw [if_pos hkind, check_ok, Bool.or_eq_true, decide_eq_true_eq] at h
    exact validPattern_iff htype h
  | integer =>
    have hkind : (option o).valueType = typeInteger := by simp [option, htype, typeNumber]
    rw [hkind, if_neg (by decide), if_pos rfl, check_ok] at h
    obtain ⟨n, hn, hwithin⟩ := (Option.any_eq_true _ _).mp h
    have hvalid : validInteger jdk o value = true := by
      simp only [validInteger, hparse value n hn]
      exact hwithin
    exact iff_of_true hvalid (portable_of_type (by simp [htype]) (by simp [htype]))
  | boolean =>
    have hkind : (option o).valueType = typeBoolean := by simp [option, htype, typeNumber]
    rw [hkind, if_neg (by decide), if_neg (by decide), if_pos rfl, check_ok] at h
    exact iff_of_true h (portable_of_type (by simp [htype]) (by simp [htype]))
  | duration =>
    exact ⟨fun hvalid => ⟨fun _ => hvalid, by simp [htype], by simp [htype]⟩, fun hportable => hportable.duration htype⟩
  | enum =>
    have hkind : (option o).valueType = typeEnum := by simp [option, htype, typeNumber]
    rw [hkind, if_neg (by decide), if_neg (by decide), if_neg (by decide), if_neg (by decide), if_pos rfl, check_ok] at h
    exact iff_of_true h (portable_of_type (by simp [htype]) (by simp [htype]))

end

section

variable {jdk : Jdk} {parseDuration : String → Except String Int64} {d : ConnectorDescriptor jdk} {role : ConnectorRole}

theorem definitionFor_descriptor (key : String) : definitionFor (descriptor d) key =
      ((findOption d key).map fun o => option o.toOptionFields).or (matchingPrefixDefinition (descriptor d) key) := by
  have hkeys : ((descriptor d).options.map (·.key)).Nodup := by
    have hmap : (descriptor d).options.map (·.key) = d.options.map (·.key) := by
      unfold descriptor
      rw [List.map_map]
      rfl
    rw [hmap]
    exact d.keys_nodup
  have hlatest : latest (·.key) key (descriptor d).options = find (·.key) key (descriptor d).options :=
    (find_perm (List.reverse_perm _).symm hkeys).symm
  unfold definitionFor
  rw [hlatest]
  congr 1
  unfold descriptor findOption find
  rw [List.find?_map]
  rfl

theorem prefix_unique {p q : ConnectorOptionPrefixDescriptor jdk} (hp : p ∈ d.optionPrefixes) (hq : q ∈ d.optionPrefixes)
    {key : String} (hpkey : startsWith key p.namePrefix = true) (hqkey : startsWith key q.namePrefix = true) : p = q := by
  by_contra hne
  have happart := d.prefixes_apart hp hq hne
  rw [overlapping, Bool.or_eq_false_iff] at happart
  unfold startsWith at happart hpkey hqkey
  simp only [List.isPrefixOf_iff_prefix, ← Bool.not_eq_true] at happart hpkey hqkey
  rcases List.prefix_or_prefix_of_prefix hpkey hqkey with h | h
  · exact happart.2 h
  · exact happart.1 h

structure Usable (d : ConnectorDescriptor jdk) (role : ConnectorRole) (entry : String × String) : Prop where
  exact : ∀ o, findOption d entry.1 = some o → role ∈ o.roles ∧ Portable jdk o.toOptionFields entry.2
  family : findOption d entry.1 = none → ∀ p ∈ d.optionPrefixes, startsWith entry.1 p.namePrefix = true →
    role ∈ p.roles ∧ jdk.textMatches p.keyPattern (remainder entry.1 p.namePrefix) = true ∧
      utf16Length entry.2 ≤ p.maxValueLength.toInt

theorem owner_of_number {owner : ConnectorOptionOwner} (h : ownerNumber owner = ownerConnection) : owner = .connection := by
  cases owner with
  | job => exact absurd h (by decide)
  | connection => rfl

theorem sensitivity_of_number {sensitivity : ConnectorOptionSensitivity}
    (h : sensitivityNumber sensitivity ≠ sensitivitySecret) : sensitivity ≠ .secret := by
  rintro rfl
  exact h rfl

theorem admitted_iff_usable {entry : String × String} (hparse : ∀ s n, parseInt s = some n → jdk.parseLong s = some n)
    (h : AcceptedSetting parseDuration (descriptor d) entry) : Admitted d role .connection entry ↔ Usable d role entry := by
  obtain ⟨hkey, hbytes, definition, hdefinition, howner, hsecret, hvalue⟩ := h
  rw [definitionFor_descriptor] at hdefinition
  unfold Admitted declared
  cases hfind : findOption d entry.1 with
  | some o =>
    rw [hfind, Option.map_some, Option.some_or, Option.some_inj] at hdefinition
    subst hdefinition
    have hvalid := validValue_iff hparse hbytes hvalue
    constructor
    · rintro ⟨-, -, policy, hpolicy, -, hrole, -, hadmits⟩
      cases hpolicy
      refine ⟨fun o' ho' => ?_, fun hnone => ?_⟩
      · cases hfind.symm.trans ho'
        exact ⟨hrole, hvalid.mp hadmits⟩
      · cases hfind.symm.trans hnone
    · intro husable
      obtain ⟨hrole, hportable⟩ := husable.exact o hfind
      exact ⟨hkey, hbytes, .exact o, rfl, owner_of_number howner, hrole, sensitivity_of_number hsecret,
        hvalid.mpr hportable⟩
  | none =>
    rw [hfind, Option.map_none, Option.none_or] at hdefinition
    obtain ⟨found, hfound, rfl⟩ := Option.map_eq_some_iff.mp hdefinition
    obtain ⟨p, hp, rfl⟩ := List.mem_map.mp (List.mem_of_find?_eq_some hfound)
    have hstarts := List.find?_some hfound
    rw [Bool.and_eq_true] at hstarts
    constructor
    · rintro ⟨-, -, policy, hpolicy, -, hrole, -, hadmits⟩
      obtain ⟨q, hq, rfl⟩ := Option.map_eq_some_iff.mp hpolicy
      have hqkey := List.find?_some hq
      rw [Bool.and_eq_true] at hqkey
      refine ⟨fun o ho => ?_, fun _ p' hp' hp'key => ?_⟩
      · cases hfind.symm.trans ho
      · obtain rfl := prefix_unique hp' (List.mem_of_find?_eq_some hq) hp'key hqkey.1
        exact ⟨hrole, hqkey.2, of_decide_eq_true hadmits⟩
    · intro husable
      obtain ⟨hrole, hmatches, hlength⟩ := husable.family hfind p hp hstarts.1
      have hmatching : matchingPrefix d entry.1 = some p := by
        cases hother : matchingPrefix d entry.1 with
        | none =>
          have hnot := List.find?_eq_none.mp hother p hp
          exact absurd (Bool.and_eq_true_iff.mpr ⟨hstarts.1, hmatches⟩) hnot
        | some =>
          have hq := List.find?_some hother
          rw [Bool.and_eq_true] at hq
          rw [prefix_unique hp (List.mem_of_find?_eq_some hother) hstarts.1 hq.1]
      rw [hmatching]
      exact ⟨hkey, hbytes, .family p, rfl, owner_of_number howner, hrole, sensitivity_of_number hsecret,
        decide_eq_true hlength⟩

variable {path : String} {v : Validation}

def SettingIssue (path : String) (issue : Issue) : Prop :=
  issue.path = path ++ ".connection_settings" ∨
    (issue.code = .optionRequired ∧ issue.path = path ++ ".connection_ref") ∨ issue.code = .structureInvalid

def SettingsClean (path : String) (v : Validation) : Prop := ∀ issue ∈ v.issues, ¬SettingIssue path issue

theorem append_ne {a b : String} (h : a ≠ b) : path ++ a ≠ path ++ b := fun heq => h (String.append_right_inj path |>.mp heq)

variable {issue : Issue}

theorem settingIssue_options (hpath : issue.path = path ++ ".options")
    (hcode : issue.code ≠ .structureInvalid) : ¬SettingIssue path issue := by
  rintro (h | ⟨-, h⟩ | h)
  · exact append_ne (by decide) (hpath.symm.trans h)
  · exact append_ne (by decide) (hpath.symm.trans h)
  · exact hcode h

theorem settingIssue_reference (hpath : issue.path = path ++ ".connection_ref")
    (hrequired : issue.code ≠ .optionRequired) (hcode : issue.code ≠ .structureInvalid) : ¬SettingIssue path issue := by
  rintro (h | ⟨h, -⟩ | h)
  · exact append_ne (by decide) (hpath.symm.trans h)
  · exact hrequired h
  · exact hcode h

theorem SettingsClean.snoc {w : Validation} (h : SettingsClean path v)
    (hissues : w.issues = v.issues ++ [issue]) (hissue : ¬SettingIssue path issue) : SettingsClean path w := by
  intro other hother
  rw [hissues, List.mem_append, List.mem_singleton] at hother
  rcases hother with hother | rfl
  · exact h other hother
  · exact hissue

theorem SettingsClean.of_foldl {α : Type} {f : Validation → α → Validation}
    (hf : ∀ v a, ∃ more, (f v a).issues = v.issues ++ more) {as : List α} (h : SettingsClean path (as.foldl f v)) :
    SettingsClean path v := by
  induction as generalizing v with
  | nil => exact h
  | cons a as ih =>
    obtain ⟨more, hmore⟩ := hf v a
    intro issue hissue
    exact ih h issue (by rw [hmore]; exact List.mem_append_left _ hissue)

theorem foldl_settings {entries : List (String × String)}
    (h : SettingsClean path (entries.foldl (validateValue d role .connection (path ++ ".connection_settings")) v)) :
    ∀ entry ∈ entries, Admitted d role .connection entry := by
  induction entries generalizing v with
  | nil => exact fun _ hentry => absurd hentry List.not_mem_nil
  | cons entry entries ih =>
    rw [List.foldl_cons] at h
    intro other hother
    rcases List.mem_cons.mp hother with rfl | hother
    · have hstep := h.of_foldl (validateValue_issues d role .connection (path ++ ".connection_settings"))
      rcases validateValue_cases (d := d) (v := v) other with ⟨hadmitted, -⟩ | ⟨-, issue, hpath, hissues, -⟩
      · exact hadmitted
      · refine absurd (.inl hpath) (hstep issue ?_)
        rw [hissues]
        exact List.mem_append_right _ List.mem_cons_self
    · exact ih h other hother

theorem validateValue_seen {owner : ConnectorOptionOwner} {place : String} (entry : String × String) :
    ∀ key ∈ (validateValue d role owner place v entry).seen, key ∈ v.seen ∨ key = entry.1 := by
  obtain ⟨key, value⟩ := entry
  have hsee : ∀ other ∈ (v.see key).seen, other ∈ v.seen ∨ other = key := by
    intro other hother
    simpa [Validation.see] using hother
  dsimp only [validateValue]
  split_ifs
  · exact fun _ h => .inl h
  · exact fun _ h => .inl h
  · split
    · exact hsee
    · next policy _ =>
      split_ifs
      · exact hsee
      · exact hsee
      · cases policy <;> exact hsee

theorem foldl_jobs (d : ConnectorDescriptor jdk) (role : ConnectorRole) (entries : List (String × String))
    (h : SettingsClean path v) :
    SettingsClean path (entries.foldl (validateValue d role .job (path ++ ".options")) v) ∧
      ∀ key ∈ (entries.foldl (validateValue d role .job (path ++ ".options")) v).seen,
        key ∈ v.seen ∨ key ∈ entries.map Prod.fst := by
  induction entries generalizing v with
  | nil => exact ⟨h, fun _ hkey => .inl hkey⟩
  | cons entry entries ih =>
    have hstep : SettingsClean path (validateValue d role .job (path ++ ".options") v entry) := by
      rcases validateValue_cases entry with ⟨-, -, heq⟩ | ⟨-, issue, hpath, hissues, hcode⟩
      · rw [heq]
        exact h
      · exact h.snoc hissues (settingIssue_options hpath hcode)
    obtain ⟨hclean, hseen⟩ := ih hstep
    refine ⟨hclean, fun key hkey => ?_⟩
    rcases hseen key hkey with hkey | hkey
    · grind [validateValue_seen, List.mem_cons_self]
    · exact .inr (List.mem_cons_of_mem _ hkey)

theorem foldl_admitted {entries : List (String × String)} {place : String}
    (hadmitted : ∀ entry ∈ entries, Admitted d role .connection entry) (hnodup : (entries.map Prod.fst).Nodup)
    (hnew : ∀ entry ∈ entries, entry.1 ∉ v.seen) :
    entries.foldl (validateValue d role .connection place) v = v.taken entries := by
  induction entries generalizing v with
  | nil => simp [Validation.taken]
  | cons entry entries ih =>
    obtain ⟨hfirst, hnodup⟩ := List.nodup_cons.mp hnodup
    rw [List.foldl_cons, validateValue_admitted (hadmitted entry List.mem_cons_self) (hnew entry List.mem_cons_self),
      ih (fun e he => hadmitted e (List.mem_cons_of_mem _ he)) hnodup ?_, taken_cons]
    intro e he
    simp only [Validation.see, Validation.accept, List.mem_append, List.mem_singleton, not_or]
    refine ⟨hnew e (List.mem_cons_of_mem _ he), fun heq => hfirst ?_⟩
    rw [← heq]
    exact List.mem_map_of_mem he

theorem foldl_secrets (d : ConnectorDescriptor jdk) (role : ConnectorRole) (keys : List String)
    (h : SettingsClean path v) :
    SettingsClean path (keys.foldl (validateSecret d role path) v) ∧
      (∀ key ∈ v.seen, key ∈ (keys.foldl (validateSecret d role path) v).seen) ∧
      ∀ key ∈ keys, optionPattern key = true → key ∈ (keys.foldl (validateSecret d role path) v).seen := by
  induction keys generalizing v with
  | nil => exact ⟨h, fun _ hkey => hkey, fun _ hkey => absurd hkey List.not_mem_nil⟩
  | cons key keys ih =>
    have hstep : SettingsClean path (validateSecret d role path v key) := by
      rcases validateSecret_cases key with ⟨-, -, heq⟩ | ⟨issue, hpath, hcode, hissues⟩
      · rw [heq]
        exact h
      · exact h.snoc hissues (settingIssue_reference hpath (by rw [hcode]; decide) (by rw [hcode]; decide))
    have hgrown : ∀ other ∈ v.seen, other ∈ (validateSecret d role path v key).seen := by
      intro other hother
      unfold validateSecret
      split_ifs
      · exact hother
      · split
        · exact List.mem_append_left _ hother
        · split_ifs <;> exact List.mem_append_left _ hother
    have hself : optionPattern key = true → key ∈ (validateSecret d role path v key).seen := by
      intro hpattern
      unfold validateSecret
      rw [hpattern, Bool.not_true, Bool.false_or]
      split_ifs with hseen
      · exact List.contains_iff_mem.mp hseen
      · split
        · exact List.mem_append_right _ List.mem_cons_self
        · split_ifs <;> exact List.mem_append_right _ List.mem_cons_self
    obtain ⟨hclean, hkept, hkeys⟩ := ih hstep
    refine ⟨hclean, fun other hother => hkept other (hgrown other hother), fun other hother hpattern => ?_⟩
    rcases List.mem_cons.mp hother with rfl | hother
    · exact hkept _ (hself hpattern)
    · exact hkeys other hother hpattern

theorem foldl_declared {os : List (ConnectorOptionDescriptor jdk)} {configured : Bool} (h : SettingsClean path v)
    (hpresent : ∀ o ∈ os, o.owner = .connection → role ∈ o.roles → o.required = true → o.defaultValue = none →
      o.key ∈ v.seen) :
    SettingsClean path (os.foldl (validateDeclared role path configured) v) := by
  induction os generalizing v with
  | nil => exact h
  | cons o os ih =>
    obtain ⟨hseen, hissues | ⟨⟨hrole, hrequired, hdefault, hnew⟩, issue, hpath, hcode, hissues⟩⟩ :=
      validateDeclared_cases role path configured v o
    · refine ih ?_ fun o' ho' => ?_
      · unfold SettingsClean
        rwa [hissues]
      · rw [hseen]
        exact hpresent o' (List.mem_cons_of_mem _ ho')
    · refine ih (h.snoc hissues ?_) fun o' ho' => ?_
      · cases howner : o.owner with
        | job =>
          rw [howner, if_pos rfl, String.append_assoc] at hpath
          exact settingIssue_options hpath (by rw [hcode]; decide)
        | connection => exact absurd (hpresent o List.mem_cons_self howner hrole hrequired hdefault) hnew
      · rw [hseen]
        exact hpresent o' (List.mem_cons_of_mem _ ho')

variable {config : EffectiveConnectorConfig}

theorem reports_clean (d : ConnectorDescriptor jdk) (role : ConnectorRole) (path : String)
    (config : EffectiveConnectorConfig) :
    SettingsClean path (reportUnaccepted d role path config (reportConnection d role path config
      (reportRevision d path config ⟨[], [], []⟩))) := by
  have hrevision : SettingsClean path (reportRevision d path config ⟨[], [], []⟩) := by
    unfold reportRevision
    split_ifs
    · intro issue hissue
      obtain rfl := List.mem_singleton.mp hissue
      rintro (h | ⟨h, -⟩ | h)
      · exact append_ne (by decide) h
      · cases h
      · cases h
    · exact fun _ hissue => absurd hissue List.not_mem_nil
  have hconnection : SettingsClean path (reportConnection d role path config (reportRevision d path config ⟨[], [], []⟩)) := by
    unfold reportConnection
    split_ifs
    · exact hrevision.snoc rfl (settingIssue_reference rfl nofun nofun)
    · exact hrevision
    · exact hrevision.snoc rfl (settingIssue_reference rfl nofun nofun)
    · exact hrevision
  unfold reportUnaccepted
  split_ifs
  · exact hconnection.snoc rfl (settingIssue_reference rfl nofun nofun)
  · exact hconnection

theorem validate_clean (hsettings : ∀ entry ∈ config.connectionSettings, Admitted d role .connection entry)
    (hnodup : (config.connectionSettings.map Prod.fst).Nodup)
    (hjobs : ∀ entry ∈ config.connectionSettings, entry.1 ∉ config.jobOptions.map Prod.fst)
    (hpresent : ∀ o ∈ d.options, o.owner = .connection → role ∈ o.roles → o.required = true → o.defaultValue = none →
      o.key ∈ config.connectionSettings.map Prod.fst ∨ o.key ∈ config.configuredSecretFields)
    (hcount : optionCount config ≤ maximumOptions) :
    ∀ issue ∈ (validate d role path config).1, ¬SettingIssue path issue := by
  unfold validate
  dsimp only
  split_ifs with hrole hmany
  · intro issue hissue
    obtain rfl := List.mem_singleton.mp hissue
    rintro (h | ⟨h, -⟩ | h)
    · exact append_ne (by decide) h
    · cases h
    · cases h
  · exact absurd hcount (not_le.mpr hmany)
  · have hreports := reports_clean d role path config
    have hempty : ∀ key, key ∉ (reportUnaccepted d role path config (reportConnection d role path config
        (reportRevision d path config ⟨[], [], []⟩))).seen := by
      intro key
      unfold reportUnaccepted reportConnection reportRevision
      split_ifs <;> exact List.not_mem_nil
    generalize reportUnaccepted d role path config (reportConnection d role path config
      (reportRevision d path config ⟨[], [], []⟩)) = v at hreports hempty
    unfold validateEntries
    obtain ⟨hclean, hseen⟩ := foldl_jobs d role (byKey config.jobOptions) hreports
    generalize (byKey config.jobOptions).foldl (validateValue d role .job (path ++ ".options")) v = w at hclean hseen
    have hperm := byKey_perm config.connectionSettings
    rw [foldl_admitted (fun entry hentry => hsettings entry (hperm.mem_iff.mp hentry))
      ((hperm.map Prod.fst).nodup_iff.mpr hnodup) ?_]
    · have htaken : SettingsClean path (w.taken (byKey config.connectionSettings)) := hclean
      obtain ⟨hsecrets, hkept, hfields⟩ := foldl_secrets d role (byText config.configuredSecretFields) htaken
      refine foldl_declared hsecrets fun o ho howner horole hrequired hdefault => ?_
      rcases hpresent o ho howner horole hrequired hdefault with hset | hsecret
      · exact hkept _ (List.mem_append_right _ ((hperm.map Prod.fst).mem_iff.mpr hset))
      · exact hfields _ ((byText_perm _).mem_iff.mpr hsecret) o.key_pattern
    · intro entry hentry hmem
      rcases hseen entry.1 hmem with h | h
      · exact hempty _ h
      · exact hjobs entry (hperm.mem_iff.mp hentry) (((byKey_perm _).map Prod.fst).mem_iff.mp h)

theorem validate_settings (hrole : role ∈ d.roles) (hcount : optionCount config ≤ maximumOptions)
    (h : ∀ issue ∈ (validate d role path config).1, ¬SettingIssue path issue) :
    ∀ entry ∈ config.connectionSettings, Admitted d role .connection entry := by
  unfold validate at h
  dsimp only at h
  rw [if_neg (by simpa using hrole), if_neg (not_lt.mpr hcount)] at h
  have hdeclared := SettingsClean.of_foldl (fun v o => ?_) h
  · have hsecrets := hdeclared.of_foldl fun v key => ?_
    · exact fun entry hentry => foldl_settings hsecrets entry ((byKey_perm _).mem_iff.mpr hentry)
    · rcases validateSecret_cases (d := d) (v := v) key with ⟨-, -, heq⟩ | ⟨issue, -, -, hissues⟩
      · rw [heq]
        exact ⟨[], (List.append_nil _).symm⟩
      · exact ⟨[issue], hissues⟩
  · obtain ⟨-, hissues | ⟨-, issue, -, -, hissues⟩⟩ := validateDeclared_cases role path config.connectionConfigured v o
    · exact ⟨[], hissues.trans (List.append_nil _).symm⟩
    · exact ⟨[issue], hissues⟩

/-- What the API server stores as settings of a Connection is not reported for a job that uses the Connection exactly
if every setting is usable in the job's role. -/
theorem stored_settings_admitted {parseDuration : String → Except String Int64}
    (hparse : ∀ s n, parseInt s = some n → jdk.parseLong s = some n) {requested : List (Option (String × String))}
    {settings : List Setting} (h : validateConnectionSettings parseDuration (descriptor d) requested = .ok settings)
    (hrole : role ∈ d.roles) (hsettings : config.connectionSettings = settings.map Setting.entry)
    (hjobs : ∀ s ∈ settings, s.key ∉ config.jobOptions.map Prod.fst)
    (hsecrets : ∀ o ∈ d.options, o.sensitivity = .secret → role ∈ o.roles → o.required = true →
      o.key ∈ config.configuredSecretFields) (hcount : optionCount config ≤ maximumOptions) :
    (∀ issue ∈ (validate d role path config).1, ¬SettingIssue path issue) ↔ ∀ s ∈ settings, Usable d role s.entry := by
  obtain ⟨-, haccepted, hnodup, hmandatory⟩ := validateConnectionSettings_ok h
  have hkeys : config.connectionSettings.map Prod.fst = settings.map (·.key) := by
    rw [hsettings, List.map_map]
    rfl
  constructor
  · intro hclean s hs
    refine (admitted_iff_usable hparse (haccepted s hs)).mp (validate_settings hrole hcount hclean s.entry ?_)
    rw [hsettings]
    exact List.mem_map_of_mem hs
  intro husable
  refine validate_clean ?_ ?_ ?_ ?_ hcount
  · intro entry hentry
    rw [hsettings] at hentry
    obtain ⟨s, hs, rfl⟩ := List.mem_map.mp hentry
    exact (admitted_iff_usable hparse (haccepted s hs)).mpr (husable s hs)
  · rwa [hkeys]
  · intro entry hentry
    rw [hsettings] at hentry
    obtain ⟨s, hs, rfl⟩ := List.mem_map.mp hentry
    exact hjobs s hs
  · intro o ho howner hrole hrequired hdefault
    by_cases hsecret : o.sensitivity = .secret
    · exact .inr (hsecrets o ho hsecret hrole hrequired)
    · refine .inl ?_
      rw [hkeys]
      refine hmandatory (option o.toOptionFields) (List.mem_map_of_mem ho) ?_
      have hpublic : sensitivityNumber o.sensitivity ≠ sensitivitySecret := by
        cases hcase : o.sensitivity with
        | unrestricted => decide
        | restricted => decide
        | secret => exact absurd hcase hsecret
      simp [mandatory, option, howner, ownerNumber, hpublic, hrequired, hdefault]

end

def sampleJdk : Jdk where
  compiles _ := true
  textMatches _ _ := true
  parseLong := parseInt
  parseDuration _ := none

def sampleUrl : ConnectorOptionDescriptor sampleJdk where
  key := "url"
  roles := [.source, .sink]
  owner := .connection
  valueType := .string
  required := true
  defaultValue := none
  enumValues := []
  minimum := none
  maximum := none
  minLength := some 1
  maxLength := some 4096
  patternKey := some "jdbc.url"
  sensitivity := .restricted
  advanced := false
  labelKey := "connector.option.url.label"
  helpKey := "connector.option.url.help"
  built := by decide +kernel

def sampleRevision : String := "sha256:0000000000000000000000000000000000000000000000000000000000000000"

def sampleDescriptor : ConnectorDescriptor sampleJdk where
  name := "jdbc"
  version := "1"
  roles := [.source, .sink]
  capabilities := [.batchRead, .batchWrite]
  displayName := "JDBC"
  descriptionKey := "connector.jdbc.description"
  options := [sampleUrl]
  optionPrefixes := []
  connectionRequirement _ := .required
  connectionSchemaRevision := sampleRevision
  acceptedConnectionSchemaRevisions := [sampleRevision]
  descriptorRevision := sampleRevision
  built := by decide +kernel
  sorted := by decide +kernel
  sortedPrefixes := by decide +kernel
  accepted := List.mem_singleton_self _

def sampleEncoding : Encoding where
  unmarshal _ := none
  marshalInventory _ := []
  marshalDescriptor _ := []
  marshalConnectionSchema _ := []
  marshalInventoryIdentity _ := []
  marshalCompilerIdentity _ := []
  sha256 _ := "0000000000000000000000000000000000000000000000000000000000000000"

def sampleConfig (url : String) : EffectiveConnectorConfig where
  jobOptions := []
  connectionSettings := [("url", url)]
  configuredSecretFields := []
  connectionConfigured := true
  descriptorRevision := sampleRevision
  connectionSchemaRevision := sampleRevision

def noDuration (_ : String) : Except String Int64 := .error "time: invalid duration"

theorem stored_settings_admitted_h2 :
    validateConnectionSettings noDuration (descriptor sampleDescriptor) [some ("url", "jdbc:h2:x")] =
        .ok [⟨"url", "jdbc:h2:x", .restrictedSetting⟩] ∧
      ∀ issue ∈ (validate sampleDescriptor .source "source" (sampleConfig "jdbc:h2:x")).1, ¬SettingIssue "source" issue := by
  have hstored : validateConnectionSettings noDuration (descriptor sampleDescriptor) [some ("url", "jdbc:h2:x")] =
      .ok [⟨"url", "jdbc:h2:x", .restrictedSetting⟩] := rfl
  refine ⟨hstored, (stored_settings_admitted (fun s n h => h) hstored (by decide) rfl (by decide) ?_ (by decide)).mpr ?_⟩
  · intro o ho
    obtain rfl := List.mem_singleton.mp ho
    decide
  · intro s hs
    obtain rfl := List.mem_singleton.mp hs
    have hurl : findOption sampleDescriptor "url" = some sampleUrl := sampleDescriptor.find_of_mem List.mem_cons_self
    refine ⟨fun o ho => ?_, fun hnone => absurd (hurl.symm.trans hnone) nofun⟩
    cases hurl.symm.trans ho
    refine ⟨by decide, nofun, fun _ _ => ⟨by decide, fun c hc => ?_⟩, fun _ key hkey hunchecked => ?_⟩
    · have hlines : ("jdbc:h2:x".toList.all fun c => !lineTerminator c) = true := by decide +kernel
      simpa using List.all_eq_true.mp hlines c hc
    · cases hkey
      exact absurd hunchecked (by decide)

/-- A URL whose subprotocol has an underscore is stored, and no job can use it. -/
theorem stored_url_reported : validateDescriptor sampleEncoding (descriptor sampleDescriptor) = .ok () ∧
    validateConnectionSettings noDuration (descriptor sampleDescriptor) [some ("url", "jdbc:my_db:x")] =
      .ok [⟨"url", "jdbc:my_db:x", .restrictedSetting⟩] ∧
    (validate sampleDescriptor .source "source" (sampleConfig "jdbc:my_db:x")).1 =
      [⟨.optionInvalid, "source.connection_settings", "connector option does not satisfy descriptor type or bounds",
        "connector.option.url.help"⟩] := by
  exact ⟨by decide +kernel, rfl, by decide +kernel⟩

end AstraSync.ConnectionSettings
