import AstraSync.ConnectorDescriptors

namespace AstraSync.ConnectorOptions

open Registries ConnectorDescriptors
open JobCompiler (ConnectorRole)
open CatalogInventories (optionPattern)

inductive IssueCode
  | connectionRefRequired
  | connectionSchemaIncompatible
  | optionInvalid
  | optionOwnershipInvalid
  | optionRequired
  | optionUnknown
  | roleUnsupported
  | secretFieldInvalid
  | structureInvalid
  | validationRevisionChanged
  deriving DecidableEq

structure Issue where
  code : IssueCode
  (path message documentationKey : String)
  deriving DecidableEq

structure EffectiveConnectorConfig where
  (jobOptions connectionSettings : List (String × String))
  configuredSecretFields : List String
  connectionConfigured : Bool
  (descriptorRevision connectionSchemaRevision : String)

structure Validation where
  seen : List String
  effective : List (String × String)
  issues : List Issue

def configuredSecretMarker : String := "configured"

def Validation.report (v : Validation) (code : IssueCode) (path message documentationKey : String) : Validation :=
  { v with issues := v.issues ++ [⟨code, path, message, documentationKey⟩] }

def Validation.see (v : Validation) (key : String) : Validation := { v with seen := v.seen ++ [key] }

def Validation.accept (v : Validation) (key value : String) : Validation :=
  { v with effective := put Prod.fst (key, value) v.effective }

section

variable {jdk : Jdk} (d : ConnectorDescriptor jdk) (role : ConnectorRole)

def validateValue (expectedOwner : ConnectorOptionOwner) (path : String) (v : Validation) (entry : String × String) :
    Validation :=
  let (key, value) := entry
  if !optionPattern key || maximumValueBytes < value.utf8ByteSize then
    v.report .optionInvalid path "connector option is malformed or exceeds the supported limit" ""
  else if v.seen.contains key then
    v.report .optionInvalid path "connector option is configured more than once" ""
  else
    match declared d key with
    | none =>
      (v.see key).report .optionUnknown path "connector option is not declared by the active descriptor" ""
    | some policy =>
      if policy.owner ≠ expectedOwner || !policy.roles.contains role || policy.sensitivity = .secret then
        (v.see key).report .optionOwnershipInvalid path "connector option is not allowed on this resource or role" ""
      else if policy.admits value then (v.see key).accept key value
      else
        match policy with
        | .family _ =>
          (v.see key).report .optionInvalid path "connector option does not satisfy descriptor bounds" ""
        | .exact o =>
          (v.see key).report .optionInvalid path "connector option does not satisfy descriptor type or bounds" o.helpKey

def validateSecret (path : String) (v : Validation) (key : String) : Validation :=
  if !optionPattern key || v.seen.contains key then
    v.report .secretFieldInvalid (path ++ ".connection_ref") "configured secret field metadata is invalid" ""
  else
    match findOption d key with
    | none =>
      (v.see key).report .secretFieldInvalid (path ++ ".connection_ref")
        "configured secret field is not declared for this connector role" ""
    | some o =>
      if o.owner ≠ .connection || o.sensitivity ≠ .secret || !o.roles.contains role then
        (v.see key).report .secretFieldInvalid (path ++ ".connection_ref")
          "configured secret field is not declared for this connector role" ""
      else (v.see key).accept key configuredSecretMarker

def validateDeclared (path : String) (connectionConfigured : Bool) (v : Validation) (o : ConnectorOptionDescriptor jdk) :
    Validation :=
  if !o.roles.contains role || (o.owner = .connection && !connectionConfigured) || v.seen.contains o.key then v
  else
    match o.defaultValue with
    | some value => v.accept o.key value
    | none =>
      if o.required then
        v.report .optionRequired (path ++ "." ++ if o.owner = .job then "options" else "connection_ref")
          "a required connector option is not configured" o.helpKey
      else v

def byKey (entries : List (String × String)) : List (String × String) :=
  entries.insertionSort fun a b => !decide (b.1 < a.1)

def byText (texts : List String) : List String := texts.insertionSort fun a b => !decide (b < a)

variable (path : String) (config : EffectiveConnectorConfig)

def reportRevision (v : Validation) : Validation :=
  if config.descriptorRevision ≠ "" && config.descriptorRevision ≠ d.descriptorRevision then
    v.report .validationRevisionChanged (path ++ ".connector")
      "connector descriptor revision changed; refresh and validate again" ""
  else v

def reportConnection (v : Validation) : Validation :=
  if config.connectionConfigured then
    if config.connectionSchemaRevision = "" ||
        !d.acceptedConnectionSchemaRevisions.contains config.connectionSchemaRevision then
      v.report .connectionSchemaIncompatible (path ++ ".connection_ref")
        "Connection schema is incompatible with the active connector" ""
    else v
  else if d.connectionRequirement role = .required then
    v.report .connectionRefRequired (path ++ ".connection_ref") "an active Connection is required" ""
  else v

def reportUnaccepted (v : Validation) : Validation :=
  if d.connectionRequirement role = .none && config.connectionConfigured then
    v.report .optionOwnershipInvalid (path ++ ".connection_ref") "this connector role does not accept a Connection" ""
  else v

def optionCount : ℕ :=
  config.jobOptions.length + config.connectionSettings.length + config.configuredSecretFields.length

def validateEntries (v : Validation) : Validation :=
  (byText config.configuredSecretFields).foldl (validateSecret d role path) <|
    (byKey config.connectionSettings).foldl (validateValue d role .connection (path ++ ".connection_settings")) <|
      (byKey config.jobOptions).foldl (validateValue d role .job (path ++ ".options")) v

def validate : List Issue × List (String × String) :=
  let v : Validation := ⟨[], [], []⟩
  if !d.roles.contains role then
    ((v.report .roleUnsupported (path ++ ".connector") "connector does not support this role" "").issues, [])
  else
    let v := reportUnaccepted d role path config (reportConnection d role path config (reportRevision d path config v))
    if maximumOptions < optionCount config then
      ((v.report .structureInvalid (path ++ ".options") "connector option count exceeds the supported limit" "").issues,
        [])
    else
      let v := d.options.foldl (validateDeclared role path config.connectionConfigured)
        (validateEntries d role path config v)
      (v.issues, v.effective)

end

section

variable {jdk : Jdk} {d : ConnectorDescriptor jdk} {role : ConnectorRole} {owner : ConnectorOptionOwner} {path : String}
  {v : Validation}

def Admitted (d : ConnectorDescriptor jdk) (role : ConnectorRole) (owner : ConnectorOptionOwner)
    (entry : String × String) : Prop :=
  optionPattern entry.1 = true ∧ entry.2.utf8ByteSize ≤ maximumValueBytes ∧
    ∃ policy, declared d entry.1 = some policy ∧ policy.owner = owner ∧ role ∈ policy.roles ∧
      policy.sensitivity ≠ .secret ∧ policy.admits entry.2 = true

def SecretField (d : ConnectorDescriptor jdk) (role : ConnectorRole) (key : String) : Prop :=
  optionPattern key = true ∧
    ∃ o, findOption d key = some o ∧ o.owner = .connection ∧ o.sensitivity = .secret ∧ role ∈ o.roles

theorem validateValue_cases (entry : String × String) : (Admitted d role owner entry ∧ entry.1 ∉ v.seen ∧
      validateValue d role owner path v entry = (v.see entry.1).accept entry.1 entry.2) ∨
    (¬(Admitted d role owner entry ∧ entry.1 ∉ v.seen) ∧ ∃ issue, issue.path = path ∧
      (validateValue d role owner path v entry).issues = v.issues ++ [issue] ∧ issue.code ≠ .structureInvalid) := by
  obtain ⟨key, value⟩ := entry
  dsimp only [validateValue]
  split_ifs with hmalformed hseen
  · refine .inr ⟨?_, _, rfl, rfl, nofun⟩
    rintro ⟨⟨hkey, hbytes, -⟩, -⟩
    rw [hkey, Bool.not_true, Bool.false_or, decide_eq_true_eq] at hmalformed
    exact absurd hbytes (not_le.mpr hmalformed)
  · refine .inr ⟨?_, _, rfl, rfl, nofun⟩
    rintro ⟨-, hnew⟩
    exact hnew (List.contains_iff_mem.mp hseen)
  · have hform : optionPattern key = true ∧ value.utf8ByteSize ≤ maximumValueBytes := by simpa using hmalformed
    have hnew : key ∉ v.seen := fun h => hseen (List.contains_iff_mem.mpr h)
    split
    · next hnone =>
      refine .inr ⟨?_, _, rfl, rfl, nofun⟩
      rintro ⟨⟨-, -, policy, hpolicy, -⟩, -⟩
      rw [hnone] at hpolicy
      cases hpolicy
    · next policy hpolicy =>
      split_ifs with hforbidden hadmits
      · refine .inr ⟨?_, _, rfl, rfl, nofun⟩
        rintro ⟨⟨-, -, policy', hpolicy', howner, hrole, hsecret, -⟩, -⟩
        cases hpolicy.symm.trans hpolicy'
        simp [howner, hrole, hsecret] at hforbidden
      · simp only [ne_eq, Bool.or_eq_true, decide_eq_true_eq, Bool.not_eq_true', not_or, not_not,
          Bool.not_eq_false, List.contains_iff_mem] at hforbidden
        obtain ⟨⟨howner, hrole⟩, hsecret⟩ := hforbidden
        exact .inl ⟨⟨hform.1, hform.2, policy, hpolicy, howner, hrole, hsecret, hadmits⟩, hnew, rfl⟩
      · have hnot : ¬(Admitted d role owner (key, value) ∧ key ∉ v.seen) := by
          rintro ⟨⟨-, -, policy', hpolicy', -, -, -, hadmits'⟩, -⟩
          cases hpolicy.symm.trans hpolicy'
          exact hadmits hadmits'
        cases policy with
        | exact => exact .inr ⟨hnot, _, rfl, rfl, nofun⟩
        | family => exact .inr ⟨hnot, _, rfl, rfl, nofun⟩

theorem validateValue_admitted {entry : String × String} (h : Admitted d role owner entry) (hnew : entry.1 ∉ v.seen) :
    validateValue d role owner path v entry = (v.see entry.1).accept entry.1 entry.2 := by
  grind [validateValue_cases]

theorem validateValue_issues (d : ConnectorDescriptor jdk) (role : ConnectorRole) (owner : ConnectorOptionOwner)
    (path : String) (v : Validation) (entry : String × String) :
    ∃ more, (validateValue d role owner path v entry).issues = v.issues ++ more := by
  rcases validateValue_cases (d := d) (v := v) entry with ⟨-, -, heq⟩ | ⟨-, issue, -, hissues, -⟩
  · rw [heq]
    exact ⟨[], (List.append_nil _).symm⟩
  · exact ⟨[issue], hissues⟩

theorem validateSecret_cases (key : String) : (SecretField d role key ∧ key ∉ v.seen ∧
      validateSecret d role path v key = (v.see key).accept key configuredSecretMarker) ∨
    ∃ issue, issue.path = path ++ ".connection_ref" ∧ issue.code = .secretFieldInvalid ∧
      (validateSecret d role path v key).issues = v.issues ++ [issue] := by
  unfold validateSecret
  split_ifs with hmalformed
  · exact .inr ⟨_, rfl, rfl, rfl⟩
  · simp only [Bool.or_eq_true, Bool.not_eq_true', not_or, Bool.not_eq_false, List.contains_iff_mem] at hmalformed
    split
    · exact .inr ⟨_, rfl, rfl, rfl⟩
    · next o ho =>
      split_ifs with hforbidden
      · exact .inr ⟨_, rfl, rfl, rfl⟩
      · simp only [ne_eq, Bool.or_eq_true, decide_eq_true_eq, Bool.not_eq_true', not_or, not_not, Bool.not_eq_false,
          List.contains_iff_mem] at hforbidden
        obtain ⟨⟨howner, hsecret⟩, hrole⟩ := hforbidden
        exact .inl ⟨⟨hmalformed.1, o, ho, howner, hsecret, hrole⟩, hmalformed.2, rfl⟩

def Validation.taken (v : Validation) (entries : List (String × String)) : Validation :=
  ⟨v.seen ++ entries.map Prod.fst, entries.foldl (fun rows e => put Prod.fst e rows) v.effective, v.issues⟩

theorem taken_cons (v : Validation) (entry : String × String) (entries : List (String × String)) :
    ((v.see entry.1).accept entry.1 entry.2).taken entries = v.taken (entry :: entries) := by
  simp [Validation.taken, Validation.see, Validation.accept]

end

section

variable {jdk : Jdk} {d : ConnectorDescriptor jdk} {role : ConnectorRole} {path : String} {configured : Bool}
  {v : Validation}

theorem validateDeclared_cases (role : ConnectorRole) (path : String) (configured : Bool) (v : Validation)
    (o : ConnectorOptionDescriptor jdk) : (validateDeclared role path configured v o).seen = v.seen ∧
      ((validateDeclared role path configured v o).issues = v.issues ∨
        (role ∈ o.roles ∧ o.required = true ∧ o.defaultValue = none ∧ o.key ∉ v.seen) ∧
          ∃ issue, (issue.path = path ++ "." ++ if o.owner = .job then "options" else "connection_ref") ∧
            issue.code = .optionRequired ∧ (validateDeclared role path configured v o).issues = v.issues ++ [issue]) := by
  unfold validateDeclared
  split
  · exact ⟨rfl, .inl rfl⟩
  · next hskip =>
    simp only [Bool.or_eq_true, Bool.not_eq_true', not_or, Bool.not_eq_false, List.contains_iff_mem] at hskip
    obtain ⟨⟨hrole, -⟩, hnew⟩ := hskip
    split
    · exact ⟨rfl, .inl rfl⟩
    · next hdefault =>
      by_cases hrequired : o.required = true
      · rw [if_pos hrequired]
        exact ⟨rfl, .inr ⟨⟨hrole, hrequired, hdefault, hnew⟩, _, rfl, rfl, rfl⟩⟩
      · rw [if_neg hrequired]
        exact ⟨rfl, .inl rfl⟩

end

theorem byKey_perm (entries : List (String × String)) : (byKey entries).Perm entries := List.perm_insertionSort _ _

theorem byText_perm (texts : List String) : (byText texts).Perm texts := List.perm_insertionSort _ _

end AstraSync.ConnectorOptions
