import AstraSync.ConnectionRequests

namespace AstraSync.ConnectionRetries

open ByteStrings Connections ConnectionRepository ConnectionService ConnectionRequests CompletedRequests
open Results Transitions
open JobMutations (MutationOutcome)

section

variable {c : Context} {m : Mutation} {s t : Store} {result : MutationResult}

theorem safeConnection_safe (stored : Connection) : safeConnection (safeConnection stored) = safeConnection stored := by
  simp [safeConnection, List.filter_filter]

theorem safeResult_safe (result : MutationResult) : safeResult (safeResult result) = safeResult result := by
  have htest : ∀ t, safeTest (safeTest t) = safeTest t := fun _ => rfl
  simp [safeResult, Function.comp_def, safeConnection_safe, htest]

def Safe (s : Store) : Prop := ∀ e ∈ s.idempotency, safeResult e.result = e.result

theorem apply_log (h : apply c s m = .ok (t, result)) :
    (t = s ∧ ∃ kept, look s.idempotency m.key m.identity.requestDigest = .replay kept ∧ result = replayed kept) ∨
      (look s.idempotency m.key m.identity.requestDigest = .fresh ∧
        t.idempotency = s.idempotency ++ [⟨m.key, m.identity.requestDigest, safeResult result⟩]) := by
  obtain ⟨-, ⟨kept, hlook, rfl, hresult⟩ | ⟨hlook, next, happly, -, -, hlog, -⟩⟩ := apply_ok h
  · exact .inl ⟨rfl, kept, hlook, hresult⟩
  · rw [(applyMutation_untouched happly).idempotency] at hlog
    exact .inr ⟨hlook, hlog⟩

theorem Safe.apply (h : Safe s) (happly : apply c s m = .ok (t, result)) : Safe t := by
  obtain ⟨rfl, -⟩ | ⟨-, hlog⟩ := apply_log happly
  · exact h
  · intro e he
    rw [hlog] at he
    rcases List.mem_append.mp he with he | he
    · exact h e he
    · rw [List.mem_singleton.mp he]
      exact safeResult_safe result

theorem apply_stands (h : Safe s) (happly : apply c s m = .ok (t, result)) :
    ∃ kept, Stands t.idempotency ⟨m.key, m.identity.requestDigest, kept⟩ ∧
      replayed kept = replayed (safeResult result) := by
  obtain ⟨rfl, kept, hlook, rfl⟩ | ⟨hlook, hlog⟩ := apply_log happly
  · have hstands := stands_replay hlook
    have hsafe : safeResult kept = kept := h _ (List.mem_of_find?_eq_some hstands)
    refine ⟨kept, hstands, ?_⟩
    change replayed kept = replayed (replayed (safeResult kept))
    rw [hsafe]
    rfl
  · rw [hlog]
    exact ⟨safeResult result, stands_fresh hlook _, rfl⟩

theorem apply_kept {e : Entry RequestKey Bytes MutationResult} (h : Stands s.idempotency e)
    (happly : apply c s m = .ok (t, result)) : Stands t.idempotency e := by
  obtain ⟨rfl, -⟩ | ⟨-, hlog⟩ := apply_log happly
  · exact h
  · rw [hlog]
    exact stands_append h _

theorem apply_replay {kept : MutationResult} (hvalid : m.invalid = none)
    (h : Stands s.idempotency ⟨m.key, m.identity.requestDigest, kept⟩) : apply c s m = .ok (s, replayed kept) := by
  unfold apply
  rw [hvalid, show look s.idempotency m.key m.identity.requestDigest = .replay kept from look_stands h]
  rfl

end

section

variable {c : Config} {s t : System Store}

def forgets (key : RequestKey) : Event Outside → Bool
  | .outside (.forget dropped) => dropped = key
  | _ => false

theorem safe_step (s : System Store) (e : Event Outside) (t : System Store) (h : Safe s.store)
    (hstep : step c (postgres c) s e = some t) : Safe t.store := by
  cases e with
  | receive =>
    cases hstep
    unfold receive
    split <;> exact h
  | commit =>
    obtain ⟨p, -, rfl⟩ := Option.map_eq_some_iff.mp hstep
    unfold commit
    split
    · exact h
    · next happly => exact h.apply happly
  | outside o =>
    cases hstep
    cases o with
    | others => exact h
    | forget => exact fun e he => h e (List.mem_of_mem_filter he)

variable {entry : Entry RequestKey Bytes MutationResult}

theorem stands_step (s : System Store) (e : Event Outside)
    (t : System Store) (h : Stands s.store.idempotency entry) (hkept : forgets entry.key e = false)
    (hstep : step c (postgres c) s e = some t) : Stands t.store.idempotency entry := by
  cases e with
  | receive =>
    cases hstep
    unfold receive
    split <;> exact h
  | commit =>
    obtain ⟨p, -, rfl⟩ := Option.map_eq_some_iff.mp hstep
    unfold commit
    split
    · exact h
    · next happly => exact apply_kept h happly
  | outside o =>
    cases hstep
    cases o with
    | others => exact h
    | forget key =>
      -- the record of another request is dropped
      have hne : key ≠ entry.key := by simpa [forgets] using hkept
      refine stands_filter h fun x hx hkey => ?_
      rw [hkey]
      simpa using hne.symm

theorem run_stands {events : List (Event Outside)}
    (h : Stands s.store.idempotency entry) (hkept : ∀ e ∈ events, forgets entry.key e = false)
    (hrun : run (step c (postgres c)) s events = some t) : Stands t.store.idempotency entry :=
  run_preserves_on (A := fun s => Stands s.store.idempotency entry) stands_step h hkept hrun

/-- What the service asks, before it looks up the key, of the Connection stored under the name. -/
def repeatable (c : Config) (env : Environment) (r : Request) (stored : Option Connection) : Bool :=
  let valid (next : Connection) : Bool := (next.validate c.parseUUID).isNone
  match r.body with
  | .create connector displayName description settings binding =>
    (currentDescriptor env connector).toOption.any fun d => d.connectionCapable &&
      (c.validateConnectionSettings d settings).toOption.any fun accepted =>
        (secretLocatorFromProto c d binding).toOption.any fun locator =>
          (validateSecretPresence d locator).isOk &&
            valid ⟨r.tenantID, r.name, env.uid, d.name, 1, .disabled, displayName, description,
              ⟨1, d.descriptorRevision, d.connectionSchemaRevision, accepted, locator, env.now⟩, env.now, env.now⟩
  | .update _ displayName description settings => stored.any fun current =>
    (currentDescriptor env current.connector).toOption.any fun d =>
      (c.validateConnectionSettings d settings).toOption.any fun accepted =>
        let changes := effective current accepted d.descriptorRevision d.connectionSchemaRevision
        (validateSecretPresence d current.current.secretLocator).isOk &&
          ((!changes && current.displayName = displayName && current.description = description) ||
            (!changes || current.state = .disabled) && valid (current.replaced displayName description accepted
              d.descriptorRevision d.connectionSchemaRevision env.now))
  | .rotate _ binding => stored.any fun current =>
    (secretLocatorForRotation c (findCurrentDescriptor env current.connector) current.current.secretLocator
      binding).toOption.any fun locator => current.current.secretLocator ≠ locator &&
        valid (current.rotated locator current.current.descriptorRevision current.current.connectionSchemaRevision env.now)
  | .enable _ => stored.any fun current => (findCurrentDescriptor env current.connector).any fun d =>
    (validateSecretPresence d current.current.secretLocator).isOk &&
      (current.state = .active || compatibility current (some d) = .compatible && valid (current.moved .active env.now))
  | .disable _ => stored.any fun current => current.state = .disabled || valid (current.moved .disabled env.now)
  | .delete _ => stored.isSome
  | .test _ => stored.any fun current =>
    compatibility current (findCurrentDescriptor env current.connector) = .compatible &&
      env.policy.any fun policy => (policy.validate c.toContext).isNone

def traced (env : Environment) : Bool :=
  !JobLifecycle.blank env.requestID && env.requestID.utf8ByteSize ≤ 128 && !JobLifecycle.blank env.auditEventID &&
    env.auditEventID.utf8ByteSize ≤ 128 && env.occurredAt ≠ JobLifecycle.zeroTime

section

variable {get : Bytes → Bytes → Except RepositoryError Connection} {env : Environment} {r : Request}
  {p : Prepared} {actorID : String} {current : Connection} {candidate : Option Connection}
  {test : Option TestOperation} {m : Mutation}

/-- What the service asks of a request whatever is stored. -/
structure WellFormed (c : Config) (r : Request) : Prop where
  enabled : (if r.body.kind = .test then c.testsEnabled else c.mutationsEnabled) = true
  name : validateConnectionName r.name = .ok ()
  version : r.body.kind ≠ .create → 0 < r.body.expectedVersion
  key : ∀ env actorID candidate test, ∃ m, mutation c env r actorID candidate test = .ok m

theorem loadForMutation_eq_ok : loadForMutation get r = .ok current ↔
    validateConnectionName r.name = .ok () ∧ 0 < r.body.expectedVersion ∧ get r.tenantID r.name = .ok current := by
  simp only [loadForMutation, bind_eq_ok, check_ok, decide_eq_true_eq]
  constructor
  · rintro ⟨⟨⟩, hname, -, hversion, hget⟩
    exact ⟨hname, hversion, mapError_ok hget⟩
  · rintro ⟨hname, hversion, hget⟩
    rw [hget]
    exact ⟨(), hname, (), hversion, rfl⟩

theorem mutation_key (h : mutation c env r actorID candidate test = .ok m) :
    ∀ env actorID candidate test, ∃ m, mutation c env r actorID candidate test = .ok m := by
  intro env' actorID' candidate' test'
  unfold mutation at h ⊢
  split_ifs at h ⊢
  exact ⟨_, rfl⟩

theorem wellFormed_of_load (hkind : r.body.kind ≠ .test) (henabled : c.mutationsEnabled = true)
    (hload : loadForMutation get r = .ok current) (hm : mutation c env r actorID candidate test = .ok m) :
    WellFormed c r := by
  obtain ⟨hname, hversion, -⟩ := loadForMutation_eq_ok.mp hload
  exact ⟨by rwa [if_neg hkind], hname, fun _ => hversion, mutation_key hm⟩

theorem prepare_wellFormed (h : prepare c get env r = .ok p) : WellFormed c r := by
  cases hbody : r.body with
  | create =>
    simp only [prepare, hbody, ConnectionService.createConnection, bind_eq_ok, check_ok] at h
    obtain ⟨_, -, -, henabled, ⟨⟩, hname, _, -, -, -, _, -, _, -, -, -, _, -, _, hm, -⟩ := h
    exact ⟨by simpa [hbody, Body.kind] using henabled, hname, by simp [hbody, Body.kind], mutation_key hm⟩
  | update =>
    simp only [prepare, hbody, ConnectionService.updateConnection, bind_eq_ok, check_ok] at h
    obtain ⟨_, -, -, henabled, _, hload, _, -, _, -, -, -, _, -, _, hm, -⟩ := h
    exact wellFormed_of_load (by simp [hbody, Body.kind]) henabled hload hm
  | rotate =>
    simp only [prepare, hbody, rotateConnection, bind_eq_ok, check_ok] at h
    obtain ⟨_, -, -, henabled, _, hload, _, -, _, -, _, hm, -⟩ := h
    exact wellFormed_of_load (by simp [hbody, Body.kind]) henabled hload hm
  | enable | disable =>
    simp only [prepare, hbody, setConnectionState, bind_eq_ok, check_ok] at h
    obtain ⟨_, -, -, henabled, _, hload, -, -, _, -, _, hm, -⟩ := h
    exact wellFormed_of_load (by simp [hbody, Body.kind]) henabled hload hm
  | delete =>
    simp only [prepare, hbody, ConnectionService.deleteConnection, bind_eq_ok, check_ok] at h
    obtain ⟨_, -, -, henabled, _, hload, _, hm, -⟩ := h
    exact wellFormed_of_load (by simp [hbody, Body.kind]) henabled hload hm
  | test =>
    simp only [prepare, hbody, testConnection, bind_eq_ok, check_ok] at h
    obtain ⟨_, -, -, henabled, _, hload, -, -, h⟩ := h
    obtain ⟨hname, hversion, -⟩ := loadForMutation_eq_ok.mp hload
    cases hpolicy : env.policy with
    | none => simp [hpolicy] at h
    | some =>
      simp only [hpolicy, bind_eq_ok, check_ok] at h
      obtain ⟨-, -, _, hm, -⟩ := h
      exact ⟨by simpa [hbody, Body.kind] using henabled, hname, fun _ => hversion, mutation_key hm⟩

theorem secretLocatorForRotation_valid {d : Option Descriptor} {held locator : SecretLocator} {binding : BindingRequest}
    (h : secretLocatorForRotation c d held binding = .ok locator) : locator.validate c.parseUUID = none := by
  unfold secretLocatorForRotation at h
  split at h
  · cases h
  · unfold validateKubernetesBinding at h
    split at h
    · cases h
    · dsimp only at h
      split_ifs at h with hrefused
      cases h
      simp only [not_or, Bool.not_eq_true, Option.isSome_eq_false_iff, Option.isNone_iff_eq_none] at hrefused
      exact hrefused.2.2

theorem isOk_unit {x : Except ConnectionService.Failure Unit} (h : x.isOk = true) : x = .ok () := by
  cases x with
  | ok => rfl
  | error => cases h

theorem WellFormed.load (h : WellFormed c r) (hkind : r.body.kind ≠ .create) (hget : get r.tenantID r.name = .ok current) :
    loadForMutation get r = .ok current :=
  loadForMutation_eq_ok.mpr ⟨h.name, h.version hkind, hget⟩

def Prepares (c : Config) (get : Bytes → Bytes → Except RepositoryError Connection) (env : Environment) (r : Request)
    (actorID : String) : Prop :=
  ∃ p candidate test, prepare c get env r = .ok p ∧ mutation c env r actorID candidate test = .ok p.mutation

section

variable (hform : WellFormed c r) (hactor : authorize env = .ok actorID)
  (h : repeatable c env r (get r.tenantID r.name).toOption = true) {version : Int64}
  {connector displayName description : Bytes} {settings : List (Bytes × Bytes)} {binding : BindingRequest}

include hform hactor h

theorem create_prepares (hbody : r.body = .create connector displayName description settings binding) :
    Prepares c get env r actorID := by
  have henabled := hform.enabled
  rw [hbody] at henabled
  simp only [repeatable, hbody, Option.any_eq_true, toOption_eq_some, Bool.and_eq_true,
    Option.isNone_iff_eq_none] at h
  obtain ⟨d, hd, hcapable, accepted, haccepted, locator, hlocator, hpresent, hvalid⟩ := h
  obtain ⟨m, hm⟩ := hform.key env actorID (some _) none
  refine ⟨⟨none, m⟩, _, _, ?_, hm⟩
  simp only [prepare, hbody, ConnectionService.createConnection, bind_eq_ok, check_ok]
  exact ⟨actorID, hactor, (), henabled, (), hform.name, d, hd, (), hcapable, accepted, mapError_of_ok haccepted,
    locator, hlocator, (), isOk_unit hpresent, _, mapError_of_ok (checked_of_valid hvalid), m, hm, rfl⟩

theorem update_prepares (hbody : r.body = .update version displayName description settings) :
    Prepares c get env r actorID := by
  have henabled := hform.enabled
  rw [hbody] at henabled
  simp only [repeatable, hbody, Option.any_eq_true, toOption_eq_some, Bool.and_eq_true, Bool.or_eq_true,
    Bool.not_eq_true', decide_eq_true_eq, Option.isNone_iff_eq_none] at h
  obtain ⟨current, hget, d, hd, accepted, haccepted, hpresent, hchange⟩ := h
  obtain ⟨⟨next, changed⟩, hnext⟩ := replace_of_valid (hchange.imp and_assoc.mp fun h => ⟨fun heffective =>
    h.1.resolve_left (by rw [heffective]; exact Bool.noConfusion), h.2⟩)
  obtain ⟨m, hm⟩ := hform.key env actorID (some next) none
  refine ⟨⟨some current, m⟩, _, _, ?_, hm⟩
  simp only [prepare, hbody, ConnectionService.updateConnection, bind_eq_ok, check_ok]
  exact ⟨actorID, hactor, (), henabled, current, hform.load (by simp [hbody, Body.kind]) hget, d, hd, accepted,
    mapError_of_ok haccepted, (), isOk_unit hpresent, _, mapError_of_ok hnext, m, hm, rfl⟩

theorem rotate_prepares (hbody : r.body = .rotate version binding) : Prepares c get env r actorID := by
  have henabled := hform.enabled
  rw [hbody] at henabled
  simp only [repeatable, hbody, Option.any_eq_true, toOption_eq_some, Bool.and_eq_true, decide_eq_true_eq,
    Option.isNone_iff_eq_none] at h
  obtain ⟨current, hget, locator, hlocator, hne, hvalid⟩ := h
  obtain ⟨next, hnext⟩ := rotate_of_valid (secretLocatorForRotation_valid hlocator) hne hvalid
  obtain ⟨m, hm⟩ := hform.key env actorID (some next) none
  refine ⟨⟨some current, m⟩, _, _, ?_, hm⟩
  simp only [prepare, hbody, rotateConnection, bind_eq_ok, check_ok]
  exact ⟨actorID, hactor, (), henabled, current, hform.load (by simp [hbody, Body.kind]) hget, locator, hlocator, next,
    mapError_of_ok hnext, m, hm, rfl⟩

theorem enable_prepares (hbody : r.body = .enable version) : Prepares c get env r actorID := by
  have henabled := hform.enabled
  rw [hbody] at henabled
  simp only [repeatable, hbody, Option.any_eq_true, toOption_eq_some, Bool.and_eq_true, Bool.or_eq_true,
    decide_eq_true_eq, Option.isNone_iff_eq_none] at h
  obtain ⟨current, hget, d, hd, hpresent, hmove⟩ := h
  rw [← hd] at hmove
  obtain ⟨⟨next, changed⟩, hnext⟩ := setState_of_valid (hmove.imp_right fun h => ⟨fun _ => h.1, h.2⟩)
  obtain ⟨m, hm⟩ := hform.key env actorID (some next) none
  refine ⟨⟨some current, m⟩, _, _, ?_, hm⟩
  simp only [prepare, hbody, setConnectionState, bind_eq_ok, check_ok]
  refine ⟨actorID, hactor, (), henabled, current, hform.load (by simp [hbody, Body.kind]) hget, (), ?_, _,
    mapError_of_ok hnext, m, hm, rfl⟩
  rw [hd]
  exact isOk_unit hpresent

theorem disable_prepares (hbody : r.body = .disable version) : Prepares c get env r actorID := by
  have henabled := hform.enabled
  rw [hbody] at henabled
  simp only [repeatable, hbody, Option.any_eq_true, toOption_eq_some, Bool.or_eq_true, decide_eq_true_eq,
    Option.isNone_iff_eq_none] at h
  obtain ⟨current, hget, hmove⟩ := h
  have hmoved : current.state = .disabled ∨ (ConnectionState.disabled = .active →
      compatibility current (findCurrentDescriptor env current.connector) = .compatible) ∧
      (current.moved .disabled env.now).validate c.parseUUID = none :=
    hmove.imp_right fun hvalid => ⟨nofun, hvalid⟩
  obtain ⟨⟨next, changed⟩, hnext⟩ := setState_of_valid hmoved
  obtain ⟨m, hm⟩ := hform.key env actorID (some next) none
  refine ⟨⟨some current, m⟩, _, _, ?_, hm⟩
  simp only [prepare, hbody, setConnectionState, bind_eq_ok, check_ok]
  exact ⟨actorID, hactor, (), henabled, current, hform.load (by simp [hbody, Body.kind]) hget, (), rfl, _,
    mapError_of_ok hnext, m, hm, rfl⟩

theorem delete_prepares (hbody : r.body = .delete version) : Prepares c get env r actorID := by
  have henabled := hform.enabled
  rw [hbody] at henabled
  simp only [repeatable, hbody, Option.isSome_iff_exists, toOption_eq_some] at h
  obtain ⟨current, hget⟩ := h
  obtain ⟨m, hm⟩ := hform.key env actorID none none
  refine ⟨⟨some current, m⟩, _, _, ?_, hm⟩
  simp only [prepare, hbody, ConnectionService.deleteConnection, bind_eq_ok, check_ok]
  exact ⟨actorID, hactor, (), henabled, current, hform.load (by simp [hbody, Body.kind]) hget, m, hm, rfl⟩

theorem test_prepares (hbody : r.body = .test version) : Prepares c get env r actorID := by
  have henabled := hform.enabled
  rw [hbody] at henabled
  simp only [repeatable, hbody, Option.any_eq_true, toOption_eq_some, Bool.and_eq_true, decide_eq_true_eq] at h
  obtain ⟨current, hget, hcompatible, policy, hpolicy, hvalid⟩ := h
  obtain ⟨m, hm⟩ := hform.key env actorID none (some (queuedTest c env r current policy actorID))
  refine ⟨⟨some current, m⟩, _, _, ?_, hm⟩
  simp only [prepare, hbody, testConnection, hpolicy, bind_eq_ok, check_ok, decide_eq_true_eq]
  exact ⟨actorID, hactor, (), henabled, current, hform.load (by simp [hbody, Body.kind]) hget, (), hcompatible, (),
    hvalid, m, hm, rfl⟩

/-- A request that could be prepared once is prepared again, provided that it is repeatable. -/
theorem prepare_of_repeatable : Prepares c get env r actorID := by
  cases hbody : r.body with
  | create => exact create_prepares hform hactor h hbody
  | update => exact update_prepares hform hactor h hbody
  | rotate => exact rotate_prepares hform hactor h hbody
  | enable => exact enable_prepares hform hactor h hbody
  | disable => exact disable_prepares hform hactor h hbody
  | delete => exact delete_prepares hform hactor h hbody
  | test => exact test_prepares hform hactor h hbody

end

theorem mutation_valid (h : mutation c env r actorID candidate test = .ok m) (htraced : traced env = true)
    {first : Mutation} (hkey : first.key = requestKey c r actorID)
    (hdigest : first.identity.requestDigest = requestDigest c r) (hfirst : first.invalid = none) : m.invalid = none := by
  unfold mutation at h
  split_ifs at h
  cases h
  have hactor : first.identity.actorID = actorID := congrArg RequestKey.actorID hkey
  have hmethod : first.identity.method = method r.body.kind := congrArg RequestKey.method hkey
  have hfingerprint : first.identity.keyFingerprint = c.keyedDigest r.idempotencyKey :=
    congrArg RequestKey.keyFingerprint hkey
  simp only [Mutation.invalid, Option.map_eq_none_iff, JobMutations.MutationIdentity.validate, ite_eq_right_iff, reduceCtorEq,
    imp_false, not_or, hactor, hmethod, hfingerprint, hdigest] at hfirst ⊢
  simp only [traced, Bool.and_eq_true, Bool.not_eq_true', decide_eq_true_eq] at htraced
  obtain ⟨⟨⟨⟨hrequest, hrequestSize⟩, haudit⟩, hauditSize⟩, hoccurred⟩ := htraced
  obtain ⟨hactor, hactorSize, hmethod, hmethodSize, hfingerprint, hdigest, -⟩ := hfirst
  exact ⟨hactor, hactorSize, hmethod, hmethodSize, hfingerprint, hdigest, ne_true_of_eq_false hrequest,
    Nat.not_lt.mpr hrequestSize, ne_true_of_eq_false haudit, Nat.not_lt.mpr hauditSize, hoccurred⟩

end

def ShownAlike (a b : MutationResult) : Prop :=
  (∀ descriptor outcome counts latest,
    a.connection.map (projectConnection · descriptor outcome counts latest) =
      b.connection.map (projectConnection · descriptor outcome counts latest)) ∧
  (∀ current, a.test.map (testToProto · current) = b.test.map (testToProto · current)) ∧ a.tombstone = b.tombstone

theorem replayed_shown (result : MutationResult) : ShownAlike (replayed (safeResult result)) result := by
  refine ⟨fun descriptor outcome counts latest => ?_, fun current => ?_, rfl⟩
  · simp [replayed, safeResult, Function.comp_def, projectConnection_safe]
  · simp [replayed, safeResult, Function.comp_def, testToProto_safe]

/-- The same request once more, by the same actor and while its record is kept: provided that it is repeatable on what
is then stored under its name, it changes nothing and has the answer of the first. -/
theorem run_replayed (c : Config) {before between meanwhile : List (Event Outside)} {s u v : System Store} {n : ℕ}
    {p : Pending} {store : Store} {result : MutationResult} {env : Environment}
    (hbefore : run (step c (postgres c)) (idle emptyStore) before = some s) (hp : s.pending[n]? = some p)
    (happly : (postgres c).apply s.store p.prepared.mutation = .ok (store, result))
    (hbetween : run (step c (postgres c)) s (.commit n :: between) = some u) (hactor : env.actorID = p.env.actorID)
    (hmeanwhile : run (step c (postgres c)) u (.receive p.request env :: meanwhile) = some v)
    (hkept : ∀ e ∈ between ++ meanwhile, forgets p.prepared.mutation.key e = false)
    (htraced : traced env = true)
    (hrepeatable : repeatable c env p.request
      ((postgres c).get u.store p.request.tenantID p.request.name).toOption = true) :
    ∃ retry answer, prepare c ((postgres c).get u.store) env p.request = .ok retry ∧
      (postgres c).apply v.store retry.mutation = .ok (v.store, answer) ∧ answer.outcome = .replayed ∧
        ShownAlike answer result := by
  obtain ⟨get, actorID, hid, hmade⟩ := run_made hbefore p (List.mem_of_getElem? hp)
  obtain ⟨hkey, hdigest⟩ := hmade.key
  have hform : ∀ p ∈ s.pending, WellFormed c p.request :=
    run_preserves (step_prepared (Q := fun p => WellFormed c p.request) fun _ _ _ _ h => prepare_wellFormed h)
      (fun p hp => by cases hp) hbefore
  have hauthorized : authorize env = .ok actorID := by
    unfold authorize
    rw [hactor, hid]
  obtain ⟨retry, candidate, test, hretry, hm⟩ :=
    prepare_of_repeatable (hform p (List.mem_of_getElem? hp)) hauthorized hrepeatable
  have hvalid : retry.mutation.invalid = none := mutation_valid hm htraced hkey hdigest (apply_ok happly).1
  obtain ⟨hkey', hdigest'⟩ := prepare_key (hactor.trans hid) hretry
  have hsafe : Safe s.store := run_preserves_on (A := fun s => Safe s.store) (P := fun _ => True)
    (fun s e t h _ => safe_step s e t h) (fun _ h => by cases h) (fun _ _ => trivial) hbefore
  obtain ⟨kept, hstands, hanswer⟩ := apply_stands hsafe happly
  -- the record from the commit on to the retry
  obtain ⟨after, hcommit, hrest⟩ := run_cons_eq.mp hbetween
  have hstore : after.store = store := by
    obtain ⟨p', hp', rfl⟩ := Option.map_eq_some_iff.mp hcommit
    rw [hp] at hp'
    cases hp'
    unfold commit
    rw [happly]
  rw [← hstore] at hstands
  have hread := run_stands hstands (fun e he => hkept e (List.mem_append_left _ he)) hrest
  have hlast : Stands v.store.idempotency ⟨p.prepared.mutation.key, p.prepared.mutation.identity.requestDigest, kept⟩ := by
    refine run_stands hread (fun e he => ?_) hmeanwhile
    rcases List.mem_cons.mp he with rfl | he
    · rfl
    · exact hkept e (List.mem_append_right _ he)
  rw [hkey, hdigest, ← hkey', ← hdigest'] at hlast
  refine ⟨retry, replayed kept, hretry, apply_replay hvalid hlast, rfl, ?_⟩
  rw [hanswer]
  exact replayed_shown result

end

def rotation : Request := sampleRequest (.rotate 1 (sampleBinding "second"))

def creation : Request := sampleRequest (.create (lit "mysql-cdc") [] [] [] (sampleBinding "first"))

def rotated : List (Event Outside) := created ++ [.receive rotation (sampleEnvironment "a" 20 "2")]

def retried (before between : List (Event Outside)) (env : Environment) :
    Option (MutationOutcome × Option String × Option ConnectionService.Failure × Bool) :=
  (run (step sampleConfig (postgres sampleConfig)) (idle emptyStore) before).bind fun s => s.pending[0]?.bind fun p =>
    ((postgres sampleConfig).apply s.store p.prepared.mutation).toOption.bind fun answer =>
      (run (step sampleConfig (postgres sampleConfig)) s (.commit 0 :: between)).map fun u =>
        (answer.2.outcome, p.env.actorID,
          match prepare sampleConfig ((postgres sampleConfig).get u.store) env p.request with
          | .ok _ => none
          | .error failure => some failure,
          traced env && repeatable sampleConfig env p.request
            ((postgres sampleConfig).get u.store p.request.tenantID p.request.name).toOption)

theorem retried_some {before between : List (Event Outside)} {env : Environment} {outcome : MutationOutcome}
    {actorID : Option String} {failure : Option ConnectionService.Failure} {passed : Bool}
    (h : retried before between env = some (outcome, actorID, failure, passed)) :
    ∃ s p store result u, run (step sampleConfig (postgres sampleConfig)) (idle emptyStore) before = some s ∧
      s.pending[0]? = some p ∧ (postgres sampleConfig).apply s.store p.prepared.mutation = .ok (store, result) ∧
      result.outcome = outcome ∧ run (step sampleConfig (postgres sampleConfig)) s (.commit 0 :: between) = some u ∧
      p.env.actorID = actorID ∧ (traced env && repeatable sampleConfig env p.request
        ((postgres sampleConfig).get u.store p.request.tenantID p.request.name).toOption) = passed ∧
      ∀ f, failure = some f → prepare sampleConfig ((postgres sampleConfig).get u.store) env p.request = .error f := by
  obtain ⟨s, hs, h⟩ := Option.bind_eq_some_iff.mp h
  obtain ⟨p, hp, h⟩ := Option.bind_eq_some_iff.mp h
  obtain ⟨⟨store, result⟩, happly, h⟩ := Option.bind_eq_some_iff.mp h
  obtain ⟨u, hu, h⟩ := Option.map_eq_some_iff.mp h
  simp only [Prod.mk.injEq] at h
  obtain ⟨houtcome, hactor, hfailure, hpassed⟩ := h
  refine ⟨s, p, store, result, u, hs, hp, toOption_eq_some.mp happly, houtcome, hu, hactor, hpassed, ?_⟩
  rintro f rfl
  split at hfailure
  · cases hfailure
  · grind

/-- The locator of a rotation that was carried out is in force, so that the same rotation is refused. -/
theorem rotation_refused :
    ∃ s p store result u, run (step sampleConfig (postgres sampleConfig)) (idle emptyStore) rotated = some s ∧
      s.pending[0]? = some p ∧ (postgres sampleConfig).apply s.store p.prepared.mutation = .ok (store, result) ∧
      result.outcome = .changed ∧ run (step sampleConfig (postgres sampleConfig)) s [.commit 0] = some u ∧
      (sampleEnvironment "a" 30 "3").actorID = p.env.actorID ∧
      prepare sampleConfig ((postgres sampleConfig).get u.store) (sampleEnvironment "a" 30 "3") p.request =
        .error ⟨.failedPrecondition, "Connection lifecycle transition is not allowed"⟩ := by
  have hrun : retried rotated [] (sampleEnvironment "a" 30 "3") = some (.changed, some "a",
      some ⟨.failedPrecondition, "Connection lifecycle transition is not allowed"⟩, false) := by decide +kernel
  obtain ⟨s, p, store, result, u, hs, hp, happly, houtcome, hu, hactor, -, hfailure⟩ := retried_some hrun
  exact ⟨s, p, store, result, u, hs, hp, happly, houtcome, hu, hactor.symm, hfailure _ rfl⟩

/-- A creation is not refused for what has become of the Connection. -/
theorem run_replayed_creation : ∃ s p store result u retry answer,
      run (step sampleConfig (postgres sampleConfig)) (idle emptyStore)
        [.receive creation (sampleEnvironment "a" 10 "1")] = some s ∧ s.pending[0]? = some p ∧
      (postgres sampleConfig).apply s.store p.prepared.mutation = .ok (store, result) ∧ result.outcome = .changed ∧
      run (step sampleConfig (postgres sampleConfig)) s [.commit 0, renames "b" "theirs" 1 "2", .commit 0] = some u ∧
      prepare sampleConfig ((postgres sampleConfig).get u.store) (sampleEnvironment "a" 30 "3") p.request = .ok retry ∧
      (postgres sampleConfig).apply (receive sampleConfig (postgres sampleConfig) u p.request
        (sampleEnvironment "a" 30 "3")).store retry.mutation = .ok (u.store, answer) ∧
      answer.outcome = .replayed ∧ ShownAlike answer result := by
  have hrun : retried [.receive creation (sampleEnvironment "a" 10 "1")] [renames "b" "theirs" 1 "2", .commit 0]
      (sampleEnvironment "a" 30 "3") = some (.changed, some "a", none, true) := by decide +kernel
  obtain ⟨s, p, store, result, u, hs, hp, happly, houtcome, hu, hactor, hpassed, -⟩ := retried_some hrun
  obtain ⟨htraced, hrepeatable⟩ := Bool.and_eq_true_iff.mp hpassed
  have hreceived : run (step sampleConfig (postgres sampleConfig)) u [.receive p.request (sampleEnvironment "a" 30 "3")] =
      some (receive sampleConfig (postgres sampleConfig) u p.request (sampleEnvironment "a" 30 "3")) := rfl
  obtain ⟨retry, answer, hretry, hanswer, hreplayed, hshown⟩ :=
    run_replayed sampleConfig hs hp happly hu hactor.symm hreceived (by simp [renames, forgets]) htraced
      hrepeatable
  refine ⟨s, p, store, result, u, retry, answer, hs, hp, happly, houtcome, hu, hretry, ?_, hreplayed, hshown⟩
  have hstore : (receive sampleConfig (postgres sampleConfig) u p.request (sampleEnvironment "a" 30 "3")).store =
      u.store := by
    unfold receive
    split <;> rfl
  rw [hanswer, hstore]

end AstraSync.ConnectionRetries
