import AstraSync.ConnectionService

namespace AstraSync.ConnectionRequests

open ByteStrings SignedNumerals JobLifecycle Connections ConnectionRepository ConnectionService Results
open Transitions
open JobMutations (MutationOutcome)

variable {σ O : Type}

structure Repository (σ O : Type) where
  get : σ → Bytes → Bytes → Except RepositoryError Connection
  apply : σ → Mutation → Except RepositoryError (σ × MutationResult)
  outside : σ → O → σ

inductive Outside
  | others (tests : List TestOperation) (references : List Reference)
  | forget (key : RequestKey)

def outside (s : Store) : Outside → Store
  | .others tests references => { s with tests, references }
  | .forget key => { s with idempotency := s.idempotency.filter (·.key ≠ key) }

def postgres (c : Config) : Repository Store Outside :=
  ⟨ConnectionRepository.get c.toContext, ConnectionRepository.apply c.toContext, outside⟩

def memory (c : Config) : Repository ConnectionMemory.Store (List TestOperation × List (Bytes × ReferenceCounts)) :=
  ⟨ConnectionMemory.get, ConnectionMemory.apply c.toContext,
    fun s others => { s with tests := others.1, references := others.2 }⟩

structure Pending where
  request : Request
  env : Environment
  prepared : Prepared

structure System (σ : Type) where
  store : σ
  pending : List Pending
  used : List Bytes

inductive Event (O : Type)
  | receive (r : Request) (env : Environment)
  | commit (n : ℕ)
  | outside (o : O)

section

variable (c : Config) (repo : Repository σ O)

def receive (s : System σ) (r : Request) (env : Environment) : System σ :=
  match prepare c (repo.get s.store) env r with
  | .error _ => s
  | .ok prepared => { s with pending := s.pending ++ [⟨r, env, prepared⟩] }

def commit (s : System σ) (n : ℕ) (p : Pending) : System σ :=
  match repo.apply s.store p.prepared.mutation with
  | .error _ => { s with pending := s.pending.eraseIdx n }
  | .ok (store, _) => ⟨store, s.pending.eraseIdx n, s.used ++ createdUID p.prepared.mutation⟩

def step (s : System σ) : Event O → Option (System σ)
  | .receive r env => some (receive c repo s r env)
  | .commit n => s.pending[n]?.map (commit repo s n)
  | .outside o => some { s with store := repo.outside s.store o }

end

def fresh (s : System σ) : Event O → Bool
  | .commit n => s.pending[n]?.all fun p => (createdUID p.prepared.mutation).all (· ∉ s.used)
  | _ => true

def idle (store : σ) : System σ := ⟨store, [], []⟩

section

variable {c : Config} {repo : Repository σ O} {s t : System σ}

theorem step_prepared {Q : Pending → Prop}
    (h : ∀ store r env prepared, prepare c (repo.get store) env r = .ok prepared → Q ⟨r, env, prepared⟩)
    (s : System σ) (e : Event O) (t : System σ) (hs : ∀ p ∈ s.pending, Q p) (hstep : step c repo s e = some t) :
    ∀ p ∈ t.pending, Q p := by
  cases e with
  | receive =>
    cases hstep
    unfold receive
    split
    · exact hs
    · grind
  | commit =>
    obtain ⟨p, -, rfl⟩ := Option.map_eq_some_iff.mp hstep
    unfold commit
    split <;> exact fun q hq => hs q (List.mem_of_mem_eraseIdx hq)
  | outside =>
    cases hstep
    exact hs

def AllMade (c : Config) (s : System σ) : Prop :=
  ∀ p ∈ s.pending, ∃ get actorID, p.env.actorID = some actorID ∧ Made c get p.env p.request p.prepared actorID

theorem AllMade.step (s : System σ) (e : Event O) (t : System σ) (h : AllMade c s) (hstep : step c repo s e = some t) :
    AllMade c t :=
  step_prepared (fun _ _ _ _ hprepare => ⟨_, prepare_made hprepare⟩) s e t h hstep

theorem run_made {events : List (Event O)} {store : σ} (hrun : run (step c repo) (idle store) events = some s) :
    AllMade c s :=
  run_preserves AllMade.step (fun p hp => by cases hp) hrun

end

section

variable {c : Config}

def Applied (c : Config) (repo : Repository σ O) (p : Pending) (store : σ) (result : MutationResult) : Prop :=
  ∃ stored, result.connection = some stored ∧ repo.get store p.request.tenantID p.request.name = .ok stored ∧
    InForce c p.env stored p.request.body

def upToDate (p : Pending) : Bool := p.prepared.read.all fun read => read.version = p.request.body.expectedVersion

structure Reads (s : System Store) (read : Connection) : Prop where
  used : read.uid ∈ s.used
  later : ∀ stored, Holds s.store stored → stored.uid = read.uid → stored = read ∨ read.version < stored.version

structure Inv (s : System Store) : Prop where
  sound : Sound s.used s.store
  reads : ∀ p ∈ s.pending, ∀ read, p.prepared.read = some read → Reads s read

variable {s : System Store} {read : Connection}

theorem Reads.later_store (h : Reads s read) {store : Store}
    {pending : List Pending} {more : List Bytes} (hsince : Since s.used s.store store) :
    Reads ⟨store, pending, s.used ++ more⟩ read := by
  refine ⟨List.mem_append_left _ h.used, fun stored' hstored' huid => ?_⟩
  obtain ⟨stored, hstored, heq, hlater⟩ := hsince stored' hstored' (huid ▸ h.used)
  rcases h.later stored hstored (heq.trans huid) with rfl | hlt
  · exact hlater
  · grind

theorem made_read {get : Bytes → Bytes → Except RepositoryError Connection} {env : Environment} {r : Request}
    {p : Prepared} {actorID : String} (h : Made c get env r p actorID) (hread : p.read = some read) :
    get r.tenantID r.name = .ok read := by
  cases h with
  | created candidate kind none built =>
    rw [none] at hread
    cases hread
  | changed current next changes got some built successor inForce =>
    rw [some] at hread
    cases hread
    exact got
  | other current kind got some built =>
    rw [some] at hread
    cases hread
    exact got

theorem Inv.step (s : System Store) (e : Event Outside) (t : System Store) (h : Inv s) (hfresh : fresh s e = true)
    (hstep : step c (postgres c) s e = some t) : Inv t := by
  cases e with
  | receive =>
    cases hstep
    unfold receive
    split
    · exact h
    · next prepared hprepare =>
      refine ⟨h.sound, fun p hp read hread => ?_⟩
      rcases List.mem_append.mp hp with hp | hp
      · obtain ⟨hused, hlater⟩ := h.reads p hp read hread
        exact ⟨hused, hlater⟩
      · rw [List.mem_singleton.mp hp] at hread
        obtain ⟨actorID, -, hmade⟩ := prepare_made hprepare
        have hholds := scanConnection_holds (made_read hmade hread)
        exact ⟨h.sound.holds_used hholds, fun stored hstored huid => .inl (h.sound.holds_of_uid hstored hholds huid)⟩
  | commit =>
    obtain ⟨p, hp, rfl⟩ := Option.map_eq_some_iff.mp hstep
    unfold commit
    split
    · refine ⟨h.sound, fun q hq read hread => ?_⟩
      obtain ⟨hused, hlater⟩ := h.reads q (List.mem_of_mem_eraseIdx hq) read hread
      exact ⟨hused, hlater⟩
    · next store result happly =>
      have heffect := apply_effect happly
      have hnew : ∀ uid ∈ createdUID p.prepared.mutation, uid ∉ s.used := by
        simpa [fresh, hp] using hfresh
      refine ⟨heffect.sound h.sound, fun q hq read hread => ?_⟩
      exact (h.reads q (List.mem_of_mem_eraseIdx hq) read hread).later_store (heffect.since h.sound hnew)
  | outside o =>
    cases hstep
    -- neither rows nor generations are touched
    cases o with
    | others | forget =>
      refine ⟨⟨h.sound.uids, h.sound.joined, h.sound.used⟩, fun p hp read hread => ?_⟩
      exact ⟨(h.reads p hp read hread).used, (h.reads p hp read hread).later⟩

theorem idle_inv : Inv (idle emptyStore) := by
  refine ⟨⟨List.nodup_nil, ?_, ?_⟩, ?_⟩ <;> intro _ h <;> cases h

variable {p : Pending}

theorem made_change (hchanges : p.request.body.changes = true)
    (h : ∃ get actorID, p.env.actorID = some actorID ∧ Made c get p.env p.request p.prepared actorID) :
    ∃ actorID read next, p.prepared.read = some read ∧ Built c p.request actorID (some next) p.prepared.mutation ∧
      Successor read next ∧ InForce c p.env next p.request.body := by
  obtain ⟨get, actorID, -, hmade⟩ := h
  cases hmade with
  | created candidate kind read built => simp [Body.changes, kind] at hchanges
  | changed current next changes got read built successor inForce =>
    exact ⟨actorID, current, next, read, built, successor, inForce⟩
  | other current kind got read built => rcases kind with kind | kind <;> simp [Body.changes, kind] at hchanges

theorem applyMutation_changes {s : Store} {m : Mutation} {body : Body} (hkind : m.kind = body.kind)
    (hchanges : body.changes = true) :
    applyMutation c.toContext s m = ConnectionRepository.updateConnection c.toContext s m := by
  unfold applyMutation
  rw [hkind]
  revert hchanges
  cases hbody : body.kind <;> simp [Body.changes, hbody]

variable {result : MutationResult}

theorem postgres_applied {store : Store} (hinv : Inv s)
    (hmade : AllMade c s) (hp : p ∈ s.pending) (hchanges : p.request.body.changes = true)
    (happly : (postgres c).apply s.store p.prepared.mutation = .ok (store, result))
    (hnew : result.outcome ≠ .replayed) (hread : upToDate p = true) : Applied c (postgres c) p store result := by
  obtain ⟨actorID, read, next, hsome, hbuilt, hsuccessor, hforce⟩ := made_change hchanges (hmade p hp)
  have hexpected : read.version = p.request.body.expectedVersion := by simpa [upToDate, hsome] using hread
  obtain ⟨-, ⟨kept, -, -, rfl⟩ | ⟨-, after, happly, hrows, hgenerations, -⟩⟩ := apply_ok happly
  · exact absurd rfl hnew
  rw [applyMutation_changes hbuilt.kind hchanges] at happly
  obtain ⟨locked, candidate, hscan, hversion, hcandidate, hsame, hreturned, hwritten⟩ := updateConnection_ok happly
  rw [hbuilt.candidate] at hcandidate
  cases hcandidate
  have hscanned : scanConnection c.toContext s.store p.request.tenantID p.request.name = .ok locked := by
    rw [← hbuilt.tenantID, ← hbuilt.name]
    exact hscan
  -- both have the version the client expects
  have hlocked : locked.version = read.version := by rw [hversion, hbuilt.expectedVersion, hexpected]
  have huid : locked.uid = read.uid := (sameConnection_spec hsame).1.1.symm.trans hsuccessor.uid
  have hcurrent : locked = read := by
    rcases (hinv.reads p hp read hsome).later locked (scanConnection_holds hscan) huid with heq | hlt
    · exact heq
    · rw [hlocked] at hlt
      exact (Int64.lt_irrefl hlt).elim
  subst hcurrent
  refine ⟨next, hreturned, ?_, hforce⟩
  change scanConnection c.toContext store _ _ = .ok next
  rw [scanConnection_congr hrows hgenerations]
  rcases hwritten with ⟨hunchanged, rfl, -⟩ | ⟨hwritten, -⟩
  · rcases hsuccessor.version with rfl | hsucc
    · exact hscanned
    · exact absurd (hsucc.symm.trans hunchanged) (succ_ne _)
  · exact hwritten.scan hscanned hsuccessor

theorem memory_applied {s : System ConnectionMemory.Store} {store : ConnectionMemory.Store} (hmade : AllMade c s)
    (hp : p ∈ s.pending) (hchanges : p.request.body.changes = true)
    (happly : (memory c).apply s.store p.prepared.mutation = .ok (store, result))
    (hnew : result.outcome ≠ .replayed) : Applied c (memory c) p store result := by
  obtain ⟨actorID, read, next, -, hbuilt, -, hforce⟩ := made_change hchanges (hmade p hp)
  obtain ⟨-, hreplayed⟩ | ⟨after, happly, hconnections, -⟩ := ConnectionMemory.apply_ok happly
  · exact absurd hreplayed hnew
  have hupdate : ConnectionMemory.updateConnection c.toContext s.store p.prepared.mutation = .ok (after, result) := by
    unfold ConnectionMemory.applyLocked at happly
    rw [hbuilt.kind] at happly
    revert hchanges
    cases hbody : p.request.body.kind <;> simp_all [Body.changes]
  obtain ⟨candidate, hcandidate, hreturned, hget⟩ := ConnectionMemory.updateConnection_get hupdate
  rw [hbuilt.candidate] at hcandidate
  cases hcandidate
  refine ⟨next, hreturned, ?_, hforce⟩
  rw [hbuilt.tenantID, hbuilt.name] at hget
  change ConnectionMemory.get store _ _ = .ok next
  unfold ConnectionMemory.get ConnectionMemory.find at hget ⊢
  rw [hconnections]
  exact hget

/-- However the requests are mixed: each stored Connection has its own identifier and its current generation, and what a
waiting request has read is stored still, replaced by a higher version or deleted. -/
theorem run_reads_sound {events : List (Event Outside)} {s : System Store}
    (hfresh : meets (step c (postgres c)) fresh (idle emptyStore) events = true)
    (hrun : run (step c (postgres c)) (idle emptyStore) events = some s) : Inv s :=
  run_invariant Inv.step idle_inv hfresh hrun

end

def sampleDigest (s : Bytes) : Bytes := lit "sha256:" ++ List.replicate 64 (48 + UInt8.ofNat (s.length % 10))

def sampleConfig : Config where
  parseUUID uid := uid.length = 36
  canonicalPolicy _ := true
  mutationsEnabled := true
  testsEnabled := true
  testDeadline := 60000000000
  validateConnectionSettings _ settings := .ok (settings.map fun s => ⟨s.1, s.2, .publicSetting⟩)
  marshal r := r.name
  keyedDigest := sampleDigest

def sampleDescriptor : Descriptor :=
  ⟨lit "mysql-cdc", sampleDigest [], sampleDigest [], [sampleDigest []], true, [(lit "password", true)]⟩

def sampleBinding (secret : String) : BindingRequest :=
  some (some ⟨lit secret, lit "44444444-4444-4444-4444-444444444444", [⟨lit "password", lit "password"⟩]⟩)

def sampleEnvironment (actorID : String) (now : Time) (auditEventID : String) : Environment :=
  ⟨some actorID, [sampleDescriptor], none, now, now, lit "33333333-3333-3333-3333-333333333333", auditEventID, "request"⟩

def sampleRequest (body : Body) : Request :=
  ⟨lit "22222222-2222-2222-2222-222222222222", lit "warehouse", lit "0123456789abcdef", body⟩

def created : List (Event O) :=
  [.receive (sampleRequest (.create (lit "mysql-cdc") [] [] [] (sampleBinding "first"))) (sampleEnvironment "a" 10 "1"),
    .commit 0]

def renames (actorID displayName : String) (version : Int64) (auditEventID : String) : Event O :=
  .receive (sampleRequest (.update version (lit displayName) [] [])) (sampleEnvironment actorID 20 auditEventID)

def overtakenUpdate : List (Event O) := created ++ [renames "a" "ours" 2 "2", renames "b" "theirs" 1 "3", .commit 1]

def waitingUpdates : List (Event O) :=
  created ++ [renames "b" "theirs" 1 "3", .commit 0, renames "a" "ours" 2 "2", renames "b" "later" 2 "4"]

def answered (repo : Repository σ O) (p : Pending) (answer : σ × MutationResult) :
    MutationOutcome × Option Bytes × Option Bytes × Bool × Bool :=
  (answer.2.outcome, answer.2.connection.map (·.displayName),
    (repo.get answer.1 p.request.tenantID p.request.name).toOption.map (·.displayName),
    p.request.body.changes, upToDate p)

def observed (c : Config) (repo : Repository σ O) (start : System σ) (events : List (Event O)) :
    Option (MutationOutcome × Option Bytes × Option Bytes × Bool × Bool) :=
  (run (step c repo) start events).bind fun s => s.pending.head?.bind fun p =>
    (repo.apply s.store p.prepared.mutation).toOption.map (answered repo p)

theorem observed_some {c : Config} {repo : Repository σ O} {start : System σ} {events : List (Event O)}
    {answer : MutationOutcome × Option Bytes × Option Bytes × Bool × Bool}
    (h : observed c repo start events = some answer) :
    ∃ s p store result, run (step c repo) start events = some s ∧ p ∈ s.pending ∧
      repo.apply s.store p.prepared.mutation = .ok (store, result) ∧ answered repo p (store, result) = answer := by
  obtain ⟨s, hs, h⟩ := Option.bind_eq_some_iff.mp h
  obtain ⟨p, hp, h⟩ := Option.bind_eq_some_iff.mp h
  obtain ⟨⟨store, result⟩, happly, hanswer⟩ := Option.map_eq_some_iff.mp h
  exact ⟨s, p, store, result, hs, List.mem_of_mem_head? hp, toOption_eq_some.mp happly, hanswer⟩

theorem run_reads_sound_overtaken :
    ∃ s, run (step sampleConfig (postgres sampleConfig)) (idle emptyStore) overtakenUpdate = some s ∧
      s.pending.length = 1 ∧ Inv s := by
  have hrun : (run (step sampleConfig (postgres sampleConfig)) (idle emptyStore) overtakenUpdate).map
      (·.pending.length) = some 1 := by decide +kernel
  obtain ⟨s, hs, hpending⟩ := Option.map_eq_some_iff.mp hrun
  exact ⟨s, hs, hpending, run_reads_sound (by decide +kernel) hs⟩

end AstraSync.ConnectionRequests
