import AstraSync.ReconcilerRules

/-!
Any number of scheduler replicas over one database and one Kubernetes namespace, with users who create,
start, stop and delete jobs, executions that send heartbeats, and replicas that crash.
-/

namespace AstraSync.SchedulerFleet

open ByteStrings JobLifecycle DispatchStore ExecutionResources DispatchDatabase Programs SchedulerWorld DispatchLedger
open SchedulerReconciler ReconcilerRules JobRepository Transitions

variable {S : Type}

structure Process (S : Type) where
  record : Record
  program : Prog S (Except Fault Unit)

structure State (S : Type) where
  world : World S
  replicas : Bytes → List (Process S)

inductive Event (S : Type)
  | createJob (key : Key) (uid : Bytes) (spec : S) (now : Time)
  | request (key : Key) (r : Request S) (now : Time)
  | deleteJob (uid : Bytes)
  | recordHeartbeat (i : Identity) (token : Bytes) (now : Time)
  | tick (cfg : Config) (now : Time) (token : Identity → Bytes)
  | call (ownerID : Bytes) (i : Identity) (choice : Choice)
  | crash (ownerID : Bytes)
  | remove (kind : Kind) (name : Bytes)
  | setStatus (kind : Kind) (name : Bytes) (status : ObjectStatus)

def userRequest (c : Context S) (jobs : List (Job S)) (key : Key) (r : Request S) (now : Time) :
    Option (List (Job S) × Job S) :=
  match r, JobTable.find jobs key with
  | .advance _ _ _, _ => none
  | _, none => none
  | r, some j =>
    match request c.validate j r now with
    | .ok (next, true) => (JobTable.update c jobs next j.version).toOption
    | _ => none

theorem userRequest_some {c : Context S} {jobs jobs' : List (Job S)} {key : Key} {r : Request S} {now : Time}
    {stored : Job S} (h : userRequest c jobs key r now = some (jobs', stored)) :
    ∃ j next, JobTable.find jobs key = some j ∧ request c.validate j r now = .ok (next, true) ∧
      JobTable.update c jobs next j.version = .ok (jobs', stored) ∧
      ∀ epoch state failure, r ≠ .advance epoch state failure := by
  unfold userRequest at h
  split at h
  · cases h
  · cases h
  · next j hr hfind =>
    split at h
    · next next hnext =>
      cases hupdate : JobTable.update c jobs next j.version with
      | error =>
        rw [hupdate] at h
        cases h
      | ok =>
        rw [hupdate] at h
        cases h
        exact ⟨j, next, hfind, hnext, hupdate, fun _ _ _ he => hr _ _ _ he⟩
    · cases h

def setStatus (w : World S) (kind : Kind) (name : Bytes) (status : ObjectStatus) : World S :=
  { w with objects := w.objects.map fun o => if isObject kind name o then { o with status } else o }

def setDatabase (w : World S) (db : Database S) : World S := { w with db }

def proceed (processes : List (Process S)) (i : Identity) (rest : Prog S (Except Fault Unit)) : List (Process S) :=
  processes.map fun p => if p.record.identity = i then ⟨p.record, rest⟩ else p

/-- One event. Users' requests that are refused change nothing. A replica ticks once the reconciles of its
last tick have ended, and starts a reconcile for each record it claims. -/
def step (c : Settings S) (maxActive : ℤ) (s : State S) : Event S → Option (State S)
  | .createJob key uid spec now =>
    if canonicalUUID uid then
      some (match JobTable.create c.toContext s.world.db.jobs (new key uid spec now) with
        | .ok jobs => { s with world := setDatabase s.world { s.world.db with jobs, uids := s.world.db.uids ++ [uid] } }
        | .error _ => s)
    else none
  | .request key r now =>
    some (match userRequest c.toContext s.world.db.jobs key r now with
      | some (jobs, stored) => { s with world := putJobs s.world jobs stored }
      | none => s)
  | .deleteJob uid =>
    some { s with world := setDatabase s.world { s.world.db with
      jobs := s.world.db.jobs.filter (·.uid ≠ uid)
      rows := s.world.db.rows.filter (·.identity.jobUID ≠ uid) } }
  | .recordHeartbeat i token now =>
    some { s with world := setDatabase s.world { s.world.db with
      rows := (recordHeartbeat c.parseUUID i token now s.world.db.rows).1 } }
  | .tick cfg now token =>
    if (s.replicas cfg.ownerID).all (·.program.finished) then
      some (match claim cfg.ownerID maxActive cfg.leaseDuration cfg.heartbeatTimeout now token s.world.db.jobs
          s.world.db.rows with
        | (rows, .ok records) =>
          ⟨setDatabase s.world { s.world.db with
              rows, claimed := s.world.db.claimed ++ rows.map (·.identity) },
            Function.update s.replicas cfg.ownerID
              (records.map fun record => ⟨record.1, reconcile c cfg record.1⟩)⟩
        | (_, .error _) => s)
    else none
  | .call ownerID i choice =>
    ((s.replicas ownerID).find? fun p => p.record.identity = i).bind fun p =>
      (p.program.resume (execute c) s.world choice).map fun next =>
        ⟨next.1, Function.update s.replicas ownerID (proceed (s.replicas ownerID) i next.2)⟩
  | .crash ownerID => some { s with replicas := Function.update s.replicas ownerID [] }
  | .remove kind name => some { s with world := removeObject s.world kind name }
  | .setStatus kind name status => some { s with world := setStatus s.world kind name status }

/-- A job is created under a UID that no job has had before. -/
def fresh (s : State S) : Event S → Bool
  | .createJob _ uid _ _ => uid ∉ s.world.db.uids
  | _ => true

def start (bindings : List Binding) : State S :=
  ⟨⟨empty, [], bindings, [], [], [], 0, [], []⟩, fun _ => []⟩

structure Inv (c : Settings S) (maxActive : ℤ) (s : State S) : Prop where
  sound : Sound c.toContext (ledger s.world)
  bounded : activeCount s.world.db.rows ≤ maxActive.toNat
  processes : ∀ ownerID, ∀ p ∈ s.replicas ownerID,
    Obeys (rules c ownerID p.record.identity) (fun _ _ => True) p.program (ledger s.world)

structure RowStep (e : Event S) (r r' : Record) : Prop where
  later : RowLater r r'
  owner : r'.ownerID ≠ r.ownerID → ∃ cfg now token, e = .tick cfg now token ∧
    r' = claimChange cfg.ownerID (now + cfg.leaseDuration) now (now - cfg.heartbeatTimeout) r
  caller : ∀ ownerID i choice, e = .call ownerID i choice → r' ≠ r → r.ownerID = ownerID

def RowsStep (e : Event S) (rows rows' : Table) : Prop :=
  ∀ r' ∈ rows', (∃ r ∈ rows, RowStep e r r') ∨ r'.identity ∉ rows.map (·.identity)

def opens (j : Job S) (now : Time) : Bool :=
  match requestStart j now with
  | .ok (_, true) => true
  | _ => false

def Opening (s : State S) (e : Event S) (j : Job S) : Prop :=
  ∃ key now, e = .request key .start now ∧ JobTable.find s.world.db.jobs key = some j ∧ opens j now = true

structure Step (c : Settings S) (maxActive : ℤ) (e : Event S) (s t : State S) : Prop where
  inv : Inv c maxActive t
  later : Later (ledger s.world) (ledger t.world)
  rows : RowsStep e s.world.db.rows t.world.db.rows
  kept : ∀ r ∈ s.world.db.rows,
    r.identity ∈ t.world.db.rows.map (·.identity) ∨ e = .deleteJob r.identity.jobUID
  claims : ∀ r' ∈ t.world.db.rows, r'.identity ∉ s.world.db.rows.map (·.identity) →
    r'.phase.active = true ∧ ∃ j ∈ t.world.db.jobs, jobIdentity j = r'.identity
  epochs : ∀ j' ∈ t.world.db.jobs, j'.uid ∈ s.world.db.uids →
    ∃ j ∈ s.world.db.jobs, j.uid = j'.uid ∧ (j'.status.epoch = j.status.epoch ∨ Opening s e j)
  settled : ∀ r' ∈ t.world.db.rows, r'.phase.active = false →
    r' ∈ s.world.db.rows ∨ Settled r'.identity r'.phase (ledger t.world)

theorem RowStep.refl (e : Event S) (r : Record) : RowStep e r r :=
  ⟨.refl r, fun h => absurd rfl h, fun _ _ _ _ h => absurd rfl h⟩

theorem rowsStep_of_subset {e : Event S} {rows rows' : Table} (h : ∀ r ∈ rows', r ∈ rows) : RowsStep e rows rows' :=
  fun r hr => .inl ⟨r, h r hr, .refl e r⟩

theorem held_of_subset {l m : Ledger S} (h : ∀ r ∈ m.db.rows, r ∈ l.db.rows) (ownerID : Bytes) (i : Identity) :
    Held ownerID i l m :=
  fun r hr hid howner => ⟨r, h r hr, hid, howner, rfl⟩

theorem start_inv (c : Settings S) (maxActive : ℤ) (bindings : List Binding) :
    Inv c maxActive (start bindings : State S) := by
  refine ⟨⟨JobTable.sound_nil _, empty_inv, .nil, ?_, ?_⟩, Nat.zero_le _, ?_⟩
  · intro r hr
    cases hr
  · intro p hp
    cases hp
  · intro ownerID p hp
    cases hp

theorem mem_update {replicas : Bytes → List (Process S)} {ownerID o : Bytes} {processes : List (Process S)}
    {p : Process S} (hp : p ∈ Function.update replicas ownerID processes o) :
    (o = ownerID ∧ p ∈ processes) ∨ (o ≠ ownerID ∧ p ∈ replicas o) := by
  grind

section

variable {c : Settings S} {maxActive : ℤ} {s : State S}

theorem rely_trans {c : Context S} {ownerID : Bytes} {i : Identity} (l m n : Ledger S) (hlm : Rely c ownerID i l m)
    (hmn : Rely c ownerID i m n) : Rely c ownerID i l n := by
  refine ⟨hmn.sound, hlm.later.trans hmn.later, fun r hr hid howner => ?_⟩
  obtain ⟨q, hq, hqid, hqowner, hphase⟩ := hmn.held r hr hid howner
  obtain ⟨p, hp, hpid, hpowner, hqphase⟩ := hlm.held q hq hqid hqowner
  exact ⟨p, hp, hpid, hpowner, hphase.trans hqphase⟩

variable {w : World S} {e : Event S} {now : Time}

theorem world_inv (h : Inv c maxActive s) (hsound : Sound c.toContext (ledger w))
    (hlater : Later (ledger s.world) (ledger w)) (hheld : ∀ ownerID i, Held ownerID i (ledger s.world) (ledger w))
    (hbounded : activeCount w.db.rows ≤ maxActive.toNat) : Inv c maxActive { s with world := w } :=
  ⟨hsound, hbounded, fun ownerID p hp => obeys_rely (h.processes ownerID p hp) rely_trans
    ⟨hsound, hlater, hheld ownerID p.record.identity⟩⟩

theorem world_step (h : Inv c maxActive s) (hsound : Sound c.toContext (ledger w))
    (hlater : Later (ledger s.world) (ledger w)) (hrows : w.db.rows.Sublist s.world.db.rows)
    (hkept : ∀ r ∈ s.world.db.rows, r ∈ w.db.rows ∨ e = .deleteJob r.identity.jobUID)
    (hepochs : ∀ j' ∈ w.db.jobs, j'.uid ∈ s.world.db.uids →
      ∃ j ∈ s.world.db.jobs, j.uid = j'.uid ∧ (j'.status.epoch = j.status.epoch ∨ Opening s e j)) :
    Step c maxActive e s { s with world := w } where
  inv := world_inv h hsound hlater (held_of_subset fun _ hr => hrows.subset hr) (hrows.countP_le.trans h.bounded)
  later := hlater
  rows := rowsStep_of_subset fun _ hr => hrows.subset hr
  kept := fun r hr => (hkept r hr).imp_left List.mem_map_of_mem
  claims := fun _ hr hnew => absurd (List.mem_map_of_mem (hrows.subset hr)) hnew
  epochs := hepochs
  settled := fun _ hr _ => .inl (hrows.subset hr)

theorem quiet_step (h : Inv c maxActive s) (e : Event S) (hw : ledger w = ledger s.world) :
    Step c maxActive e s { s with world := w } := by
  have hdb : w.db = s.world.db := congrArg Ledger.db hw
  refine world_step h (hw ▸ h.sound) (hw ▸ .refl _) (hdb ▸ List.Sublist.refl _) (fun r hr => ?_) (fun j hj _ => ?_)
  · rw [hdb]
    exact .inl hr
  · rw [hdb] at hj
    exact ⟨j, hj, rfl, .inl rfl⟩

variable {jobs : List (Job S)}

theorem createJob_step (h : Inv c maxActive s) {key : Key} {uid : Bytes} {spec : S} (huid : canonicalUUID uid = true)
    (hnew : uid ∉ s.world.db.uids)
    (hcreate : JobTable.create c.toContext s.world.db.jobs (new key uid spec now) = .ok jobs) :
    Step c maxActive e s
      { s with world := setDatabase s.world { s.world.db with jobs, uids := s.world.db.uids ++ [uid] } } := by
  cases JobTable.create_ok hcreate
  refine world_step h (addJob_sound h.sound huid hnew hcreate) (addJob_later hnew) (List.Sublist.refl _)
    (fun r hr => .inl hr) ?_
  intro j' hj' hold
  rcases List.mem_append.mp hj' with hj' | hj'
  · exact ⟨j', hj', rfl, .inl rfl⟩
  · rw [List.mem_singleton.mp hj'] at hold
    exact absurd hold hnew

theorem request_epoch {c : Context S} {j next : Job S} {r : Request S}
    (h : request c.validate j r now = .ok (next, true)) :
    next.status.epoch = j.status.epoch ∨ (r = .start ∧ opens j now = true) := by
  cases r with
  | start =>
    right
    refine ⟨rfl, ?_⟩
    have hstart : requestStart j now = .ok (next, true) := h
    rw [opens, hstart]
  | stop => exact .inl (requestStop_ok h).1
  | advance => exact .inl (advance_ok h).1
  | replaceSpec =>
    simp only [request] at h
    split at h
    · grind [replaceSpec_ok]
    · cases h

theorem request_step (h : Inv c maxActive s) {key : Key} {r : Request S}
    {stored : Job S} (hrequest : userRequest c.toContext s.world.db.jobs key r now = some (jobs, stored)) :
    Step c maxActive (.request key r now) s { s with world := putJobs s.world jobs stored } := by
  obtain ⟨j, next, hfind, hnext, hupdate, -⟩ := userRequest_some hrequest
  obtain ⟨hmem, hkey⟩ := JobTable.find_some hfind
  have hsame := (request_move (Job.sound_of_validate (h.sound.jobs.valid j hmem)) hnext).1
  have hnextfind : JobTable.find (ledger s.world).db.jobs next.key = some j := by
    rw [hsame.key, hkey]
    exact hfind
  obtain ⟨hsound, hlater, -, -, huid, hstatus, hothers⟩ := request_written h.sound hnextfind hnext hupdate
  refine world_step h hsound hlater (List.Sublist.refl _) (fun r hr => .inl hr) fun j' hj' _ => ?_
  rcases hothers j' hj' with rfl | ⟨hj', -⟩
  · refine ⟨j, hmem, huid.symm, ?_⟩
    rw [hstatus]
    rcases request_epoch hnext with hepoch | ⟨rfl, hopens⟩
    · exact .inl hepoch
    · exact .inr ⟨key, now, rfl, hfind, hopens⟩
  · exact ⟨j', hj', rfl, .inl rfl⟩

theorem deleteJob_step (h : Inv c maxActive s) (uid : Bytes) :
    Step c maxActive (.deleteJob uid) s { s with world := setDatabase s.world { s.world.db with
      jobs := s.world.db.jobs.filter (·.uid ≠ uid)
      rows := s.world.db.rows.filter (·.identity.jobUID ≠ uid) } } := by
  refine world_step h (removeJob_sound h.sound uid) (removeJob_later uid) List.filter_sublist (fun r hr => ?_)
    fun j hj _ => ⟨j, List.mem_of_mem_filter hj, rfl, .inl rfl⟩
  rcases eq_or_ne r.identity.jobUID uid with rfl | hne
  · exact .inr rfl
  · exact .inl (List.mem_filter.mpr ⟨hr, decide_eq_true hne⟩)

theorem activeCount_later {rows : Table} {f : Record → Record} (hf : ∀ r ∈ rows, RowLater r (f r)) :
    activeCount (rows.map f) ≤ activeCount rows := by
  unfold activeCount
  rw [List.countP_map]
  refine List.countP_mono_left fun r hr hactive => ?_
  by_contra hinactive
  rw [Function.comp_apply, (hf r hr).ended (by simpa using hinactive)] at hactive
  exact hinactive hactive

theorem heartbeat_rows (parseUUID : Bytes → Bool) (i : Identity) (token : Bytes) (now : Time) (rows : Table) :
    ∃ f, (recordHeartbeat parseUUID i token now rows).1 = rows.map f ∧ ∀ r, RowLater r (f r) ∧
      (f r).ownerID = r.ownerID ∧ (f r).phase = r.phase := by
  unfold recordHeartbeat
  split
  · exact ⟨id, (List.map_id _).symm, fun r => ⟨.refl r, rfl, rfl⟩⟩
  · split_ifs
    · exact ⟨id, (List.map_id _).symm, fun r => ⟨.refl r, rfl, rfl⟩⟩
    · exact ⟨id, (List.map_id _).symm, fun r => ⟨.refl r, rfl, rfl⟩⟩
    · refine ⟨_, rfl, fun r => ?_⟩
      split_ifs with hlive
      · rw [Bool.and_eq_true] at hlive
        refine ⟨⟨rfl, rfl, fun hinactive => ?_, fun h => h⟩, rfl, rfl⟩
        rw [live_active hlive.2] at hinactive
        cases hinactive
      · exact ⟨.refl r, rfl, rfl⟩

theorem recordHeartbeat_step (h : Inv c maxActive s) (i : Identity) (token : Bytes) (now : Time) :
    Step c maxActive (.recordHeartbeat i token now) s { s with world := setDatabase s.world { s.world.db with
      rows := (recordHeartbeat c.parseUUID i token now s.world.db.rows).1 } } := by
  obtain ⟨f, hrows, hf⟩ := heartbeat_rows c.parseUUID i token now s.world.db.rows
  rw [hrows]
  have hlater : ∀ r ∈ (ledger s.world).db.rows, RowLater r (f r) := fun r _ => (hf r).1
  have hidentities : (s.world.db.rows.map f).map (·.identity) = s.world.db.rows.map (·.identity) := by
    rw [List.map_map]
    exact List.map_congr_left fun r _ => (hf r).1.identity
  refine ⟨world_inv h (rows_sound h.sound hlater) (rows_later hlater) (fun ownerID j r' hr' hid howner => ?_) ?_,
    rows_later hlater, fun r' hr' => ?_, fun r hr => .inl ?_, fun r' hr' hnew => ?_,
    fun j hj _ => ⟨j, hj, rfl, .inl rfl⟩, fun r' hr' hinactive => ?_⟩
  · obtain ⟨r, hr, rfl⟩ := List.mem_map.mp hr'
    exact ⟨r, hr, (hf r).1.identity.symm.trans hid, (hf r).2.1.symm.trans howner, (hf r).2.2⟩
  · exact (activeCount_later hlater).trans h.bounded
  · obtain ⟨r, hr, rfl⟩ := List.mem_map.mp hr'
    exact .inl ⟨r, hr, (hf r).1, fun hne => absurd (hf r).2.1 hne, fun _ _ _ he => nomatch he⟩
  · exact hidentities ▸ List.mem_map_of_mem hr
  · refine absurd ?_ hnew
    rw [← hidentities]
    exact List.mem_map_of_mem hr'
  · obtain ⟨r, hr, rfl⟩ := List.mem_map.mp hr'
    rw [(hf r).2.2] at hinactive
    rw [(hf r).1.ended hinactive]
    exact .inl hr

theorem ready_of_row {l : Ledger S} (hsound : Sound c.toContext l) {record : Record} (hr : record ∈ l.db.rows) :
    Ready record.ownerID record l := by
  refine ⟨(hsound.db.wellFormed _ (hsound.db.rows_claimed record hr)).2, fun j hj huid => hsound.job_of_uid hr hj huid,
    fun hphase r hrow hid _ => ?_⟩
  rw [List.inj_on_of_nodup_map hsound.identities hrow hr hid]
  exact hphase

variable {held added : Table}

theorem claim_bounded (hheld : activeCount held ≤ maxActive.toNat)
    (hadded : added.length ≤ (maxActive - activeCount held).toNat) :
    activeCount (held ++ added) ≤ maxActive.toNat := by
  have hcount : activeCount added ≤ added.length := List.countP_le_length
  have happend : activeCount (held ++ added) = activeCount held + activeCount added := List.countP_append
  omega

theorem claim_step (h : Inv c maxActive s) {cfg : Config} {token : Identity → Bytes} {records : List (Record × Bool)}
    (hheld : held = s.world.db.rows.map
      (claimChange cfg.ownerID (now + cfg.leaseDuration) now (now - cfg.heartbeatTimeout)))
    (hrecords : ∀ record ∈ records,
      record.1 ∈ held ++ added ∧ record.1.ownerID = cfg.ownerID ∧ record.1.phase.active = true)
    (hroom : added.length ≤ (maxActive - activeCount held).toNat)
    (hadded : ∀ r ∈ added, ∃ j ∈ s.world.db.jobs, pending held j = true ∧
      r = claimedRow cfg.ownerID (now + cfg.leaseDuration) now token j)
    (hnodup : (held.map (·.identity)).Nodup → ((held ++ added).map (·.identity)).Nodup) :
    Step c maxActive (.tick cfg now token) s
      ⟨setDatabase s.world { s.world.db with
          rows := held ++ added
          claimed := s.world.db.claimed ++ (held ++ added).map (·.identity) },
        Function.update s.replicas cfg.ownerID (records.map fun record => ⟨record.1, reconcile c cfg record.1⟩)⟩ := by
  subst hheld
  have hlater : ∀ r ∈ s.world.db.rows, RowLater r
      (claimChange cfg.ownerID (now + cfg.leaseDuration) now (now - cfg.heartbeatTimeout) r) :=
    fun r _ => claimChange_later _ _ _ _ r
  have hidentities : (s.world.db.rows.map (claimChange cfg.ownerID (now + cfg.leaseDuration) now
      (now - cfg.heartbeatTimeout))).map (·.identity) = s.world.db.rows.map (·.identity) :=
    map_identity (claimChange_keeps _ _ _ _) _
  have hall := hnodup (hidentities ▸ h.sound.identities)
  have hsound := claim_sound h.sound hadded hall
  have hledger := claim_later h.sound hadded
  refine ⟨⟨hsound, ?_, fun ownerID p hp => ?_⟩, hledger, fun r' hr' => ?_, fun r hr => .inl ?_,
    fun r' hr' hnew => ?_, fun j hj _ => ⟨j, hj, rfl, .inl rfl⟩, fun r' hr' hinactive => ?_⟩
  · exact claim_bounded ((activeCount_later hlater).trans h.bounded) hroom
  · rcases mem_update hp with ⟨rfl, hnew⟩ | ⟨hne, hp⟩
    · obtain ⟨record, hrecord, rfl⟩ := List.mem_map.mp hnew
      obtain ⟨hmem, howner, -⟩ := hrecords record hrecord
      apply reconcile_obeys
      have hready := ready_of_row hsound hmem
      rw [howner] at hready
      exact hready
    · refine obeys_rely (h.processes ownerID p hp) rely_trans ⟨hsound, hledger, fun r' hr' hid howner => ?_⟩
      -- a row that another replica holds was its own before
      rcases List.mem_append.mp hr' with hr' | hr'
      · obtain ⟨r, hr, rfl⟩ := List.mem_map.mp hr'
        have hchange := claimChange_spec cfg.ownerID (now + cfg.leaseDuration) now (now - cfg.heartbeatTimeout) r
        refine ⟨r, hr, hchange.identity.symm.trans hid, ?_, hchange.phase⟩
        rcases hchange.owner with hsame | ⟨htaken, -⟩
        · exact hsame.symm.trans howner
        · exact absurd (howner.symm.trans htaken) hne
      · obtain ⟨j, -, -, rfl⟩ := hadded r' hr'
        exact absurd howner.symm hne
  · rcases List.mem_append.mp hr' with hold | hnew
    · obtain ⟨r, hr, rfl⟩ := List.mem_map.mp hold
      exact .inl ⟨r, hr, hlater r hr, fun _ => ⟨cfg, now, token, rfl, rfl⟩, fun _ _ _ he => nomatch he⟩
    · grind
  · have hmem : r.identity ∈ s.world.db.rows.map (·.identity) := List.mem_map_of_mem hr
    rw [← hidentities] at hmem
    exact (List.map_subset _ (List.subset_append_left _ _)) hmem
  · rcases List.mem_append.mp hr' with hold | hr'
    · grind
    · obtain ⟨j, hj, -, rfl⟩ := hadded r' hr'
      exact ⟨rfl, j, hj, rfl⟩
  · rcases List.mem_append.mp hr' with hold | hr'
    · obtain ⟨r, hr, rfl⟩ := List.mem_map.mp hold
      have hchange := claimChange_spec cfg.ownerID (now + cfg.leaseDuration) now (now - cfg.heartbeatTimeout) r
      rw [hchange.phase] at hinactive
      rw [hchange.inactive hinactive]
      exact .inl hr
    · obtain ⟨j, -, -, rfl⟩ := hadded r' hr'
      cases hinactive

theorem call_step (h : Inv c maxActive s) {ownerID : Bytes} {i : Identity} {choice : Choice} {p : Process S}
    {u : World S} {rest : Prog S (Except Fault Unit)}
    (hp : (s.replicas ownerID).find? (fun p => p.record.identity = i) = some p)
    (hresume : p.program.resume (execute c) s.world choice = some (u, rest)) :
    Step c maxActive (.call ownerID i choice) s
      ⟨u, Function.update s.replicas ownerID (proceed (s.replicas ownerID) i rest)⟩ := by
  have hmem := List.mem_of_find?_eq_some hp
  have hid : p.record.identity = i := by simpa using List.find?_some hp
  obtain ⟨⟨e, r, hguarantee⟩, hrest⟩ := obeys_resume ledger (h.processes ownerID p hmem) hresume
    (fun e r hx => ⟨s.world, u, rfl, rfl, choice, hx⟩) ⟨h.sound, .refl _, held_of_subset (fun _ hr => hr) _ _⟩
  rw [hid] at hguarantee hrest
  obtain ⟨f, hrows, hf⟩ := Guarantee.rows hguarantee
  have hlater : ∀ r ∈ (ledger s.world).db.rows, RowLater r (f r) := fun r hr => (hf r hr).1
  -- rows of other executions and of other owners are left as they are
  have hheld : ∀ o j, (o ≠ ownerID ∨ j ≠ i) → Held o j (ledger s.world) (ledger u) := by
    intro o j hne r' hr' hj ho
    rw [hrows] at hr'
    obtain ⟨r, hr, rfl⟩ := List.mem_map.mp hr'
    have hsame : f r = r := by
      rcases (hf r hr).2 with hsame | hown
      · exact hsame
      · rcases hne with hne | hne
        · exact absurd (ho.symm.trans hown.kept) hne
        · exact absurd (hj.symm.trans ((hlater r hr).identity.trans hown.identity)) hne
    rw [hsame] at hj ho ⊢
    exact ⟨r, hr, hj, ho, rfl⟩
  refine ⟨⟨hguarantee.sound, ?_, fun o q hq => ?_⟩, hguarantee.later, fun r' hr' => ?_, fun r hr => .inl ?_,
    fun r' hr' hnew => ?_, fun j' hj' _ => ?_, fun r' hr' hinactive => ?_⟩
  · have hcount := activeCount_later hlater
    rw [← hrows] at hcount
    exact hcount.trans h.bounded
  · rcases mem_update hq with ⟨rfl, hnew⟩ | ⟨hne, hq⟩
    · obtain ⟨q, hold, rfl⟩ := List.mem_map.mp hnew
      split_ifs with hqi
      · dsimp only
        rw [hqi]
        exact hrest
      · exact obeys_rely (h.processes o q hold) rely_trans ⟨hguarantee.sound, hguarantee.later, hheld o _ (.inr hqi)⟩
    · exact obeys_rely (h.processes o q hq) rely_trans ⟨hguarantee.sound, hguarantee.later, hheld o _ (.inl hne)⟩
  · change r' ∈ (ledger u).db.rows at hr'
    rw [hrows] at hr'
    obtain ⟨r, hr, rfl⟩ := List.mem_map.mp hr'
    refine .inl ⟨r, hr, hlater r hr, fun hne => ?_, fun o j choice' he hne => ?_⟩
    · rcases (hf r hr).2 with hsame | hown
      · exact absurd (congrArg Record.ownerID hsame) hne
      · exact absurd (hown.kept.trans hown.owner.symm) hne
    · cases he
      rcases (hf r hr).2 with hsame | hown
      · exact absurd hsame hne
      · exact hown.owner
  · refine List.mem_map.mpr ⟨f r, ?_, (hlater r hr).identity⟩
    change f r ∈ (ledger u).db.rows
    rw [hrows]
    exact List.mem_map_of_mem hr
  · change r' ∈ (ledger u).db.rows at hr'
    rw [hrows] at hr'
    obtain ⟨r, hr, rfl⟩ := List.mem_map.mp hr'
    rw [(hlater r hr).identity] at hnew
    exact absurd (List.mem_map_of_mem hr) hnew
  · obtain ⟨j, hj, huid, hepoch⟩ := hguarantee.epochs j' hj'
    exact ⟨j, hj, huid, .inl hepoch⟩
  · rcases hguarantee.settled r' hr' hinactive with hold | ⟨hi, hsettled⟩
    · exact .inl hold
    · rw [hi]
      exact .inr hsettled

theorem step_step (h : Inv c maxActive s) {t : State S} (hfresh : fresh s e = true) (ht : step c maxActive s e = some t) :
    Step c maxActive e s t := by
  cases e with
  | createJob =>
    simp only [step] at ht
    split_ifs at ht with huid
    cases ht
    split
    · next hcreate => exact createJob_step h huid (of_decide_eq_true hfresh) hcreate
    · exact quiet_step h _ rfl
  | request =>
    cases ht
    split
    · next hrequest => exact request_step h hrequest
    · exact quiet_step h _ rfl
  | deleteJob uid =>
    cases ht
    exact deleteJob_step h uid
  | recordHeartbeat i token now =>
    cases ht
    exact recordHeartbeat_step h i token now
  | tick cfg now token =>
    simp only [step] at ht
    split_ifs at ht
    cases ht
    rcases claim_cases cfg.ownerID maxActive cfg.leaseDuration cfg.heartbeatTimeout now token s.world.db.jobs
      s.world.db.rows with ⟨e, hclaim⟩ | ⟨held, added, records, hheld, hclaim, hrecords, hroom, hadded, hnodup⟩
    · rw [hclaim]
      exact quiet_step h _ rfl
    · rw [hclaim]
      exact claim_step h hheld hrecords hroom hadded hnodup
  | call =>
    obtain ⟨p, hp, hnext⟩ := Option.bind_eq_some_iff.mp ht
    obtain ⟨⟨u, rest⟩, hresume, rfl⟩ := Option.map_eq_some_iff.mp hnext
    exact call_step h hp hresume
  | crash ownerID =>
    cases ht
    refine { quiet_step h (.crash ownerID) rfl with inv := ⟨h.sound, h.bounded, fun o p hp => ?_⟩ }
    rcases mem_update hp with ⟨-, hnone⟩ | ⟨-, hp⟩
    · cases hnone
    · exact h.processes o p hp
  | remove =>
    cases ht
    exact quiet_step h _ rfl
  | setStatus =>
    cases ht
    exact quiet_step h _ rfl

end

section

variable {c : Settings S} {maxActive : ℤ} {s t : State S} {events : List (Event S)}

theorem run_inv {bindings : List Binding} (hfresh : meets (step c maxActive) fresh (start bindings) events = true)
    (hs : run (step c maxActive) (start bindings) events = some s) : Inv c maxActive s :=
  run_invariant (fun _ _ _ h hfresh ht => (step_step h hfresh ht).inv) (start_inv c maxActive bindings) hfresh hs

theorem run_later (h : Inv c maxActive s) (hfresh : meets (step c maxActive) fresh s events = true) (ht : run (step c maxActive) s events = some t) :
    Later (ledger s.world) (ledger t.world) ∧ ∀ r ∈ s.world.db.rows,
      r.identity ∈ t.world.db.rows.map (·.identity) ∨ .deleteJob r.identity.jobUID ∈ events := by
  induction events generalizing s with
  | nil =>
    cases ht
    exact ⟨.refl _, fun r hr => .inl (List.mem_map_of_mem hr)⟩
  | cons e events ih =>
    obtain ⟨u, hu, ht⟩ := run_cons_eq.mp ht
    obtain ⟨hnew, hfresh⟩ := meets_cons hfresh hu
    have hstep := step_step h hnew hu
    obtain ⟨hlater, hkept⟩ := ih hstep.inv hfresh ht
    refine ⟨hstep.later.trans hlater, fun r hr => ?_⟩
    rcases hstep.kept r hr with hmem | rfl
    · grind
    · exact .inr List.mem_cons_self

theorem row_later (h : Inv c maxActive s) (hlater : Later (ledger s.world) (ledger t.world))
    {r r' : Record} (hr : r ∈ s.world.db.rows) (hr' : r' ∈ t.world.db.rows) (hid : r'.identity = r.identity) :
    RowLater r r' := by
  obtain ⟨q, hq, hrow⟩ := hlater.rows r' hr' (hid ▸ h.sound.db.rows_claimed r hr)
  cases List.inj_on_of_nodup_map h.sound.identities hq hr (hrow.identity.symm.trans hid)
  exact hrow

theorem row_step {e : Event S} (h : Inv c maxActive s) (hfresh : fresh s e = true) (ht : step c maxActive s e = some t)
    {r r' : Record} (hr : r ∈ s.world.db.rows) (hr' : r' ∈ t.world.db.rows) (hid : r'.identity = r.identity) :
    RowStep e r r' := by
  rcases (step_step h hfresh ht).rows r' hr' with ⟨q, hq, hrow⟩ | hnew
  · cases List.inj_on_of_nodup_map h.sound.identities hq hr (hrow.later.identity.symm.trans hid)
    exact hrow
  · exact absurd (hid ▸ List.mem_map_of_mem hr) hnew

/-- What holds of the dispatch table whatever the replicas, the users and the executions do, and at
whatever times, while no job is created under a UID used before. -/
theorem run_dispatches {bindings : List Binding} {events later : List (Event S)} {s t : State S}
    (hfresh : meets (step c maxActive) fresh (start bindings) (events ++ later) = true)
    (hs : run (step c maxActive) (start bindings) events = some s) (ht : run (step c maxActive) s later = some t) :
    activeCount s.world.db.rows ≤ maxActive.toNat ∧ (s.world.db.rows.map (·.identity)).Nodup ∧
    (∀ r ∈ s.world.db.rows, r.phase.terminal = true →
      (∀ r' ∈ t.world.db.rows, r'.identity = r.identity → r' = r) ∧
      (.deleteJob r.identity.jobUID ∉ later → r ∈ t.world.db.rows)) ∧
    (∀ r ∈ s.world.db.rows, r.phase = .stopping → ∀ r' ∈ t.world.db.rows, r'.identity = r.identity →
      r'.phase ≠ .claimed ∧ r'.phase ≠ .starting ∧ r'.phase ≠ .running) ∧
    ∀ e u, fresh s e = true → step c maxActive s e = some u → ∀ r ∈ s.world.db.rows, ∀ r' ∈ u.world.db.rows,
      r'.identity = r.identity →
      (r'.ownerID ≠ r.ownerID → (∃ cfg now token, e = .tick cfg now token) ∧ r'.attempt = r.attempt + 1) ∧
      ∀ ownerID i choice, e = .call ownerID i choice → r' ≠ r → r.ownerID = ownerID := by
  obtain ⟨hbefore, hafter⟩ := meets_append hfresh hs
  have h := run_inv hbefore hs
  obtain ⟨hlater, hkept⟩ := run_later h hafter ht
  refine ⟨h.bounded, h.sound.identities, fun r hr hterminal => ?_, fun r hr hstopping r' hr' hid => ?_, ?_⟩
  · have hsame : ∀ r' ∈ t.world.db.rows, r'.identity = r.identity → r' = r :=
      fun r' hr' hid => (row_later h hlater hr hr' hid).ended (terminal_inactive hterminal)
    refine ⟨hsame, fun hdelete => ?_⟩
    obtain ⟨r', hr', hid⟩ := List.mem_map.mp ((hkept r hr).resolve_right hdelete)
    rw [← hsame r' hr' hid]
    exact hr'
  · have hlive := (row_later h hlater hr hr' hid).halted (by rw [hstopping]; rfl)
    refine ⟨?_, ?_, ?_⟩ <;> intro hphase <;> rw [hphase] at hlive <;> cases hlive
  · intro e u hnew hu r hr r' hr' hid
    have hrow := row_step h hnew hu hr hr' hid
    refine ⟨fun hne => ?_, hrow.caller⟩
    obtain ⟨cfg, now, token, rfl, hchange⟩ := hrow.owner hne
    refine ⟨⟨cfg, now, token, rfl⟩, ?_⟩
    rcases (claimChange_spec cfg.ownerID (now + cfg.leaseDuration) now (now - cfg.heartbeatTimeout) r).owner with
      hsame | ⟨-, hattempt⟩
    · exact absurd (hchange ▸ hsame) hne
    · rw [hchange]
      exact hattempt

/-- Jobs and dispatch rows agree in every state of a run, and what a state has fixed of them holds in all later ones. -/
theorem run_ledger {bindings : List Binding} {events later : List (Event S)} {s t : State S}
    (hfresh : meets (step c maxActive) fresh (start bindings) (events ++ later) = true)
    (hs : run (step c maxActive) (start bindings) events = some s) (ht : run (step c maxActive) s later = some t) :
    Sound c.toContext (ledger s.world) ∧ Later (ledger s.world) (ledger t.world) := by
  obtain ⟨hbefore, hafter⟩ := meets_append hfresh hs
  have h := run_inv hbefore hs
  exact ⟨h.sound, (run_later h hafter ht).1⟩

end

def schedulerA : Config := ⟨lit "scheduler-a", "node-a", 15, 60⟩

def schedulerB : Config := ⟨lit "scheduler-b", "node-b", 15, 60⟩

def sampleToken (_ : Identity) : Bytes := sampleUID

def plainSettings : Settings Unit := { sampleSettings with materializes := false, references := fun _ _ => false }

def execution : Identity := ⟨sampleUID, 1⟩

def answered (cfg : Config) (count : ℕ) : List (Event Unit) :=
  List.replicate count (.call cfg.ownerID execution .answer)

def clockAt (cfg : Config) (now : Time) : Event Unit := .call cfg.ownerID execution (.time now)

def claimedByA : List (Event Unit) :=
  [.createJob sampleKey sampleUID () 5, .request sampleKey .start 10, .tick schedulerA 20 sampleToken]

def takenOverByB : List (Event Unit) := [.tick schedulerB 100 sampleToken]

theorem takenOver_runs : ∃ s t, run (step sampleSettings 1) (start []) claimedByA = some s ∧
    run (step sampleSettings 1) s takenOverByB = some t ∧
    s.world.db.rows.map (fun r => (r.ownerID, r.attempt)) = [(schedulerA.ownerID, 1)] ∧
    t.world.db.rows.map (fun r => (r.ownerID, r.attempt)) = [(schedulerB.ownerID, 2)] := by
  have hrun : ((run (step sampleSettings 1) (start []) claimedByA).bind fun s =>
      (run (step sampleSettings 1) s takenOverByB).map fun t =>
        (s.world.db.rows.map fun r => (r.ownerID, r.attempt), t.world.db.rows.map fun r => (r.ownerID, r.attempt))) =
      some ([(schedulerA.ownerID, 1)], [(schedulerB.ownerID, 2)]) := by decide +kernel
  obtain ⟨s, hs, hnext⟩ := Option.bind_eq_some_iff.mp hrun
  obtain ⟨t, ht, hrows⟩ := Option.map_eq_some_iff.mp hnext
  obtain ⟨hbefore, hafter⟩ := Prod.mk.inj hrows
  exact ⟨s, t, hs, ht, hbefore, hafter⟩

/-- The other replica takes the row over once the lease has run out. -/
theorem run_dispatches_takenOver : ∃ s t, run (step sampleSettings 1) (start []) claimedByA = some s ∧
      run (step sampleSettings 1) s takenOverByB = some t ∧
      s.world.db.rows.map (fun r => (r.ownerID, r.attempt)) = [(schedulerA.ownerID, 1)] ∧
      t.world.db.rows.map (fun r => (r.ownerID, r.attempt)) = [(schedulerB.ownerID, 2)] ∧
      activeCount s.world.db.rows ≤ 1 := by
  obtain ⟨s, t, hs, ht, hbefore, hafter⟩ := takenOver_runs
  exact ⟨s, t, hs, ht, hbefore, hafter, (run_dispatches (by decide +kernel) hs ht).1⟩

theorem run_ledger_takenOver : ∃ s t, run (step sampleSettings 1) (start []) claimedByA = some s ∧
    run (step sampleSettings 1) s takenOverByB = some t ∧ Sound sampleSettings.toContext (ledger s.world) ∧
    Later (ledger s.world) (ledger t.world) := by
  obtain ⟨s, t, hs, ht, -⟩ := takenOver_runs
  exact ⟨s, t, hs, ht, run_ledger (by decide +kernel) hs ht⟩

end AstraSync.SchedulerFleet
