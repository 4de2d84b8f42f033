import AstraSync.DispatchLedger

namespace AstraSync.ReconcilerRules

open ByteStrings JobLifecycle DispatchStore JobRepository Programs SchedulerWorld DispatchLedger
open SchedulerReconciler
open JobTable (JobLater)

variable {S : Type}

def Passed (i : Identity) (l : Ledger S) : Prop := ∀ j ∈ l.db.jobs, j.uid = i.jobUID → i.epoch < j.status.epoch

structure Ended (i : Identity) (state : JobLifecycle.State) (l : Ledger S) : Prop where
  terminal : terminal state = true
  outcomes : ∀ p ∈ l.outcomes, p.1 = i → p.2 = state
  jobs : ∀ j ∈ l.db.jobs, jobIdentity j = i → j.status.state = state

def Settled (i : Identity) (phase : Phase) (l : Ledger S) : Prop :=
  Passed i l ∨ ∃ state, Ended i state l ∧ phaseForTerminalState state = some phase

def Held (ownerID : Bytes) (i : Identity) (l m : Ledger S) : Prop :=
  ∀ r' ∈ m.db.rows, r'.identity = i → r'.ownerID = ownerID →
    ∃ r ∈ l.db.rows, r.identity = i ∧ r.ownerID = ownerID ∧ r'.phase = r.phase

structure Rely (c : Context S) (ownerID : Bytes) (i : Identity) (l m : Ledger S) : Prop where
  sound : Sound c m
  later : Later l m
  held : Held ownerID i l m

structure OwnChange (ownerID : Bytes) (i : Identity) (r r' : Record) : Prop where
  identity : r.identity = i
  owner : r.ownerID = ownerID
  kept : r'.ownerID = ownerID

structure Guarantee (c : Context S) (ownerID : Bytes) (i : Identity) (l m : Ledger S) : Prop where
  sound : Sound c m
  later : Later l m
  rows : ∃ f, m.db.rows = l.db.rows.map f ∧
    ∀ r ∈ l.db.rows, RowLater r (f r) ∧ (f r = r ∨ OwnChange ownerID i r (f r))
  epochs : ∀ j' ∈ m.db.jobs, ∃ j ∈ l.db.jobs, j.uid = j'.uid ∧ j'.status.epoch = j.status.epoch
  settled : ∀ r' ∈ m.db.rows, r'.phase.active = false → r' ∈ l.db.rows ∨ (r'.identity = i ∧ Settled i r'.phase m)

def outcome (c : Settings S) (l : Ledger S) (e : Call S) (r : Answer e) (m : Ledger S) : Prop :=
  ∃ w v, ledger w = l ∧ ledger v = m ∧ executes c w e r v

def rules (c : Settings S) (ownerID : Bytes) (i : Identity) : Rules (Ledger S) (Call S) Answer :=
  ⟨outcome c, Rely c.toContext ownerID i, fun l _ _ m => Guarantee c.toContext ownerID i l m⟩

structure Ready (ownerID : Bytes) (record : Record) (l : Ledger S) : Prop where
  uid : record.identity.jobUID ∈ l.db.uids
  keyed : ∀ j ∈ l.db.jobs, j.uid = record.identity.jobUID →
    j.key = record.key ∧ record.identity.epoch ≤ j.status.epoch
  calm : record.phase ≠ .stopping → ∀ r ∈ l.db.rows, r.identity = record.identity → r.ownerID = ownerID →
    r.phase ≠ .stopping

structure Seen (record : Record) (current : Job S) (l : Ledger S) : Prop where
  identity : jobIdentity current = record.identity
  sound : current.status.Sound
  later : ∀ j ∈ l.db.jobs, j.uid = current.uid → JobLater current j

section

variable {c : Settings S} {l m : Ledger S} {i : Identity}

theorem quiet_outcome {e : Call S} {r : Answer e} (he : e.quiet i) (h : outcome c l e r m) : m = l := by
  obtain ⟨w, v, rfl, rfl, choice, h⟩ := h
  cases e with
  | clock => rw [execute_reads rfl h]
  | getJob => rw [execute_reads rfl h]
  | loadBindings => rw [execute_reads rfl h]
  | readReceipts => rw [execute_reads rfl h]
  | buildEnvelopes => rw [execute_reads rfl h]
  | getObject => rw [execute_reads rfl h]
  | claimCleanup => rcases execute_claimCleanup h with ⟨rfl, -⟩ | rfl <;> rfl
  | commitReceipts => rcases execute_commitReceipts h with rfl | ⟨committed, rfl⟩ <;> rfl
  | completeCleanup => rcases execute_completeCleanup h with rfl | rfl <;> rfl
  | createObject => rcases execute_createObject h with rfl | ⟨o, -, rfl⟩ <;> rfl
  | deleteObject => rcases execute_deleteObject h with rfl | rfl <;> rfl
  | _ => exact absurd he id

theorem getJob_outcome {key : Key} {j : Job S} (h : outcome c l (.getJob key) (.ok j) m) :
    j ∈ l.db.jobs ∧ j.key = key := by
  obtain ⟨w, v, rfl, rfl, choice, h⟩ := h
  exact execute_getJob h

variable {r : Except Fault Unit} {ownerID : Bytes} {lastError : String} {now : Time}

theorem updateJob_outcome {candidate : Job S} {version : Int64} (h : outcome c l (.updateJob candidate version) r m) :
    (m = l ∧ r ≠ .ok ()) ∨ ∃ jobs stored,
      JobTable.update c.toContext l.db.jobs candidate version = .ok (jobs, stored) ∧ m = withJobs l jobs stored := by
  obtain ⟨w, v, rfl, rfl, choice, h⟩ := h
  rcases execute_updateJob h with ⟨rfl, hr⟩ | ⟨jobs, stored, hupdate, rfl⟩
  · exact .inl ⟨rfl, hr⟩
  · exact .inr ⟨jobs, stored, hupdate, rfl⟩

theorem updateDispatch_outcome {phase : Phase} {leaseDuration : Time}
    (h : outcome c l (.updateDispatch i ownerID phase lastError leaseDuration now) r m) :
    m = l ∨ m = withRows l (DispatchStore.update i ownerID phase lastError leaseDuration now l.db.rows).1 := by
  obtain ⟨w, v, rfl, rfl, choice, h⟩ := h
  rcases settle_world h with rfl | rfl
  · exact .inl rfl
  · exact .inr rfl

theorem fenceExpiredHeartbeat_outcome {heartbeatTimeout leaseDuration : Time} {r : Except Fault Bool}
    (h : outcome c l (.fenceExpiredHeartbeat i ownerID lastError heartbeatTimeout leaseDuration now) r m) :
    m = l ∨
      m = withRows l (fenceExpiredHeartbeat i ownerID lastError heartbeatTimeout leaseDuration now l.db.rows).1 := by
  obtain ⟨w, v, rfl, rfl, choice, h⟩ := h
  rcases settle_world h with rfl | rfl
  · exact .inl rfl
  · exact .inr rfl

theorem completeDispatch_outcome {phase : Phase} {stopped : Bool}
    (h : outcome c l (.completeDispatch i ownerID phase lastError now stopped) r m) :
    m = l ∨ m = withRows l (DispatchStore.complete i ownerID phase lastError now l.db.rows).1 := by
  obtain ⟨w, v, rfl, rfl, choice, h⟩ := h
  rcases settle_world h with rfl | rfl
  · exact .inl rfl
  · right
    rw [ledger, completeDispatch_db, completeDispatch_outcomes]
    rfl

end

section

variable {c : Context S} {ownerID : Bytes} {i : Identity} {l : Ledger S}

theorem Guarantee.refl (h : Sound c l) : Guarantee c ownerID i l l :=
  ⟨h, .refl l, ⟨id, (List.map_id _).symm, fun r _ => ⟨.refl r, .inl rfl⟩⟩, fun j hj => ⟨j, hj, rfl, rfl⟩,
    fun _ hr _ => .inl hr⟩

variable {phase : Phase} {now leaseDuration : Time} {lastError : String}

theorem eq_stopping (hactive : phase.active = true) (hlive : phase.live = false) : phase = .stopping := by
  revert hactive hlive
  cases phase <;> decide

theorem Settled.withRows (h : Settled i phase l) (rows : Table) : Settled i phase (DispatchLedger.withRows l rows) := by
  rcases h with h | ⟨state, h, hphase⟩
  · exact .inl h
  · exact .inr ⟨state, ⟨h.terminal, h.outcomes, h.jobs⟩, hphase⟩

theorem affect_guarantee (h : Sound c l) {condition : Record → Bool} {change : Record → Record}
    (hcondition : ∀ r, condition r = true → r.identity = i ∧ r.ownerID = ownerID ∧ r.phase.active = true)
    (hchange : ∀ r, (change r).identity = r.identity ∧ (change r).key = r.key ∧ (change r).ownerID = r.ownerID)
    (hlive : ∀ r ∈ l.db.rows, condition r = true → r.phase = .stopping → (change r).phase.live = false)
    (hsettled : ∀ r ∈ l.db.rows, condition r = true → (change r).phase.active = false →
      Settled i (change r).phase l) :
    Guarantee c ownerID i l (withRows l (affect l.db.rows condition change).1) := by
  have hrows : ∀ r ∈ l.db.rows, RowLater r (if condition r then change r else r) := by
    intro r hr
    split_ifs with hr'
    · obtain ⟨-, -, hactive⟩ := hcondition r hr'
      refine ⟨(hchange r).1, (hchange r).2.1, fun hinactive => ?_, fun hnotlive => ?_⟩
      · rw [hactive] at hinactive
        cases hinactive
      · exact hlive r hr hr' (eq_stopping hactive hnotlive)
    · exact .refl r
  refine ⟨rows_sound h hrows, rows_later hrows, ⟨_, rfl, fun r hr => ⟨hrows r hr, ?_⟩⟩,
    fun j hj => ⟨j, hj, rfl, rfl⟩, fun r' hr' hinactive => ?_⟩
  · split_ifs with hr'
    · obtain ⟨hidentity, howner, -⟩ := hcondition r hr'
      exact .inr ⟨hidentity, howner, (hchange r).2.2.trans howner⟩
    · exact .inl rfl
  · obtain ⟨r, hr, rfl⟩ := List.mem_map.mp hr'
    split_ifs at hinactive ⊢ with hcond
    · exact .inr ⟨(hchange r).1.trans (hcondition r hcond).1, (hsettled r hr hcond hinactive).withRows _⟩
    · exact .inl hr

theorem leased_iff {r : Record} :
    leased i ownerID now r = true ↔ r.identity = i ∧ r.ownerID = ownerID ∧ now < r.leaseExpiresAt := by
  simp [leased, and_assoc]

variable (h : Sound c l)

include h

theorem update_guarantee
    (hlive : phase.live = true → ∀ r ∈ l.db.rows, r.identity = i → r.ownerID = ownerID → r.phase ≠ .stopping) :
    Guarantee c ownerID i l (withRows l (DispatchStore.update i ownerID phase lastError leaseDuration now l.db.rows).1) := by
  unfold DispatchStore.update
  split
  · exact .refl h
  · split_ifs with hinvalid
    · exact .refl h
    · simp only [not_or, Bool.not_eq_true', Bool.not_eq_false] at hinvalid
      apply affect_guarantee h
      · intro r hr
        rw [Bool.and_eq_true, leased_iff] at hr
        exact ⟨hr.1.1, hr.1.2.1, hr.2⟩
      · exact fun r => ⟨rfl, rfl, rfl⟩
      · intro r hr hcond hstopping
        rw [Bool.and_eq_true, leased_iff] at hcond
        rw [Bool.eq_false_iff]
        exact fun hphase => hlive hphase r hr hcond.1.1 hcond.1.2.1 hstopping
      · grind

omit h in
theorem mem_update {rows : Table} {r' : Record}
    (hr' : r' ∈ (DispatchStore.update i ownerID phase lastError leaseDuration now rows).1) :
    r' ∈ rows ∨ r'.phase = phase := by
  unfold DispatchStore.update at hr'
  split at hr'
  · exact .inl hr'
  · split_ifs at hr'
    · exact .inl hr'
    · obtain ⟨r, hr, rfl⟩ := List.mem_map.mp hr'
      split_ifs
      · exact .inr rfl
      · exact .inl hr

theorem fence_guarantee {heartbeatTimeout : Time} : Guarantee c ownerID i l (withRows l
      (fenceExpiredHeartbeat i ownerID lastError heartbeatTimeout leaseDuration now l.db.rows).1) := by
  unfold fenceExpiredHeartbeat
  split
  · exact .refl h
  · split_ifs
    · exact .refl h
    · apply affect_guarantee h
      · intro r hr
        rw [Bool.and_eq_true, Bool.and_eq_true, leased_iff] at hr
        exact ⟨hr.1.1.1, hr.1.1.2.1, live_active hr.1.2⟩
      · exact fun r => ⟨rfl, rfl, rfl⟩
      · exact fun r _ _ _ => rfl
      · intro r _ _ hinactive
        cases hinactive

theorem complete_guarantee (hsettled : Settled i phase l) :
    Guarantee c ownerID i l (withRows l (DispatchStore.complete i ownerID phase lastError now l.db.rows).1) := by
  unfold DispatchStore.complete
  split
  · exact .refl h
  · split_ifs with hinvalid
    · exact .refl h
    · simp only [not_or, Bool.not_eq_true', Bool.not_eq_false] at hinvalid
      apply affect_guarantee h
      · intro r hr
        rw [Bool.and_eq_true, leased_iff] at hr
        exact ⟨hr.1.1, hr.1.2.1, hr.2⟩
      · exact fun r => ⟨rfl, rfl, rfl⟩
      · intro r _ _ _
        have hterminal := hinvalid.2
        cases phase <;> first | rfl | cases hterminal
      · exact fun r _ _ _ => hsettled

end

theorem Ended.later {i : Identity} {state : JobLifecycle.State} {l m : Ledger S} (h : Ended i state l)
    (hlater : Later l m) (hknown : i.jobUID ∈ l.db.uids)
    (hepochs : ∀ j ∈ l.db.jobs, j.uid = i.jobUID → i.epoch ≤ j.status.epoch) : Ended i state m := by
  -- a job of the execution's epoch was at that epoch before
  have hsame : ∀ j ∈ l.db.jobs, j.uid = i.jobUID → j.status.epoch ≤ i.epoch → jobIdentity j = i := by
    intro j hj huid hle
    have hepoch := Int64.le_antisymm hle (hepochs j hj huid)
    rw [jobIdentity, huid, hepoch]
  refine ⟨h.terminal, fun p hp hpi => ?_, fun j' hj' hid => ?_⟩
  · rcases hlater.outcomes p hp with hp | hnew | ⟨j, hj, huid, hle, hended⟩
    · exact h.outcomes p hp hpi
    · exact absurd (hpi ▸ hknown) hnew
    · rw [hpi] at huid hle hended
      have hid := hsame j hj huid hle
      have hstate := h.jobs j hj hid
      rw [hended (congrArg Identity.epoch hid) (by rw [hstate]; exact h.terminal), hstate]
  · have huid : j'.uid = i.jobUID := congrArg Identity.jobUID hid
    have hepoch : j'.status.epoch = i.epoch := congrArg Identity.epoch hid
    obtain ⟨j, hj, hjlater⟩ := hlater.jobs j' hj' (huid ▸ hknown)
    have hjid := hsame j hj (hjlater.uid.symm.trans huid) (hepoch ▸ hjlater.history.epoch)
    have hstate := h.jobs j hj hjid
    have hj'epoch : j'.status.epoch = j.status.epoch := hepoch.trans (congrArg Identity.epoch hjid).symm
    exact (hjlater.history.ended hj'epoch (by rw [hstate]; exact h.terminal)).trans hstate

section

variable {c : Context S} {ownerID : Bytes} {record : Record} {l m : Ledger S} {state : JobLifecycle.State}
  (hrely : Rely c ownerID record.identity l m)

include hrely

theorem Ready.stable (h : Ready ownerID record l) : Ready ownerID record m := by
  refine ⟨hrely.later.uids _ h.uid, fun j' hj' huid => ?_, fun hphase r' hr' hidentity howner => ?_⟩
  · obtain ⟨j, hj, hlater⟩ := hrely.later.jobs j' hj' (huid ▸ h.uid)
    obtain ⟨hkey, hepoch⟩ := h.keyed j hj (hlater.uid.symm.trans huid)
    exact ⟨hlater.key.trans hkey, Int64.le_trans hepoch hlater.history.epoch⟩
  · obtain ⟨r, hr, hrid, hrowner, hsame⟩ := hrely.held r' hr' hidentity howner
    rw [hsame]
    exact h.calm hphase r hr hrid hrowner

section

variable (hready : Ready ownerID record l)

include hready

theorem Passed.stable (h : Passed record.identity l) : Passed record.identity m := by
  intro j' hj' huid
  obtain ⟨j, hj, hlater⟩ := hrely.later.jobs j' hj' (huid ▸ hready.uid)
  exact Int64.lt_of_lt_of_le (h j hj (hlater.uid.symm.trans huid)) hlater.history.epoch

theorem Ended.stable (h : Ended record.identity state l) : Ended record.identity state m :=
  h.later hrely.later hready.uid fun j hj huid => (hready.keyed j hj huid).2

theorem Settled.stable {phase : Phase} (h : Settled record.identity phase l) : Settled record.identity phase m := by
  rcases h with h | ⟨state, h, hphase⟩
  · exact .inl (h.stable hrely hready)
  · exact .inr ⟨state, h.stable hrely hready, hphase⟩

theorem Seen.stable {current : Job S} (h : Seen record current l) : Seen record current m := by
  refine ⟨h.identity, h.sound, fun j' hj' huid => ?_⟩
  have hcurrent : current.uid = record.identity.jobUID := congrArg Identity.jobUID h.identity
  obtain ⟨j, hj, hlater⟩ := hrely.later.jobs j' hj' (by rw [huid, hcurrent]; exact hready.uid)
  exact (h.later j hj (hlater.uid.symm.trans huid)).trans hlater

end

end

variable {c : Settings S} {cfg : Config} {record : Record} {A : Ledger S → Prop} {s : Ledger S}

/-- A program keeps to the rules, whatever it ends in. -/
abbrev Lawful (c : Settings S) (cfg : Config) (record : Record) (p : Prog S (Except Fault Unit)) (s : Ledger S) : Prop :=
  Obeys (rules c cfg.ownerID record.identity) (fun _ _ => True) p s

def Stable (c : Context S) (ownerID : Bytes) (record : Record) (A : Ledger S → Prop) : Prop :=
  ∀ l m, Rely c ownerID record.identity l m → A l → A m

theorem stable_ready : Stable c.toContext cfg.ownerID record (Ready cfg.ownerID record) :=
  fun _ _ hrely h => h.stable hrely

theorem obeys_quiet {α : Type} {p : Prog S α} (hp : Only (Call.quiet record.identity) p)
    (hA : Stable c.toContext cfg.ownerID record A) (hs : A s) :
    Obeys (rules c cfg.ownerID record.identity) (fun _ t => A t) p s := by
  refine obeys_only hp hs fun e he l m r n hl hrely hout => ?_
  cases quiet_outcome he hout
  exact ⟨.refl hrely.sound, hA l m hrely hl⟩

theorem obeys_ask {α : Type} {post : α → Ledger S → Prop} {e : Call S} {f : Answer e → Prog S α}
    (he : e.quiet record.identity) (hA : Stable c.toContext cfg.ownerID record A) (hs : A s)
    (h : ∀ r t, Sound c.toContext t → A t → outcome c t e r t →
      Obeys (rules c cfg.ownerID record.identity) post (f r) t) :
    Obeys (rules c cfg.ownerID record.identity) post (perform e >>= f) s := by
  apply obeys_perform
  intro t hrely r u hout
  cases quiet_outcome he hout
  exact ⟨.refl hrely.sound, h r t hrely.sound (hA s t hrely hs) hout⟩

variable {phase : Phase} {lastError : String} {e : Fault} {l : Ledger S} {current : Job S} {target : JobLifecycle.State}
  {failure : Option Failure}

theorem keepAlive_obeys (h : Ready cfg.ownerID { record with phase } s) :
    Obeys (rules c cfg.ownerID record.identity) (fun _ t => Ready cfg.ownerID { record with phase } t)
      (keepAlive cfg record phase lastError) s := by
  refine obeys_ask trivial (A := Ready cfg.ownerID { record with phase }) (fun l m hrely hl => hl.stable hrely) h
    fun now t _ ht _ => ?_
  intro u hrely r v hout
  have hu : Ready cfg.ownerID { record with phase } u := ht.stable hrely
  rcases updateDispatch_outcome hout with rfl | rfl
  · exact ⟨.refl hrely.sound, hu⟩
  · refine ⟨update_guarantee hrely.sound fun hlive => hu.calm ?_, hu.uid, hu.keyed, fun hphase r' hr' hid howner => ?_⟩
    · rintro rfl
      cases hlive
    · rcases mem_update hr' with hold | hnew
      · exact hu.calm hphase r' hold hid howner
      · rw [hnew]
        exact hphase

theorem recordTransientError_obeys (h : Ready cfg.ownerID record s) :
    Lawful c cfg record (recordTransientError cfg record e) s := by
  apply obeys_bind
  apply obeys_weaken (keepAlive_obeys h)
  intro r t _
  split <;> trivial

theorem complete_obeys {stopped : Bool} (hready : Ready cfg.ownerID record s)
    (hsettled : Settled record.identity phase s) :
    Lawful c cfg record (SchedulerReconciler.complete cfg record phase lastError stopped) s := by
  refine obeys_ask trivial (A := fun l => Ready cfg.ownerID record l ∧ Settled record.identity phase l)
    (fun l m hrely hl => ⟨hl.1.stable hrely, hl.2.stable hrely hl.1⟩) ⟨hready, hsettled⟩ fun now t _ ht _ => ?_
  intro u hrely r v hout
  refine ⟨?_, trivial⟩
  rcases completeDispatch_outcome hout with rfl | rfl
  · exact .refl hrely.sound
  · exact complete_guarantee hrely.sound (ht.2.stable hrely ht.1)

theorem stopThen_obeys {next : Prog S (Except Fault Unit)}
    (hA : Stable c.toContext cfg.ownerID record A) (hready : ∀ t, A t → Ready cfg.ownerID record t) (hs : A s)
    (hnext : ∀ t, A t → Lawful c cfg record next t) :
    Lawful c cfg record (stopThen c cfg record lastError next) s := by
  apply obeys_bind
  apply obeys_weaken (obeys_quiet ExecutionDispatcher.stop_quiet hA hs)
  intro r t ht
  have hstopping : Ready cfg.ownerID { record with phase := .stopping } t :=
    ⟨(hready t ht).uid, (hready t ht).keyed, fun h => absurd rfl h⟩
  split
  · exact recordTransientError_obeys (hready t ht)
  · exact obeys_weaken (keepAlive_obeys hstopping) fun _ _ _ => trivial
  · exact hnext t ht

theorem ended_of_job {c : Context S} {i : Identity} (h : Sound c l) {j : Job S} (hj : j ∈ l.db.jobs)
    (hid : jobIdentity j = i) (hterminal : terminal j.status.state = true) : Ended i j.status.state l := by
  subst hid
  refine ⟨hterminal, fun p hp hpi => ?_, fun q hq hqi => ?_⟩
  · obtain ⟨-, -, hagree⟩ := h.outcomes p hp
    exact ((hagree j hj (by rw [hpi]; rfl)).2 (by rw [hpi]; rfl)).symm
  · rw [h.jobs.eq_of_uid hq hj (congrArg Identity.jobUID hqi)]

theorem updateJob_guarantee (ownerID : Bytes) {next stored : Job S} {jobs : List (Job S)} {now : Time}
    (hs : Sound c.toContext l) (hseen : Seen record current l)
    (hadvance : advance current record.identity.epoch target failure now = .ok (next, true))
    (hupdate : JobTable.update c.toContext l.db.jobs next current.version = .ok (jobs, stored)) :
    Guarantee c.toContext ownerID record.identity l (withJobs l jobs stored) ∧
      stored ∈ jobs ∧ jobIdentity stored = record.identity ∧ stored.status.state = target := by
  obtain ⟨found, hfind, hversion, huid, -⟩ := JobTable.update_ok hupdate
  -- the version is the one that was read, so the job is
  have hfound : found = current := by
    rcases (hseen.later found (JobTable.find_some hfind).1 (huid.trans (advance_move hadvance).1.uid)).version with
      heq | hlt
    · exact heq
    · rw [hversion] at hlt
      exact absurd hlt (Int64.not_lt.mpr (Int64.le_refl _))
  subst hfound
  obtain ⟨hsound, hlater, hmem, hstored, hstoreduid, hstatus, hothers⟩ :=
    request_written (r := .advance record.identity.epoch target failure) hs hfind hadvance hupdate
  have hepoch : stored.status.epoch = found.status.epoch := by
    rw [hstatus]
    exact (advance_ok hadvance).1
  refine ⟨⟨hsound, hlater, ⟨id, (List.map_id _).symm, fun r _ => ⟨.refl r, .inl rfl⟩⟩, fun j' hj' => ?_,
    fun r hr _ => .inl hr⟩, hstored, ?_, ?_⟩
  · rcases hothers j' hj' with rfl | ⟨hj', -⟩
    · exact ⟨found, hmem, hstoreduid.symm, hepoch⟩
    · exact ⟨j', hj', rfl, rfl⟩
  · rw [← hseen.identity, jobIdentity, jobIdentity, hepoch, hstoreduid]
  · rw [hstatus]
    exact advance_state hadvance

def Moved (ownerID : Bytes) (record : Record) (target : JobLifecycle.State) (r : Except Fault Unit) (l : Ledger S) : Prop :=
  Ready ownerID record l ∧ (r = .ok () → terminal target = true → Ended record.identity target l)

theorem Ready.moved_error (h : Ready cfg.ownerID record s) :
    Moved cfg.ownerID record target (.error e) s := ⟨h, fun he => nomatch he⟩

theorem updateState_obeys
    (hready : Ready cfg.ownerID record s) (hseen : Seen record current s) (hne : current.status.state ≠ target) :
    Obeys (rules c cfg.ownerID record.identity) (Moved cfg.ownerID record target)
      (updateState current record.identity.epoch target failure) s := by
  refine obeys_ask trivial (A := fun l => Ready cfg.ownerID record l ∧ Seen record current l)
    (fun l m hrely hl => ⟨hl.1.stable hrely, hl.2.stable hrely hl.1⟩) ⟨hready, hseen⟩ fun now t _ ht _ => ?_
  split
  · exact ht.1.moved_error
  · next hadvance => exact absurd (advance_unchanged hadvance).symm hne
  · next next hadvance =>
    intro u hrely r v hout
    have hu := ht.1.stable hrely
    rcases updateJob_outcome hout with ⟨rfl, hr⟩ | ⟨jobs, stored, hupdate, rfl⟩
    · exact ⟨.refl hrely.sound, hu, fun h => absurd h hr⟩
    · obtain ⟨hguarantee, hmem, hid, hstate⟩ :=
        updateJob_guarantee cfg.ownerID hrely.sound (ht.2.stable hrely ht.1) hadvance hupdate
      refine ⟨hguarantee, hu.stable ⟨hguarantee.sound, hguarantee.later, fun r hr hrid hrowner => ?_⟩, fun _ hterminal => ?_⟩
      · exact ⟨r, hr, hrid, hrowner, rfl⟩
      · rw [← hstate] at hterminal ⊢
        exact ended_of_job hguarantee.sound hmem hid hterminal

theorem identity_of_not_stale (h : stale record current = false) : jobIdentity current = record.identity := by
  simp only [stale, Bool.or_eq_false_iff, decide_eq_false_iff_not, not_not] at h
  rw [jobIdentity, h.1, h.2]

theorem seen_of_mem (hs : Sound c.toContext l) (hmem : current ∈ l.db.jobs)
    (hid : jobIdentity current = record.identity) : Seen record current l := by
  refine ⟨hid, Job.sound_of_validate (hs.jobs.valid current hmem), fun j hj huid => ?_⟩
  rw [hs.jobs.eq_of_uid hj hmem huid]
  exact .refl current

theorem attemptTransition_obeys (attempts : ℕ) {s : Ledger S} (hready : Ready cfg.ownerID record s) :
    Obeys (rules c cfg.ownerID record.identity) (Moved cfg.ownerID record target)
      (attemptTransition record target failure attempts) s := by
  induction attempts generalizing s with
  | zero => exact hready.moved_error
  | succ attempts ih =>
    refine obeys_ask trivial stable_ready hready fun r t hsound ht hout => ?_
    split
    · exact ht.moved_error
    · next current =>
      obtain ⟨hmem, -⟩ := getJob_outcome hout
      split_ifs with hstale htarget hfinished hended
      · exact ht.moved_error
      · have hid := identity_of_not_stale (Bool.eq_false_iff.mpr hstale)
        refine ⟨ht, fun _ hterminal => ?_⟩
        rw [← htarget] at hterminal ⊢
        exact ended_of_job hsound hmem hid hterminal
      · -- an execution that ended before it was seen running is moved to RUNNING first
        have hid := identity_of_not_stale (Bool.eq_false_iff.mpr hstale)
        apply obeys_bind
        refine obeys_weaken (updateState_obeys ht (seen_of_mem hsound hmem hid) (by rw [hfinished.2]; decide))
          fun r u hu => ?_
        split
        · split_ifs
          · exact ih hu.1
          · exact hu.1.moved_error
        · exact ih hu.1
      · exact ht.moved_error
      · have hid := identity_of_not_stale (Bool.eq_false_iff.mpr hstale)
        apply obeys_bind
        refine obeys_weaken (updateState_obeys ht (seen_of_mem hsound hmem hid) htarget) fun r u hu => ?_
        split
        · split_ifs
          · exact ih hu.1
          · exact hu.1.moved_error
        · exact hu

theorem settled_of_moved (h : Moved cfg.ownerID record target (.ok ()) s)
    (hterminal : terminal target = true) (hphase : phaseForTerminalState target = some phase) :
    Settled record.identity phase s := .inr ⟨target, h.2 rfl hterminal, hphase⟩

theorem failPermanently_obeys {reason rootCause : String} (h : Ready cfg.ownerID record s) :
    Lawful c cfg record (failPermanently cfg record reason rootCause) s := by
  refine obeys_ask trivial stable_ready h fun now t _ ht _ => ?_
  apply obeys_bind
  refine obeys_weaken (attemptTransition_obeys 5 ht) fun r u hu => ?_
  split
  · trivial
  · exact complete_obeys hu.1 (settled_of_moved hu rfl rfl)

theorem stable_settled : Stable c.toContext cfg.ownerID record
    (fun l => Ready cfg.ownerID record l ∧ Settled record.identity phase l) :=
  fun _ _ hrely hl => ⟨hl.1.stable hrely, hl.2.stable hrely hl.1⟩

theorem stopThen_complete_obeys {text : String} (hready : Ready cfg.ownerID record s)
    (hsettled : Settled record.identity phase s) :
    Lawful c cfg record (stopThen c cfg record lastError (SchedulerReconciler.complete cfg record phase text true)) s :=
  stopThen_obeys stable_settled (fun _ ht => ht.1) ⟨hready, hsettled⟩ fun _ ht => complete_obeys ht.1 ht.2

theorem failureTime_quiet : Only (Call.quiet (S := S) record.identity) (failureTime record) := by
  unfold failureTime
  split_ifs
  · exact only_perform trivial
  · trivial

theorem finishHeartbeatFailure_obeys (h : Ready cfg.ownerID record s) :
    Lawful c cfg record (finishHeartbeatFailure c cfg record) s := by
  apply obeys_bind
  refine obeys_weaken (obeys_quiet failureTime_quiet stable_ready h) fun timestamp t ht => ?_
  apply obeys_bind
  refine obeys_weaken (attemptTransition_obeys 5 ht) fun r u hu => ?_
  split
  · trivial
  · exact stopThen_complete_obeys hu.1 (settled_of_moved hu rfl rfl)

theorem failHeartbeat_obeys {rootCause : String} (h : Ready cfg.ownerID record s) :
    Lawful c cfg record (failHeartbeat c cfg record rootCause) s := by
  refine obeys_ask trivial stable_ready h fun now t _ ht _ => ?_
  apply obeys_perform
  intro u hrely r v hout
  have hu := ht.stable hrely
  have hkept : Guarantee c.toContext cfg.ownerID record.identity u v ∧
      Ready cfg.ownerID { record with phase := .stopping, lastError := rootCause, updatedAt := now } v := by
    rcases fenceExpiredHeartbeat_outcome hout with rfl | rfl
    · exact ⟨.refl hrely.sound, hu.uid, hu.keyed, fun hphase => absurd rfl hphase⟩
    · exact ⟨fence_guarantee hrely.sound, hu.uid, hu.keyed, fun hphase => absurd rfl hphase⟩
  refine ⟨hkept.1, ?_⟩
  split
  · trivial
  · trivial
  · exact finishHeartbeatFailure_obeys hkept.2

theorem heartbeatExpired_quiet : Only (Call.quiet (S := S) record.identity) (heartbeatExpired cfg record) := by
  unfold heartbeatExpired
  split
  · trivial
  · split_ifs
    · trivial
    · exact only_call trivial fun _ => trivial

section

variable (h : Ready cfg.ownerID record s)

include h

theorem finishCancel_obeys : Lawful c cfg record (finishCancel cfg record) s := by
  apply obeys_bind
  refine obeys_weaken (attemptTransition_obeys 5 h) fun r t ht => ?_
  split
  · trivial
  · exact complete_obeys ht.1 (settled_of_moved ht rfl rfl)

theorem stopThen_finishCancel_obeys : Lawful c cfg record (stopThen c cfg record "" (finishCancel cfg record)) s :=
  stopThen_obeys stable_ready (fun _ ht => ht) h fun _ ht => finishCancel_obeys ht

theorem cancel_obeys : Lawful c cfg record (cancel c cfg record) s := by
  have hstopping : Ready cfg.ownerID { record with phase := .stopping } s :=
    ⟨h.uid, h.keyed, fun hphase => absurd rfl hphase⟩
  apply obeys_bind
  refine obeys_weaken (keepAlive_obeys hstopping) fun r t ht => ?_
  split
  · trivial
  · exact stopThen_finishCancel_obeys ht

theorem dispatchFailed_obeys {claimedExecution : Bool} :
    Lawful c cfg record (dispatchFailed c cfg record claimedExecution e) s := by
  unfold dispatchFailed
  split
  · exact failPermanently_obeys h
  · apply obeys_bind
    refine obeys_weaken (obeys_quiet heartbeatExpired_quiet stable_ready h) fun r t ht => ?_
    split_ifs
    · exact failHeartbeat_obeys ht
    · exact recordTransientError_obeys ht

section

variable (hphase : record.phase ≠ .stopping)

include hphase

theorem observed_obeys {observation : ExecutionDispatcher.Observation} :
    Lawful c cfg record (observed c cfg record observation) s := by
  unfold observed
  split
  · apply obeys_bind
    refine obeys_weaken (obeys_quiet heartbeatExpired_quiet stable_ready h) fun r t ht => ?_
    split_ifs
    · exact failHeartbeat_obeys ht
    · exact obeys_weaken (keepAlive_obeys ht) fun _ _ _ => trivial
  · apply obeys_bind
    refine obeys_weaken (obeys_quiet heartbeatExpired_quiet stable_ready h) fun r t ht => ?_
    split_ifs
    · exact failHeartbeat_obeys ht
    · apply obeys_bind
      refine obeys_weaken (attemptTransition_obeys 5 ht) fun r u hu => ?_
      split
      · trivial
      · have hrunning : Ready cfg.ownerID { record with phase := .running } u :=
          ⟨hu.1.uid, hu.1.keyed, fun _ => hu.1.calm hphase⟩
        exact obeys_weaken (keepAlive_obeys hrunning) fun _ _ _ => trivial
  · apply obeys_bind
    refine obeys_weaken (attemptTransition_obeys 5 h) fun r t ht => ?_
    split
    · trivial
    · exact complete_obeys ht.1 (settled_of_moved ht rfl rfl)
  · exact failPermanently_obeys h

theorem dispatch_obeys {claimedExecution : Bool} : Lawful c cfg record (dispatch c cfg record claimedExecution current) s := by
  apply obeys_bind
  refine obeys_weaken (obeys_quiet ExecutionDispatcher.reconcile_quiet stable_ready h) fun r t ht => ?_
  split
  · exact dispatchFailed_obeys ht
  · exact observed_obeys ht hphase

theorem work_obeys : Lawful c cfg record (work c cfg record current) s := by
  unfold work
  dsimp only
  have hworking : (if decide (record.phase = .claimed) = true then Phase.starting else record.phase) ≠ .stopping := by
    split_ifs
    · decide
    · exact hphase
  generalize (if decide (record.phase = .claimed) = true then Phase.starting else record.phase) = working at hworking ⊢
  have hready : Ready cfg.ownerID { record with phase := working } s := ⟨h.uid, h.keyed, fun _ => h.calm hphase⟩
  apply obeys_bind
  refine obeys_weaken (keepAlive_obeys hready) fun r t ht => ?_
  split
  · trivial
  · exact dispatch_obeys ht hworking

end

end

theorem phaseForTerminalState_some {state : JobLifecycle.State}
    (h : phaseForTerminalState state = some phase) : terminal state = true := by
  cases state <;> first | rfl | cases h

theorem passed_of_stale (hsound : Sound c.toContext s) (hready : Ready cfg.ownerID record s)
    (hmem : current ∈ s.db.jobs) (hkey : current.key = record.key) (hstale : stale record current = true) :
    Passed record.identity s := by
  intro j hj huid
  obtain ⟨hjkey, hepoch⟩ := hready.keyed j hj huid
  cases hsound.jobs.eq_of_key hj hmem (hjkey.trans hkey.symm)
  simp only [stale, Bool.or_eq_true, decide_eq_true_eq] at hstale
  rcases hstale with hne | hne
  · exact absurd huid hne
  · exact Int64.lt_of_le_of_ne hepoch (Ne.symm hne)

theorem reconcile_obeys (h : Ready cfg.ownerID record s) : Lawful c cfg record (reconcile c cfg record) s := by
  refine obeys_ask trivial stable_ready h fun r t hsound ht hout => ?_
  split
  · exact recordTransientError_obeys ht
  · next current =>
    obtain ⟨hmem, hkey⟩ := getJob_outcome hout
    by_cases hstale : stale record current = true
    · rw [if_pos hstale]
      exact stopThen_complete_obeys ht (.inl (passed_of_stale hsound ht hmem hkey hstale))
    · rw [if_neg hstale]
      have hid := identity_of_not_stale (Bool.eq_false_iff.mpr hstale)
      split
      · next phase hphase =>
        have hsettled : Settled record.identity phase t :=
          .inr ⟨_, ended_of_job hsound hmem hid (phaseForTerminalState_some hphase), hphase⟩
        split_ifs
        · exact stopThen_complete_obeys ht hsettled
        · apply obeys_bind
          refine obeys_weaken (obeys_quiet ExecutionDispatcher.dispatcher_cleanup_quiet stable_settled ⟨ht, hsettled⟩)
            fun r u hu => ?_
          split
          · exact recordTransientError_obeys hu.1
          · exact complete_obeys hu.1 hu.2
      · grind [cancel_obeys, recordTransientError_obeys, finishHeartbeatFailure_obeys, work_obeys]

end AstraSync.ReconcilerRules
