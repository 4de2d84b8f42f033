import AstraSync.SchedulerReconciler

namespace AstraSync.DispatchLedger

open ByteStrings JobLifecycle DispatchStore DispatchDatabase JobRepository SchedulerWorld
open JobTable (Advances JobLater advances_jobLater)

variable {S : Type}

structure Ledger (S : Type) where
  db : Database S
  outcomes : List (Identity × JobLifecycle.State)

def ledger (w : World S) : Ledger S := ⟨w.db, w.outcomes⟩

structure RowLater (r r' : Record) : Prop where
  identity : r'.identity = r.identity
  key : r'.key = r.key
  ended : r.phase.active = false → r' = r
  halted : r.phase.live = false → r'.phase.live = false

structure Sound (c : Context S) (l : Ledger S) : Prop where
  jobs : JobTable.Sound c l.db.jobs
  db : DispatchDatabase.Inv l.db
  identities : (l.db.rows.map (·.identity)).Nodup
  owned : ∀ r ∈ l.db.rows, ∃ j ∈ l.db.jobs,
    j.uid = r.identity.jobUID ∧ j.key = r.key ∧ r.identity.epoch ≤ j.status.epoch
  outcomes : ∀ p ∈ l.outcomes, terminal p.2 = true ∧ p.1.jobUID ∈ l.db.uids ∧
    ∀ j ∈ l.db.jobs, j.uid = p.1.jobUID →
      p.1.epoch ≤ j.status.epoch ∧ (j.status.epoch = p.1.epoch → j.status.state = p.2)

/-- What an earlier ledger fixes for a later one. Identifiers of jobs and executions are never given out
again, so what is there of an old one comes from what was there. -/
structure Later (l m : Ledger S) : Prop where
  uids : ∀ uid ∈ l.db.uids, uid ∈ m.db.uids
  claimed : ∀ i ∈ l.db.claimed, i ∈ m.db.claimed
  jobs : ∀ j' ∈ m.db.jobs, j'.uid ∈ l.db.uids → ∃ j ∈ l.db.jobs, JobLater j j'
  rows : ∀ r' ∈ m.db.rows, r'.identity ∈ l.db.claimed → ∃ r ∈ l.db.rows, RowLater r r'
  outcomes : ∀ p ∈ m.outcomes, p ∈ l.outcomes ∨ p.1.jobUID ∉ l.db.uids ∨
    ∃ j ∈ l.db.jobs, j.uid = p.1.jobUID ∧ j.status.epoch ≤ p.1.epoch ∧
      (j.status.epoch = p.1.epoch → terminal j.status.state = true → p.2 = j.status.state)

theorem RowLater.refl (r : Record) : RowLater r r := ⟨rfl, rfl, fun _ => rfl, fun h => h⟩

theorem RowLater.trans {a b d : Record} (hab : RowLater a b) (hbd : RowLater b d) : RowLater a d := by
  refine ⟨hbd.identity.trans hab.identity, hbd.key.trans hab.key, fun h => ?_, fun h => hbd.halted (hab.halted h)⟩
  have hb := hab.ended h
  exact (hbd.ended (by rw [hb]; exact h)).trans hb

theorem Later.refl (l : Ledger S) : Later l l :=
  ⟨fun _ h => h, fun _ h => h, fun j hj _ => ⟨j, hj, .refl j⟩, fun r hr _ => ⟨r, hr, .refl r⟩, fun _ h => .inl h⟩

theorem Later.trans {l m n : Ledger S} (hlm : Later l m) (hmn : Later m n) : Later l n := by
  refine ⟨fun uid h => hmn.uids uid (hlm.uids uid h), fun i h => hmn.claimed i (hlm.claimed i h), ?_, ?_, ?_⟩
  · intro j'' hj'' huid
    obtain ⟨j', hj', hlater⟩ := hmn.jobs j'' hj'' (hlm.uids _ huid)
    obtain ⟨j, hj, hearlier⟩ := hlm.jobs j' hj' (hlater.uid ▸ huid)
    exact ⟨j, hj, hearlier.trans hlater⟩
  · intro r'' hr'' hclaimed
    obtain ⟨r', hr', hlater⟩ := hmn.rows r'' hr'' (hlm.claimed _ hclaimed)
    obtain ⟨r, hr, hearlier⟩ := hlm.rows r' hr' (hlater.identity ▸ hclaimed)
    exact ⟨r, hr, hearlier.trans hlater⟩
  · intro p hp
    by_cases huid : p.1.jobUID ∈ l.db.uids
    · rcases hmn.outcomes p hp with hp | hnew | ⟨j', hj', hj'uid, hle, hended⟩
      · exact hlm.outcomes p hp
      · exact absurd (hlm.uids _ huid) hnew
      · obtain ⟨j, hj, hlater⟩ := hlm.jobs j' hj' (hj'uid ▸ huid)
        refine .inr (.inr ⟨j, hj, hlater.uid.symm.trans hj'uid, Int64.le_trans hlater.history.epoch hle, ?_⟩)
        -- the epoch in between is the same one, and the state it ended in with it
        intro hepoch hterminal
        have hsame : j'.status.epoch = j.status.epoch :=
          Int64.le_antisymm (hepoch ▸ hle) hlater.history.epoch
        have hstate := hlater.history.ended hsame hterminal
        rw [hended (hsame.trans hepoch) (by rw [hstate]; exact hterminal), hstate]
    · exact .inr (.inl huid)

theorem Sound.job_of_uid {c : Context S} {l : Ledger S} (h : Sound c l) {r : Record} (hr : r ∈ l.db.rows) {j : Job S}
    (hj : j ∈ l.db.jobs) (huid : j.uid = r.identity.jobUID) : j.key = r.key ∧ r.identity.epoch ≤ j.status.epoch := by
  obtain ⟨q, hq, hquid, hkey, hepoch⟩ := h.owned r hr
  cases h.jobs.eq_of_uid hj hq (huid.trans hquid.symm)
  exact ⟨hkey, hepoch⟩

section

variable {c : Context S} {l : Ledger S}

def withRows (l : Ledger S) (rows : Table) : Ledger S := { l with db := { l.db with rows } }

theorem rows_sound (h : Sound c l) {f : Record → Record} (hf : ∀ r ∈ l.db.rows, RowLater r (f r)) :
    Sound c (withRows l (l.db.rows.map f)) := by
  have hidentities : (l.db.rows.map f).map (·.identity) = l.db.rows.map (·.identity) := by
    rw [List.map_map]
    exact List.map_congr_left fun r hr => (hf r hr).identity
  refine ⟨h.jobs, identities_inv h.db hidentities, hidentities ▸ h.identities, fun r' hr' => ?_, h.outcomes⟩
  obtain ⟨r, hr, rfl⟩ := List.mem_map.mp hr'
  rw [(hf r hr).identity, (hf r hr).key]
  exact h.owned r hr

theorem rows_later {f : Record → Record} (hf : ∀ r ∈ l.db.rows, RowLater r (f r)) :
    Later l (withRows l (l.db.rows.map f)) := by
  refine ⟨fun _ h => h, fun _ h => h, fun j hj _ => ⟨j, hj, .refl j⟩, fun r' hr' _ => ?_, fun _ h => .inl h⟩
  obtain ⟨r, hr, rfl⟩ := List.mem_map.mp hr'
  exact ⟨r, hr, hf r hr⟩

variable {f : Job S → Job S} (hf : ∀ j ∈ l.db.jobs, Advances c j (f j))

def withJobs (l : Ledger S) (jobs : List (Job S)) (stored : Job S) : Ledger S :=
  ⟨{ l.db with jobs }, recordOutcome l.outcomes stored⟩

theorem mem_recordOutcome {outcomes : List (Identity × JobLifecycle.State)} {stored : Job S}
    {p : Identity × JobLifecycle.State} (h : p ∈ recordOutcome outcomes stored) :
    p ∈ outcomes ∨ (terminal stored.status.state = true ∧ p = (jobIdentity stored, stored.status.state)) := by
  unfold recordOutcome at h
  split_ifs at h with hterminal
  · grind
  · exact .inl h

include hf

theorem jobs_sound (h : Sound c l) {j₀ : Job S} (hj₀ : j₀ ∈ l.db.jobs) :
    Sound c (withJobs l (l.db.jobs.map f) (f j₀)) := by
  have hjobs := h.jobs.map hf
  refine ⟨hjobs, jobs_inv h.db fun j' hj' => ?_, h.identities, fun r hr => ?_, fun p hp => ?_⟩
  · obtain ⟨j, hj, rfl⟩ := List.mem_map.mp hj'
    exact ⟨j, hj, (hf j hj).uid.symm⟩
  · obtain ⟨j, hj, huid, hkey, hepoch⟩ := h.owned r hr
    exact ⟨f j, List.mem_map_of_mem hj, (hf j hj).uid.trans huid, (hf j hj).key.trans hkey,
      Int64.le_trans hepoch (hf j hj).history.epoch⟩
  · rcases mem_recordOutcome hp with hp | ⟨hterminal, rfl⟩
    · obtain ⟨hterminal, huid, hagree⟩ := h.outcomes p hp
      refine ⟨hterminal, huid, fun j' hj' hj'uid => ?_⟩
      obtain ⟨j, hj, rfl⟩ := List.mem_map.mp hj'
      have hhistory := (hf j hj).history
      obtain ⟨hle, hstate⟩ := hagree j hj ((hf j hj).uid.symm.trans hj'uid)
      refine ⟨Int64.le_trans hle hhistory.epoch, fun hepoch => ?_⟩
      have hsame : j.status.epoch = p.1.epoch := Int64.le_antisymm (hepoch ▸ hhistory.epoch) hle
      have hjstate := hstate hsame
      exact (hhistory.ended (hepoch.trans hsame.symm) (by rw [hjstate]; exact hterminal)).trans hjstate
    · refine ⟨hterminal, ?_, fun j' hj' huid => ?_⟩
      · rw [jobIdentity, (hf j₀ hj₀).uid]
        exact (h.db.uids j₀ hj₀).2
      · cases hjobs.eq_of_uid hj' (List.mem_map_of_mem hj₀) huid
        exact ⟨Int64.le_refl _, fun _ => rfl⟩

theorem jobs_later {j₀ : Job S} (hj₀ : j₀ ∈ l.db.jobs) : Later l (withJobs l (l.db.jobs.map f) (f j₀)) := by
  refine ⟨fun _ h => h, fun _ h => h, fun j' hj' _ => ?_, fun r hr _ => ⟨r, hr, .refl r⟩, fun p hp => ?_⟩
  · obtain ⟨j, hj, rfl⟩ := List.mem_map.mp hj'
    exact ⟨j, hj, advances_jobLater (hf j hj)⟩
  · rcases mem_recordOutcome hp with hp | ⟨-, rfl⟩
    · exact .inl hp
    · have hhistory := (hf j₀ hj₀).history
      exact .inr (.inr ⟨j₀, hj₀, (hf j₀ hj₀).uid.symm, hhistory.epoch,
        fun hepoch hterminal => hhistory.ended hepoch.symm hterminal⟩)

end

theorem request_written {c : Context S} {l : Ledger S} (h : Sound c l) {j next stored : Job S} {r : Request S}
    {now : Time} {changed : Bool} {version : Int64} {jobs : List (Job S)}
    (hfind : JobTable.find l.db.jobs next.key = some j)
    (hrequest : request c.validate j r now = .ok (next, changed))
    (hupdate : JobTable.update c l.db.jobs next version = .ok (jobs, stored)) :
    Sound c (withJobs l jobs stored) ∧ Later l (withJobs l jobs stored) ∧ j ∈ l.db.jobs ∧ stored ∈ jobs ∧
      stored.uid = j.uid ∧ stored.status = next.status ∧
      ∀ j' ∈ jobs, j' = stored ∨ (j' ∈ l.db.jobs ∧ j'.uid ≠ j.uid) := by
  obtain ⟨found, hfound, -, -, hvalid, hrange, rfl, rfl⟩ := JobTable.update_ok hupdate
  rw [hfind] at hfound
  cases hfound
  obtain ⟨hmem, hkey⟩ := JobTable.find_some hfind
  have hadvances : Advances c j (JobTable.written j next) :=
    JobTable.written_advances (Job.sound_of_validate (h.jobs.valid j hmem)) hrequest hvalid hrange
  have hfind' : JobTable.find l.db.jobs (JobTable.written j next).key = some j := by
    rw [← hfind, ← hkey]
    rfl
  have hput := JobTable.put_advances h.jobs hfind' hadvances
  have hstored : (if j.key = (JobTable.written j next).key then JobTable.written j next else j) =
      JobTable.written j next := if_pos rfl
  have hsound := jobs_sound hput h hmem
  have hlater := jobs_later hput hmem
  rw [hstored] at hsound hlater
  refine ⟨hsound, hlater, hmem, List.mem_map.mpr ⟨j, hmem, hstored⟩, rfl, rfl, fun j' hj' => ?_⟩
  obtain ⟨q, hq, rfl⟩ := List.mem_map.mp hj'
  split_ifs with hqkey
  · exact .inl rfl
  · refine .inr ⟨hq, fun huid => hqkey ?_⟩
    rw [h.jobs.eq_of_uid hq hmem huid]
    rfl

variable {c : Context S} {l : Ledger S}

def addJob (l : Ledger S) (j : Job S) : Ledger S :=
  { l with db := { l.db with jobs := l.db.jobs ++ [j], uids := l.db.uids ++ [j.uid] } }

theorem addJob_sound (h : Sound c l) {key : Key} {uid : Bytes} {spec : S} {now : Time} {jobs : List (Job S)}
    (huid : ExecutionResources.canonicalUUID uid = true) (hnew : uid ∉ l.db.uids)
    (hcreate : JobTable.create c l.db.jobs (new key uid spec now) = .ok jobs) :
    Sound c (addJob l (new key uid spec now)) := by
  have hjobs := h.jobs.create hcreate
  refine ⟨hjobs, createJob_inv h.db key spec now huid hnew, h.identities, fun r hr => ?_, fun p hp => ?_⟩
  · obtain ⟨j, hj, hrest⟩ := h.owned r hr
    exact ⟨j, List.mem_append_left _ hj, hrest⟩
  · obtain ⟨hterminal, hmem, hagree⟩ := h.outcomes p hp
    refine ⟨hterminal, List.mem_append_left _ hmem, fun j hj hjuid => ?_⟩
    rcases List.mem_append.mp hj with hj | hj
    · exact hagree j hj hjuid
    · rw [List.mem_singleton.mp hj] at hjuid
      exact absurd ((show uid = p.1.jobUID from hjuid) ▸ hmem) hnew

theorem addJob_later {j : Job S} (hnew : j.uid ∉ l.db.uids) : Later l (addJob l j) := by
  refine ⟨fun _ h => List.mem_append_left _ h, fun _ h => h, fun j' hj' huid => ?_,
    fun r hr _ => ⟨r, hr, .refl r⟩, fun _ h => .inl h⟩
  rcases List.mem_append.mp hj' with hj' | hj'
  · exact ⟨j', hj', .refl j'⟩
  · rw [List.mem_singleton.mp hj'] at huid
    exact absurd huid hnew

def removeJob (l : Ledger S) (uid : Bytes) : Ledger S :=
  { l with db := { l.db with
      jobs := l.db.jobs.filter (·.uid ≠ uid)
      rows := l.db.rows.filter (·.identity.jobUID ≠ uid) } }

theorem removeJob_sound (h : Sound c l) (uid : Bytes) : Sound c (removeJob l uid) := by
  refine ⟨h.jobs.filter _, deleteJob_inv h.db uid, ?_, fun r hr => ?_, fun p hp => ?_⟩
  · exact (h.identities.sublist ((List.filter_sublist).map _))
  · obtain ⟨hr, hne⟩ := List.mem_filter.mp hr
    obtain ⟨j, hj, huid, hrest⟩ := h.owned r hr
    exact ⟨j, List.mem_filter.mpr ⟨hj, by rw [huid]; exact hne⟩, huid, hrest⟩
  · obtain ⟨hterminal, hmem, hagree⟩ := h.outcomes p hp
    exact ⟨hterminal, hmem, fun j hj => hagree j (List.mem_of_mem_filter hj)⟩

theorem removeJob_later (uid : Bytes) : Later l (removeJob l uid) :=
  ⟨fun _ h => h, fun _ h => h, fun j hj _ => ⟨j, List.mem_of_mem_filter hj, .refl j⟩,
    fun r hr _ => ⟨r, List.mem_of_mem_filter hr, .refl r⟩, fun _ h => .inl h⟩

def claimRows (l : Ledger S) (rows : Table) : Ledger S :=
  { l with db := { l.db with rows, claimed := l.db.claimed ++ rows.map (·.identity) } }

theorem claimChange_later (ownerID : Bytes) (leaseExpiresAt now limit : Time) (r : Record) :
    RowLater r (claimChange ownerID leaseExpiresAt now limit r) := by
  have h := claimChange_spec ownerID leaseExpiresAt now limit r
  exact ⟨h.identity, h.key, h.inactive, fun hlive => by rw [h.phase]; exact hlive⟩

theorem claimChange_keeps (ownerID : Bytes) (leaseExpiresAt now limit : Time) :
    Keeps (claimChange ownerID leaseExpiresAt now limit) :=
  (renew_keeps ownerID leaseExpiresAt now).comp (takeOver_keeps ownerID leaseExpiresAt now limit)

variable (h : Sound c l) {ownerID : Bytes} {leaseExpiresAt now limit : Time} {token : Identity → Bytes} {added : Table}
  (hadded : ∀ r ∈ added, ∃ j ∈ l.db.jobs,
    pending (l.db.rows.map (claimChange ownerID leaseExpiresAt now limit)) j = true ∧
      r = claimedRow ownerID leaseExpiresAt now token j)

include h hadded

theorem claim_sound
    (hnodup : ((l.db.rows.map (claimChange ownerID leaseExpiresAt now limit) ++ added).map (·.identity)).Nodup) :
    Sound c (claimRows l (l.db.rows.map (claimChange ownerID leaseExpiresAt now limit) ++ added)) := by
  refine ⟨h.jobs, ?_, hnodup, fun r hr => ?_, h.outcomes⟩
  · refine claim_inv h.db (claimChange_keeps ownerID leaseExpiresAt now limit) fun r hr => ?_
    obtain ⟨j, hj, hpending, rfl⟩ := hadded r hr
    exact ⟨j, hj, hpending, rfl⟩
  · rcases List.mem_append.mp hr with hr | hr
    · exact (rows_sound h fun r _ => claimChange_later ownerID leaseExpiresAt now limit r).owned r hr
    · obtain ⟨j, hj, -, rfl⟩ := hadded r hr
      exact ⟨j, hj, rfl, rfl, Int64.le_refl _⟩

theorem claim_later :
    Later l (claimRows l (l.db.rows.map (claimChange ownerID leaseExpiresAt now limit) ++ added)) := by
  refine ⟨fun _ h => h, fun _ h => List.mem_append_left _ h, fun j hj _ => ⟨j, hj, .refl j⟩,
    fun r' hr' hclaimed => ?_, fun _ h => .inl h⟩
  rcases List.mem_append.mp hr' with hr' | hr'
  · grind [claimChange_later]
  · refine absurd hclaimed (added_new h.db (claimChange_keeps ownerID leaseExpiresAt now limit) (fun r hr => ?_) hr')
    obtain ⟨j, hj, hpending, rfl⟩ := hadded r hr
    exact ⟨j, hj, hpending, rfl⟩

end AstraSync.DispatchLedger
