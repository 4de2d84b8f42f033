import AstraSync.ExecutionResources

namespace AstraSync.DispatchDatabase

open ByteStrings JobLifecycle DispatchStore ExecutionResources

variable {S : Type}

structure Database (S : Type) where
  jobs : List (Job S)
  rows : Table
  uids : List Bytes
  claimed : List Identity

def empty : Database S := ⟨[], [], [], []⟩

inductive Transaction (S : Type)
  | createJob (key : Key) (uid : Bytes) (spec : S) (now : Time)
  | request (uid : Bytes) (r : Request S) (now : Time)
  | deleteJob (uid : Bytes)
  | claim (ownerID : Bytes) (maxActive : ℤ) (leaseDuration heartbeatTimeout now : Time) (token : Identity → Bytes)
  | update (i : Identity) (ownerID : Bytes) (phase : Phase) (lastError : String) (leaseDuration now : Time)
  | recordHeartbeat (i : Identity) (token : Bytes) (now : Time)
  | fenceExpiredHeartbeat (i : Identity) (ownerID : Bytes) (lastError : String)
      (heartbeatTimeout leaseDuration now : Time)
  | complete (i : Identity) (ownerID : Bytes) (phase : Phase) (lastError : String) (now : Time)

def transact (c : Context S) (db : Database S) : Transaction S → Option (Database S)
  | .createJob key uid spec now =>
    if canonicalUUID uid = true ∧ uid ∉ db.jobs.map (·.uid) then
      some { db with jobs := db.jobs ++ [new key uid spec now], uids := db.uids ++ [uid] }
    else none
  | .request uid r now =>
    some { db with jobs := db.jobs.map fun j => if j.uid = uid then requested c.validate j r now else j }
  | .deleteJob uid =>
    some { db with
      jobs := db.jobs.filter (·.uid ≠ uid)
      rows := db.rows.filter (·.identity.jobUID ≠ uid) }
  | .claim ownerID maxActive leaseDuration heartbeatTimeout now token =>
    let rows := (claim ownerID maxActive leaseDuration heartbeatTimeout now token db.jobs db.rows).1
    some { db with rows, claimed := db.claimed ++ rows.map (·.identity) }
  | .update i ownerID phase lastError leaseDuration now =>
    some { db with rows := (update i ownerID phase lastError leaseDuration now db.rows).1 }
  | .recordHeartbeat i token now =>
    some { db with rows := (recordHeartbeat c.parseUUID i token now db.rows).1 }
  | .fenceExpiredHeartbeat i ownerID lastError heartbeatTimeout leaseDuration now =>
    some { db with
      rows := (fenceExpiredHeartbeat i ownerID lastError heartbeatTimeout leaseDuration now db.rows).1 }
  | .complete i ownerID phase lastError now =>
    some { db with rows := (complete i ownerID phase lastError now db.rows).1 }

/-- A job is created under a UID that no job has had before. -/
def unused (db : Database S) : Transaction S → Bool
  | .createJob _ uid _ _ => uid ∉ db.uids
  | _ => true

def activeRow (rows : Table) (i : Identity) : Bool := rows.any fun r => r.identity = i && r.phase.active

def Dead (db : Database S) (i : Identity) : Prop := i ∈ db.claimed ∧ activeRow db.rows i = false

structure Inv (db : Database S) : Prop where
  rows_claimed : ∀ r ∈ db.rows, r.identity ∈ db.claimed
  wellFormed : ∀ i ∈ db.claimed, WellFormed i ∧ i.jobUID ∈ db.uids
  uids : ∀ j ∈ db.jobs, canonicalUUID j.uid = true ∧ j.uid ∈ db.uids
  kept : ∀ i ∈ db.claimed, ∀ j ∈ db.jobs, j.uid = i.jobUID → i ∈ db.rows.map (·.identity)

theorem empty_inv : Inv (empty : Database S) := by
  constructor <;> intro _ h <;> cases h

variable {rows : Table} {i : Identity} {f : Record → Record} {db : Database S}

theorem activeRow_eq_false : activeRow rows i = false ↔ ∀ r ∈ rows, r.identity = i → r.phase.active = false := by
  simp [activeRow, List.any_eq_false]

theorem map_identity (hf : Keeps f) (rows : Table) : (rows.map f).map (·.identity) = rows.map (·.identity) := by
  rw [List.map_map]
  exact List.map_congr_left fun r _ => hf.identity r

theorem activeRow_map (hf : Keeps f) (h : activeRow rows i = false) : activeRow (rows.map f) i = false := by
  rw [activeRow_eq_false] at h ⊢
  intro r hr hi
  obtain ⟨q, hq, rfl⟩ := List.mem_map.mp hr
  have hdead := h q hq ((hf.identity q).symm.trans hi)
  by_contra hactive
  rw [hf.active q (by simpa using hactive)] at hdead
  cases hdead

theorem identities_inv (h : Inv db)
    (hrows : rows.map (·.identity) = db.rows.map (·.identity)) : Inv { db with rows } := by
  refine ⟨?_, h.wellFormed, h.uids, ?_⟩
  · grind [Inv, List.mem_map_of_mem]
  · grind [Inv]

theorem rows_inv (h : Inv db) (hf : Keeps f) :
    Inv { db with rows := db.rows.map f } ∧ ∀ i, Dead db i → Dead { db with rows := db.rows.map f } i :=
  ⟨identities_inv h (map_identity hf db.rows), fun _ hd => ⟨hd.1, activeRow_map hf hd.2⟩⟩

theorem createJob_inv (h : Inv db) (key : Key) {uid : Bytes} (spec : S) (now : Time)
    (huid : canonicalUUID uid = true) (hnew : uid ∉ db.uids) :
    Inv { db with jobs := db.jobs ++ [new key uid spec now], uids := db.uids ++ [uid] } := by
  refine ⟨h.rows_claimed, ?_, ?_, ?_⟩
  · grind [Inv, List.mem_append_left]
  · intro j hj
    rcases List.mem_append.mp hj with hj | hj
    · exact ⟨(h.uids j hj).1, List.mem_append_left _ (h.uids j hj).2⟩
    · rw [List.mem_singleton.mp hj]
      exact ⟨huid, by simp [new]⟩
  · intro i hi j hj hji
    rcases List.mem_append.mp hj with hj | hj
    · exact h.kept i hi j hj hji
    · rw [List.mem_singleton.mp hj] at hji
      have huid : uid = i.jobUID := hji
      exact absurd (huid ▸ (h.wellFormed i hi).2) hnew

theorem jobs_inv (h : Inv db) {jobs : List (Job S)}
    (hkeeps : ∀ j ∈ jobs, ∃ q ∈ db.jobs, q.uid = j.uid) : Inv { db with jobs } := by
  refine ⟨h.rows_claimed, h.wellFormed, fun j hj => ?_, fun i hi j hj hji => ?_⟩
  · obtain ⟨q, hq, hqj⟩ := hkeeps j hj
    exact hqj ▸ h.uids q hq
  · obtain ⟨q, hq, hqj⟩ := hkeeps j hj
    exact h.kept i hi q hq (hqj.trans hji)

theorem request_inv (h : Inv db) (c : Context S) (uid : Bytes) (r : Request S) (now : Time) :
    Inv { db with jobs := db.jobs.map fun j => if j.uid = uid then requested c.validate j r now else j } := by
  grind [jobs_inv, requested_cases]

theorem deleteJob_inv (h : Inv db) (uid : Bytes) :
    Inv { db with jobs := db.jobs.filter (·.uid ≠ uid), rows := db.rows.filter (·.identity.jobUID ≠ uid) } := by
  refine ⟨fun r hr => ?_, h.wellFormed, fun j hj => ?_, fun i hi j hj hji => ?_⟩
  · exact h.rows_claimed r (List.mem_of_mem_filter hr)
  · exact h.uids j (List.mem_of_mem_filter hj)
  · grind [Inv]

theorem deleteJob_dead (uid : Bytes) (h : activeRow db.rows i = false) :
    activeRow (db.rows.filter (·.identity.jobUID ≠ uid)) i = false := by
  rw [activeRow_eq_false] at h ⊢
  exact fun r hr hi => h r (List.mem_of_mem_filter hr) hi

section

variable {db : Database S} (h : Inv db) {f : Record → Record} (hf : Keeps f) {added : Table}
  (hadded : ∀ r ∈ added, ∃ j ∈ db.jobs, pending (db.rows.map f) j = true ∧ r.identity = jobIdentity j)

include h hf hadded

theorem added_new {r : Record} (hr : r ∈ added) : r.identity ∉ db.claimed := by
  intro hmem
  obtain ⟨j, hj, hpending, hid⟩ := hadded r hr
  have hrow := h.kept r.identity hmem j hj (by rw [hid]; rfl)
  rw [← map_identity hf, hid] at hrow
  obtain ⟨q, hq, hqid⟩ := List.mem_map.mp hrow
  simp only [pending, Bool.and_eq_true, Bool.not_eq_true', List.any_eq_false, decide_eq_true_eq] at hpending
  exact hpending.2 q hq hqid

theorem claim_inv :
    Inv { db with rows := db.rows.map f ++ added
                  claimed := db.claimed ++ (db.rows.map f ++ added).map (·.identity) } := by
  have hold := (rows_inv h hf).1
  refine ⟨fun r hr => ?_, fun i hi => ?_, h.uids, fun i hi j hj hji => ?_⟩
  · exact List.mem_append_right _ (List.mem_map_of_mem hr)
  · rcases List.mem_append.mp hi with hi | hi
    · exact h.wellFormed i hi
    · obtain ⟨r, hr, rfl⟩ := List.mem_map.mp hi
      rcases List.mem_append.mp hr with hr | hr
      · exact h.wellFormed _ (hold.rows_claimed r hr)
      · obtain ⟨j, hj, hpending, hid⟩ := hadded r hr
        obtain ⟨huid, hmem⟩ := h.uids j hj
        simp only [pending, Bool.and_eq_true, decide_eq_true_eq] at hpending
        rw [hid]
        exact ⟨⟨huid, hpending.1.2⟩, hmem⟩
  · grind [Inv, List.mem_append_left]

theorem claim_dead {i : Identity} (hi : Dead db i) : activeRow (db.rows.map f ++ added) i = false := by
  have hold := activeRow_map hf hi.2
  rw [activeRow_eq_false] at hold ⊢
  intro r hr hri
  rcases List.mem_append.mp hr with hr | hr
  · exact hold r hr hri
  · exact absurd (hri ▸ hi.1) (added_new h hf hadded hr)

end

theorem transact_inv {c : Context S} {next : Database S} {t : Transaction S} (h : Inv db)
    (hunused : unused db t = true) (ht : transact c db t = some next) :
    Inv next ∧ (∀ i ∈ db.claimed, i ∈ next.claimed) ∧ ∀ i, Dead db i → Dead next i := by
  cases t with
  | createJob key uid spec now =>
    simp only [transact] at ht
    split_ifs at ht with hguard
    cases ht
    exact ⟨createJob_inv h key spec now hguard.1 (of_decide_eq_true hunused), fun _ hi => hi, fun _ hd => hd⟩
  | request uid r now =>
    cases ht
    exact ⟨request_inv h c uid r now, fun _ hi => hi, fun _ hd => hd⟩
  | deleteJob uid =>
    cases ht
    exact ⟨deleteJob_inv h uid, fun _ hi => hi, fun i hd => ⟨hd.1, deleteJob_dead uid hd.2⟩⟩
  | claim ownerID maxActive leaseDuration heartbeatTimeout now token =>
    cases ht
    obtain ⟨f, added, hf, hrows, hadded⟩ :=
      claim_rows ownerID maxActive leaseDuration heartbeatTimeout now token db.jobs db.rows
    simp only [hrows]
    exact ⟨claim_inv h hf hadded, fun _ hi => List.mem_append_left _ hi,
      fun i hd => ⟨List.mem_append_left _ hd.1, claim_dead h hf hadded hd⟩⟩
  | update i ownerID phase lastError leaseDuration now =>
    cases ht
    obtain ⟨f, hf, hrows⟩ := update_rows i ownerID phase lastError now db.rows leaseDuration
    simp only [hrows]
    exact ⟨(rows_inv h hf).1, fun _ hi => hi, (rows_inv h hf).2⟩
  | recordHeartbeat i token now =>
    cases ht
    obtain ⟨f, hf, hrows⟩ := recordHeartbeat_rows i now db.rows c.parseUUID token
    simp only [hrows]
    exact ⟨(rows_inv h hf).1, fun _ hi => hi, (rows_inv h hf).2⟩
  | fenceExpiredHeartbeat i ownerID lastError heartbeatTimeout leaseDuration now =>
    cases ht
    obtain ⟨f, hf, hrows⟩ := fenceExpiredHeartbeat_rows i ownerID lastError now db.rows heartbeatTimeout leaseDuration
    simp only [hrows]
    exact ⟨(rows_inv h hf).1, fun _ hi => hi, (rows_inv h hf).2⟩
  | complete i ownerID phase lastError now =>
    cases ht
    obtain ⟨f, hf, hrows⟩ := complete_rows i ownerID phase lastError now db.rows
    simp only [hrows]
    exact ⟨(rows_inv h hf).1, fun _ hi => hi, (rows_inv h hf).2⟩

end AstraSync.DispatchDatabase
