import AstraSync.JobMutations
import AstraSync.Library.Programs

namespace AstraSync.SyncJobController

open ByteStrings JobLifecycle JobRepository JobMutations Programs
open JobTable (TableError Advances JobLater)

structure SyncJob where
  key : Key
  uid : Bytes
  spec : Spec
  state : Option DesiredState
  deleting : Bool

def SyncJob.desired (r : SyncJob) : DesiredState := r.state.getD .stopped

def SyncJob.toRun (r : SyncJob) : Bool := !r.deleting && r.desired = .running

structure Settings extends Context Spec where
  stableJobUID : SyncJob → Bytes

inductive Fault
  | invalid (message : String)
  | table (e : TableError)
  | lifecycle (e : LifecycleError)
  | other (text : String)

inductive Call
  | clock
  | getJob (key : Key)
  | createJob (candidate : Job Spec)
  | updateJob (candidate : Job Spec) (expectedVersion : Int64)
  | deleteJob (key : Key) (expectedVersion : Int64)

abbrev Answer : Call → Type
  | .clock => Time
  | .getJob _ => Except Fault (Job Spec)
  | .createJob _ => Except Fault (Job Spec)
  | .updateJob _ _ => Except Fault (Job Spec)
  | .deleteJob _ _ => Except Fault Unit

abbrev Prog := Program Call Answer

namespace Calls

abbrev clock : Prog Time := perform Call.clock

abbrev getJob (key : Key) : Prog (Except Fault (Job Spec)) := perform (Call.getJob key)

abbrev createJob (candidate : Job Spec) : Prog (Except Fault (Job Spec)) := perform (Call.createJob candidate)

abbrev updateJob (candidate : Job Spec) (expectedVersion : Int64) : Prog (Except Fault (Job Spec)) :=
  perform (Call.updateJob candidate expectedVersion)

abbrev deleteJob (key : Key) (expectedVersion : Int64) : Prog (Except Fault Unit) :=
  perform (Call.deleteJob key expectedVersion)

end Calls

inductive Choice
  | time (now : Time)
  | answer
  | fail (text : String)
  | lose (text : String)

def settle {α : Type} (s : Store) (effect : Store × Except Fault α) : Choice → Option (Store × Except Fault α)
  | .answer => some effect
  | .fail text => some (s, .error (.other text))
  | .lose text => some (effect.1, .error (.other text))
  | .time _ => none

def createJob (c : Context Spec) (s : Store) (candidate : Job Spec) : Store × Except Fault (Job Spec) :=
  match JobTable.create c s.jobs candidate with
  | .ok jobs => ({ s with jobs }, .ok candidate)
  | .error e => (s, .error (.table e))

def updateJob (c : Context Spec) (s : Store) (candidate : Job Spec) (expectedVersion : Int64) :
    Store × Except Fault (Job Spec) :=
  match JobTable.update c s.jobs candidate expectedVersion with
  | .ok (jobs, stored) => ({ s with jobs }, .ok stored)
  | .error e => (s, .error (.table e))

def deleteJob (s : Store) (key : Key) (expectedVersion : Int64) : Store × Except Fault Unit :=
  match JobTable.delete s.jobs key expectedVersion with
  | .ok (removed, jobs) =>
    ({ s with jobs, stable := s.stable.filter (·.jobUID ≠ removed.uid), deleted := s.deleted ++ [removed.uid] }, .ok ())
  | .error e => (s, .error (.table e))

def execute (c : Context Spec) (s : Store) : (e : Call) → Choice → Option (Store × Answer e)
  | .clock => fun
    | .time now => some (s, now)
    | _ => none
  | .getJob key => settle s (s, (JobTable.get s.jobs key).mapError .table)
  | .createJob candidate => settle s (createJob c s candidate)
  | .updateJob candidate expectedVersion => settle s (updateJob c s candidate expectedVersion)
  | .deleteJob key expectedVersion => settle s (deleteJob s key expectedVersion)

def write (next : Job Spec) (version : Int64) (retry : Prog (Except Fault (Job Spec))) :
    Prog (Except Fault (Job Spec)) := do
  match ← Calls.updateJob next version with
  | .error (.table .conflict) => retry
  | .error e => pure (.error e)
  | .ok updated => pure (.ok updated)

def requestDesired (desired : DesiredState) (next : Job Spec) (now : Time) : Except LifecycleError (Job Spec × Bool) :=
  if desired = .running then requestStart next now else requestStop next now

def steer (desired : DesiredState) (stored next : Job Spec) (changed : Bool)
    (retry : Prog (Except Fault (Job Spec))) : Prog (Except Fault (Job Spec)) :=
  if next.status.desired ≠ desired then do
    let now ← Calls.clock
    match requestDesired desired next now with
    | .error e => pure (.error (.lifecycle e))
    | .ok (next, moved) => if changed || moved then write next stored.version retry else pure (.ok stored)
  else if changed then write next stored.version retry
  else pure (.ok stored)

def bring (c : Settings) (r : SyncJob) (stored : Job Spec) (retry : Prog (Except Fault (Job Spec))) :
    Prog (Except Fault (Job Spec)) :=
  if stored.spec = r.spec then steer r.desired stored stored false retry
  else if active stored.status.state then do
    let now ← Calls.clock
    match requestStop stored now with
    | .error e => pure (.error (.lifecycle e))
    | .ok (_, false) => pure (.ok stored)
    | .ok (next, true) => write next stored.version retry
  else do
    let now ← Calls.clock
    match replaceSpec c.validate stored r.spec now with
    | .error e => pure (.error (.lifecycle e))
    | .ok next => steer r.desired stored next true retry

def newJob (c : Settings) (r : SyncJob) (now : Time) : Except String (Job Spec) :=
  if c.parseUUID (c.stableJobUID r) = false then .error "uid must be a UUID"
  else .ok (new r.key (c.stableJobUID r) r.spec now)

def converge (c : Settings) (r : SyncJob) : ℕ → Prog (Except Fault (Job Spec))
  | 0 => pure (.error (.table .conflict))
  | attempts + 1 => do
    match ← Calls.getJob r.key with
    | .error (.table .notFound) =>
      let now ← Calls.clock
      match newJob c r now with
      | .error message => pure (.error (.invalid message))
      | .ok candidate =>
        match ← Calls.createJob candidate with
        | .error (.table .alreadyExists) => converge c r attempts
        | .error e => pure (.error e)
        | .ok created => bring c r created (converge c r attempts)
    | .error e => pure (.error e)
    | .ok stored => bring c r stored (converge c r attempts)

def reconcileDeletion (r : SyncJob) : Prog (Except Fault Unit) := do
  match ← Calls.getJob r.key with
  | .error (.table .notFound) => pure (.ok ())
  | .error e => pure (.error e)
  | .ok stored =>
    if active stored.status.state then
      let now ← Calls.clock
      match requestStop stored now with
      | .error e => pure (.error (.lifecycle e))
      | .ok (_, false) => pure (.ok ())
      | .ok (next, true) =>
        match ← Calls.updateJob next stored.version with
        | .error (.table .conflict) => pure (.ok ())
        | .error e => pure (.error e)
        | .ok _ => pure (.ok ())
    else match ← Calls.deleteJob r.key stored.version with
      | .error (.table .conflict) => pure (.ok ())
      | .error (.table .notFound) => pure (.ok ())
      | .error e => pure (.error e)
      | .ok () => pure (.ok ())

def reconcile (c : Settings) (r : SyncJob) : Prog (Except Fault Unit) :=
  match r.key.validate with
  | some message => pure (.error (.invalid message))
  | none =>
    if r.deleting then reconcileDeletion r
    else match c.validate r.spec with
      | some message => pure (.error (.invalid message))
      | none => do
        match ← converge c r 5 with
        | .error (.table .conflict) => pure (.ok ())
        | .error (.table .alreadyExists) => pure (.ok ())
        | .error e => pure (.error e)
        | .ok _ => pure (.ok ())

section

def known (s : Store) : List Bytes := s.jobs.map (·.uid) ++ s.deleted

structure Later (s t : Store) : Prop where
  known : ∀ uid ∈ known s, uid ∈ known t
  jobs : ∀ j' ∈ t.jobs, j'.uid ∈ SyncJobController.known s → ∃ j ∈ s.jobs, JobLater j j'

inductive Change (c : Context Spec) (s t : Store) : Prop
  | same (jobs : t.jobs = s.jobs) (deleted : t.deleted = s.deleted)
  | created (j : Job Spec) (jobs : JobTable.create c s.jobs j = .ok t.jobs) (unused : j.uid ∉ s.deleted)
      (deleted : t.deleted = s.deleted)
  | written (j stored : Job Spec) (find : JobTable.find s.jobs stored.key = some j) (advances : Advances c j stored)
      (jobs : t.jobs = JobTable.put s.jobs stored) (deleted : t.deleted = s.deleted)
  | removed (j : Job Spec) (mem : j ∈ s.jobs) (jobs : t.jobs = s.jobs.filter (·.uid ≠ j.uid))
      (deleted : t.deleted = s.deleted ++ [j.uid])

theorem Later.refl (s : Store) : Later s s := ⟨fun _ h => h, fun j hj _ => ⟨j, hj, .refl j⟩⟩

theorem Later.trans {s t u : Store} (hst : Later s t) (htu : Later t u) : Later s u := by
  refine ⟨fun uid h => htu.known uid (hst.known uid h), fun j'' hj'' huid => ?_⟩
  obtain ⟨j', hj', hlater⟩ := htu.jobs j'' hj'' (hst.known _ huid)
  obtain ⟨j, hj, hearlier⟩ := hst.jobs j' hj' (hlater.uid ▸ huid)
  exact ⟨j, hj, hearlier.trans hlater⟩

theorem known_of_mem {s : Store} {j : Job Spec} (hj : j ∈ s.jobs) : j.uid ∈ known s :=
  List.mem_append_left _ (List.mem_map_of_mem hj)

variable {c : Context Spec} {s t : Store}

section

variable (hsound : JobTable.Sound c s.jobs)

include hsound

theorem mem_put {j stored j' : Job Spec}
    (hfind : JobTable.find s.jobs stored.key = some j) (hj' : j' ∈ JobTable.put s.jobs stored) :
    j' = stored ∨ (j' ∈ s.jobs ∧ j'.uid ≠ j.uid) := by
  obtain ⟨hmem, hkey⟩ := JobTable.find_some hfind
  obtain ⟨q, hq, rfl⟩ := List.mem_map.mp hj'
  split_ifs with hqkey
  · exact .inl rfl
  · refine .inr ⟨hq, fun huid => hqkey ?_⟩
    rw [hsound.eq_of_uid hq hmem huid]
    exact hkey

theorem Change.sound (h : Change c s t) : JobTable.Sound c t.jobs := by
  cases h with
  | same jobs deleted => exact jobs ▸ hsound
  | created j jobs unused deleted =>
    rw [JobTable.create_ok jobs]
    exact hsound.create jobs
  | written j stored find advances jobs deleted =>
    rw [jobs]
    exact hsound.map (JobTable.put_advances hsound find advances)
  | removed j mem jobs deleted =>
    rw [jobs]
    exact hsound.filter _

theorem Change.later (h : Change c s t) : Later s t := by
  cases h with
  | same jobs deleted =>
    refine ⟨fun uid huid => ?_, fun j hj _ => ⟨j, jobs ▸ hj, .refl j⟩⟩
    rw [known, jobs, deleted]
    exact huid
  | created j jobs unused deleted =>
    have hjobs := JobTable.create_ok jobs
    refine ⟨fun uid huid => ?_, fun j' hj' huid => ?_⟩
    · rw [known, hjobs, deleted, List.map_append]
      rcases List.mem_append.mp huid with h | h
      · exact List.mem_append_left _ (List.mem_append_left _ h)
      · exact List.mem_append_right _ h
    · rw [hjobs] at hj'
      rcases List.mem_append.mp hj' with hj' | hj'
      · exact ⟨j', hj', .refl j'⟩
      · cases List.mem_singleton.mp hj'
        rcases List.mem_append.mp huid with hused | hused
        · obtain ⟨q, hq, heq⟩ := List.mem_map.mp hused
          exact absurd heq (JobTable.create_unused jobs q hq).2
        · exact absurd hused unused
  | written j stored find advances jobs deleted =>
    have huids : t.jobs.map (·.uid) = s.jobs.map (·.uid) := by
      rw [jobs, JobTable.put, List.map_map]
      exact List.map_congr_left fun q hq => (JobTable.put_advances hsound find advances q hq).uid
    refine ⟨fun uid huid => ?_, fun j' hj' _ => ?_⟩
    · rw [known, huids, deleted]
      exact huid
    · rw [jobs] at hj'
      rcases mem_put hsound find hj' with rfl | ⟨hj', -⟩
      · exact ⟨j, (JobTable.find_some find).1, JobTable.advances_jobLater advances⟩
      · exact ⟨j', hj', .refl j'⟩
  | removed j mem jobs deleted =>
    refine ⟨fun uid huid => ?_, fun j' hj' _ => ⟨j', List.mem_of_mem_filter (jobs ▸ hj'), .refl j'⟩⟩
    rw [known, deleted]
    rcases List.mem_append.mp huid with h | h
    · grind
    · exact List.mem_append_right _ (List.mem_append_left _ h)

end

end

section

/-- A job is not created under the identifier of a deleted one, and a read does not find the job in one of the
blocked states. -/
def permitted (blocked : State → Bool) (s : Store) : Call → Bool
  | .createJob candidate => candidate.uid ∉ s.deleted
  | .getJob key => s.jobs.all fun j => j.key ≠ key || !blocked j.status.state
  | _ => true

/-- The reconcile of a resource opens an epoch of its own job only, with its own specification, where the resource
is to run and the job was not in one of the blocked states. -/
def Opens (blocked : State → Bool) (r : SyncJob) (j j' : Job Spec) : Prop :=
  j'.status.epoch = j.status.epoch + 1 ∧ r.toRun = true ∧ j'.spec = r.spec ∧ j'.key = r.key ∧
    blocked j.status.state = false

def Creates (r : SyncJob) (s : Store) (j : Job Spec) : Prop :=
  j.status.state = .created ∧ j.key = r.key ∧ r.deleting = false ∧ ∀ q ∈ s.jobs, q.key ≠ j.key

structure Guarantee (c : Context Spec) (blocked : State → Bool) (r : SyncJob) (s t : Store) : Prop where
  change : Change c s t
  executions : t.executions = s.executions
  kept : ∀ j ∈ s.jobs, j.key ≠ r.key ∨ r.deleting = false → ∃ j' ∈ t.jobs, j'.key = j.key
  jobs : ∀ j' ∈ t.jobs, j' ∈ s.jobs ∨ Creates r s j' ∨
    ∃ j ∈ s.jobs, JobLater j j' ∧ (j'.status.epoch = j.status.epoch ∨ Opens blocked r j j')

structure Rely (c : Context Spec) (s t : Store) : Prop where
  sound : JobTable.Sound c t.jobs
  later : Later s t

def outcome (c : Context Spec) (blocked : State → Bool) (s : Store) (e : Call) (a : Answer e) (t : Store) : Prop :=
  permitted blocked s e = true ∧ ∃ choice, execute c s e choice = some (t, a)

def rules (c : Context Spec) (blocked : State → Bool) (r : SyncJob) : Rules Store Call Answer :=
  ⟨outcome c blocked, Rely c, fun s _ _ t => Guarantee c blocked r s t⟩

structure Snapshot (blocked : State → Bool) (r : SyncJob) (stored : Job Spec) (s : Store) : Prop where
  key : stored.key = r.key
  known : stored.uid ∈ known s
  sound : stored.status.Sound
  free : blocked stored.status.state = false
  later : ∀ j ∈ s.jobs, j.uid = stored.uid → JobLater stored j

variable {c : Settings} {blocked : State → Bool} {r : SyncJob} {s t u : Store}

theorem Guarantee.refl (c : Context Spec) (blocked : State → Bool) (r : SyncJob) (s : Store) :
    Guarantee c blocked r s s :=
  ⟨.same rfl rfl, rfl, fun j hj _ => ⟨j, hj, rfl⟩, fun _ h => .inl h⟩

variable {c : Context Spec}

theorem rely_trans (s t u : Store) (hst : Rely c s t) (htu : Rely c t u) : Rely c s u :=
  ⟨htu.sound, hst.later.trans htu.later⟩

theorem Snapshot.stable {stored : Job Spec} (h : Snapshot blocked r stored s) (hlater : Later s t) :
    Snapshot blocked r stored t := by
  refine ⟨h.key, hlater.known _ h.known, h.sound, h.free, fun j' hj' huid => ?_⟩
  obtain ⟨j, hj, hjlater⟩ := hlater.jobs j' hj' (huid ▸ h.known)
  exact (h.later j hj (hjlater.uid.symm.trans huid)).trans hjlater

theorem settle_some {α : Type} {effect : Store × Except Fault α} {a : Except Fault α} {choice : Choice}
    (h : settle s effect choice = some (t, a)) :
    (t = effect.1 ∧ a = effect.2) ∨ ((t = s ∨ t = effect.1) ∧ ∃ text, a = .error (.other text)) := by
  cases choice with
  | answer =>
    cases h
    exact .inl ⟨rfl, rfl⟩
  | fail text =>
    cases h
    exact .inr ⟨.inl rfl, text, rfl⟩
  | lose text =>
    cases h
    exact .inr ⟨.inr rfl, text, rfl⟩
  | time => cases h

theorem clock_outcome {now : Time} (h : outcome c blocked s .clock now t) : t = s := by
  obtain ⟨-, choice, h⟩ := h
  cases choice <;> cases h
  rfl

variable {a : Except Fault (Job Spec)} {version : Int64}

theorem getJob_outcome {key : Key} (h : outcome c blocked s (.getJob key) a t) :
    t = s ∧ ∀ j, a = .ok j → j ∈ s.jobs ∧ j.key = key ∧ blocked j.status.state = false := by
  obtain ⟨hpermitted, choice, h⟩ := h
  rcases settle_some h with ⟨ht, ha⟩ | ⟨ht, text, ha⟩
  · refine ⟨ht, fun j hj => ?_⟩
    rw [hj] at ha
    cases hget : JobTable.get s.jobs key with
    | error =>
      rw [hget] at ha
      cases ha
    | ok =>
      rw [hget] at ha
      cases ha
      obtain ⟨hmem, hkey⟩ := JobTable.get_ok hget
      have hfree := List.all_eq_true.mp hpermitted j hmem
      exact ⟨hmem, hkey, by simpa [hkey] using hfree⟩
  · grind

variable {candidate : Job Spec}

theorem createJob_outcome (h : outcome c blocked s (.createJob candidate) a t) :
    candidate.uid ∉ s.deleted ∧ ((t = s ∧ ∀ j, a ≠ .ok j) ∨
      (∃ jobs, JobTable.create c s.jobs candidate = .ok jobs ∧ t = { s with jobs } ∧ ∀ j, a = .ok j → j = candidate)) := by
  obtain ⟨hpermitted, choice, h⟩ := h
  refine ⟨of_decide_eq_true hpermitted, ?_⟩
  cases hcreate : JobTable.create c s.jobs candidate with
  | error e =>
    have heffect : createJob c s candidate = (s, .error (.table e)) := by rw [createJob, hcreate]
    left
    rcases settle_some h with ⟨ht, ha⟩ | ⟨ht, text, ha⟩
    · grind
    · grind
  | ok jobs =>
    have heffect : createJob c s candidate = ({ s with jobs }, .ok candidate) := by rw [createJob, hcreate]
    rcases settle_some h with ⟨ht, ha⟩ | ⟨ht, text, ha⟩
    · grind
    · grind

theorem updateJob_outcome (h : outcome c blocked s (.updateJob candidate version) a t) :
    t = s ∨ ∃ jobs stored, JobTable.update c s.jobs candidate version = .ok (jobs, stored) ∧ t = { s with jobs } := by
  obtain ⟨-, choice, h⟩ := h
  have hworld : t = s ∨ t = (updateJob c s candidate version).1 := by
    rcases settle_some h with ⟨ht, -⟩ | ⟨ht, -⟩
    · exact .inr ht
    · exact ht
  rcases hworld with rfl | rfl
  · exact .inl rfl
  · unfold updateJob
    split
    · next hupdate => exact .inr ⟨_, _, hupdate, rfl⟩
    · exact .inl rfl

theorem deleteJob_outcome {key : Key} {a : Except Fault Unit} (h : outcome c blocked s (.deleteJob key version) a t) :
    t = s ∨ ∃ removed jobs, JobTable.delete s.jobs key version = .ok (removed, jobs) ∧
      t = { s with jobs, stable := s.stable.filter (·.jobUID ≠ removed.uid), deleted := s.deleted ++ [removed.uid] } := by
  obtain ⟨-, choice, h⟩ := h
  have hworld : t = s ∨ t = (deleteJob s key version).1 := by
    rcases settle_some h with ⟨ht, -⟩ | ⟨ht, -⟩
    · exact .inr ht
    · exact ht
  rcases hworld with rfl | rfl
  · exact .inl rfl
  · unfold deleteJob
    split
    · next hdelete => exact .inr ⟨_, _, hdelete, rfl⟩
    · exact .inl rfl

structure Intended (r : SyncJob) (stored next : Job Spec) : Prop where
  same : SameRow stored next
  move : Move stored next
  epoch : next.status.epoch = stored.status.epoch ∨
    (next.status.epoch = stored.status.epoch + 1 ∧ r.toRun = true ∧ next.spec = r.spec)

theorem updateJob_guarantee {stored next : Job Spec}
    (hsound : JobTable.Sound c s.jobs) (hsnapshot : Snapshot blocked r stored s) (hintended : Intended r stored next)
    (h : outcome c blocked s (.updateJob next stored.version) a t) : Guarantee c blocked r s t := by
  rcases updateJob_outcome h with rfl | ⟨jobs, written, hupdate, rfl⟩
  · exact .refl ..
  · obtain ⟨current, hfind, hversion, huid, hvalid, hrange, rfl, rfl⟩ := JobTable.update_ok hupdate
    have hmem := (JobTable.find_some hfind).1
    -- the version it has read is the one that is stored
    have hcurrent : current = stored := by
      rcases (hsnapshot.later current hmem (huid.trans hintended.same.uid)).version with heq | hlt
      · exact heq
      · rw [hversion] at hlt
        exact (Int64.lt_irrefl hlt).elim
    subst hcurrent
    have hadvances := JobTable.advances_of_move hintended.move
      (JobTable.written_validate hintended.same hvalid hrange) hrange
    rw [hintended.same.key] at hfind
    have hwritten : JobTable.find s.jobs (JobTable.written current next).key = some current := hfind
    refine ⟨.written current (JobTable.written current next) hwritten hadvances rfl rfl, rfl,
      fun j hj _ => JobTable.put_kept hj, fun j' hj' => ?_⟩
    rcases mem_put hsound hwritten hj' with rfl | ⟨hj', -⟩
    · refine .inr (.inr ⟨current, hmem, JobTable.advances_jobLater hadvances, ?_⟩)
      rcases hintended.epoch with hepoch | ⟨hepoch, hruns, hspec⟩
      · exact .inl hepoch
      · exact .inr ⟨hepoch, hruns, hspec, hsnapshot.key, hsnapshot.free⟩
    · exact .inl hj'

theorem deleteJob_guarantee {a : Except Fault Unit} (hsound : JobTable.Sound c s.jobs) (hdeleting : r.deleting = true)
    (h : outcome c blocked s (.deleteJob r.key version) a t) : Guarantee c blocked r s t := by
  rcases deleteJob_outcome h with rfl | ⟨removed, jobs, hdelete, rfl⟩
  · exact .refl ..
  · obtain ⟨hmem, hkey, rfl⟩ := JobTable.delete_ok hdelete
    refine ⟨.removed removed hmem ?_ rfl, rfl, fun j hj hkept => ?_, fun j' hj' => .inl (List.mem_of_mem_filter hj')⟩
    · refine List.filter_congr fun j hj => ?_
      rw [← hkey]
      by_cases huid : j.uid = removed.uid
      · simp [hsound.eq_of_uid hj hmem huid]
      · have hne : j.key ≠ removed.key := fun h => huid (congrArg _ (hsound.eq_of_key hj hmem h))
        simp [huid, hne]
    · grind

end

variable {c : Settings} {blocked : State → Bool} {r : SyncJob}

abbrev Keeps (c : Settings) (blocked : State → Bool) (r : SyncJob) {α : Type} (p : Prog α) (s : Store) : Prop :=
  Obeys (rules c.toContext blocked r) (fun _ _ => True) p s

theorem Intended.refl (r : SyncJob) (stored : Job Spec) : Intended r stored stored :=
  ⟨⟨rfl, rfl, rfl, rfl⟩, .stay rfl rfl fun _ => rfl, .inl rfl⟩

variable {s : Store} {stored next : Job Spec} {retry : Prog (Except Fault (Job Spec))}

theorem keeps_clock {α : Type} {f : Time → Prog α}
    (h : ∀ t, Rely c.toContext s t → ∀ now, Keeps c blocked r (f now) t) : Keeps c blocked r (Calls.clock >>= f) s := by
  refine obeys_perform fun t ht now u hu => ?_
  rw [clock_outcome hu]
  exact ⟨.refl .., h t ht now⟩

theorem write_keeps (hsnapshot : Snapshot blocked r stored s) (hintended : Intended r stored next)
    (hretry : ∀ s, Keeps c blocked r retry s) : Keeps c blocked r (write next stored.version retry) s := by
  refine obeys_perform fun t ht a u hu => ⟨?_, ?_⟩
  · exact updateJob_guarantee ht.sound (hsnapshot.stable ht.later) hintended hu
  · split
    · exact hretry u
    · trivial
    · trivial

section

variable (hdeleting : r.deleting = false)

include hdeleting

theorem Intended.request {moved : Job Spec} {now : Time} {changed : Bool}
    (hsound : stored.status.Sound) (h : Intended r stored next) (hstatus : next.status = stored.status)
    (hspec : next.spec = r.spec)
    (hmoved : requestDesired r.desired next now = .ok (moved, changed)) : Intended r stored moved := by
  unfold requestDesired at hmoved
  split_ifs at hmoved with hrunning
  · obtain ⟨hsame, hmove⟩ := requestStart_move (hstatus ▸ hsound) hmoved
    refine ⟨h.same.trans hsame, h.move.after hstatus hmove, ?_⟩
    rcases requestStart_ok hmoved with ⟨rfl, -⟩ | ⟨rfl, -⟩
    · exact .inl (congrArg _ hstatus)
    · refine .inr ⟨?_, ?_, hspec⟩
      · rw [← hstatus]
        rfl
      · simp [SyncJob.toRun, hdeleting, hrunning]
  · obtain ⟨hsame, hmove⟩ := requestStop_move hmoved
    refine ⟨h.same.trans hsame, h.move.after hstatus hmove, .inl ?_⟩
    rw [(requestStop_ok hmoved).1, hstatus]

theorem steer_keeps {changed : Bool} (hsnapshot : Snapshot blocked r stored s) (hintended : Intended r stored next)
    (hstatus : next.status = stored.status) (hspec : next.spec = r.spec)
    (hretry : ∀ s, Keeps c blocked r retry s) :
    Keeps c blocked r (steer r.desired stored next changed retry) s := by
  unfold steer
  split_ifs
  · refine keeps_clock fun t ht now => ?_
    have hstable := hsnapshot.stable ht.later
    split
    · trivial
    · next moved _ hmoved =>
      split_ifs
      · exact write_keeps hstable (hintended.request hdeleting hsnapshot.sound hstatus hspec hmoved) hretry
      · trivial
  · exact write_keeps hsnapshot hintended hretry
  · trivial

theorem bring_keeps (hsnapshot : Snapshot blocked r stored s) (hretry : ∀ s, Keeps c blocked r retry s) :
    Keeps c blocked r (bring c r stored retry) s := by
  unfold bring
  split_ifs with hspec hactive
  · exact steer_keeps hdeleting hsnapshot (.refl r stored) rfl hspec hretry
  · refine keeps_clock fun t ht now => ?_
    split
    · trivial
    · trivial
    · next next hstop =>
      obtain ⟨hsame, hmove⟩ := requestStop_move hstop
      exact write_keeps (hsnapshot.stable ht.later) ⟨hsame, hmove, .inl (requestStop_ok hstop).1⟩ hretry
  · refine keeps_clock fun t ht now => ?_
    split
    · trivial
    · next next hreplace =>
      obtain ⟨hsame, hmove⟩ := replaceSpec_move hreplace
      obtain ⟨hstatus, hnew⟩ := replaceSpec_status hreplace
      exact steer_keeps hdeleting (hsnapshot.stable ht.later) ⟨hsame, hmove, .inl (congrArg _ hstatus)⟩ hstatus hnew
        hretry

end

theorem snapshot_of_mem (hsound : JobTable.Sound c.toContext s.jobs)
    (hmem : stored ∈ s.jobs) (hkey : stored.key = r.key) (hfree : blocked stored.status.state = false) :
    Snapshot blocked r stored s := by
  refine ⟨hkey, known_of_mem hmem, Job.sound_of_validate (hsound.valid stored hmem), hfree, fun j hj huid => ?_⟩
  rw [hsound.eq_of_uid hj hmem huid]
  exact .refl stored

theorem createJob_keeps {f : Except Fault (Job Spec) → Prog (Except Fault (Job Spec))} (hdeleting : r.deleting = false)
    (hkey : candidate.key = r.key)
    (hstate : candidate.status.state = .created) (hblocked : blocked .created = false)
    (hfail : ∀ a t, (∀ j, a ≠ .ok j) → Keeps c blocked r (f a) t)
    (hcreated : ∀ t, Snapshot blocked r candidate t → Keeps c blocked r (f (.ok candidate)) t) :
    Keeps c blocked r (Calls.createJob candidate >>= f) s := by
  refine obeys_perform fun t ht a u hu => ?_
  obtain ⟨hunused, ⟨rfl, hrefused⟩ | ⟨jobs, hcreate, rfl, hanswer⟩⟩ := createJob_outcome hu
  · exact ⟨.refl .., hfail a _ hrefused⟩
  · have hjobs := JobTable.create_ok hcreate
    have hchange : Change c.toContext t { t with jobs } := .created candidate hcreate hunused rfl
    refine ⟨⟨hchange, rfl, fun j hj _ => ⟨j, ?_, rfl⟩, fun j' hj' => ?_⟩, ?_⟩
    · rw [hjobs]
      exact List.mem_append_left _ hj
    · rw [hjobs] at hj'
      rcases List.mem_append.mp hj' with hj' | hj'
      · exact .inl hj'
      · rw [List.mem_singleton.mp hj']
        exact .inr (.inl ⟨hstate, hkey, hdeleting, fun q hq => (JobTable.create_unused hcreate q hq).1⟩)
    · cases a with
      | error => exact hfail _ _ fun j h => nomatch h
      | ok created =>
        cases hanswer created rfl
        apply hcreated
        refine snapshot_of_mem (c := c) (hchange.sound ht.sound) ?_ hkey (by rw [hstate]; exact hblocked)
        rw [hjobs]
        exact List.mem_append_right _ (List.mem_singleton_self _)

theorem newJob_ok {now : Time} (h : newJob c r now = .ok candidate) :
    candidate.key = r.key ∧ candidate.status.state = .created := by
  unfold newJob at h
  split_ifs at h
  cases h
  exact ⟨rfl, rfl⟩

theorem converge_keeps (hdeleting : r.deleting = false) (hblocked : blocked .created = false) (attempts : ℕ) (s : Store) :
    Keeps c blocked r (converge c r attempts) s := by
  induction attempts generalizing s with
  | zero => trivial
  | succ attempts ih =>
    refine obeys_perform fun t ht a u hu => ?_
    obtain ⟨rfl, hread⟩ := getJob_outcome hu
    refine ⟨.refl .., ?_⟩
    split
    · refine keeps_clock fun v hv now => ?_
      split
      · trivial
      · next candidate hnew =>
        obtain ⟨hkey, hstate⟩ := newJob_ok hnew
        refine createJob_keeps hdeleting hkey hstate hblocked (fun a v hrefused => ?_) fun v hsnapshot => ?_
        · split
          · exact ih v
          · trivial
          · next created => exact absurd rfl (hrefused created)
        · exact bring_keeps hdeleting hsnapshot ih
    · trivial
    · next stored =>
      obtain ⟨hmem, hkey, hfree⟩ := hread stored rfl
      exact bring_keeps hdeleting (snapshot_of_mem ht.sound hmem hkey hfree) ih

theorem reconcileDeletion_keeps (hdeleting : r.deleting = true) (s : Store) :
    Keeps c blocked r (reconcileDeletion r) s := by
  refine obeys_perform fun t ht a u hu => ?_
  obtain ⟨rfl, hread⟩ := getJob_outcome hu
  refine ⟨.refl .., ?_⟩
  split
  · trivial
  · trivial
  · next stored =>
    obtain ⟨hmem, hkey, hfree⟩ := hread stored rfl
    have hsnapshot := snapshot_of_mem ht.sound hmem hkey hfree
    split_ifs
    · refine keeps_clock fun v hv now => ?_
      split
      · trivial
      · trivial
      · next next hstop =>
        obtain ⟨hsame, hmove⟩ := requestStop_move hstop
        refine obeys_perform fun w hw a x hx => ⟨?_, ?_⟩
        · exact updateJob_guarantee hw.sound ((hsnapshot.stable hv.later).stable hw.later)
            ⟨hsame, hmove, .inl (requestStop_ok hstop).1⟩ hx
        · split <;> trivial
    · refine obeys_perform fun v hv a w hw => ⟨deleteJob_guarantee hv.sound hdeleting hw, ?_⟩
      split <;> trivial

theorem reconcile_keeps (hblocked : blocked .created = false) (s : Store) : Keeps c blocked r (reconcile c r) s := by
  unfold reconcile
  split
  · trivial
  · split_ifs with hdeleting
    · exact reconcileDeletion_keeps hdeleting s
    · split
      · trivial
      · refine obeys_bind (obeys_weaken (converge_keeps (Bool.eq_false_iff.mpr hdeleting) hblocked 5 s) fun a t _ => ?_)
        split <;> trivial

end AstraSync.SyncJobController
