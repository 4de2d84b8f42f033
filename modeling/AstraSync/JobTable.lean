import AstraSync.JobRepository

namespace AstraSync.JobTable

open ByteStrings JobLifecycle JobRepository

variable {S : Type}

inductive TableError
  | invalid (message : String)
  | notFound
  | alreadyExists
  | conflict
  | staleEpoch (current supplied : Int64)
  | outOfRange
  deriving DecidableEq

def find (jobs : List (Job S)) (key : Key) : Option (Job S) := jobs.find? fun j => j.key = key

def get (jobs : List (Job S)) (key : Key) : Except TableError (Job S) :=
  match key.validate with
  | some message => .error (.invalid message)
  | none =>
    match find jobs key with
    | some stored => .ok stored
    | none => .error .notFound

def create (c : Context S) (jobs : List (Job S)) (candidate : Job S) : Except TableError (List (Job S)) :=
  match candidate.validate c with
  | some message => .error (.invalid message)
  | none =>
    if jobs.any fun j => j.key = candidate.key || j.uid = candidate.uid then .error .alreadyExists
    else .ok (jobs ++ [candidate])

def written (current candidate : Job S) : Job S :=
  { current with
    spec := candidate.spec
    status := candidate.status
    version := current.version + 1
    updatedAt := candidate.updatedAt }

def put (jobs : List (Job S)) (next : Job S) : List (Job S) := jobs.map fun j => if j.key = next.key then next else j

def updateFailure (current candidate : Job S) (expectedVersion : Int64) : TableError :=
  if current.version ≠ expectedVersion ∨ current.uid ≠ candidate.uid ∨ current.createdAt ≠ candidate.createdAt then
    .conflict
  else if candidate.status.epoch < current.status.epoch then
    .staleEpoch current.status.epoch candidate.status.epoch
  else .conflict

def update (c : Context S) (jobs : List (Job S)) (candidate : Job S) (expectedVersion : Int64) :
    Except TableError (List (Job S) × Job S) :=
  match candidate.validate c with
  | some message => .error (.invalid message)
  | none =>
    match find jobs candidate.key with
    | none => .error .notFound
    | some current =>
      if current.version = expectedVersion ∧ current.uid = candidate.uid ∧
          current.status.epoch ≤ candidate.status.epoch then
        -- the version column is a 64-bit integer
        if current.version + 1 ≤ 0 then .error .outOfRange
        else .ok (put jobs (written current candidate), written current candidate)
      else .error (updateFailure current candidate expectedVersion)

def delete (jobs : List (Job S)) (key : Key) (expectedVersion : Int64) : Except TableError (Job S × List (Job S)) :=
  match key.validate with
  | some message => .error (.invalid message)
  | none =>
    if expectedVersion ≤ 0 then .error .conflict
    else match find jobs key with
      | none => .error .notFound
      | some stored =>
        if stored.version = expectedVersion then .ok (stored, jobs.filter (·.key ≠ key)) else .error .conflict

def Advances (c : Context S) (j j' : Job S) : Prop :=
  j' = j ∨ (j'.key = j.key ∧ j'.uid = j.uid ∧ j.version < j'.version ∧ Move j j' ∧ j'.validate c = none)

structure Sound (c : Context S) (jobs : List (Job S)) : Prop where
  keys : (jobs.map (·.key)).Nodup
  uids : (jobs.map (·.uid)).Nodup
  valid : ∀ j ∈ jobs, j.validate c = none

variable {c : Context S} {j j' : Job S}

theorem Advances.key (h : Advances c j j') : j'.key = j.key := by
  rcases h with rfl | ⟨hkey, -⟩
  · rfl
  · exact hkey

theorem Advances.uid (h : Advances c j j') : j'.uid = j.uid := by
  rcases h with rfl | ⟨-, huid, -⟩
  · rfl
  · exact huid

theorem Advances.history (h : Advances c j j') : History j j' := by
  rcases h with rfl | ⟨-, -, -, hmove, hvalid⟩
  · exact .refl j'
  · exact hmove.history (Job.sound_of_validate hvalid)

structure JobLater (j j' : Job S) : Prop where
  key : j'.key = j.key
  uid : j'.uid = j.uid
  history : History j j'
  version : j' = j ∨ j.version < j'.version

theorem JobLater.refl (j : Job S) : JobLater j j := ⟨rfl, rfl, .refl j, .inl rfl⟩

theorem JobLater.trans {a b d : Job S} (hab : JobLater a b) (hbd : JobLater b d) : JobLater a d := by
  refine ⟨hbd.key.trans hab.key, hbd.uid.trans hab.uid, hab.history.trans hbd.history, ?_⟩
  rcases hbd.version with rfl | hbd
  · exact hab.version
  · grind [JobLater, Int64.lt_trans]

theorem advances_jobLater (h : Advances c j j') : JobLater j j' := by
  refine ⟨h.key, h.uid, h.history, ?_⟩
  rcases h with rfl | ⟨-, -, hversion, -⟩
  · exact .inl rfl
  · exact .inr hversion

theorem sound_nil (c : Context S) : Sound c [] := ⟨.nil, .nil, by simp⟩

variable {jobs jobs' : List (Job S)} {next candidate : Job S} {j : Job S}

theorem put_kept (hj : j ∈ jobs) : ∃ j' ∈ put jobs next, j'.key = j.key := by
  refine ⟨_, List.mem_map_of_mem hj, ?_⟩
  split_ifs with hkey
  · exact hkey.symm
  · rfl

variable {key : Key}

theorem find_some (h : find jobs key = some j) : j ∈ jobs ∧ j.key = key :=
  ⟨List.mem_of_find?_eq_some h, by simpa using List.find?_some h⟩

theorem get_ok (h : get jobs key = .ok j) : j ∈ jobs ∧ j.key = key := by
  unfold get at h
  split at h
  · cases h
  · grind [find_some]

theorem delete_ok {version : Int64} {removed : Job S} (h : delete jobs key version = .ok (removed, jobs')) :
    removed ∈ jobs ∧ removed.key = key ∧ jobs' = jobs.filter (·.key ≠ key) := by
  unfold delete at h
  split at h
  · cases h
  · grind [find_some]

theorem create_ok (h : create c jobs candidate = .ok jobs') : jobs' = jobs ++ [candidate] := by
  unfold create at h
  split at h
  · cases h
  · split_ifs at h
    cases h
    rfl

theorem create_unused
    (h : create c jobs candidate = .ok jobs') : ∀ j ∈ jobs, j.key ≠ candidate.key ∧ j.uid ≠ candidate.uid := by
  unfold create at h
  split at h
  · cases h
  · grind

section

variable {c : Context S} {jobs : List (Job S)} (hs : Sound c jobs)

include hs

theorem Sound.eq_of_key {a b : Job S} (ha : a ∈ jobs) (hb : b ∈ jobs) (h : a.key = b.key) : a = b :=
  List.inj_on_of_nodup_map hs.keys ha hb h

theorem Sound.eq_of_uid {a b : Job S} (ha : a ∈ jobs) (hb : b ∈ jobs) (h : a.uid = b.uid) : a = b :=
  List.inj_on_of_nodup_map hs.uids ha hb h

theorem Sound.map {f : Job S → Job S} (hf : ∀ j ∈ jobs, Advances c j (f j)) : Sound c (jobs.map f) := by
  have hkeys : (jobs.map f).map (·.key) = jobs.map (·.key) := by
    rw [List.map_map]
    exact List.map_congr_left fun j hj => (hf j hj).key
  have huids : (jobs.map f).map (·.uid) = jobs.map (·.uid) := by
    rw [List.map_map]
    exact List.map_congr_left fun j hj => (hf j hj).uid
  refine ⟨hkeys ▸ hs.keys, huids ▸ hs.uids, ?_⟩
  · intro j' hj'
    obtain ⟨j, hj, rfl⟩ := List.mem_map.mp hj'
    rcases hf j hj with heq | ⟨-, -, -, -, hvalid⟩
    · rw [heq]
      exact hs.valid j hj
    · exact hvalid

theorem put_advances {current next : Job S} (hcurrent : find jobs next.key = some current)
    (hnext : Advances c current next) :
    ∀ j ∈ jobs, Advances c j (if j.key = next.key then next else j) := by
  intro j hj
  obtain ⟨hmem, hkey⟩ := find_some hcurrent
  split_ifs with h
  · cases hs.eq_of_key hj hmem (h.trans hkey.symm)
    exact hnext
  · exact .inl rfl

theorem Sound.create {candidate : Job S} {jobs' : List (Job S)} (h : create c jobs candidate = .ok jobs') :
    Sound c (jobs ++ [candidate]) := by
  unfold JobTable.create at h
  split at h
  · cases h
  · next hvalid =>
    split_ifs at h with hany
    simp only [List.any_eq_true, not_exists, not_and, Bool.or_eq_true, decide_eq_true_eq, not_or] at hany
    refine ⟨?_, ?_, ?_⟩
    · grind [Sound, List.nodup_singleton, List.mem_singleton]
    · grind [Sound, List.nodup_singleton, List.mem_singleton]
    · grind [Sound, List.mem_singleton]

theorem Sound.filter (p : Job S → Bool) : Sound c (jobs.filter p) :=
  ⟨hs.keys.sublist (List.filter_sublist.map _), hs.uids.sublist (List.filter_sublist.map _),
    fun j hj => hs.valid j (List.mem_of_mem_filter hj)⟩

end

variable {c : Context S}

theorem update_ok {stored : Job S} {version : Int64} (h : update c jobs candidate version = .ok (jobs', stored)) :
    ∃ current, find jobs candidate.key = some current ∧ current.version = version ∧ current.uid = candidate.uid ∧
      candidate.validate c = none ∧ 0 < current.version + 1 ∧ stored = written current candidate ∧
      jobs' = put jobs stored := by
  unfold update at h
  split at h
  · cases h
  · grind

variable {j : Job S}

theorem advances_of_move (hmove : Move j next)
    (hvalid : (written j next).validate c = none) (hrange : 0 < j.version + 1) : Advances c j (written j next) := by
  have hlt : j.version < j.version + 1 := by
    grind
  refine .inr ⟨rfl, rfl, hlt, ?_, hvalid⟩
  cases hmove with
  | start inactive state epoch => exact .start inactive state epoch
  | stay state epoch spec => exact .stay state epoch spec
  | goOn state epoch spec => exact .goOn state epoch spec

theorem written_validate (hsame : SameRow j next) (hvalid : next.validate c = none)
    (hrange : 0 < j.version + 1) : (written j next).validate c = none := by
  have heq : written j next = { next with version := j.version + 1 } := by
    obtain ⟨hkey, huid, -, hcreated⟩ := hsame
    cases j
    cases next
    simp only at hkey huid hcreated
    subst hkey huid hcreated
    rfl
  rw [heq]
  exact Job.validate_version hvalid hrange

theorem written_advances {r : Request S} {now : Time} {changed : Bool}
    (hsound : j.status.Sound) (h : request c.validate j r now = .ok (next, changed))
    (hvalid : next.validate c = none) (hrange : 0 < j.version + 1) : Advances c j (written j next) := by
  grind [request_move, advances_of_move, written_validate]

end AstraSync.JobTable
