import AstraSync.JobLifecycle
import Mathlib.Data.List.Sort

namespace AstraSync.DispatchStore

open ByteStrings JobLifecycle

inductive Phase
  | claimed
  | starting
  | running
  | stopping
  | succeeded
  | failed
  | canceled
  deriving DecidableEq

def Phase.active : Phase → Bool
  | .claimed | .starting | .running | .stopping => true
  | _ => false

def Phase.terminal (phase : Phase) : Bool := phase = .succeeded || phase = .failed || phase = .canceled

def Phase.live : Phase → Bool
  | .claimed | .starting | .running => true
  | _ => false

structure Identity where
  jobUID : Bytes
  epoch : Int64
  deriving DecidableEq

inductive DispatchError
  | blankJobUID
  | nonPositiveEpoch
  | blankOwner
  | maximumActive
  | leaseDuration
  | heartbeatTimeout
  | invalidUpdate
  | invalidHeartbeat
  | heartbeatToken
  | invalidFence
  | invalidCompletion
  | leaseLost
  deriving DecidableEq

def Identity.validate (i : Identity) : Option DispatchError :=
  if i.jobUID = [] then some .blankJobUID
  else if i.epoch ≤ 0 then some .nonPositiveEpoch
  else none

structure Record where
  identity : Identity
  key : Key
  ownerID : Bytes
  phase : Phase
  leaseExpiresAt : Time
  lastHeartbeatAt : Option Time
  heartbeatToken : Bytes
  attempt : ℕ
  lastError : String
  (createdAt updatedAt : Time)
  deriving DecidableEq

abbrev Table := List Record

section

variable {S : Type}

def renew (ownerID : Bytes) (leaseExpiresAt now : Time) (r : Record) : Record :=
  if r.ownerID = ownerID ∧ now < r.leaseExpiresAt ∧ r.phase.active then
    { r with leaseExpiresAt, updatedAt := now }
  else r

def heartbeatBefore (limit : Time) : Option Time → Bool
  | some t => t ≤ limit
  | none => false

def expired (ownerID : Bytes) (now heartbeatLimit : Time) (r : Record) : Bool :=
  r.phase.active && (r.leaseExpiresAt ≤ now ||
    (r.ownerID ≠ ownerID && r.phase.live && heartbeatBefore heartbeatLimit r.lastHeartbeatAt))

def takeOver (ownerID : Bytes) (leaseExpiresAt now heartbeatLimit : Time) (r : Record) : Record :=
  if expired ownerID now heartbeatLimit r then
    { r with ownerID, leaseExpiresAt, attempt := r.attempt + 1, updatedAt := now }
  else r

def jobIdentity (j : Job S) : Identity := ⟨j.uid, j.status.epoch⟩

def pending (rows : Table) (j : Job S) : Bool :=
  j.status.desired = .running && j.status.state = .initializing && 0 < j.status.epoch &&
    !rows.any (fun r => r.identity = jobIdentity j)

def keyBefore (a b : Key) : Prop := a.ns < b.ns ∨ (a.ns = b.ns ∧ a.name ≤ b.name)

instance (a b : Key) : Decidable (keyBefore a b) := inferInstanceAs (Decidable (_ ∨ _))

def claimBefore (a b : Job S) : Prop :=
  a.updatedAt < b.updatedAt ∨ (a.updatedAt = b.updatedAt ∧ keyBefore a.key b.key)

instance (a b : Job S) : Decidable (claimBefore a b) := inferInstanceAs (Decidable (_ ∨ _))

def claimedRow (ownerID : Bytes) (leaseExpiresAt now : Time) (token : Identity → Bytes) (j : Job S) : Record :=
  ⟨jobIdentity j, j.key, ownerID, .claimed, leaseExpiresAt, some now, token (jobIdentity j), 1, "", now, now⟩

def insertRow (rows : Table) (r : Record) : Table :=
  if rows.any (fun q => q.identity = r.identity || (q.key = r.key && q.identity.epoch = r.identity.epoch)) then
    rows
  else rows ++ [r]

def claimPending (ownerID : Bytes) (available : ℕ) (leaseExpiresAt now : Time) (token : Identity → Bytes)
    (jobs : List (Job S)) (rows : Table) : Table :=
  (((jobs.filter (pending rows)).insertionSort claimBefore).take available).foldl
    (fun rows j => insertRow rows (claimedRow ownerID leaseExpiresAt now token j)) rows

def activeCount (rows : Table) : ℕ := rows.countP (·.phase.active)

def rowBefore (a b : Record) : Prop :=
  a.createdAt < b.createdAt ∨ (a.createdAt = b.createdAt ∧ keyBefore a.key b.key)

instance (a b : Record) : Decidable (rowBefore a b) := inferInstanceAs (Decidable (_ ∨ _))

/-- The rows a replica works on: its own live leases renewed, expired ones taken over, and pending jobs
claimed up to the limit. The flag tells a lease taken over. -/
def claim (ownerID : Bytes) (maxActive : ℤ) (leaseDuration heartbeatTimeout now : Time)
    (token : Identity → Bytes) (jobs : List (Job S)) (rows : Table) :
    Table × Except DispatchError (List (Record × Bool)) :=
  if ownerID = [] then (rows, .error .blankOwner)
  else if maxActive ≤ 0 then (rows, .error .maximumActive)
  else if leaseDuration ≤ 0 then (rows, .error .leaseDuration)
  else if heartbeatTimeout ≤ 0 then (rows, .error .heartbeatTimeout)
  else
    let leaseExpiresAt := now + leaseDuration
    let limit := now - heartbeatTimeout
    let renewed := rows.map (renew ownerID leaseExpiresAt now)
    let taken := (renewed.filter (expired ownerID now limit)).map (·.identity)
    let held := renewed.map (takeOver ownerID leaseExpiresAt now limit)
    let available := (maxActive - activeCount held).toNat
    let result := claimPending ownerID available leaseExpiresAt now token jobs held
    let claimed := (result.filter fun r => r.ownerID = ownerID && r.phase.active).insertionSort rowBefore
    (result, .ok (claimed.map fun r => (r, taken.contains r.identity)))

end

def affect (rows : Table) (condition : Record → Bool) (change : Record → Record) : Table × Except DispatchError Unit :=
  (rows.map fun r => if condition r then change r else r,
    if rows.countP condition = 1 then .ok () else .error .leaseLost)

def leased (i : Identity) (ownerID : Bytes) (now : Time) (r : Record) : Bool :=
  r.identity = i && r.ownerID = ownerID && now < r.leaseExpiresAt

def update (i : Identity) (ownerID : Bytes) (phase : Phase) (lastError : String) (leaseDuration now : Time)
    (rows : Table) : Table × Except DispatchError Unit :=
  match i.validate with
  | some e => (rows, .error e)
  | none =>
    if ownerID = [] ∨ !phase.active ∨ leaseDuration ≤ 0 then (rows, .error .invalidUpdate)
    else affect rows (fun r => leased i ownerID now r && r.phase.active)
      (fun r => { r with phase, lastError, leaseExpiresAt := now + leaseDuration, updatedAt := now })

def recordHeartbeat (parseUUID : Bytes → Bool) (i : Identity) (token : Bytes) (now : Time) (rows : Table) :
    Table × Except DispatchError Unit :=
  match i.validate with
  | some e => (rows, .error e)
  | none =>
    if token = [] then (rows, .error .invalidHeartbeat)
    else if !parseUUID token then (rows, .error .heartbeatToken)
    else affect rows (fun r => r.identity = i && r.heartbeatToken = token && r.phase.live)
      (fun r => { r with lastHeartbeatAt := some now })

def fenceExpiredHeartbeat (i : Identity) (ownerID : Bytes) (lastError : String)
    (heartbeatTimeout leaseDuration now : Time) (rows : Table) : Table × Except DispatchError Bool :=
  match i.validate with
  | some e => (rows, .error e)
  | none =>
    if ownerID = [] ∨ heartbeatTimeout ≤ 0 ∨ leaseDuration ≤ 0 then (rows, .error .invalidFence)
    else
      let silent := fun r : Record => leased i ownerID now r && r.phase.live &&
        (r.lastHeartbeatAt = none || heartbeatBefore (now - heartbeatTimeout) r.lastHeartbeatAt)
      ((affect rows silent (fun r =>
        { r with phase := .stopping, lastError, leaseExpiresAt := now + leaseDuration, updatedAt := now })).1,
        .ok (rows.countP silent = 1))

def complete (i : Identity) (ownerID : Bytes) (phase : Phase) (lastError : String) (now : Time) (rows : Table) :
    Table × Except DispatchError Unit :=
  match i.validate with
  | some e => (rows, .error e)
  | none =>
    if ownerID = [] ∨ !phase.terminal then (rows, .error .invalidCompletion)
    else affect rows (fun r => leased i ownerID now r && r.phase.active)
      (fun r => { r with phase, lastError, leaseExpiresAt := now, updatedAt := now })

structure Keeps (change : Record → Record) : Prop where
  identity : ∀ r, (change r).identity = r.identity
  active : ∀ r, (change r).phase.active = true → r.phase.active = true

theorem keeps_id : Keeps id := ⟨fun _ => rfl, fun _ h => h⟩

theorem Keeps.comp {f g : Record → Record} (hf : Keeps f) (hg : Keeps g) : Keeps (g ∘ f) :=
  ⟨fun r => (hg.identity (f r)).trans (hf.identity r), fun r h => hf.active r (hg.active (f r) h)⟩

variable {condition : Record → Bool} {change : Record → Record}

theorem keeps_ite (hactive : ∀ r, condition r = true → r.phase.active = true)
    (hidentity : ∀ r, (change r).identity = r.identity) :
    Keeps (fun r => if condition r then change r else r) := by
  constructor <;> intro r
  · grind
  · grind

theorem affect_rows (rows : Table) (hactive : ∀ r, condition r = true → r.phase.active = true)
    (hidentity : ∀ r, (change r).identity = r.identity) :
    ∃ f, Keeps f ∧ (affect rows condition change).1 = rows.map f :=
  ⟨_, keeps_ite hactive hidentity, rfl⟩

theorem live_active {phase : Phase} (h : phase.live = true) : phase.active = true := by
  cases phase <;> first | rfl | cases h

theorem terminal_inactive {phase : Phase} (h : phase.terminal = true) : phase.active = false := by
  cases phase <;> first | rfl | cases h

theorem renew_keeps (ownerID : Bytes) (leaseExpiresAt now : Time) : Keeps (renew ownerID leaseExpiresAt now) := by
  constructor <;> intro r <;> unfold renew <;> split_ifs <;> first | rfl | exact id

theorem takeOver_keeps (ownerID : Bytes) (leaseExpiresAt now limit : Time) :
    Keeps (takeOver ownerID leaseExpiresAt now limit) := by
  constructor <;> intro r <;> unfold takeOver <;> split_ifs <;> first | rfl | exact id

section

variable (i : Identity) (ownerID : Bytes) (phase : Phase) (lastError : String) (now : Time) (rows : Table)

theorem update_rows (leaseDuration : Time) :
    ∃ f, Keeps f ∧ (update i ownerID phase lastError leaseDuration now rows).1 = rows.map f := by
  unfold update
  split
  · exact ⟨id, keeps_id, by simp⟩
  · split_ifs
    · exact ⟨id, keeps_id, by simp⟩
    · exact affect_rows rows (fun r h => (Bool.and_eq_true_iff.mp h).2) (fun _ => rfl)

theorem recordHeartbeat_rows (parseUUID : Bytes → Bool) (token : Bytes) :
    ∃ f, Keeps f ∧ (recordHeartbeat parseUUID i token now rows).1 = rows.map f := by
  unfold recordHeartbeat
  split
  · exact ⟨id, keeps_id, by simp⟩
  · split_ifs
    · exact ⟨id, keeps_id, by simp⟩
    · exact ⟨id, keeps_id, by simp⟩
    · exact affect_rows rows (fun r h => live_active (Bool.and_eq_true_iff.mp h).2) (fun _ => rfl)

theorem fenceExpiredHeartbeat_rows (heartbeatTimeout leaseDuration : Time) : ∃ f, Keeps f ∧
      (fenceExpiredHeartbeat i ownerID lastError heartbeatTimeout leaseDuration now rows).1 = rows.map f := by
  unfold fenceExpiredHeartbeat
  split
  · exact ⟨id, keeps_id, by simp⟩
  · split_ifs
    · exact ⟨id, keeps_id, by simp⟩
    · refine affect_rows rows (fun r h => ?_) (fun _ => rfl)
      rw [Bool.and_eq_true, Bool.and_eq_true] at h
      exact live_active h.1.2

theorem complete_rows : ∃ f, Keeps f ∧ (complete i ownerID phase lastError now rows).1 = rows.map f := by
  unfold complete
  split
  · exact ⟨id, keeps_id, by simp⟩
  · split_ifs
    · exact ⟨id, keeps_id, by simp⟩
    · exact affect_rows rows (fun r h => (Bool.and_eq_true_iff.mp h).2) (fun _ => rfl)

end

theorem complete_ok {i : Identity} {ownerID : Bytes} {phase : Phase} {lastError : String} {now : Time} {rows : Table}
    (hnodup : (rows.map (·.identity)).Nodup)
    (h : (complete i ownerID phase lastError now rows).2 = .ok ()) :
    (∃ r ∈ rows, r.identity = i ∧ r.ownerID = ownerID) ∧
      ∀ r ∈ (complete i ownerID phase lastError now rows).1, r.identity = i → r.phase.active = false := by
  unfold complete at h ⊢
  split at h
  · cases h
  · split_ifs at h with hinvalid
    rw [not_or] at hinvalid
    have hterminal : phase.terminal = true := by simpa using hinvalid.2
    simp only [affect] at h
    split_ifs at h with hcount
    have hpositive : 0 < rows.countP (fun r => leased i ownerID now r && r.phase.active) := by omega
    obtain ⟨q, hq, hcondition⟩ := List.countP_pos_iff.mp hpositive
    have hleased := (Bool.and_eq_true_iff.mp hcondition).1
    simp only [leased, Bool.and_eq_true, decide_eq_true_eq] at hleased
    refine ⟨⟨q, hq, hleased.1.1, hleased.1.2⟩, fun r' hr' hid => ?_⟩
    rw [if_neg (not_or.mpr hinvalid)] at hr'
    obtain ⟨r, hr, rfl⟩ := List.mem_map.mp hr'
    -- the row of the execution is the one that was leased
    have hrid : r.identity = i := by
      split_ifs at hid <;> exact hid
    cases List.inj_on_of_nodup_map hnodup hr hq (hrid.trans hleased.1.1.symm)
    rw [if_pos hcondition]
    exact terminal_inactive hterminal

variable {S : Type}

theorem foldl_insertRow (rows new : Table) : ∃ added, new.foldl insertRow rows = rows ++ added ∧ added.Sublist new := by
  induction new generalizing rows with
  | nil => exact ⟨[], by simp, .slnil⟩
  | cons r new ih =>
    rw [List.foldl_cons, insertRow]
    split_ifs
    · obtain ⟨added, hrows, hsub⟩ := ih rows
      exact ⟨added, hrows, .cons r hsub⟩
    · obtain ⟨added, hrows, hsub⟩ := ih (rows ++ [r])
      exact ⟨r :: added, by rw [hrows, List.append_assoc]; rfl, .cons_cons r hsub⟩

theorem insertRow_nodup {rows : Table} (h : (rows.map (·.identity)).Nodup) (r : Record) :
    ((insertRow rows r).map (·.identity)).Nodup := by
  unfold insertRow
  split_ifs with hany
  · exact h
  · grind

theorem foldl_insertRow_nodup {rows : Table} (h : (rows.map (·.identity)).Nodup) (new : Table) :
    ((new.foldl insertRow rows).map (·.identity)).Nodup := by
  induction new generalizing rows with
  | nil => exact h
  | cons r new ih => exact ih (insertRow_nodup h r)

theorem claimPending_spec (ownerID : Bytes) (available : ℕ) (leaseExpiresAt now : Time)
    (token : Identity → Bytes) (jobs : List (Job S)) (rows : Table) :
    ∃ added, claimPending ownerID available leaseExpiresAt now token jobs rows = rows ++ added ∧
      added.length ≤ available ∧
      (∀ r ∈ added, ∃ j ∈ jobs, pending rows j = true ∧ r = claimedRow ownerID leaseExpiresAt now token j) ∧
      ((rows.map (·.identity)).Nodup → ((rows ++ added).map (·.identity)).Nodup) := by
  obtain ⟨added, hrows, hsub⟩ := foldl_insertRow rows
    ((((jobs.filter (pending rows)).insertionSort claimBefore).take available).map
      (claimedRow ownerID leaseExpiresAt now token))
  refine ⟨added, by rw [← hrows, List.foldl_map]; rfl, ?_, fun r hr => ?_, fun h => ?_⟩
  · grind
  · grind [List.mem_insertionSort, List.mem_of_mem_take]
  · rw [← hrows]
    exact foldl_insertRow_nodup h _

theorem claim_rows (ownerID : Bytes) (maxActive : ℤ) (leaseDuration heartbeatTimeout now : Time)
    (token : Identity → Bytes) (jobs : List (Job S)) (rows : Table) :
    ∃ f added, Keeps f ∧
      (claim ownerID maxActive leaseDuration heartbeatTimeout now token jobs rows).1 = rows.map f ++ added ∧
      ∀ r ∈ added, ∃ j ∈ jobs, pending (rows.map f) j = true ∧ r.identity = jobIdentity j := by
  unfold claim
  split_ifs
  · exact ⟨id, [], keeps_id, by simp, by simp⟩
  · exact ⟨id, [], keeps_id, by simp, by simp⟩
  · exact ⟨id, [], keeps_id, by simp, by simp⟩
  · exact ⟨id, [], keeps_id, by simp, by simp⟩
  · have hkeeps := (renew_keeps ownerID (now + leaseDuration) now).comp
      (takeOver_keeps ownerID (now + leaseDuration) now (now - heartbeatTimeout))
    obtain ⟨added, hrows, -, hadded, -⟩ := claimPending_spec ownerID
      (maxActive - activeCount ((rows.map (renew ownerID (now + leaseDuration) now)).map
        (takeOver ownerID (now + leaseDuration) now (now - heartbeatTimeout)))).toNat
      (now + leaseDuration) now token jobs ((rows.map (renew ownerID (now + leaseDuration) now)).map
        (takeOver ownerID (now + leaseDuration) now (now - heartbeatTimeout)))
    rw [List.map_map] at hrows hadded
    refine ⟨_, added, hkeeps, by dsimp only; rw [← hrows, List.map_map], fun r hr => ?_⟩
    obtain ⟨j, hj, hpending, rfl⟩ := hadded r hr
    exact ⟨j, hj, hpending, rfl⟩

def claimChange (ownerID : Bytes) (leaseExpiresAt now heartbeatLimit : Time) (r : Record) : Record :=
  takeOver ownerID leaseExpiresAt now heartbeatLimit (renew ownerID leaseExpiresAt now r)

structure ClaimChange (ownerID : Bytes) (r r' : Record) : Prop where
  identity : r'.identity = r.identity
  key : r'.key = r.key
  phase : r'.phase = r.phase
  inactive : r.phase.active = false → r' = r
  owner : r'.ownerID = r.ownerID ∨ (r'.ownerID = ownerID ∧ r'.attempt = r.attempt + 1)

theorem claimChange_spec (ownerID : Bytes) (leaseExpiresAt now limit : Time) (r : Record) :
    ClaimChange ownerID r (claimChange ownerID leaseExpiresAt now limit r) := by
  unfold claimChange takeOver renew
  by_cases hrenew : r.ownerID = ownerID ∧ now < r.leaseExpiresAt ∧ r.phase.active = true
  · have hactive : ¬ r.phase.active = false := by simp [hrenew.2.2]
    rw [if_pos hrenew]
    split_ifs with hexpired
    · exact ⟨rfl, rfl, rfl, fun h => absurd h hactive, .inr ⟨rfl, rfl⟩⟩
    · exact ⟨rfl, rfl, rfl, fun h => absurd h hactive, .inl rfl⟩
  · rw [if_neg hrenew]
    split_ifs with hexpired
    · refine ⟨rfl, rfl, rfl, fun h => ?_, .inr ⟨rfl, rfl⟩⟩
      rw [expired, h] at hexpired
      cases hexpired
    · exact ⟨rfl, rfl, rfl, fun _ => rfl, .inl rfl⟩

theorem claim_cases (ownerID : Bytes) (maxActive : ℤ) (leaseDuration heartbeatTimeout now : Time)
    (token : Identity → Bytes) (jobs : List (Job S)) (rows : Table) :
    (∃ e, claim ownerID maxActive leaseDuration heartbeatTimeout now token jobs rows = (rows, .error e)) ∨
    ∃ held added records,
      held = rows.map (claimChange ownerID (now + leaseDuration) now (now - heartbeatTimeout)) ∧
      claim ownerID maxActive leaseDuration heartbeatTimeout now token jobs rows = (held ++ added, .ok records) ∧
      (∀ record ∈ records, record.1 ∈ held ++ added ∧ record.1.ownerID = ownerID ∧ record.1.phase.active = true) ∧
      added.length ≤ (maxActive - activeCount held).toNat ∧
      (∀ r ∈ added, ∃ j ∈ jobs, pending held j = true ∧
        r = claimedRow ownerID (now + leaseDuration) now token j) ∧
      ((held.map (·.identity)).Nodup → ((held ++ added).map (·.identity)).Nodup) := by
  unfold claim
  split_ifs
  · exact .inl ⟨_, rfl⟩
  · exact .inl ⟨_, rfl⟩
  · exact .inl ⟨_, rfl⟩
  · exact .inl ⟨_, rfl⟩
  · right
    have hheld : (rows.map (renew ownerID (now + leaseDuration) now)).map
        (takeOver ownerID (now + leaseDuration) now (now - heartbeatTimeout)) =
        rows.map (claimChange ownerID (now + leaseDuration) now (now - heartbeatTimeout)) := List.map_map
    dsimp only
    rw [hheld]
    generalize rows.map (claimChange ownerID (now + leaseDuration) now (now - heartbeatTimeout)) = held
    obtain ⟨added, hrows, hlength, hadded, hnodup⟩ := claimPending_spec ownerID
      (maxActive - activeCount held).toNat (now + leaseDuration) now token jobs held
    rw [hrows]
    refine ⟨held, added, _, rfl, rfl, fun record hrecord => ?_, hlength, hadded, hnodup⟩
    obtain ⟨r, hr, rfl⟩ := List.mem_map.mp hrecord
    obtain ⟨hmem, howned⟩ := List.mem_filter.mp ((List.mem_insertionSort _).mp hr)
    simp only [Bool.and_eq_true, decide_eq_true_eq] at howned
    exact ⟨hmem, howned.1, howned.2⟩

end AstraSync.DispatchStore
