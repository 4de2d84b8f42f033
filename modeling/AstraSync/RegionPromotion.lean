import AstraSync.Library.ByteStrings
import AstraSync.Library.Slots
import AstraSync.Library.Transitions
import Mathlib.Data.List.GetD

namespace AstraSync.RegionPromotion

open ByteStrings

inductive PromotionState
  | pending
  | epochBumped
  | epochWritten
  | capabilityRevalidating
  | capabilityConfirmed
  | failoverComplete
  | promotionFailed
  deriving DecidableEq

def PromotionState.rank : PromotionState → ℕ
  | .pending => 0
  | .epochBumped => 1
  | .epochWritten => 2
  | .capabilityRevalidating => 3
  | .capabilityConfirmed => 4
  | .failoverComplete => 5
  | .promotionFailed => 6

inductive PromotionError
  | invalidRequest
  | notStandbyRegion
  | alreadyPromoting
  | epochConflict
  | capabilityFailed
  | revalidate
  | recover
  | database (operation : String)
  | transition (source target : PromotionState)
  | wrapped (context : String) (cause : PromotionError)
  deriving DecidableEq

structure Promotion where
  (jobID previousRegion targetRegion idempotencyKey : Bytes)
  (previousEpoch newEpoch : ℤ)
  state : PromotionState
  error : Option PromotionError
  deriving DecidableEq

def newPromotion (jobID previousRegion targetRegion idempotencyKey : Bytes) (previousEpoch : ℤ) : Promotion :=
  ⟨jobID, previousRegion, targetRegion, idempotencyKey, previousEpoch, previousEpoch + 1, .pending, none⟩

def transitionTo (p : Promotion) (state : PromotionState) (error : Option PromotionError) :
    Except PromotionError Promotion :=
  if p.state = .promotionFailed ∨ state.rank ≤ p.state.rank then .error (.transition p.state state)
  else .ok { p with state := state, error := error.or p.error }

def isComplete (p : Promotion) : Bool := p.state = .failoverComplete || p.state = .promotionFailed

structure Db where
  epochs : Bytes → Option ℤ
  promotions : Bytes → Option Promotion

def epochLimit : ℤ := 2 ^ 63

def getEpoch (db : Db) (jobID : Bytes) : ℤ := (db.epochs jobID).getD 0

def setEpoch (db : Db) (jobID : Bytes) (epoch : ℤ) : Db :=
  { db with epochs := Function.update db.epochs jobID (some epoch) }

def assign (db : Db) (jobID : Bytes) : Option (Db × ℤ) :=
  match db.epochs jobID with
  | none => some (setEpoch db jobID 1, 1)
  | some epoch => if epoch + 1 < epochLimit then some (setEpoch db jobID (epoch + 1), epoch + 1) else none

def updateEpoch (db : Db) (jobID : Bytes) (expectedEpoch newEpoch : ℤ) : Db × Bool :=
  if db.epochs jobID = some expectedEpoch then (setEpoch db jobID newEpoch, true) else (db, false)

def setPromotion (db : Db) (p : Promotion) : Db :=
  { db with promotions := Function.update db.promotions p.idempotencyKey (some p) }

def create (db : Db) (p : Promotion) : Option Db :=
  match db.promotions p.idempotencyKey with
  | some _ => none
  | none => some (setPromotion db p)

def update (db : Db) (p : Promotion) : Db :=
  match db.promotions p.idempotencyKey with
  | none => db
  | some row => setPromotion db { row with newEpoch := p.newEpoch, state := p.state, error := p.error }

def get (db : Db) (jobID idempotencyKey : Bytes) : Option Promotion :=
  (db.promotions idempotencyKey).filter fun p => p.jobID = jobID

structure Manager where
  currentRegion : Bytes
  isStandby : Option (Bytes → Bool)
  (fencer revalidator recovery : Bool)

inductive Result
  | completed
  | existing (p : Promotion)
  | refused (e : PromotionError)
  deriving DecidableEq

inductive Pc
  | entry
  | lookup
  | readEpoch
  | track
  | create
  | fence
  | assign
  | updateEpoch
  | confirmEpoch
  | revalidate
  | recover
  | recordFailure (e : PromotionError)
  | recordSuccess
  | done (r : Result)
  deriving DecidableEq

structure Call where
  manager : ℕ
  (jobID targetRegion idempotencyKey : Bytes)
  expectedVersion : ℤ
  promotion : Promotion
  pc : Pc

inductive Outcome
  | ok
  | failed
  | lost
  deriving DecidableEq

def refuse (c : Call) (e : PromotionError) : Call := { c with pc := .done (.refused e) }

def fail (c : Call) (cause e : PromotionError) : Call :=
  match transitionTo c.promotion .promotionFailed (some cause) with
  | .ok p => { c with promotion := p, pc := .recordFailure e }
  | .error _ => { c with pc := .recordFailure e }

def goOn (c : Call) (state : PromotionState) (context : String) (pc : Pc) : Call :=
  match transitionTo c.promotion state none with
  | .ok p => { c with promotion := p, pc := pc }
  | .error e => refuse c (.wrapped context e)

def validRequest (c : Call) : Bool :=
  c.jobID ≠ [] && c.targetRegion ≠ [] && 16 ≤ c.idempotencyKey.length && c.idempotencyKey.length ≤ 128 &&
    0 ≤ c.expectedVersion

def advance (m : Manager) (db : Db) (c : Call) (o : Outcome) : Db × Call :=
  match c.pc with
  | .lookup =>
    -- a failing lookup is treated like a missing record
    match o, get db c.jobID c.idempotencyKey with
    | .ok, some p => (db, { c with pc := .done (.existing p) })
    | _, _ => (db, { c with pc := .readEpoch })
  | .readEpoch =>
    if o ≠ .ok then (db, refuse c (.wrapped "get current epoch" (.database "get replication epoch")))
    else if getEpoch db c.jobID ≠ c.expectedVersion then (db, refuse c .epochConflict)
    else (db, { c with
      promotion := newPromotion c.jobID m.currentRegion c.targetRegion c.idempotencyKey (getEpoch db c.jobID)
      pc := .track })
  | .create =>
    match o, create db c.promotion with
    | .ok, some db => (db, goOn c .epochBumped "transition to epoch bumped" .fence)
    | .lost, some db => (db, refuse c (.wrapped "create promotion" (.database "create promotion")))
    | _, _ => (db, refuse c (.wrapped "create promotion" (.database "create promotion")))
  | .fence =>
    if !m.fencer then (db, { c with pc := .assign })
    else if o ≠ .ok then
      (db, fail c (.database "get replication epoch")
        (.wrapped "fence previous epoch" (.database "get replication epoch")))
    else if getEpoch db c.jobID ≠ c.promotion.previousEpoch then
      (db, fail c .epochConflict (.wrapped "fence previous epoch" .epochConflict))
    else (db, { c with pc := .assign })
  | .assign =>
    let failure := fail c (.database "assign replication epoch")
      (.wrapped "assign epoch" (.database "assign replication epoch"))
    match o, assign db c.jobID with
    | .ok, some (db, epoch) =>
      (db, goOn { c with promotion := { c.promotion with newEpoch := epoch } } .epochWritten
        "transition to epoch written" .updateEpoch)
    | .lost, some (db, _) => (db, failure)
    | _, _ => (db, failure)
  | .updateEpoch =>
    let failure := fail c (.database "update replication epoch")
      (.wrapped "update job epoch" (.database "update replication epoch"))
    let (written, changed) := updateEpoch db c.jobID c.promotion.previousEpoch c.promotion.newEpoch
    match o with
    | .ok =>
      (written, if changed then
        goOn c .capabilityRevalidating "transition to capability revalidating" .revalidate
      else { c with pc := .confirmEpoch })
    | .lost => (written, failure)
    | .failed => (db, failure)
  | .confirmEpoch =>
    if o ≠ .ok then
      (db, fail c (.database "read replication epoch after update conflict")
        (.wrapped "update job epoch" (.database "read replication epoch after update conflict")))
    else if db.epochs c.jobID = some c.promotion.newEpoch then
      (db, goOn c .capabilityRevalidating "transition to capability revalidating" .revalidate)
    else (db, fail c .epochConflict (.wrapped "update job epoch" .epochConflict))
  | .revalidate =>
    if !m.revalidator then (db, fail c .capabilityFailed .capabilityFailed)
    else if o ≠ .ok then (db, fail c .revalidate (.wrapped "revalidate capability" .revalidate))
    else (db, goOn c .capabilityConfirmed "transition to capability confirmed" .recover)
  | .recover =>
    if m.recovery && o ≠ .ok then (db, fail c .recover (.wrapped "recover promoted job" .recover))
    else (db, goOn c .failoverComplete "transition to failover complete" .recordSuccess)
  | .recordFailure e => (if o = .failed then db else update db c.promotion, refuse c e)
  | .recordSuccess => (if o = .failed then db else update db c.promotion, { c with pc := .done .completed })
  | .entry | .track | .done _ => (db, c)

structure World where
  db : Db
  tracked : ℕ → Bytes → Option ℕ
  calls : List Call

inductive Event
  | promote (manager : ℕ) (jobID targetRegion idempotencyKey : Bytes) (expectedVersion : ℤ)
  | advance (i : ℕ) (o : Outcome)

def promoting (w : World) (manager : ℕ) (jobID : Bytes) : Bool :=
  match (w.tracked manager jobID).bind (w.calls[·]?) with
  | some c => !isComplete c.promotion
  | none => false

def enter (m : Manager) (w : World) (c : Call) : Call :=
  if !validRequest c then refuse c .invalidRequest
  else if (m.isStandby.map (· c.targetRegion)) = some false then refuse c .notStandbyRegion
  else if promoting w c.manager c.jobID then refuse c .alreadyPromoting
  else { c with pc := .lookup }

def setTracked (w : World) (manager : ℕ) (jobID : Bytes) (i : ℕ) : World :=
  { w with tracked := Function.update w.tracked manager (Function.update (w.tracked manager) jobID (some i)) }

def step (managers : ℕ → Manager) (w : World) : Event → Option World
  | .promote manager jobID targetRegion idempotencyKey expectedVersion =>
    let promotion := newPromotion jobID [] targetRegion idempotencyKey 0
    some { w with calls := w.calls ++
      [⟨manager, jobID, targetRegion, idempotencyKey, expectedVersion, promotion, .entry⟩] }
  | .advance i o =>
    match w.calls[i]? with
    | none => none
    | some c =>
      match c.pc with
      | .done _ => none
      | .entry => some { w with calls := w.calls.set i (enter (managers c.manager) w c) }
      | .track =>
        some { setTracked w c.manager c.jobID i with calls := w.calls.set i { c with pc := .create } }
      | _ =>
        let (db, c) := advance (managers c.manager) w.db c o
        some { w with db := db, calls := w.calls.set i c }

def AtMostOneCompletes (w : World) : Prop :=
  ∀ (i k : ℕ) (c d : Call), w.calls[i]? = some c → w.calls[k]? = some d → c.pc = .done .completed →
    d.pc = .done .completed → c.jobID = d.jobID → c.expectedVersion = d.expectedVersion → i = k

def assignsCurrent (w : World) : Event → Bool
  | .advance i o =>
    match w.calls[i]? with
    | some c => c.pc != .assign || o == .failed || getEpoch w.db c.jobID == c.expectedVersion
    | none => true
  | _ => true

def versioned : Pc → Bool
  | .entry | .lookup | .readEpoch | .recordFailure _ | .done (.existing _) | .done (.refused _) => false
  | _ => true

def assigned : Pc → Bool
  | .updateEpoch | .confirmEpoch | .revalidate | .recover | .recordSuccess | .done .completed => true
  | _ => false

structure CallInv (db : Db) (c : Call) : Prop where
  previous : versioned c.pc = true → c.promotion.previousEpoch = c.expectedVersion
  next : assigned c.pc = true →
    c.promotion.newEpoch = c.expectedVersion + 1 ∧ c.expectedVersion + 1 ≤ getEpoch db c.jobID

structure SameRequest (c c' : Call) : Prop where
  jobID : c'.jobID = c.jobID
  expectedVersion : c'.expectedVersion = c.expectedVersion

structure Advanced (db : Db) (c : Call) (db' : Db) (c' : Call) : Prop extends SameRequest c c' where
  grows : ∀ j, getEpoch db j ≤ getEpoch db' j
  inv : CallInv db' c'
  origin : assigned c'.pc = true → assigned c.pc = true ∨ getEpoch db c.jobID = c.expectedVersion

variable {state : PromotionState}

theorem transitionTo_epochs {p q : Promotion} {error : Option PromotionError} (h : transitionTo p state error = .ok q) :
    q.previousEpoch = p.previousEpoch ∧ q.newEpoch = p.newEpoch := by
  unfold transitionTo at h
  split_ifs at h
  cases h
  exact ⟨rfl, rfl⟩

variable {db' : Db} {m : Manager} {c' : Call} {db : Db} {c : Call}

theorem refused_advanced (e : PromotionError)
    (hgrows : ∀ j, getEpoch db j ≤ getEpoch db' j) : Advanced db c db' (refuse c e) :=
  ⟨⟨rfl, rfl⟩, hgrows, ⟨by simp [refuse, versioned], by simp [refuse, assigned]⟩, by simp [refuse, assigned]⟩

theorem failed_advanced (cause e : PromotionError)
    (hgrows : ∀ j, getEpoch db j ≤ getEpoch db' j) : Advanced db c db' (fail c cause e) := by
  unfold fail
  cases transitionTo c.promotion .promotionFailed (some cause) with
  | ok | error => exact ⟨⟨rfl, rfl⟩, hgrows, ⟨by simp [versioned], by simp [assigned]⟩, by simp [assigned]⟩

theorem goOn_advanced {context : String} {pc : Pc} (hgrows : ∀ j, getEpoch db j ≤ getEpoch db' j)
    (hprev : c.promotion.previousEpoch = c.expectedVersion)
    (hnext : assigned pc = true →
      c.promotion.newEpoch = c.expectedVersion + 1 ∧ c.expectedVersion + 1 ≤ getEpoch db' c.jobID)
    (horigin : assigned pc = true → assigned c.pc = true ∨ getEpoch db c.jobID = c.expectedVersion) :
    Advanced db c db' (goOn c state context pc) := by
  unfold goOn
  cases ht : transitionTo c.promotion state none with
  | ok =>
    obtain ⟨hp, hn⟩ := transitionTo_epochs ht
    exact ⟨⟨rfl, rfl⟩, hgrows, ⟨fun _ => hp.trans hprev, fun ha => hn.symm ▸ hnext ha⟩, horigin⟩
  | error => exact refused_advanced _ hgrows

theorem goOn_advanced_of_assigned (state : PromotionState) (context : String) (pc : Pc)
    (h : CallInv db c) (hprev : c.promotion.previousEpoch = c.expectedVersion)
    (hassigned : assigned c.pc = true) : Advanced db c db (goOn c state context pc) :=
  goOn_advanced (fun _ => le_refl _) hprev (fun _ => h.next hassigned) (fun _ => .inl hassigned)

theorem moved_advanced {pc : Pc} (hprev : versioned pc = true → c.promotion.previousEpoch = c.expectedVersion)
    (hassigned : assigned pc = true → assigned c.pc = true) (h : CallInv db c) :
    Advanced db c db { c with pc := pc } :=
  ⟨⟨rfl, rfl⟩, fun _ => le_refl _, ⟨hprev, fun ha => h.next (hassigned ha)⟩, fun ha => .inl (hassigned ha)⟩

theorem getEpoch_setEpoch (db : Db) (jobID : Bytes) (epoch : ℤ) (j : Bytes) :
    getEpoch (setEpoch db jobID epoch) j = if j = jobID then epoch else getEpoch db j := by
  by_cases hj : j = jobID <;> simp [getEpoch, setEpoch, hj]

variable {jobID : Bytes}

theorem assign_some {epoch : ℤ} (h : assign db jobID = some (db', epoch)) :
    epoch = getEpoch db jobID + 1 ∧ db' = setEpoch db jobID epoch := by
  unfold assign at h
  cases hrow : db.epochs jobID with
  | none =>
    simp only [hrow, Option.some.injEq, Prod.mk.injEq] at h
    obtain ⟨rfl, rfl⟩ := h
    simp [getEpoch, hrow]
  | some =>
    simp only [hrow, Option.ite_none_right_eq_some, Option.some.injEq, Prod.mk.injEq] at h
    obtain ⟨-, rfl, rfl⟩ := h
    simp [getEpoch, hrow]

theorem assign_grows {epoch : ℤ} (h : assign db jobID = some (db', epoch)) (j : Bytes) :
    getEpoch db j ≤ getEpoch db' j := by
  obtain ⟨hepoch, rfl⟩ := assign_some h
  rw [getEpoch_setEpoch]
  split_ifs with hj
  · subst hj; omega
  · exact le_refl _

theorem create_epochs {p : Promotion} (h : create db p = some db') : db'.epochs = db.epochs := by
  unfold create at h
  split at h
  · cases h
  · cases h; rfl

theorem update_epochs (db : Db) (p : Promotion) : (update db p).epochs = db.epochs := by
  unfold update
  split <;> rfl

theorem updateEpoch_grows {expectedEpoch newEpoch : ℤ} (h : expectedEpoch ≤ newEpoch)
    (j : Bytes) : getEpoch db j ≤ getEpoch (updateEpoch db jobID expectedEpoch newEpoch).1 j := by
  unfold updateEpoch
  split_ifs with hrow
  · rw [getEpoch_setEpoch]
    split_ifs with hj
    · subst hj; simpa [getEpoch, hrow] using h
    · exact le_refl _
  · exact le_refl _

variable {o : Outcome}

section

variable (h : CallInv db c)

include h

theorem create_advanced (hpc : c.pc = .create) : Advanced db c (advance m db c o).1 (advance m db c o).2 := by
  have hprev := h.previous (by rw [hpc]; rfl)
  have hgrows {db' : Db} (hc : create db c.promotion = some db') (j : Bytes) : getEpoch db j ≤ getEpoch db' j := by
    simp [getEpoch, create_epochs hc]
  simp only [advance, hpc]
  split
  · next db' hc => exact goOn_advanced (hgrows hc) hprev (by simp [assigned]) (by simp [assigned])
  · next db' hc => exact refused_advanced _ (hgrows hc)
  · exact refused_advanced _ fun _ => le_refl _

theorem assign_advanced (hpc : c.pc = .assign) (hcur : o ≠ .failed → getEpoch db c.jobID = c.expectedVersion) :
    Advanced db c (advance m db c o).1 (advance m db c o).2 := by
  have hprev := h.previous (by rw [hpc]; rfl)
  simp only [advance, hpc]
  split
  · next db' epoch ha =>
    have hepoch := hcur (by simp)
    obtain ⟨hnew, rfl⟩ := assign_some ha
    rw [hepoch] at hnew
    subst hnew
    let written : Call := { c with promotion := { c.promotion with newEpoch := c.expectedVersion + 1 } }
    have hgo : Advanced db written (setEpoch db c.jobID (c.expectedVersion + 1))
        (goOn written .epochWritten "transition to epoch written" .updateEpoch) :=
      goOn_advanced (assign_grows ha) hprev (fun _ => ⟨rfl, by simp [getEpoch_setEpoch, written]⟩)
        (fun _ => .inr hepoch)
    exact ⟨⟨hgo.jobID, hgo.expectedVersion⟩, hgo.grows, hgo.inv, hgo.origin⟩
  · next db' epoch ha => exact failed_advanced _ _ (assign_grows ha)
  · exact failed_advanced _ _ fun _ => le_refl _

theorem updateEpoch_advanced (hpc : c.pc = .updateEpoch) : Advanced db c (advance m db c o).1 (advance m db c o).2 := by
  have hprev := h.previous (by rw [hpc]; rfl)
  have hassigned : assigned c.pc = true := by rw [hpc]; rfl
  have hnext := h.next hassigned
  have hgrows := @updateEpoch_grows db c.jobID c.promotion.previousEpoch c.promotion.newEpoch
    (by rw [hprev, hnext.1]; omega)
  simp only [advance, hpc]
  cases o with
  | failed => exact failed_advanced _ _ fun _ => le_refl _
  | lost => exact failed_advanced _ _ hgrows
  | ok =>
    dsimp only
    have hle := hnext.2.trans (hgrows c.jobID)
    split_ifs
    · exact goOn_advanced hgrows hprev (fun _ => ⟨hnext.1, hle⟩) (fun _ => .inl hassigned)
    · exact ⟨⟨rfl, rfl⟩, hgrows, ⟨fun _ => hprev, fun _ => ⟨hnext.1, hle⟩⟩, fun _ => .inl hassigned⟩

theorem recordSuccess_advanced
    (hpc : c.pc = .recordSuccess) : Advanced db c (advance m db c o).1 (advance m db c o).2 := by
  have hprev := h.previous (by rw [hpc]; rfl)
  have hassigned : assigned c.pc = true := by rw [hpc]; rfl
  have hnext := h.next hassigned
  have hupd : ∀ j, getEpoch db j = getEpoch (update db c.promotion) j :=
    fun j => by simp [getEpoch, update_epochs]
  simp only [advance, hpc]
  split_ifs
  · exact moved_advanced (fun _ => hprev) (fun _ => hassigned) h
  · exact ⟨⟨rfl, rfl⟩, fun j => (hupd j).le, ⟨fun _ => hprev, fun _ => ⟨hnext.1, hupd _ ▸ hnext.2⟩⟩,
      fun _ => .inl hassigned⟩

theorem advance_advanced (hcur : c.pc = .assign → o ≠ .failed → getEpoch db c.jobID = c.expectedVersion) :
    Advanced db c (advance m db c o).1 (advance m db c o).2 := by
  have hsame : ∀ j, getEpoch db j ≤ getEpoch db j := fun _ => le_refl _
  cases hpc : c.pc with
  | entry | track | done =>
    simp only [advance, hpc]
    exact ⟨⟨rfl, rfl⟩, hsame, h, .inl⟩
  | lookup =>
    simp only [advance, hpc]
    split
    · exact moved_advanced (by simp [versioned]) (by simp [assigned]) h
    · exact moved_advanced (by simp [versioned]) (by simp [assigned]) h
  | readEpoch =>
    simp only [advance, hpc]
    split_ifs with ho hepoch
    · exact refused_advanced _ hsame
    · exact refused_advanced _ hsame
    · rw [not_not] at hepoch
      exact ⟨⟨rfl, rfl⟩, hsame, ⟨fun _ => hepoch, by simp [assigned]⟩, by simp [assigned]⟩
  | create => exact create_advanced h hpc
  | fence =>
    have hprev := h.previous (by rw [hpc]; rfl)
    simp only [advance, hpc]
    split_ifs
    · exact moved_advanced (fun _ => hprev) (by simp [assigned]) h
    · exact failed_advanced _ _ hsame
    · exact failed_advanced _ _ hsame
    · exact moved_advanced (fun _ => hprev) (by simp [assigned]) h
  | assign => exact assign_advanced h hpc (hcur hpc)
  | updateEpoch => exact updateEpoch_advanced h hpc
  | confirmEpoch | revalidate | recover =>
    have hprev := h.previous (by rw [hpc]; rfl)
    simp only [advance, hpc]
    split_ifs <;> first
      | exact failed_advanced _ _ hsame
      | exact goOn_advanced_of_assigned _ _ _ h hprev (by rw [hpc]; rfl)
  | recordFailure =>
    simp only [advance, hpc]
    split_ifs
    · exact refused_advanced _ hsame
    · exact refused_advanced _ (fun j => by simp [getEpoch, update_epochs])
  | recordSuccess => exact recordSuccess_advanced h hpc

end

structure Inv (w : World) : Prop where
  calls : ∀ (i : ℕ) (c : Call), w.calls[i]? = some c → CallInv w.db c
  unique : ∀ (i k : ℕ) (c d : Call), w.calls[i]? = some c → w.calls[k]? = some d → assigned c.pc = true →
    assigned d.pc = true → c.jobID = d.jobID → c.expectedVersion = d.expectedVersion → i = k

theorem callInv_mono (hgrows : ∀ j, getEpoch db j ≤ getEpoch db' j) (h : CallInv db c) : CallInv db' c :=
  ⟨h.previous, fun ha => ⟨(h.next ha).1, (h.next ha).2.trans (hgrows c.jobID)⟩⟩

variable {w : World}

theorem advanced_ne {i k : ℕ} {c d : Call} (h : Inv w) (hc : w.calls[i]? = some c)
    (hadv : Advanced w.db c db' c') (hd : w.calls[k]? = some d) (hac : assigned c'.pc = true)
    (had : assigned d.pc = true) (hjob : c'.jobID = d.jobID)
    (hversion : c'.expectedVersion = d.expectedVersion) : i = k := by
  rw [hadv.jobID] at hjob
  rw [hadv.expectedVersion] at hversion
  rcases hadv.origin hac with hold | hcurrent
  · exact h.unique i k c d hc hd hold had hjob hversion
  · have hhigher := ((h.calls k d hd).next had).2
    rw [← hjob, hcurrent, hversion] at hhigher
    omega

theorem inv_set {i : ℕ} (tracked : ℕ → Bytes → Option ℕ) (h : Inv w)
    (hc : w.calls[i]? = some c) (hadv : Advanced w.db c db' c') : Inv ⟨db', tracked, w.calls.set i c'⟩ := by
  constructor
  · intro k d hd
    rcases (Slots.getElem?_set hc).mp hd with ⟨-, rfl⟩ | ⟨-, hd⟩
    · exact hadv.inv
    · exact callInv_mono hadv.grows (h.calls k d hd)
  · intro j k d e hd he hassigned hassigned' hjob hversion
    rcases (Slots.getElem?_set hc).mp hd with ⟨rfl, rfl⟩ | ⟨-, hd'⟩ <;>
      rcases (Slots.getElem?_set hc).mp he with ⟨rfl, rfl⟩ | ⟨-, he'⟩
    · rfl
    · exact advanced_ne h hc hadv he' hassigned hassigned' hjob hversion
    · exact (advanced_ne h hc hadv hd' hassigned' hassigned hjob.symm hversion.symm).symm
    · exact h.unique j k d e hd' he' hassigned hassigned' hjob hversion

theorem enter_advanced (h : CallInv w.db c) : Advanced w.db c w.db (enter m w c) := by
  unfold enter
  split_ifs
  · exact refused_advanced _ (fun _ => le_refl _)
  · exact refused_advanced _ (fun _ => le_refl _)
  · exact refused_advanced _ (fun _ => le_refl _)
  · exact moved_advanced (by simp [versioned]) (by simp [assigned]) h

theorem inv_promote (hpc : c.pc = .entry) (h : Inv w) : Inv { w with calls := w.calls ++ [c] } := by
  have hget : ∀ (k : ℕ) (d : Call), (w.calls ++ [c])[k]? = some d → w.calls[k]? = some d ∨ d.pc = .entry := by
    grind
  constructor
  · intro k d hd
    rcases hget k d hd with hd | hd
    · exact h.calls k d hd
    · exact ⟨by simp [hd, versioned], by simp [hd, assigned]⟩
  · intro j k d e hd he had hae
    rcases hget j d hd with hd | hd
    · rcases hget k e he with he | he
      · exact h.unique j k d e hd he had hae
      · simp [he, assigned] at hae
    · simp [hd, assigned] at had

theorem step_inv {managers : ℕ → Manager} {w w' : World} {e : Event} (h : Inv w)
    (hok : assignsCurrent w e = true) (hs : step managers w e = some w') : Inv w' := by
  cases e with
  | promote =>
    cases hs
    exact inv_promote rfl h
  | advance i o =>
    cases hc : w.calls[i]? with
    | none => simp [step, hc] at hs
    | some c =>
      have hci := h.calls i c hc
      have hcur : c.pc = .assign → o ≠ .failed → getEpoch w.db c.jobID = c.expectedVersion := by
        intro hpc ho
        simpa [assignsCurrent, hc, hpc, ho] using hok
      have hadv := @advance_advanced (managers c.manager) w.db c o hci hcur
      cases hpc : c.pc with
      | done => simp [step, hc, hpc] at hs
      | entry =>
        simp only [step, hc, hpc] at hs
        cases hs
        exact inv_set _ h hc (enter_advanced hci)
      | track =>
        simp only [step, hc, hpc] at hs
        cases hs
        exact inv_set _ h hc (moved_advanced (fun _ => hci.previous (by rw [hpc]; rfl)) (by simp [assigned]) hci)
      | _ =>
        simp only [step, hc, hpc] at hs
        cases hs
        exact inv_set _ h hc hadv

def initial (db : Db) : World := ⟨db, fun _ _ => none, []⟩

theorem run_atMostOneCompletes {managers : ℕ → Manager} {db : Db} {events : List Event} {w : World}
    (hok : Transitions.meets (step managers) assignsCurrent (initial db) events = true)
    (hrun : Transitions.run (step managers) (initial db) events = some w) : AtMostOneCompletes w := by
  have hinit : Inv (initial db) := ⟨by simp [initial], by simp [initial]⟩
  have h := Transitions.run_invariant (fun _ _ _ h hok hs => step_inv h hok hs) hinit hok hrun
  intro i k c d hc hd hcd hdd
  exact h.unique i k c d hc hd (by rw [hcd]; rfl) (by rw [hdd]; rfl)

def standby : Manager := ⟨lit "us-east", none, true, true, true⟩

def emptyDb : Db := ⟨fun _ => none, fun _ => none⟩

def promoteOrders (manager : ℕ) (key : String) : Event := .promote manager (lit "orders") (lit "eu-west") (lit key) 0

def racing : List Event :=
  [promoteOrders 0 "promotion-0000001", promoteOrders 1 "promotion-0000002"] ++
    List.replicate 6 (.advance 0 .ok) ++ List.replicate 6 (.advance 1 .ok) ++
    List.replicate 6 (.advance 0 .ok) ++ List.replicate 6 (.advance 1 .ok)

def outcomes (w : World) : List (Pc × Bytes × ℤ) := w.calls.map fun c => (c.pc, c.jobID, c.expectedVersion)

theorem not_atMostOneCompletes {version : ℤ}
    (h : outcomes w = [(.done .completed, jobID, version), (.done .completed, jobID, version)]) :
    ¬ AtMostOneCompletes w := by
  intro hone
  obtain ⟨c, rest, hcalls, hc, hrest⟩ := List.map_eq_cons_iff.mp h
  obtain ⟨d, rest, rfl, hd, -⟩ := List.map_eq_cons_iff.mp hrest
  simp only [Prod.mk.injEq] at hc hd
  have hsame := hone 0 1 c d (by simp [hcalls]) (by simp [hcalls]) hc.1 hd.1 (hc.2.1.trans hd.2.1.symm)
    (hc.2.2.trans hd.2.2.symm)
  omega

theorem racing_both_complete :
    ∃ w, Transitions.run (step fun _ => standby) (initial emptyDb) racing = some w ∧ ¬ AtMostOneCompletes w := by
  have hboth : (Transitions.run (step fun _ => standby) (initial emptyDb) racing).map outcomes =
      some [(.done .completed, lit "orders", 0), (.done .completed, lit "orders", 0)] := by decide +kernel
  obtain ⟨w, hrun, hw⟩ := Option.map_eq_some_iff.mp hboth
  exact ⟨w, hrun, not_atMostOneCompletes hw⟩

def inTurn : List Event :=
  [promoteOrders 0 "promotion-0000001", promoteOrders 1 "promotion-0000002", .advance 1 .ok, .advance 1 .ok] ++
    List.replicate 12 (.advance 0 .ok) ++ [.advance 1 .ok]

theorem inTurn_atMostOneCompletes : ∃ w, Transitions.run (step fun _ => standby) (initial emptyDb) inTurn = some w ∧
      (∃ c : Call, w.calls[0]? = some c ∧ c.pc = .done .completed) ∧ AtMostOneCompletes w :=
  ⟨_, rfl, ⟨_, rfl, rfl⟩, @run_atMostOneCompletes (fun _ => standby) emptyDb inTurn _ (by decide) rfl⟩

end AstraSync.RegionPromotion
