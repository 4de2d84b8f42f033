import AstraSync.JobValidation
import AstraSync.Library.SignedNumerals
import AstraSync.Library.Transitions

namespace AstraSync.JobRepository

open ByteStrings SignedNumerals JobLifecycle Transitions

variable {S : Type}

abbrev Jobs (S : Type) := Key → Option (Job S)

inductive RepositoryError
  | invalid (message : String)
  | notFound
  | conflict
  | staleEpoch (current supplied : Int64)
  deriving DecidableEq

def get (jobs : Jobs S) (key : Key) : Except RepositoryError (Job S) :=
  match key.validate with
  | some message => .error (.invalid message)
  | none =>
    match jobs key with
    | some stored => .ok stored
    | none => .error .notFound

def validateEpochMonotonicity (current candidate : Job S) : Option RepositoryError :=
  if candidate.status.epoch < current.status.epoch then
    some (.staleEpoch current.status.epoch candidate.status.epoch)
  else none

def update (c : Context S) (jobs : Jobs S) (candidate : Job S) (expectedVersion : Int64) :
    Except RepositoryError (Jobs S × Job S) :=
  match candidate.validate c with
  | some message => .error (.invalid message)
  | none =>
    match jobs candidate.key with
    | none => .error .notFound
    | some current =>
      if current.version ≠ expectedVersion then .error .conflict
      else if current.uid ≠ candidate.uid ∨ current.createdAt ≠ candidate.createdAt then .error .conflict
      else match validateEpochMonotonicity current candidate with
        | some e => .error e
        | none =>
          let stored := { candidate with version := current.version + 1 }
          .ok (Function.update jobs candidate.key (some stored), stored)

structure State (S : Type) where
  jobs : Jobs S
  reads : ℕ → Option (Job S)

inductive Event (S : Type)
  | read (client : ℕ) (key : Key)
  | write (client : ℕ) (r : Request S) (now : Time)

def read (s : State S) (client : ℕ) (key : Key) : State S :=
  match get s.jobs key with
  | .ok stored => { s with reads := Function.update s.reads client (some stored) }
  | .error _ => s

def writeBack (c : Context S) (jobs : Jobs S) (j : Job S) (r : Request S) (now : Time) : Option (Jobs S × Job S) :=
  match request c.validate j r now with
  | .ok (next, _) => (update c jobs next j.version).toOption
  | .error _ => none

def write (c : Context S) (s : State S) (client : ℕ) (r : Request S) (now : Time) : State S :=
  match (s.reads client).bind fun j => writeBack c s.jobs j r now with
  | some (jobs, _) => { s with jobs }
  | none => s

def step (c : Context S) (s : State S) : Event S → Option (State S)
  | .read client key => some (read s client key)
  | .write client r now => some (write c s client r now)

/-- A stop that is accepted, with the job it was accepted for: where there is nothing to change it is not
written back, otherwise its write goes through. -/
def acceptStop (c : Context S) (s : State S) (client : ℕ) (now : Time) : Option (Job S × State S) :=
  (s.reads client).bind fun j =>
    match requestStop j now with
    | .ok (_, false) => some (j, s)
    | .ok (_, true) => (writeBack c s.jobs j .stop now).map fun written => (j, { s with jobs := written.1 })
    | .error _ => none

/-- From one stored version to the next the epoch grows by one where an inactive job becomes
INITIALIZING, and stays otherwise. -/
def EpochStep (j j' : Job S) : Prop :=
  if active j.status.state = false ∧ j'.status.state = .initializing then
    j'.status.epoch.toInt = j.status.epoch.toInt + 1
  else j'.status.epoch = j.status.epoch

structure History (j j' : Job S) : Prop where
  epoch : j.status.epoch ≤ j'.status.epoch
  ended : j'.status.epoch = j.status.epoch → terminal j.status.state = true → j'.status.state = j.status.state
  spec : j'.status.epoch = j.status.epoch → active j'.status.state = true →
    active j.status.state = true ∧ j'.spec = j.spec
  halted : j'.status.epoch = j.status.epoch → runs j'.status.state = true → runs j.status.state = true

theorem History.refl (j : Job S) : History j j :=
  ⟨Int64.le_refl _, fun _ _ => rfl, fun _ h => ⟨h, rfl⟩, fun _ h => h⟩

theorem History.trans {a b d : Job S} (hab : History a b) (hbd : History b d) : History a d := by
  -- versions of one epoch have only versions of that epoch between them
  have hbetween : d.status.epoch = a.status.epoch → d.status.epoch = b.status.epoch ∧
      b.status.epoch = a.status.epoch := by
    grind [History, Int64.le_antisymm]
  constructor
  · exact Int64.le_trans hab.epoch hbd.epoch
  · grind [History]
  · grind [History]
  · grind [History]

def goesOn (state next : JobLifecycle.State) : Bool :=
  allowedTransition state next || (runs state && next = .canceling)

variable {state : JobLifecycle.State} {j j' next stored r : Job S} {now : Time} {changed : Bool} {epoch : Int64}
  {failure : Option Failure} {validate : S → Option String} {c : Context S} {jobs : Jobs S} {key : Key} {s t : State S}
  {client : ℕ}

theorem goesOn_active {next : JobLifecycle.State} (h : goesOn state next = true) :
    active state = true ∧ terminal state = false ∧ (runs next = true → runs state = true) := by
  revert h
  cases state <;> cases next <;> decide

/-- What a request does to a job with a sound status: a start, a change of the spec or none at all, or a
move on within the epoch. -/
inductive Move (j j' : Job S) : Prop
  | start (inactive : active j.status.state = false) (state : j'.status.state = .initializing)
      (epoch : j'.status.epoch = j.status.epoch + 1)
  | stay (state : j'.status.state = j.status.state) (epoch : j'.status.epoch = j.status.epoch)
      (spec : active j.status.state = true → j'.spec = j.spec)
  | goOn (state : goesOn j.status.state j'.status.state = true) (epoch : j'.status.epoch = j.status.epoch)
      (spec : j'.spec = j.spec)

theorem Move.spec_of_active (h : Move j j') (hactive : active j.status.state = true) : j'.spec = j.spec := by
  cases h with
  | start inactive state epoch =>
    rw [hactive] at inactive
    cases inactive
  | stay state epoch spec => exact spec hactive
  | goOn state epoch spec => exact spec

theorem Move.after {j'' : Job S} (h : Move j j') (hstatus : j'.status = j.status) (h' : Move j' j'') : Move j j'' := by
  cases h' with
  | start inactive state epoch => exact .start (hstatus ▸ inactive) state (hstatus ▸ epoch)
  | stay state epoch spec =>
    refine .stay (hstatus ▸ state) (hstatus ▸ epoch) fun hactive => ?_
    exact (spec (hstatus ▸ hactive)).trans (h.spec_of_active hactive)
  | goOn state epoch spec =>
    rw [hstatus] at state epoch
    exact .goOn state epoch (spec.trans (h.spec_of_active (goesOn_active state).1))

structure SameRow (j j' : Job S) : Prop where
  key : j'.key = j.key
  uid : j'.uid = j.uid
  version : j'.version = j.version
  createdAt : j'.createdAt = j.createdAt

theorem SameRow.trans {j'' : Job S} (h : SameRow j j') (h' : SameRow j' j'') : SameRow j j'' :=
  ⟨h'.key.trans h.key, h'.uid.trans h.uid, h'.version.trans h.version, h'.createdAt.trans h.createdAt⟩

theorem requestStart_inactive (hsound : j.status.Sound)
    (h : requestStart j now = .ok (next, true)) : active j.status.state = false := by
  cases hs : j.status.state
  case created | canceled | finished | failed => rfl
  case canceling => simp [requestStart, hs] at h
  all_goals
    have hrunning := hsound.desired.mp (by rw [hs]; rfl)
    simp [requestStart, hs, hrunning] at h

theorem requestStart_move (hsound : j.status.Sound)
    (h : requestStart j now = .ok (next, changed)) : SameRow j next ∧ Move j next := by
  rcases requestStart_ok h with ⟨rfl, -⟩ | ⟨rfl, rfl⟩
  · exact ⟨⟨rfl, rfl, rfl, rfl⟩, .stay rfl rfl fun _ => rfl⟩
  · exact ⟨⟨rfl, rfl, rfl, rfl⟩, .start (requestStart_inactive hsound h) rfl rfl⟩

theorem requestStop_move (h : requestStop j now = .ok (next, changed)) : SameRow j next ∧ Move j next := by
  unfold requestStop at h
  split_ifs at h with hstopped
  · cases h
    exact ⟨⟨rfl, rfl, rfl, rfl⟩, .stay rfl rfl fun _ => rfl⟩
  · cases hs : j.status.state <;> simp only [hs] at h
    case initializing | running =>
      cases h
      exact ⟨⟨rfl, rfl, rfl, rfl⟩, .goOn (by rw [hs]; rfl) rfl rfl⟩
    case canceled | finished | failed =>
      cases h
      exact ⟨⟨rfl, rfl, rfl, rfl⟩, .stay hs.symm rfl fun _ => rfl⟩
    all_goals cases h

theorem advance_move (h : advance j epoch state failure now = .ok (next, changed)) : SameRow j next ∧ Move j next := by
  rcases advance_cases h with ⟨-, rfl, -⟩ | ⟨hallowed, -, _, _, rfl⟩
  · exact ⟨⟨rfl, rfl, rfl, rfl⟩, .stay rfl rfl fun _ => rfl⟩
  · exact ⟨⟨rfl, rfl, rfl, rfl⟩, .goOn (by simp_all [goesOn]) rfl rfl⟩

theorem advance_unchanged (h : advance j epoch state failure now = .ok (next, false)) : state = j.status.state := by
  rcases advance_cases h with ⟨hstate, -, -⟩ | ⟨-, hchanged, -⟩
  · exact hstate
  · cases hchanged

theorem advance_state (h : advance j epoch state failure now = .ok (next, changed)) : next.status.state = state := by
  rcases advance_cases h with ⟨hstate, rfl, -⟩ | ⟨-, -, _, _, rfl⟩
  · exact hstate.symm
  · rfl

theorem replaceSpec_move {spec : S}
    (h : replaceSpec validate j spec now = .ok next) : SameRow j next ∧ Move j next := by
  unfold replaceSpec at h
  split at h
  · cases h
  · split_ifs at h with hactive
    cases h
    exact ⟨⟨rfl, rfl, rfl, rfl⟩, .stay rfl rfl fun hj => absurd hj hactive⟩

theorem replaceSpec_status {spec : S}
    (h : replaceSpec validate j spec now = .ok next) : next.status = j.status ∧ next.spec = spec := by
  unfold replaceSpec at h
  split at h
  · cases h
  · grind

theorem request_move {r : Request S} (hsound : j.status.Sound) (h : request validate j r now = .ok (next, changed)) :
    SameRow j next ∧ Move j next := by
  cases r with
  | start => exact requestStart_move hsound h
  | stop => exact requestStop_move h
  | advance => exact advance_move h
  | replaceSpec =>
    simp only [request] at h
    split at h
    · cases h
      exact replaceSpec_move (by assumption)
    · cases h

section

variable {j j' : Job S} (hmove : Move j j') (hsound : j'.status.Sound)

include hmove hsound

theorem Move.epochStep : EpochStep j j' := by
  unfold EpochStep
  cases hmove with
  | start inactive state epoch =>
    have hne : j'.status.epoch ≠ 0 := fun h => by
      have hcreated := hsound.created.mpr h
      rw [state] at hcreated
      cases hcreated
    have hpos : 0 < j.status.epoch + 1 := epoch ▸ Int64.lt_of_le_of_ne hsound.epoch hne.symm
    rw [if_pos ⟨inactive, state⟩, epoch]
    exact toInt_succ hpos
  | stay state epoch spec =>
    rw [if_neg, epoch]
    rintro ⟨hinactive, hinit⟩
    rw [← state, hinit] at hinactive
    cases hinactive
  | goOn state epoch spec =>
    rw [if_neg, epoch]
    rintro ⟨hinactive, -⟩
    rw [(goesOn_active state).1] at hinactive
    cases hinactive

theorem Move.history : History j j' := by
  have hstep := hmove.epochStep hsound
  unfold EpochStep at hstep
  cases hmove with
  | start inactive state epoch =>
    rw [if_pos ⟨inactive, state⟩] at hstep
    -- the epoch is another one
    have hne : j'.status.epoch ≠ j.status.epoch := fun h => by
      rw [h] at hstep
      omega
    refine ⟨Int64.le_iff_toInt_le.mpr (by omega), ?_, ?_, ?_⟩ <;> exact fun h => absurd h hne
  | stay state epoch spec =>
    refine ⟨epoch ▸ Int64.le_refl _, fun _ _ => state, fun _ h => ?_, fun _ h => state ▸ h⟩
    rw [state] at h
    exact ⟨h, spec h⟩
  | goOn => grind [History, goesOn_active, Int64.le_refl]

end

theorem update_ok {next : Jobs S} {candidate : Job S} {version : Int64}
    (h : update c jobs candidate version = .ok (next, stored)) :
    candidate.validate c = none ∧ stored = { candidate with version := version + 1 } ∧
      next = Function.update jobs candidate.key (some stored) ∧
      ∃ current, jobs candidate.key = some current ∧ current.version = version := by
  unfold update at h
  split at h
  · cases h
  · grind

theorem get_ok (h : get jobs key = .ok j) : jobs key = some j := by
  unfold get at h
  split at h
  · cases h
  · grind

def Valid (c : Context S) (s : State S) : Prop :=
  (∀ key j, s.jobs key = some j → j.key = key ∧ j.validate c = none) ∧ ∀ client, s.reads client = none

def Earlier (r j : Job S) : Prop :=
  History r j ∧ (r = j ∨ (0 < r.version ∧ (r.version < j.version ∨ j.version ≤ 0)))

structure Inv (c : Context S) (s : State S) : Prop where
  stored : ∀ key j, s.jobs key = some j →
    j.key = key ∧ j.status.Sound ∧ (0 < j.version → j.validate c = none)
  reads : ∀ client r, s.reads client = some r → r.status.Sound ∧ ∃ j, s.jobs r.key = some j ∧ Earlier r j

theorem inv_of_valid (h : Valid c s) : Inv c s := by
  constructor
  · intro key j hj
    obtain ⟨hkey, hvalid⟩ := h.1 key j hj
    exact ⟨hkey, Job.sound_of_validate hvalid, fun _ => hvalid⟩
  · intro client r hr
    rw [h.2 client] at hr
    cases hr

theorem lt_succ_or_wrap (v : Int64) : v < v + 1 ∨ v + 1 ≤ 0 := by
  grind

structure Written (c : Context S) (s : State S) (r : Job S) (q : Request S) (now : Time) (jobs : Jobs S)
    (stored : Job S) : Prop where
  current : s.jobs r.key = some r
  jobs : jobs = Function.update s.jobs r.key (some stored)
  key : stored.key = r.key
  version : stored.version = r.version + 1
  positive : 0 < r.version
  sound : stored.status.Sound
  valid : 0 < stored.version → stored.validate c = none
  move : Move r stored
  status : ∃ next changed, request c.validate r q now = .ok (next, changed) ∧ stored.status = next.status

theorem writeBack_ok (hinv : Inv c s) {q : Request S} (hr : s.reads client = some r)
    (h : writeBack c s.jobs r q now = some (jobs, stored)) : Written c s r q now jobs stored := by
  obtain ⟨hsound, j, hj, -, hversions⟩ := hinv.reads client r hr
  unfold writeBack at h
  split at h
  · next next changed hrequest =>
    obtain ⟨⟨hkey, -, hsame, -⟩, hmove⟩ := request_move hsound hrequest
    cases hupdate : update c s.jobs next r.version with
    | error => rw [hupdate] at h; cases h
    | ok =>
      rw [hupdate] at h
      cases h
      obtain ⟨hvalid, rfl, rfl, current, hcurrent, hversion⟩ := update_ok hupdate
      rw [hkey, hj] at hcurrent
      cases hcurrent
      have hpos : 0 < r.version := hsame ▸ Job.version_pos hvalid
      have hcurrent : r = j := by
        grind
      cases hcurrent
      have hnext : next.status.Sound := Job.sound_of_validate hvalid
      refine ⟨hj, by rw [← hkey], hkey, rfl, hpos, hnext, fun h => Job.validate_version hvalid h, ?_,
        next, changed, hrequest, rfl⟩
      cases hmove with
      | start inactive state epoch => exact .start inactive state epoch
      | stay state epoch spec => exact .stay state epoch spec
      | goOn state epoch spec => exact .goOn state epoch spec
  · cases h

theorem write_inv (hinv : Inv c s) {q : Request S} (hr : s.reads client = some r)
    (h : writeBack c s.jobs r q now = some (jobs, stored)) : Inv c { s with jobs } := by
  obtain ⟨hcurrent, rfl, hkey, hversion, hpos, hsound, hvalid, hmove, -⟩ := writeBack_ok hinv hr h
  have hhistory := hmove.history hsound
  constructor <;> dsimp only
  · intro key j hj
    rcases eq_or_ne key r.key with rfl | hne
    · grind
    · rw [Function.update_of_ne hne] at hj
      exact hinv.stored key j hj
  · intro other q hq
    obtain ⟨hq, j, hj, hearlier, hversions⟩ := hinv.reads other q hq
    refine ⟨hq, ?_⟩
    rcases eq_or_ne q.key r.key with heq | hne
    · rw [heq, hcurrent] at hj
      cases hj
      refine ⟨stored, by rw [heq, Function.update_self], hearlier.trans hhistory, .inr ?_⟩
      rw [hversion]
      have hnext := lt_succ_or_wrap r.version
      rcases hversions with rfl | ⟨hq, hlt | hle⟩
      · exact ⟨hpos, hnext⟩
      · exact ⟨hq, hnext.imp_left (Int64.lt_trans hlt)⟩
      · exact absurd hpos (Int64.not_lt.mpr hle)
    · exact ⟨j, by rw [Function.update_of_ne hne]; exact hj, hearlier, hversions⟩

theorem read_inv (hinv : Inv c s) (client : ℕ) (key : Key) : Inv c (read s client key) := by
  unfold read
  split
  · next j hget =>
    have hj := get_ok hget
    obtain ⟨hkey, hsound, -⟩ := hinv.stored key j hj
    refine ⟨hinv.stored, ?_⟩
    intro other r hr
    dsimp only at hr ⊢
    rcases eq_or_ne other client with rfl | hne
    · rw [Function.update_self] at hr
      cases hr
      exact ⟨hsound, j, hkey ▸ hj, .refl j, .inl rfl⟩
    · rw [Function.update_of_ne hne] at hr
      exact hinv.reads other r hr
  · exact hinv

theorem write_cases (c : Context S) (s : State S) (client : ℕ) (r : Request S) (now : Time) :
    write c s client r now = s ∨ ∃ j jobs stored, s.reads client = some j ∧
      writeBack c s.jobs j r now = some (jobs, stored) ∧ write c s client r now = { s with jobs } := by
  unfold write
  split
  · grind [Option.bind_eq_some_iff]
  · exact .inl rfl

theorem step_inv {e : Event S} (hinv : Inv c s) (h : step c s e = some t) : Inv c t := by
  cases e with
  | read client key =>
    cases h
    exact read_inv hinv client key
  | write client r now =>
    cases h
    rcases write_cases c s client r now with heq | ⟨j, jobs, stored, hj, hwrite, heq⟩
    · rw [heq]
      exact hinv
    · rw [heq]
      exact write_inv hinv hj hwrite

theorem step_stored {e : Event S} (hinv : Inv c s) (h : step c s e = some t) (hj : s.jobs key = some j) :
    ∃ j', t.jobs key = some j' ∧ (j' = j ∨ (Move j j' ∧ j'.status.Sound)) := by
  cases e with
  | read =>
    cases h
    refine ⟨j, ?_, .inl rfl⟩
    unfold read
    split <;> exact hj
  | write client r now =>
    cases h
    rcases write_cases c s client r now with heq | ⟨read, jobs, stored, hread, hwrite, heq⟩
    · exact ⟨j, by rw [heq]; exact hj, .inl rfl⟩
    · obtain ⟨hcurrent, rfl, -, -, -, hsound, -, hmove, -⟩ := writeBack_ok hinv hread hwrite
      rw [heq]
      dsimp only
      rcases eq_or_ne key read.key with rfl | hne
      · grind
      · exact ⟨j, by rw [Function.update_of_ne hne]; exact hj, .inl rfl⟩

theorem run_stored {events : List (Event S)} (hinv : Inv c s)
    (h : run (step c) s events = some t) (hj : s.jobs key = some j) :
    ∃ j', t.jobs key = some j' ∧ History j j' := by
  induction events generalizing s j with
  | nil => cases h; exact ⟨j, hj, .refl j⟩
  | cons e events ih =>
    obtain ⟨u, hu, h⟩ := run_cons_eq.mp h
    obtain ⟨j₁, hj₁, hmove⟩ := step_stored hinv hu hj
    obtain ⟨j', hj', hhistory⟩ := ih (step_inv hinv hu) h hj₁
    refine ⟨j', hj', ?_⟩
    rcases hmove with rfl | ⟨hmove, hsound⟩
    · exact hhistory
    · exact (hmove.history hsound).trans hhistory

theorem requestStop_idle (hsound : j.status.Sound)
    (h : requestStop j now = .ok (next, changed)) : runs next.status.state = false := by
  unfold requestStop at h
  split_ifs at h with hstopped
  · cases h
    rw [Bool.eq_false_iff]
    intro hruns
    rw [hsound.desired.mp hruns] at hstopped
    cases hstopped
  · cases hs : j.status.state <;> simp only [hs] at h <;> cases h <;> rfl

theorem acceptStop_some {u : State S} (hinv : Inv c s) (h : acceptStop c s client now = some (r, u)) :
    Inv c u ∧ ∃ stored, u.jobs r.key = some stored ∧ ∀ j, History stored j → j.status.epoch = r.status.epoch →
      runs j.status.state = false := by
  obtain ⟨r', hr, h⟩ := Option.bind_eq_some_iff.mp h
  obtain ⟨hsound, stored, hstored, hearlier, -⟩ := hinv.reads client r' hr
  have hfinal {a b : Job S} (ha : runs a.status.state = false) (hab : History a b)
      (hepoch : b.status.epoch = a.status.epoch) : runs b.status.state = false := by
    rw [Bool.eq_false_iff] at ha ⊢
    exact fun hb => ha (hab.halted hepoch hb)
  split at h
  · next hstop =>
    cases h
    have hidle : runs r.status.state = false := by
      rw [Bool.eq_false_iff]
      intro hruns
      have hdesired := hsound.desired.mp hruns
      unfold requestStop at hstop
      split_ifs at hstop with hstopped
      · rw [hdesired] at hstopped
        cases hstopped
      · split at hstop <;> cases hstop
    exact ⟨hinv, stored, hstored, fun j hj hepoch => hfinal hidle (hearlier.trans hj) hepoch⟩
  · next next hstop =>
    obtain ⟨⟨jobs, written⟩, hwrite, heq⟩ := Option.map_eq_some_iff.mp h
    cases heq
    refine ⟨write_inv hinv hr hwrite, written, ?_⟩
    obtain ⟨-, rfl, -, -, -, -, -, -, next, changed, hrequest, hstatus⟩ := writeBack_ok hinv hr hwrite
    refine ⟨Function.update_self .., fun j hj hepoch => ?_⟩
    have hidle : runs written.status.state = false := by
      rw [hstatus]
      exact requestStop_idle hsound hrequest
    have hsame : written.status.epoch = r.status.epoch := by
      rw [hstatus]
      exact (requestStop_ok hrequest).1
    exact hfinal hidle hj (hepoch.trans hsame.symm)
  · cases h

/-- The lifecycle of every job over the versions that clients write: a stored version is valid unless its
number has passed the largest one, each write keeps to `EpochStep`, any two versions to `History`, and an
accepted stop is final for its epoch. -/
theorem run_lifecycle (c : Context S) {start s : State S} {before : List (Event S)} (hstart : Valid c start)
    (hs : run (step c) start before = some s) :
    (∀ key j, s.jobs key = some j → 0 < j.version → j.validate c = none) ∧
    (∀ e t key j j', step c s e = some t → s.jobs key = some j → t.jobs key = some j' → EpochStep j j') ∧
    (∀ after t key j j', run (step c) s after = some t → s.jobs key = some j → t.jobs key = some j' →
      History j j') ∧
    ∀ client now r u after t j, acceptStop c s client now = some (r, u) → run (step c) u after = some t →
      t.jobs r.key = some j → j.status.epoch = r.status.epoch → runs j.status.state = false := by
  have hinv : Inv c s := run_preserves (fun _ _ _ h ht => step_inv h ht) (inv_of_valid hstart) hs
  refine ⟨?_, ?_, ?_, ?_⟩
  · intro key j hj
    exact (hinv.stored key j hj).2.2
  · intro e t key j j' ht hj hj'
    obtain ⟨next, hnext, hmove⟩ := step_stored hinv ht hj
    rw [hj'] at hnext
    cases hnext
    rcases hmove with rfl | ⟨hmove, hsound⟩
    · unfold EpochStep
      rw [if_neg]
      rintro ⟨hinactive, hinit⟩
      rw [hinit] at hinactive
      cases hinactive
    · exact hmove.epochStep hsound
  · intro after t key j j' ht hj hj'
    obtain ⟨later, hlater, hhistory⟩ := run_stored hinv ht hj
    rw [hj'] at hlater
    cases hlater
    exact hhistory
  · intro client now r u after t j hstop ht hj hepoch
    obtain ⟨hinv', stored, hstored, hfinal⟩ := acceptStop_some hinv hstop
    obtain ⟨later, hlater, hhistory⟩ := run_stored hinv' ht hstored
    rw [hj] at hlater
    cases hlater
    exact hfinal j hhistory hepoch

def anyContext : Context Unit := ⟨fun _ => true, fun _ => none⟩

def ordersKey : Key := ⟨lit "default", lit "orders"⟩

def orders (version : Int64) : Job Unit := { new ordersKey (lit "u") () 10 with version }

def storing (version : Int64) : State Unit :=
  ⟨fun key => if key = ordersKey then some (orders version) else none, fun _ => none⟩

theorem storing_valid {version : Int64} (h : (orders version).validate anyContext = none) :
    Valid anyContext (storing version) := by
  refine ⟨fun key j hj => ?_, fun _ => rfl⟩
  simp only [storing, Option.ite_none_right_eq_some, Option.some.injEq] at hj
  obtain ⟨rfl, rfl⟩ := hj
  exact ⟨rfl, h⟩

/-- A job started once and stopped: the stop is final for epoch 1. -/
theorem run_lifecycle_stopped :
    ∃ s u r, run (step anyContext) (storing 1) [.read 0 ordersKey, .write 0 .start 20, .read 1 ordersKey] = some s ∧
      acceptStop anyContext s 1 30 = some (r, u) ∧ r.status.epoch = 1 ∧
      ∀ after t j, run (step anyContext) u after = some t → t.jobs r.key = some j → j.status.epoch = 1 →
        runs j.status.state = false := by
  have hrun : ((run (step anyContext) (storing 1)
      [.read 0 ordersKey, .write 0 .start 20, .read 1 ordersKey]).bind fun s =>
        (acceptStop anyContext s 1 30).map fun stopped => stopped.1.status.epoch) = some 1 := by
    decide +kernel
  obtain ⟨s, hs, hstop⟩ := Option.bind_eq_some_iff.mp hrun
  obtain ⟨⟨r, u⟩, hstop, hepoch⟩ := Option.map_eq_some_iff.mp hstop
  refine ⟨s, u, r, hs, hstop, hepoch, fun after t j ht hj h => ?_⟩
  have hvalid := storing_valid (show (orders 1).validate anyContext = none by decide +kernel)
  exact (run_lifecycle anyContext hvalid hs).2.2.2 1 30 r u after t j hstop ht hj (h.trans hepoch.symm)

/-- The job at the largest version is valid; one accepted write later the stored job is not. -/
theorem largest_version_wraps : Valid anyContext (storing 9223372036854775807) ∧
    ∃ s j, run (step anyContext) (storing 9223372036854775807) [.read 0 ordersKey, .write 0 .start 20] = some s ∧
      s.jobs ordersKey = some j ∧ j.validate anyContext = some "version must be positive" := by
  refine ⟨storing_valid (by decide +kernel), ?_⟩
  have hrun : ((run (step anyContext) (storing 9223372036854775807)
      [.read 0 ordersKey, .write 0 .start 20]).bind fun s => (s.jobs ordersKey).map (Job.validate anyContext)) =
        some (some "version must be positive") := by
    decide +kernel
  obtain ⟨s, hs, hrun⟩ := Option.bind_eq_some_iff.mp hrun
  obtain ⟨j, hj, hmessage⟩ := Option.map_eq_some_iff.mp hrun
  exact ⟨s, j, hs, hj, hmessage⟩

end AstraSync.JobRepository
