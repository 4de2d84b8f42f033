import AstraSync.SchedulerFleet

namespace AstraSync.StoppedExecutions

open ByteStrings JobLifecycle DispatchStore DispatchDatabase Programs SchedulerWorld DispatchLedger
open SchedulerReconciler ReconcilerRules SchedulerFleet Transitions

variable {S : Type}

def modest (i : Identity) : Call S → Prop
  | .completeDispatch _ _ _ _ _ _ => False
  | .createObject j _ _ => j = i
  | _ => True

def completes (ownerID : Bytes) (i : Identity) : Call S → Prop
  | .completeDispatch j owner _ _ _ _ => j = i ∧ owner = ownerID
  | _ => False

abbrev ClosesOwn (ownerID : Bytes) (i : Identity) (p : Prog S (Except Fault Unit)) : Prop :=
  Closes (modest i) (completes ownerID i) p

section

variable {c : Settings S} {cfg : Config} {record : Record} {i : Identity}

theorem modest_of_quiet {e : Call S} (h : e.quiet i) : modest i e := by
  cases e with
  | createObject => exact h
  | completeDispatch => exact h
  | _ => trivial

variable {lastError : String} {current : Job S}

theorem keepAlive_modest {phase : Phase} : Only (modest (S := S) i) (keepAlive cfg record phase lastError) :=
  only_call trivial fun _ => only_perform trivial

theorem recordTransientError_modest {e : Fault} : Only (modest (S := S) i) (recordTransientError cfg record e) := by
  refine only_bind keepAlive_modest fun r => ?_
  split <;> trivial

theorem complete_closes {phase : Phase} {stopped : Bool} :
    ClosesOwn (S := S) cfg.ownerID record.identity (SchedulerReconciler.complete cfg record phase lastError stopped) :=
  closes_call trivial fun _ => closes_perform ⟨rfl, rfl⟩

variable {target : JobLifecycle.State} {failure : Option Failure}

theorem updateState_modest {epoch : Int64} : Only (modest i) (updateState current epoch target failure) := by
  refine only_call trivial fun now => ?_
  split
  · trivial
  · trivial
  · exact only_perform trivial

theorem attemptTransition_modest (attempts : ℕ) :
    Only (modest (S := S) i) (attemptTransition record target failure attempts) := by
  induction attempts with
  | zero => trivial
  | succ attempts ih =>
    refine only_call trivial fun r => ?_
    split
    · trivial
    · split_ifs
      · trivial
      · trivial
      · refine only_bind updateState_modest fun r => ?_
        split
        · split_ifs
          · exact ih
          · trivial
        · exact ih
      · trivial
      · refine only_bind updateState_modest fun r => ?_
        split
        · split_ifs
          · exact ih
          · trivial
        · trivial

theorem failPermanently_closes {reason rootCause : String} :
    ClosesOwn (S := S) cfg.ownerID record.identity (failPermanently cfg record reason rootCause) := by
  refine closes_call trivial fun now => closes_bind (attemptTransition_modest 5) fun r => ?_
  split
  · trivial
  · exact complete_closes

theorem stopThen_closes (record : Record) {next : Prog S (Except Fault Unit)}
    (hnext : ClosesOwn cfg.ownerID record.identity next) :
    ClosesOwn cfg.ownerID record.identity (stopThen c cfg record lastError next) := by
  refine closes_bind (only_weaken ExecutionDispatcher.stop_quiet fun _ => modest_of_quiet) fun r => ?_
  split
  · exact closes_only recordTransientError_modest
  · exact closes_only keepAlive_modest
  · exact hnext

theorem finishHeartbeatFailure_closes (record : Record) :
    ClosesOwn cfg.ownerID record.identity (finishHeartbeatFailure c cfg record) := by
  refine closes_bind (only_weaken failureTime_quiet fun _ => modest_of_quiet) fun timestamp => ?_
  refine closes_bind (attemptTransition_modest 5) fun r => ?_
  split
  · trivial
  · exact stopThen_closes record complete_closes

theorem failHeartbeat_closes {rootCause : String} :
    ClosesOwn cfg.ownerID record.identity (failHeartbeat c cfg record rootCause) := by
  refine closes_call trivial fun now => closes_call trivial fun r => ?_
  split
  · trivial
  · trivial
  · exact finishHeartbeatFailure_closes { record with phase := .stopping, lastError := rootCause, updatedAt := now }

theorem finishCancel_closes : ClosesOwn (S := S) cfg.ownerID record.identity (finishCancel cfg record) := by
  refine closes_bind (attemptTransition_modest 5) fun r => ?_
  split
  · trivial
  · exact complete_closes

theorem cancel_closes : ClosesOwn cfg.ownerID record.identity (cancel c cfg record) := by
  refine closes_bind keepAlive_modest fun r => ?_
  split
  · trivial
  · exact stopThen_closes { record with phase := .stopping } finishCancel_closes

theorem heartbeatExpired_closes {expired alive : Prog S (Except Fault Unit)}
    (hexpired : ClosesOwn cfg.ownerID record.identity expired) (halive : ClosesOwn cfg.ownerID record.identity alive) :
    ClosesOwn cfg.ownerID record.identity (do if ← heartbeatExpired cfg record then expired else alive) := by
  refine closes_bind (only_weaken heartbeatExpired_quiet fun _ => modest_of_quiet) fun late => ?_
  split_ifs
  · exact hexpired
  · exact halive

variable {claimedExecution : Bool}

theorem dispatchFailed_closes {e : Fault} :
    ClosesOwn cfg.ownerID record.identity (dispatchFailed c cfg record claimedExecution e) := by
  unfold dispatchFailed
  split
  · exact failPermanently_closes
  · exact heartbeatExpired_closes failHeartbeat_closes (closes_only recordTransientError_modest)

theorem observed_closes {observation : ExecutionDispatcher.Observation} :
    ClosesOwn cfg.ownerID record.identity (observed c cfg record observation) := by
  unfold observed
  split
  · exact heartbeatExpired_closes failHeartbeat_closes (closes_only keepAlive_modest)
  · refine heartbeatExpired_closes failHeartbeat_closes (closes_bind (attemptTransition_modest 5) fun r => ?_)
    split
    · trivial
    · exact closes_only keepAlive_modest
  · refine closes_bind (attemptTransition_modest 5) fun r => ?_
    split
    · trivial
    · exact complete_closes
  · exact failPermanently_closes

theorem dispatch_closes (record : Record) :
    ClosesOwn cfg.ownerID record.identity (dispatch c cfg record claimedExecution current) := by
  refine closes_bind (only_weaken ExecutionDispatcher.reconcile_quiet fun _ => modest_of_quiet) fun r => ?_
  split
  · exact dispatchFailed_closes
  · exact observed_closes

theorem work_closes : ClosesOwn cfg.ownerID record.identity (work c cfg record current) := by
  refine closes_bind keepAlive_modest fun r => ?_
  split
  · trivial
  · exact dispatch_closes { record with phase := if decide (record.phase = .claimed) then .starting else record.phase }

theorem reconcile_closes : ClosesOwn cfg.ownerID record.identity (reconcile c cfg record) := by
  refine closes_call trivial fun r => ?_
  split
  · exact closes_only recordTransientError_modest
  · split
    · exact stopThen_closes record complete_closes
    · split
      · split
        · exact stopThen_closes record complete_closes
        · refine closes_bind (only_weaken ExecutionDispatcher.dispatcher_cleanup_quiet fun _ => modest_of_quiet) ?_
          intro r
          split
          · exact closes_only recordTransientError_modest
          · exact complete_closes
      · split_ifs
        · exact cancel_closes
        · exact closes_only recordTransientError_modest
        · exact finishHeartbeatFailure_closes record
        · exact work_closes

end

section

variable {c : Settings S} {w u : World S} {i : Identity} {choice : Choice} {e : Call S} {r : Answer e}

theorem execute_modest (he : modest i e) (h : execute c w e choice = some (u, r)) :
    u.completed = w.completed ∧ (i ∈ w.completed ∨ u.resurrected = w.resurrected) := by
  cases e with
  | completeDispatch => exact absurd he id
  | createObject =>
    cases he
    rcases execute_createObject h with rfl | ⟨o, -, rfl⟩
    · exact ⟨rfl, .inr rfl⟩
    · grind
  | updateJob =>
    rcases execute_updateJob h with ⟨rfl, -⟩ | ⟨jobs, stored, -, rfl⟩ <;> exact ⟨rfl, .inr rfl⟩
  | updateDispatch | fenceExpiredHeartbeat => rcases settle_world h with rfl | rfl <;> exact ⟨rfl, .inr rfl⟩
  | claimCleanup => rcases execute_claimCleanup h with ⟨rfl, -⟩ | rfl <;> exact ⟨rfl, .inr rfl⟩
  | commitReceipts => rcases execute_commitReceipts h with rfl | ⟨committed, rfl⟩ <;> exact ⟨rfl, .inr rfl⟩
  | completeCleanup => rcases execute_completeCleanup h with rfl | rfl <;> exact ⟨rfl, .inr rfl⟩
  | deleteObject => rcases execute_deleteObject h with rfl | rfl <;> exact ⟨rfl, .inr rfl⟩
  | _ =>
    rw [execute_reads rfl h]
    exact ⟨rfl, .inr rfl⟩

theorem execute_completes {ownerID : Bytes} (hnodup : (w.db.rows.map (·.identity)).Nodup)
    (he : completes ownerID i e) (h : execute c w e choice = some (u, r)) :
    u.resurrected = w.resurrected ∧ (u.completed = w.completed ∨ (u.completed = w.completed ++ [i] ∧
      (∃ r ∈ w.db.rows, r.identity = i ∧ r.ownerID = ownerID) ∧ activeRow u.db.rows i = false)) := by
  cases e with
  | completeDispatch j owner phase lastError now stopped =>
    obtain ⟨rfl, rfl⟩ := he
    rcases settle_world h with rfl | rfl
    · exact ⟨rfl, .inl rfl⟩
    · unfold completeDispatch
      dsimp only
      split
      · next hok =>
        refine ⟨rfl, .inr ⟨rfl, ?_⟩⟩
        have hcomplete : (DispatchStore.complete j owner phase lastError now w.db.rows).2 = .ok () := by
          cases hresult : (DispatchStore.complete j owner phase lastError now w.db.rows).2 with
          | ok => rfl
          | error =>
            simp only [setRows, hresult] at hok
            cases hok
        obtain ⟨howned, hended⟩ := complete_ok hnodup hcomplete
        exact ⟨howned, activeRow_eq_false.mpr hended⟩
      · exact ⟨rfl, .inl rfl⟩
  | _ => exact absurd he id

end

def waitsForOwner (s : SchedulerFleet.State S) : Event S → Bool
  | .createJob key uid spec now => fresh s (.createJob key uid spec now)
  | .tick cfg now _ => s.world.db.rows.all fun r =>
    (claimChange cfg.ownerID (now + cfg.leaseDuration) now (now - cfg.heartbeatTimeout) r).ownerID = r.ownerID ||
      (s.replicas r.ownerID).all fun p => p.record.identity ≠ r.identity || p.program.finished
  | _ => true

structure Working (db : Database S) (ownerID : Bytes) (p : Process S) : Prop where
  claimed : p.record.identity ∈ db.claimed
  closes : ClosesOwn ownerID p.record.identity p.program
  owner : p.program.finished = false → ∀ r ∈ db.rows, r.identity = p.record.identity → r.ownerID = ownerID

structure Inv (c : Settings S) (maxActive : ℤ) (s : SchedulerFleet.State S) : Prop where
  fleet : SchedulerFleet.Inv c maxActive s
  working : ∀ ownerID, ∀ p ∈ s.replicas ownerID, Working s.world.db ownerID p
  dead : ∀ i ∈ s.world.completed, Dead s.world.db i
  ended : ∀ i ∈ s.world.completed, ∀ ownerID, ∀ p ∈ s.replicas ownerID, p.record.identity = i →
    p.program.finished = true
  resurrected : s.world.resurrected = []

section

variable {c : Settings S} {maxActive : ℤ} {s t : SchedulerFleet.State S} {e : Event S} {i : Identity} {ownerID : Bytes}
  {choice : Choice}

theorem fresh_of_waits (h : waitsForOwner s e = true) : fresh s e = true := by
  cases e <;> first | rfl | exact h

theorem dead_later (hlater : Later (ledger s.world) (ledger t.world)) (h : Dead s.world.db i) : Dead t.world.db i := by
  refine ⟨hlater.claimed i h.1, activeRow_eq_false.mpr fun r' hr' hid => ?_⟩
  obtain ⟨r, hr, hrow⟩ := hlater.rows r' hr' (by rw [hid]; exact h.1)
  have hinactive := activeRow_eq_false.mp h.2 r hr (hrow.identity.symm.trans hid)
  rw [hrow.ended hinactive]
  exact hinactive

theorem working_kept (h : Inv c maxActive s) (hwaits : waitsForOwner s e = true) (ht : step c maxActive s e = some t)
    {p : Process S} (hp : p ∈ s.replicas ownerID) : Working t.world.db ownerID p := by
  have hlater := (step_step h.fleet (fresh_of_waits hwaits) ht).later
  obtain ⟨hclaimed, hcloses, howner⟩ := h.working ownerID p hp
  refine ⟨hlater.claimed _ hclaimed, hcloses, fun hunfinished r' hr' hid => ?_⟩
  obtain ⟨r, hr, hrow⟩ := hlater.rows r' hr' (by rw [hid]; exact hclaimed)
  have hrowner := howner hunfinished r hr (hrow.identity.symm.trans hid)
  by_contra hne
  obtain ⟨cfg, now, token, rfl, rfl⟩ := (row_step h.fleet (fresh_of_waits hwaits) ht hr hr' hrow.identity).owner (by rw [hrowner]; exact hne)
  simp only [waitsForOwner, List.all_eq_true, Bool.or_eq_true, decide_eq_true_eq] at hwaits
  rcases hwaits r hr with hsame | hidle
  · exact hne (hsame.trans hrowner)
  · rcases hidle p (hrowner ▸ hp) with hother | hfinished
    · exact hother (hid.symm.trans hrow.identity)
    · rw [hunfinished] at hfinished
      cases hfinished

theorem idle_inv (h : Inv c maxActive s) (hwaits : waitsForOwner s e = true) (ht : step c maxActive s e = some t)
    (hreplicas : ∀ ownerID, ∀ p ∈ t.replicas ownerID, p ∈ s.replicas ownerID)
    (hcompleted : t.world.completed = s.world.completed) (hresurrected : t.world.resurrected = s.world.resurrected) :
    Inv c maxActive t := by
  have hstep := step_step h.fleet (fresh_of_waits hwaits) ht
  refine ⟨hstep.inv, fun ownerID p hp => working_kept h hwaits ht (hreplicas ownerID p hp), ?_, ?_, ?_⟩
  · rw [hcompleted]
    exact fun i hi => dead_later hstep.later (h.dead i hi)
  · rw [hcompleted]
    exact fun i hi ownerID p hp => h.ended i hi ownerID p (hreplicas ownerID p hp)
  · rw [hresurrected]
    exact h.resurrected

variable {token : Identity → Bytes}

theorem tick_started {cfg : Config} {now : Time} (ht : step c maxActive s (.tick cfg now token) = some t) :
    t.world.completed = s.world.completed ∧ t.world.resurrected = s.world.resurrected ∧
      ∀ ownerID, ∀ p ∈ t.replicas ownerID, p ∈ s.replicas ownerID ∨ (ownerID = cfg.ownerID ∧
        p.record ∈ t.world.db.rows ∧ p.record.ownerID = cfg.ownerID ∧ p.record.phase.active = true ∧
        p.program = reconcile c cfg p.record) := by
  simp only [step] at ht
  split_ifs at ht
  cases ht
  rcases claim_cases cfg.ownerID maxActive cfg.leaseDuration cfg.heartbeatTimeout now token s.world.db.jobs
    s.world.db.rows with ⟨e, hclaim⟩ | ⟨held, added, records, -, hclaim, hrecords, -⟩
  · rw [hclaim]
    exact ⟨rfl, rfl, fun _ p hp => .inl hp⟩
  · rw [hclaim]
    refine ⟨rfl, rfl, fun ownerID p hp => ?_⟩
    rcases mem_update hp with ⟨rfl, hnew⟩ | ⟨-, hp⟩
    · obtain ⟨record, hrecord, rfl⟩ := List.mem_map.mp hnew
      obtain ⟨hmem, howner, hactive⟩ := hrecords record hrecord
      exact .inr ⟨rfl, hmem, howner, hactive, rfl⟩
    · exact .inl hp

theorem tick_inv (h : Inv c maxActive s) {cfg : Config} {now : Time}
    (hwaits : waitsForOwner s (.tick cfg now token) = true) (ht : step c maxActive s (.tick cfg now token) = some t) :
    Inv c maxActive t := by
  have hstep := step_step h.fleet (fresh_of_waits hwaits) ht
  obtain ⟨hcompleted, hresurrected, hprocesses⟩ := tick_started ht
  refine ⟨hstep.inv, fun ownerID p hp => ?_, ?_, ?_, ?_⟩
  · rcases hprocesses ownerID p hp with hp | ⟨rfl, hrow, howner, -, hprogram⟩
    · exact working_kept h hwaits ht hp
    · refine ⟨hstep.inv.sound.db.rows_claimed _ hrow, ?_, fun _ r hr hid => ?_⟩
      · rw [hprogram]
        exact reconcile_closes
      · rw [List.inj_on_of_nodup_map hstep.inv.sound.identities hr hrow hid]
        exact howner
  · rw [hcompleted]
    exact fun i hi => dead_later hstep.later (h.dead i hi)
  · rw [hcompleted]
    intro i hi ownerID p hp hid
    rcases hprocesses ownerID p hp with hp | ⟨-, hrow, -, hactive, -⟩
    · exact h.ended i hi ownerID p hp hid
    · have hdead := dead_later hstep.later (h.dead i hi)
      rw [activeRow_eq_false.mp hdead.2 p.record hrow hid] at hactive
      cases hactive
  · rw [hresurrected]
    exact h.resurrected

theorem resume_unfinished {α : Type} {p rest : Prog S α} {w u : World S}
    (h : p.resume (execute c) w choice = some (u, rest)) : p.finished = false := by
  cases p with
  | done => cases h
  | call => rfl

variable {rest : Prog S (Except Fault Unit)}

theorem mem_proceed {replicas : Bytes → List (Process S)} {o : Bytes} {q : Process S}
    (hq : q ∈ Function.update replicas ownerID (proceed (replicas ownerID) i rest) o) :
    (q ∈ replicas o ∧ ¬ (o = ownerID ∧ q.record.identity = i)) ∨
      (o = ownerID ∧ q.record.identity = i ∧ q.program = rest) := by
  rcases mem_update hq with ⟨rfl, hnew⟩ | ⟨hne, hq⟩
  · obtain ⟨q, hold, rfl⟩ := List.mem_map.mp hnew
    split_ifs with hqi
    · exact .inr ⟨rfl, hqi, rfl⟩
    · exact .inl ⟨hold, fun h => hqi h.2⟩
  · exact .inl ⟨hq, fun h => hne h.1⟩

theorem resume_cases (h : Inv c maxActive s) {p : Process S} (hp : p ∈ s.replicas ownerID) {u : World S}
    (hresume : p.program.resume (execute c) s.world choice = some (u, rest)) :
    ClosesOwn ownerID p.record.identity rest ∧ u.resurrected = [] ∧ p.record.identity ∉ s.world.completed ∧
      ∀ i ∈ u.completed, i ∈ s.world.completed ∨ (i = p.record.identity ∧ rest.finished = true ∧
        (∃ r ∈ s.world.db.rows, r.identity = i ∧ r.ownerID = ownerID) ∧ activeRow u.db.rows i = false) := by
  have hnot : p.record.identity ∉ s.world.completed := by
    intro hi
    have hunfinished := resume_unfinished hresume
    rw [h.ended _ hi ownerID p hp rfl] at hunfinished
    cases hunfinished
  obtain ⟨e, r, hexecute, hrest⟩ := closes_resume (h.working ownerID p hp).closes hresume
  rcases hrest with ⟨he, hcloses⟩ | ⟨he, hfinished⟩
  · obtain ⟨hcompleted, hresurrected⟩ := execute_modest he hexecute
    exact ⟨hcloses, (hresurrected.resolve_left hnot).trans h.resurrected, hnot, fun i hi => .inl (hcompleted ▸ hi)⟩
  · obtain ⟨hresurrected, hcompleted⟩ := execute_completes h.fleet.sound.identities he hexecute
    refine ⟨closes_finished hfinished, hresurrected.trans h.resurrected, hnot, fun i hi => ?_⟩
    rcases hcompleted with hsame | ⟨hnew, howned, hinactive⟩
    · exact .inl (hsame ▸ hi)
    · rw [hnew] at hi
      rcases List.mem_append.mp hi with hi | hi
      · exact .inl hi
      · grind

theorem call_inv (h : Inv c maxActive s)
    (ht : step c maxActive s (.call ownerID i choice) = some t) : Inv c maxActive t := by
  have hstep := step_step h.fleet rfl ht
  have hkept : ∀ o, ∀ q ∈ s.replicas o, Working t.world.db o q := fun o q hq => working_kept h rfl ht hq
  obtain ⟨p, hp, hnext⟩ := Option.bind_eq_some_iff.mp ht
  obtain ⟨⟨u, rest⟩, hresume, rfl⟩ := Option.map_eq_some_iff.mp hnext
  have hmem := List.mem_of_find?_eq_some hp
  have hid : p.record.identity = i := by simpa using List.find?_some hp
  obtain ⟨hcloses, hresurrected, hnot, hcompleted⟩ := resume_cases h hmem hresume
  have hworking := hkept ownerID p hmem
  rw [hid] at hcloses hnot hcompleted
  refine ⟨hstep.inv, fun o q hq => ?_, fun j hj => ?_, fun j hj o q hq hqj => ?_, hresurrected⟩
  · rcases mem_proceed hq with ⟨hq, -⟩ | ⟨rfl, hqi, hprogram⟩
    · exact hkept o q hq
    · refine ⟨?_, ?_, fun _ r hr hrq => ?_⟩
      · rw [hqi, ← hid]
        exact hworking.claimed
      · rw [hprogram, hqi]
        exact hcloses
      · exact hworking.owner (resume_unfinished hresume) r hr (hrq.trans (hqi.trans hid.symm))
  · rcases hcompleted j hj with hj | ⟨rfl, -, -, hinactive⟩
    · exact dead_later hstep.later (h.dead j hj)
    · exact ⟨hid ▸ hworking.claimed, hinactive⟩
  · rcases mem_proceed hq with ⟨hold, hother⟩ | ⟨rfl, hqi, hprogram⟩
    · rcases hcompleted j hj with hj | ⟨rfl, -, ⟨r, hr, hrj, howner⟩, -⟩
      · exact h.ended j hj o q hold hqj
      · -- another replica that still works on the execution would own its row
        by_contra hunfinished
        rw [Bool.not_eq_true] at hunfinished
        have ho := (h.working o q hold).owner hunfinished r hr (hrj.trans hqj.symm)
        exact hother ⟨ho.symm.trans howner, hqj⟩
    · rcases hcompleted j hj with hj | ⟨rfl, hfinished, -⟩
      · exact absurd (hqi.symm.trans hqj ▸ hj) hnot
      · rw [hprogram]
        exact hfinished

theorem step_inv (h : Inv c maxActive s) (hwaits : waitsForOwner s e = true) (ht : step c maxActive s e = some t) :
    Inv c maxActive t := by
  cases e with
  | tick => exact tick_inv h hwaits ht
  | call => exact call_inv h ht
  | createJob =>
    have hstep := ht
    simp only [step] at hstep
    split_ifs at hstep
    cases hstep
    refine idle_inv h hwaits ht ?_ ?_ ?_ <;> split <;> first | rfl | exact fun _ _ hp => hp
  | request =>
    have hstep := ht
    cases hstep
    refine idle_inv h hwaits ht ?_ ?_ ?_ <;> split <;> first | rfl | exact fun _ _ hp => hp
  | deleteJob | recordHeartbeat | remove | setStatus =>
    have hstep := ht
    cases hstep
    exact idle_inv h hwaits ht (fun _ _ hp => hp) rfl rfl
  | crash =>
    have hstep := ht
    cases hstep
    refine idle_inv h hwaits ht (fun o p hp => ?_) rfl rfl
    rcases mem_update hp with ⟨-, hnone⟩ | ⟨-, hp⟩
    · cases hnone
    · exact hp

end

/-- No resource of an execution is created once the dispatcher has stopped it and its row is completed. -/
theorem run_resurrects_nothing {c : Settings S} {maxActive : ℤ} {bindings : List Binding} {events : List (Event S)}
    {s : SchedulerFleet.State S} (hwaits : meets (step c maxActive) waitsForOwner (start bindings) events = true)
    (hs : run (step c maxActive) (start bindings) events = some s) : s.world.resurrected = [] := by
  have h : Inv c maxActive s := by
    refine run_invariant (fun _ _ _ h hwaits ht => step_inv h hwaits ht)
      ⟨start_inv c maxActive bindings, ?_, ?_, ?_, rfl⟩ hwaits hs
    · intro ownerID p hp
      cases hp
    · intro i hi
      cases hi
    · intro i hi
      cases hi
  exact h.resurrected

def dispatching : List (Event Unit) :=
  claimedByA ++ answered schedulerA 1 ++ [clockAt schedulerA 21] ++ answered schedulerA 3

def canceledByB : List (Event Unit) :=
  [.request sampleKey .stop 50, .tick schedulerB 100 sampleToken] ++ answered schedulerB 1 ++
    [clockAt schedulerB 101] ++ answered schedulerB 13 ++ [clockAt schedulerB 102] ++ answered schedulerB 1 ++
    [clockAt schedulerB 103] ++ answered schedulerB 1

/-- The first owner goes on after that. -/
theorem overtaken_resurrects :
    ∃ s, run (step plainSettings 1) (start []) (dispatching ++ canceledByB ++ answered schedulerA 1) = some s ∧
      s.world.db.rows.map (fun r => (r.identity, r.phase)) = [(execution, .canceled)] ∧
      s.world.resurrected = [(execution, .jobSpec)] := by
  have hrun : (run (step plainSettings 1) (start []) (dispatching ++ canceledByB ++ answered schedulerA 1)).map
      (fun s => (s.world.db.rows.map fun r => (r.identity, r.phase), s.world.resurrected)) =
      some ([(execution, .canceled)], [(execution, .jobSpec)]) := by decide +kernel
  obtain ⟨s, hs, hrows⟩ := Option.map_eq_some_iff.mp hrun
  obtain ⟨hrows, hresurrected⟩ := Prod.mk.inj hrows
  exact ⟨s, hs, hrows, hresurrected⟩

/-- The first owner has crashed before the row is taken over. -/
theorem run_resurrects_nothing_crashed :
    ∃ s, run (step plainSettings 1) (start []) (dispatching ++ [.crash schedulerA.ownerID] ++ canceledByB) = some s ∧
      s.world.completed = [execution] ∧ s.world.resurrected = [] := by
  have hrun : (run (step plainSettings 1) (start []) (dispatching ++ [.crash schedulerA.ownerID] ++ canceledByB)).map
      (fun s => s.world.completed) = some [execution] := by decide +kernel
  obtain ⟨s, hs, hcompleted⟩ := Option.map_eq_some_iff.mp hrun
  exact ⟨s, hs, hcompleted, run_resurrects_nothing (by decide +kernel) hs⟩

end AstraSync.StoppedExecutions
