import AstraSync.SchedulerFleet

namespace AstraSync.DispatchRejections

open ByteStrings JobLifecycle DispatchStore Programs SchedulerWorld SchedulerReconciler SchedulerFleet Transitions

variable {S : Type}

def Active (record : Record) (w : World S) : Prop :=
  ∀ j ∈ w.db.jobs, j.key = record.key → jobIdentity j = record.identity ∧ active j.status.state = true

def succeeds : (e : Call S) → Answer e → Prop
  | .getJob _, r => ∃ j, r = .ok j
  | .updateJob _ _, r => r = .ok ()
  | .completeDispatch _ _ _ _ _ _, r => r = .ok ()
  | _, _ => True

/-- A tick none of whose store calls fails, beside others who leave the execution active and ended executions ended. -/
def undisturbed (c : Settings S) (record : Record) : Rules (World S) (Call S) Answer where
  outcome w e r u := executes c w e r u ∧ succeeds e r
  rely w v := w.outcomes ⊆ v.outcomes ∧ (Active record w → Active record v)
  guarantee _ _ _ _ := True

def Final (i : Identity) (w : World S) : Prop :=
  (i, .failed) ∈ w.outcomes ∧ ∃ r ∈ w.db.rows, r.identity = i ∧ r.phase = .failed

section

variable {c : Settings S} {cfg : Config} {record : Record} {w u : World S}

theorem advance_failed {j : Job S} {failure : Failure} {now : Time} (h : active j.status.state = true) :
    ∃ next, advance j j.status.epoch .failed (some failure) now = .ok (next, true) ∧ next.status.state = .failed ∧
      jobIdentity next = jobIdentity j := by
  cases hstate : j.status.state with
  | initializing | running | canceling =>
    unfold advance
    rw [hstate, if_neg (not_not.mpr rfl), if_neg (by decide), if_neg (by decide), if_neg (by simp), if_neg (by simp)]
    exact ⟨_, rfl, rfl, rfl⟩
  | _ => rw [hstate] at h; cases h

theorem updateJob_failed {candidate : Job S} {version : Int64} (hfailed : candidate.status.state = .failed)
    (h : executes c w (.updateJob candidate version) (.ok ()) u) : (jobIdentity candidate, .failed) ∈ u.outcomes := by
  obtain ⟨choice, h⟩ := h
  rcases execute_updateJob h with ⟨-, hr⟩ | ⟨jobs, stored, hupdate, rfl⟩
  · exact absurd rfl hr
  · obtain ⟨current, -, -, huid, -, -, rfl, -⟩ := JobTable.update_ok hupdate
    have hidentity : jobIdentity (JobTable.written current candidate) = jobIdentity candidate := by
      simp [jobIdentity, JobTable.written, huid]
    have hstate : (JobTable.written current candidate).status.state = .failed := hfailed
    simp [putJobs, recordOutcome, hstate, terminal, hidentity]

theorem completeDispatch_failed {i : Identity} {ownerID : Bytes} {lastError : String} {now : Time}
    (h : executes c w (.completeDispatch i ownerID .failed lastError now false) (.ok ()) u) :
    u.outcomes = w.outcomes ∧ ∃ r ∈ u.db.rows, r.identity = i ∧ r.phase = .failed := by
  obtain ⟨choice, h⟩ := h
  rcases settle_some h with ⟨rfl, hr⟩ | ⟨-, text, hr⟩
  · refine ⟨completeDispatch_outcomes .., ?_⟩
    rw [completeDispatch_db]
    change Except.ok () = (DispatchStore.complete i ownerID .failed lastError now w.db.rows).2.mapError Fault.dispatch at hr
    unfold DispatchStore.complete at hr ⊢
    split at hr
    · cases hr
    · split_ifs at hr ⊢
      · cases hr
      · unfold affect at hr ⊢
        dsimp only at hr ⊢
        split_ifs at hr with hcount
        · obtain ⟨r, hmem, hleased⟩ := List.countP_pos_iff.mp (hcount ▸ Nat.one_pos)
          refine ⟨_, List.mem_map_of_mem hmem, ?_⟩
          rw [if_pos hleased]
          simp only [leased, Bool.and_eq_true, decide_eq_true_eq] at hleased
          exact ⟨hleased.1.1.1, rfl⟩
        · cases hr
  · cases hr

theorem executes_reads {e : Call S} {r : Answer e} (he : e.reads = true) (h : executes c w e r u) : u = w := by
  obtain ⟨choice, h⟩ := h
  exact execute_reads he h

theorem updateState_final {current : Job S} {failure : Failure} (hidentity : jobIdentity current = record.identity)
    (hcurrent : active current.status.state = true) :
    Obeys (undisturbed c record) (fun r u => r = .ok () ∧ (record.identity, .failed) ∈ u.outcomes)
      (updateState current record.identity.epoch .failed (some failure)) w := by
  refine obeys_perform ?_
  rintro w₁ - now _ -
  refine ⟨trivial, ?_⟩
  obtain ⟨next, hadvance, hfailed, hnext⟩ := @advance_failed _ _ failure now hcurrent
  rw [← hidentity, show (jobIdentity current).epoch = current.status.epoch from rfl, hadvance]
  rintro w₂ - _ w₃ ⟨hupdate, rfl⟩
  rw [← hnext]
  exact ⟨trivial, rfl, updateJob_failed hfailed hupdate⟩

theorem transition_final {failure : Failure} (hactive : Active record w) :
    Obeys (undisturbed c record) (fun r u => r = .ok () ∧ (record.identity, .failed) ∈ u.outcomes)
      (transition record .failed (some failure)) w := by
  unfold transition attemptTransition
  refine obeys_perform ?_
  rintro w₁ ⟨-, h₁⟩ _ w₂ ⟨⟨choice, hget⟩, current, rfl⟩
  obtain ⟨hmem, hkey⟩ := execute_getJob hget
  obtain ⟨hidentity, hcurrent⟩ := h₁ hactive current hmem hkey
  have hstale : stale record current = false := by simp [stale, ← hidentity, jobIdentity]
  have hstate : current.status.state ≠ .failed ∧ terminal current.status.state = false := by
    cases hstate : current.status.state <;> rw [hstate] at hcurrent <;> simp_all [active, terminal]
  refine ⟨trivial, ?_⟩
  dsimp only
  rw [hstale, if_neg (by simp), if_neg hstate.1, if_neg (by simp), hstate.2, if_neg (by simp)]
  refine obeys_bind (obeys_weaken (updateState_final hidentity hcurrent) ?_)
  rintro _ u ⟨rfl, hended⟩
  exact ⟨rfl, hended⟩

theorem failPermanently_final {reason rootCause : String} (hactive : Active record w) :
    Obeys (undisturbed c record) (fun r u => r = .ok () ∧ Final record.identity u)
      (failPermanently cfg record reason rootCause) w := by
  refine obeys_perform ?_
  rintro w₁ ⟨-, h₁⟩ now _ ⟨hclock, -⟩
  cases executes_reads rfl hclock
  refine ⟨trivial, obeys_bind (obeys_weaken (transition_final (h₁ hactive)) ?_)⟩
  rintro _ w₂ ⟨rfl, hended⟩
  refine obeys_perform ?_
  rintro w₃ ⟨h₃, -⟩ _ _ ⟨hclock, -⟩
  cases executes_reads rfl hclock
  refine ⟨trivial, ?_⟩
  rintro w₄ ⟨h₄, -⟩ _ w₅ ⟨hcomplete, rfl⟩
  obtain ⟨houtcomes, hrow⟩ := completeDispatch_failed hcomplete
  refine ⟨trivial, rfl, ?_, hrow⟩
  rw [houtcomes]
  exact h₄ (h₃ hended)

end

variable {c : Settings S} {cfg : Config} {record : Record} {current : Job S} {e cause : Fault}

/-- A tick that begins with the row CLAIMED and whose dispatcher returns a permanent error ends with the execution
and its dispatch FAILED. -/
theorem claimed_rejection_final {events : List (Σ e, Answer (S := S) e)} {now : Time} (hphase : record.phase = .claimed)
    (hcurrent : jobIdentity current = record.identity) (hdesired : current.status.desired = .running)
    (hstate : current.status.state = .initializing ∨ current.status.state = .running)
    (hreconcile : Reaches (ExecutionDispatcher.reconcile c current { record with phase := .starting }) events
      (.done (.error e))) (hpermanent : e.permanent? = some cause) :
    ∃ rest, Reaches (reconcile c cfg record) (⟨.getJob record.key, .ok current⟩ :: ⟨.clock, now⟩ ::
        ⟨.updateDispatch record.identity cfg.ownerID .starting "" cfg.leaseDuration now, .ok ()⟩ :: events) rest ∧
      ∀ w, Active record w → Obeys (undisturbed c record) (fun r u => r = .ok () ∧ Final record.identity u) rest w := by
  have hstale : stale record current = false := by simp [stale, ← hcurrent, jobIdentity]
  have hterminal : phaseForTerminalState current.status.state = none := by
    rcases hstate with hstate | hstate <;> rw [hstate] <;> rfl
  have hrun : current.status.desired ≠ .stopped ∧ current.status.state ≠ .canceling := by
    rcases hstate with hstate | hstate <;> simp [hstate, hdesired]
  refine ⟨failPermanently cfg { record with phase := .starting } "DispatchRejected" cause.text, ?_, fun w hw =>
    failPermanently_final hw⟩
  refine .call _ ?_
  change Reaches (if stale record current = true then _ else _) _ _
  rw [hstale, if_neg (by simp), hterminal]
  dsimp only
  rw [if_neg (by simp [hrun]), if_neg (by simpa [hdesired] using fun h => hstate.resolve_left h), if_neg (by simp [hphase])]
  unfold SchedulerReconciler.work
  simp only [hphase, decide_true, if_true]
  refine .call _ (.call _ ?_)
  have hfailed : dispatchFailed c cfg { record with phase := .starting } true e =
      failPermanently cfg { record with phase := .starting } "DispatchRejected" cause.text := by
    simp only [dispatchFailed, if_true, hpermanent]
  change Reaches (dispatch c cfg { record with phase := .starting } true current) events _
  rw [← hfailed]
  exact reaches_bind hreconcile _

def rejecting : Settings Unit := { plainSettings with document := fun _ => .error "spec" }

def runningJob : Job Unit :=
  let j := new sampleKey sampleUID () 5
  { j with status := { j.status with desired := .running, state := .running, epoch := 1 } }

def tokenless : Record := ⟨execution, sampleKey, schedulerA.ownerID, .claimed, 35, none, [], 1, "", 20, 20⟩

theorem claimed_rejection_final_token :
    ∃ rest, Reaches (reconcile plainSettings schedulerA tokenless) [⟨.getJob sampleKey, .ok runningJob⟩, ⟨.clock, 21⟩,
        ⟨.updateDispatch execution schedulerA.ownerID .starting "" schedulerA.leaseDuration 21, .ok ()⟩] rest ∧
      ∀ w, Active tokenless w → Obeys (undisturbed plainSettings tokenless) (fun r u => r = .ok () ∧ Final execution u) rest w := by
  have hrefused : Reaches (ExecutionDispatcher.reconcile plainSettings runningJob { tokenless with phase := .starting }) []
      (.done (.error (.permanent (.other "dispatch heartbeat token must be a UUID")))) := .refl _
  exact claimed_rejection_final rfl rfl rfl (.inr rfl) hrefused rfl

def rejectedByB : List (Event Unit) :=
  claimedByA ++ answered schedulerA 1 ++ [clockAt schedulerA 21] ++ answered schedulerA 1 ++
    [.crash schedulerA.ownerID, .tick schedulerB 50 sampleToken] ++ answered schedulerB 1 ++ [clockAt schedulerB 51] ++
    answered schedulerB 1 ++ [clockAt schedulerB 52, clockAt schedulerB 53] ++ answered schedulerB 1

theorem starting_rejection_kept :
    (run (step rejecting 1) (start []) rejectedByB).map (fun s => ((s.replicas schedulerB.ownerID).map (·.program.finished),
        s.world.db.jobs.map (·.status.state), s.world.db.rows.map (·.phase))) =
      some ([true], [.initializing], [.starting]) := by
  decide +kernel

end AstraSync.DispatchRejections
