import AstraSync.SchedulerFleet

namespace AstraSync.ExecutionEpochs

open ByteStrings JobLifecycle DispatchStore DispatchDatabase SchedulerWorld DispatchLedger
open SchedulerReconciler ReconcilerRules SchedulerFleet Transitions

variable {S : Type}

def activeExecution (rows : Table) (uid : Bytes) : Bool := rows.any fun r => r.identity.jobUID = uid && r.phase.active

def startsAlone (s : SchedulerFleet.State S) : Event S → Bool
  | .createJob key uid spec now => fresh s (.createJob key uid spec now)
  | .request key .start now =>
    match JobTable.find s.world.db.jobs key with
    | some j => !opens j now || !activeExecution s.world.db.rows j.uid
    | none => true
  | _ => true

def Current (l : Ledger S) : Prop :=
  ∀ r ∈ l.db.rows, r.phase.active = true → ∀ j ∈ l.db.jobs, j.uid = r.identity.jobUID →
    j.status.epoch = r.identity.epoch

def Concluded (l : Ledger S) : Prop :=
  ∀ r ∈ l.db.rows, r.phase.active = false →
    ∃ state, Ended r.identity state l ∧ phaseForTerminalState state = some r.phase

structure Inv (c : Settings S) (maxActive : ℤ) (s : SchedulerFleet.State S) : Prop where
  fleet : SchedulerFleet.Inv c maxActive s
  current : Current (ledger s.world)
  concluded : Concluded (ledger s.world)

theorem opening_alone {s : SchedulerFleet.State S} {e : Event S} {j : Job S} (halone : startsAlone s e = true)
    (h : Opening s e j) : ∀ r ∈ s.world.db.rows, r.identity.jobUID = j.uid → r.phase.active = false := by
  obtain ⟨key, now, rfl, hfind, hopens⟩ := h
  simp only [startsAlone, hfind, hopens, Bool.not_true, Bool.false_or, Bool.not_eq_true', activeExecution,
    List.any_eq_false, Bool.and_eq_true, decide_eq_true_eq, not_and, Bool.not_eq_true] at halone
  exact halone

section

variable {c : Settings S} {maxActive : ℤ} {s t : SchedulerFleet.State S} {e : Event S}

section

variable (h : Inv c maxActive s)

include h

section

variable (halone : startsAlone s e = true)

include halone

section

variable (hstep : Step c maxActive e s t)

include hstep

theorem epoch_kept {r : Record} (hr : r ∈ s.world.db.rows) (hactive : r.phase.active = true) {j' : Job S}
    (hj' : j' ∈ t.world.db.jobs) (huid : j'.uid = r.identity.jobUID) : j'.status.epoch = r.identity.epoch := by
  have hknown := (h.fleet.sound.db.wellFormed _ (h.fleet.sound.db.rows_claimed r hr)).2
  obtain ⟨j, hj, hjuid, hepoch | hopening⟩ := hstep.epochs j' hj' (huid ▸ hknown)
  · rw [hepoch]
    exact h.current r hr hactive j hj (hjuid.trans huid)
  · grind [opening_alone]

theorem current_step : Current (ledger t.world) := by
  intro r' hr' hactive j' hj' huid
  rcases hstep.rows r' hr' with ⟨r, hr, hrow⟩ | hnew
  · have hidentity := hrow.later.identity
    have hractive : r.phase.active = true := by
      by_contra hinactive
      rw [Bool.not_eq_true] at hinactive
      rw [hrow.later.ended hinactive, hinactive] at hactive
      cases hactive
    rw [hidentity] at huid ⊢
    exact epoch_kept h halone hstep hr hractive hj' huid
  · obtain ⟨-, j, hj, hid⟩ := hstep.claims r' hr' hnew
    rw [← hid] at huid ⊢
    cases hstep.inv.sound.jobs.eq_of_uid hj' hj huid
    rfl

theorem concluded_step : Concluded (ledger t.world) := by
  intro r' hr' hinactive
  -- a row that had ended before, and one that ends now
  have hold : r' ∈ s.world.db.rows →
      ∃ state, Ended r'.identity state (ledger t.world) ∧ phaseForTerminalState state = some r'.phase := by
    intro hr
    obtain ⟨state, hended, hphase⟩ := h.concluded r' hr hinactive
    have hknown := (h.fleet.sound.db.wellFormed _ (h.fleet.sound.db.rows_claimed r' hr)).2
    exact ⟨state, hended.later hstep.later hknown fun j hj huid => (h.fleet.sound.job_of_uid hr hj huid).2, hphase⟩
  rcases hstep.settled r' hr' hinactive with hr | hpassed | hended
  · exact hold hr
  · rcases hstep.rows r' hr' with ⟨r, hr, hrow⟩ | hnew
    · by_cases hactive : r.phase.active = true
      · obtain ⟨j, hj, huid, -, hepoch⟩ := hstep.inv.sound.owned r' hr'
        have hkept := epoch_kept h halone hstep hr hactive hj (huid.trans (congrArg _ hrow.later.identity))
        have hlt := hpassed j hj huid
        rw [hkept, hrow.later.identity] at hlt
        exact (Int64.lt_irrefl hlt).elim
      · rw [Bool.not_eq_true] at hactive
        apply hold
        rw [hrow.later.ended hactive]
        exact hr
    · rw [(hstep.claims r' hr' hnew).1] at hinactive
      cases hinactive
  · exact hended

end

theorem step_inv (ht : step c maxActive s e = some t) : Inv c maxActive t :=
  have hstep := step_step h.fleet (by cases e <;> first | rfl | exact halone) ht
  ⟨hstep.inv, current_step h halone hstep, concluded_step h halone hstep⟩

end

end

end

section

variable {c : Settings S} {maxActive : ℤ} {bindings : List Binding} {events : List (Event S)}
  {s : SchedulerFleet.State S}

theorem run_inv (halone : meets (step c maxActive) startsAlone (start bindings) events = true)
    (hs : run (step c maxActive) (start bindings) events = some s) : Inv c maxActive s := by
  refine run_invariant (fun _ _ _ h halone ht => step_inv h halone ht)
    ⟨start_inv c maxActive bindings, ?_, ?_⟩ halone hs
  · intro r hr
    cases hr
  · intro r hr
    cases hr

/-- There is at most one active execution of each job. -/
theorem run_one_active (halone : meets (step c maxActive) startsAlone (start bindings) events = true)
    (hs : run (step c maxActive) (start bindings) events = some s) :
    ∀ r ∈ s.world.db.rows, ∀ q ∈ s.world.db.rows, r.phase.active = true → q.phase.active = true →
      r.identity.jobUID = q.identity.jobUID → r = q := by
  intro r hr q hq hractive hqactive huid
  have h := run_inv halone hs
  obtain ⟨j, hj, hjuid, -⟩ := h.fleet.sound.owned r hr
  have hrepoch := h.current r hr hractive j hj hjuid
  have hqepoch := h.current q hq hqactive j hj (hjuid.trans huid)
  apply List.inj_on_of_nodup_map h.fleet.sound.identities hr hq
  cases hid : r.identity
  cases hid' : q.identity
  rw [hid] at huid hrepoch
  rw [hid'] at huid hqepoch
  cases huid
  cases hrepoch.symm.trans hqepoch
  rfl

/-- A row that has ended is in the phase of every terminal state its job reached in that epoch. -/
theorem run_outcomes (halone : meets (step c maxActive) startsAlone (start bindings) events = true)
    (hs : run (step c maxActive) (start bindings) events = some s) :
    ∀ r ∈ s.world.db.rows, r.phase.terminal = true → ∀ p ∈ s.world.outcomes, p.1 = r.identity →
      phaseForTerminalState p.2 = some r.phase := by
  intro r hr hterminal p hp hid
  obtain ⟨state, hended, hphase⟩ := (run_inv halone hs).concluded r hr (terminal_inactive hterminal)
  rw [hended.outcomes p hp hid]
  exact hphase

end

def disabledSettings : Settings Unit := { sampleSettings with materializes := false }

def broughtUp : List (Event Unit) :=
  claimedByA ++ answered schedulerA 1 ++ [clockAt schedulerA 21] ++ answered schedulerA 8 ++
    [clockAt schedulerA 22, clockAt schedulerA 23] ++ answered schedulerA 1

/-- On its next tick it finds the heartbeat expired, and fails the job before it stops the execution. The user
starts the job again, and the other replica claims the new epoch. -/
def restartedWhileStopping : List (Event Unit) :=
  broughtUp ++ [.tick schedulerA 100 sampleToken] ++ answered schedulerA 1 ++ [clockAt schedulerA 101] ++
    answered schedulerA 5 ++ [clockAt schedulerA 102, clockAt schedulerA 103] ++ answered schedulerA 2 ++
    [clockAt schedulerA 104] ++ answered schedulerA 1 ++
    [.request sampleKey .start 105, .tick schedulerB 106 sampleToken]

theorem restarted_two_active : ∃ s, run (step plainSettings 2) (start []) restartedWhileStopping = some s ∧
      s.world.db.rows.map (fun r => (r.identity, r.phase)) =
        [(⟨sampleUID, 1⟩, .stopping), (⟨sampleUID, 2⟩, .claimed)] := by
  have hrun : (run (step plainSettings 2) (start []) restartedWhileStopping).map
      (fun s => s.world.db.rows.map fun r => (r.identity, r.phase)) =
      some [(⟨sampleUID, 1⟩, .stopping), (⟨sampleUID, 2⟩, .claimed)] := by decide +kernel
  exact Option.map_eq_some_iff.mp hrun

def rejected : List (Event Unit) :=
  claimedByA ++ answered schedulerA 1 ++ [clockAt schedulerA 21] ++ answered schedulerA 1 ++ [clockAt schedulerA 22] ++
    answered schedulerA 1 ++ [clockAt schedulerA 23] ++ answered schedulerA 1

def restartedAfterCrash : List (Event Unit) :=
  rejected ++ [.crash schedulerA.ownerID, .request sampleKey .start 30, .tick schedulerB 100 sampleToken] ++
    answered schedulerB 12 ++ [clockAt schedulerB 101] ++ answered schedulerB 1

/-- The old row ends as canceled, while the job had failed in that epoch. -/
theorem failed_canceled : ∃ s, run (step disabledSettings 1) (start []) restartedAfterCrash = some s ∧
      s.world.outcomes = [(execution, .failed)] ∧
      s.world.db.rows.map (fun r => (r.identity, r.phase)) = [(execution, .canceled)] := by
  have hrun : (run (step disabledSettings 1) (start []) restartedAfterCrash).map
      (fun s => (s.world.outcomes, s.world.db.rows.map fun r => (r.identity, r.phase))) =
      some ([(execution, .failed)], [(execution, .canceled)]) := by decide +kernel
  obtain ⟨s, hs, hrows⟩ := Option.map_eq_some_iff.mp hrun
  obtain ⟨houtcomes, hrows⟩ := Prod.mk.inj hrows
  exact ⟨s, hs, houtcomes, hrows⟩

def restartedAfterEnd : List (Event Unit) :=
  rejected ++ [clockAt schedulerA 24] ++ answered schedulerA 1 ++
    [.request sampleKey .start 30, .tick schedulerB 100 sampleToken]

theorem run_one_active_restarted : ∃ s, run (step disabledSettings 1) (start []) restartedAfterEnd = some s ∧
      s.world.db.rows.map (fun r => (r.identity, r.phase)) =
        [(⟨sampleUID, 1⟩, .failed), (⟨sampleUID, 2⟩, .claimed)] ∧
      ∀ r ∈ s.world.db.rows, ∀ q ∈ s.world.db.rows, r.phase.active = true → q.phase.active = true →
        r.identity.jobUID = q.identity.jobUID → r = q := by
  have hrun : (run (step disabledSettings 1) (start []) restartedAfterEnd).map
      (fun s => s.world.db.rows.map fun r => (r.identity, r.phase)) =
      some [(⟨sampleUID, 1⟩, .failed), (⟨sampleUID, 2⟩, .claimed)] := by decide +kernel
  obtain ⟨s, hs, hrows⟩ := Option.map_eq_some_iff.mp hrun
  exact ⟨s, hs, hrows, run_one_active (by decide +kernel) hs⟩

theorem run_outcomes_restarted : ∃ s, run (step disabledSettings 1) (start []) restartedAfterEnd = some s ∧
      s.world.outcomes = [(execution, .failed)] ∧
      ∀ r ∈ s.world.db.rows, r.phase.terminal = true → ∀ p ∈ s.world.outcomes, p.1 = r.identity →
        phaseForTerminalState p.2 = some r.phase := by
  have hrun : (run (step disabledSettings 1) (start []) restartedAfterEnd).map (fun s => s.world.outcomes) =
      some [(execution, .failed)] := by decide +kernel
  obtain ⟨s, hs, houtcomes⟩ := Option.map_eq_some_iff.mp hrun
  exact ⟨s, hs, houtcomes, run_outcomes (by decide +kernel) hs⟩

end AstraSync.ExecutionEpochs
