import AstraSync.WorkerServer

namespace AstraSync.WorkerServer

open Transitions

section

variable {s : Worker} {c d : Connection} {h k : Handler}

def FutureState.isFresh : FutureState → Bool
  | .fresh => true
  | _ => false

def FutureState.isCancelled : FutureState → Bool
  | .cancelled => true
  | _ => false

def TaskState.isExecuting : TaskState → Bool
  | .executing _ => true
  | _ => false

def Executing (s : Worker) (taskId : String) (c : Connection) : Prop :=
  ∃ h, s.handlers c = some h ∧ h.taskId = taskId ∧ h.task.isExecuting = true

def Handler.runnable (h : Handler) : Bool :=
  h.task.isExecuting || (h.task = .pending && h.future.isFresh)

def Handler.live (h : Handler) : Bool := h.runnable || (h.stage = .registered && h.future.isFresh)

def Worker.accepting (s : Worker) : Bool := s.closing = .running || s.closing = .closing

def Handler.releases (h : Handler) : Bool :=
  match h.stage with
  | .woken _ => !h.checkpoint
  | .written _ => true
  | _ => false

/-- While the pool accepts tasks, a cancelled task is released only once its execution has ended, and the registry is
cleared only of tasks that no longer execute and no longer can. -/
def settled (s : Worker) : Event → Bool
  | .handle c => !s.accepting || !(s.handlers c).any fun h => h.releases && h.future.isCancelled && h.task.isExecuting
  | .closeRemove taskId => !s.accepting || !((s.activeTasks taskId).bind s.handlers).any Handler.live
  | _ => true

structure Handler.Sound (phase : Closing) (h : Handler) : Prop where
  done : ∀ result, h.future = .done result → h.task = .ended
  early : h.stage = .received ∨ h.stage = .activated ∨ h.stage = .registered ∨ h.stage = .refused →
    h.task = .unsubmitted
  woken : h.future = .fresh → (h.releases = true ∨ ∃ response, h.stage = .woken response) → phase = .stopped

structure Exclusive (s : Worker) : Prop where
  sound : ∀ c h, s.handlers c = some h → h.Sound s.closing
  held : s.accepting = true → ∀ c h, s.handlers c = some h → h.live = true → s.activeTasks h.taskId = some c
  once : ∀ c d h k, s.handlers c = some h → s.handlers d = some k → h.runnable = true → k.runnable = true →
    h.taskId = k.taskId → c = d

theorem runnable_live (hr : h.runnable = true) : h.live = true := by simp [Handler.live, hr]

theorem exclusive_initial : Exclusive initial where
  sound _ _ hc := by cases hc
  held _ _ _ hc := by cases hc
  once _ _ _ _ hc := by cases hc

namespace Exclusive

section

variable (e : Exclusive s)

include e

theorem sound_put (hs : k.Sound s.closing) : ∀ d h', (put s c k).handlers d = some h' → h'.Sound s.closing := by
  grind [Exclusive, put_handlers]

theorem once_put (hid : k.runnable = true → ∃ h, s.handlers c = some h ∧ k.taskId = h.taskId ∧
      (h.runnable = true ∨ s.accepting = true ∧ h.live = true)) :
    ∀ a b x y, (put s c k).handlers a = some x → (put s c k).handlers b = some y → x.runnable = true →
      y.runnable = true → x.taskId = y.taskId → a = b := by
  grind [Exclusive, runnable_live, put_handlers]

theorem put (hc : s.handlers c = some h) (hid : k.taskId = h.taskId) (hs : k.Sound s.closing)
    (hlive : k.live = true → h.live = true)
    (hrun : k.runnable = true → h.runnable = true ∨ s.accepting = true) : Exclusive (put s c k) where
  sound := e.sound_put hs
  held ha d h' hd hl := by
    rcases put_handlers.mp hd with ⟨rfl, rfl⟩ | ⟨-, hd⟩
    · exact hid ▸ e.held ha _ h hc (hlive hl)
    · exact e.held ha d h' hd hl
  once := e.once_put fun hk => ⟨h, hc, hid, (hrun hk).imp id fun ha => ⟨ha, hlive (runnable_live hk)⟩⟩

theorem put_dead (hs : k.Sound s.closing) (hdead : k.live = false) : Exclusive (WorkerServer.put s c k) where
  sound := e.sound_put hs
  held ha d h' hd hl := by
    rcases put_handlers.mp hd with ⟨rfl, rfl⟩ | ⟨-, hd⟩
    · simp [hdead] at hl
    · exact e.held ha d h' hd hl
  once := e.once_put fun hk => by simp [runnable_live hk] at hdead

theorem register {h : Handler} (hfree : s.activeTasks h.taskId = none)
    (hs : h.Sound s.closing) (hrun : h.runnable = false) :
    Exclusive (WorkerServer.put (WorkerServer.register s c h.taskId) c h) where
  sound := e.sound_put hs
  held ha d k hd hl := by
    rcases put_handlers.mp hd with ⟨rfl, rfl⟩ | ⟨-, hd⟩
    · exact Function.update_self ..
    · have hheld := e.held ha d k hd hl
      have hne : k.taskId ≠ h.taskId := by
        grind
      exact (Function.update_of_ne hne _ _).trans hheld
  once := e.once_put fun hk => by simp [hrun] at hk

theorem remove (taskId : String)
    (hdead : s.accepting = true → ∀ h, s.handlers c = some h → h.live = false) : Exclusive (remove s c taskId) := by
  unfold WorkerServer.remove
  split
  · next hc =>
    refine ⟨e.sound, ?_, e.once⟩
    intro ha d k hd hl
    have hheld := e.held ha d k hd hl
    have hne : k.taskId ≠ taskId := by
      intro heq
      rw [heq, hc] at hheld
      obtain rfl := Option.some.inj hheld
      simp [hdead ha k hd] at hl
    exact (Function.update_of_ne hne _ _).trans hheld
  · exact e

theorem activate (jobId : String) (executionEpoch : ℤ) : Exclusive (WorkerServer.activate s jobId executionEpoch) :=
  ⟨e.sound, e.held, e.once⟩

end

theorem live_cancelled {request : WorkerRequest} {stage : Stage} {task : TaskState} {future : FutureState}
    (hl : (⟨request, stage, .cancelled, task⟩ : Handler).live = true) :
    (⟨request, stage, future, task⟩ : Handler).runnable = true := by
  simp [Handler.live, Handler.runnable, FutureState.isFresh] at hl
  simp [Handler.runnable, hl]

section

variable (e : Exclusive s)

include e

theorem cancelFuture (target : Connection) : Exclusive (cancelFuture s target).1 := by
  unfold WorkerServer.cancelFuture
  split
  · next request stage task hc =>
    have hs := e.sound target _ hc
    refine e.put (k := ⟨request, stage, .cancelled, task⟩) hc rfl ⟨nofun, hs.early, nofun⟩ ?_ ?_
    · intro hl
      exact runnable_live (live_cancelled hl)
    · intro hr
      exact Or.inl (live_cancelled (runnable_live hr))
  · exact e

section

variable (hc : s.handlers c = some h)

include hc

theorem advance {stage : Stage} (hstage : stage ≠ .registered)
    (hs : ({ h with stage } : Handler).Sound s.closing) : Exclusive (WorkerServer.put s c { h with stage }) := by
  have hlive : ({ h with stage } : Handler).live = h.runnable := by
    simp [Handler.live, Handler.runnable, hstage]
  refine e.put hc rfl hs ?_ Or.inl
  rw [hlive]
  exact runnable_live

theorem answer (response : WorkerResponse) : Exclusive (answer s c h response) :=
  e.advance hc nofun ⟨(e.sound c h hc).done, nofun, by simp [Handler.releases]⟩

theorem putIfAbsent (htask : h.task = .unsubmitted) : Exclusive (putIfAbsent s c h) := by
  unfold WorkerServer.putIfAbsent
  split
  · exact e.answer hc _
  · next hfree =>
    refine e.register (h := { h with stage := .registered }) hfree ⟨?_, fun _ => htask, ?_⟩ ?_
    · exact (e.sound c h hc).done
    · simp [Handler.releases]
    · simp [Handler.runnable, htask, TaskState.isExecuting]

theorem dispatch (hstage : h.stage = .received) (workerId : String) : Exclusive (dispatch s c workerId h) := by
  have hs := e.sound c h hc
  have htask := hs.early (Or.inl hstage)
  unfold WorkerServer.dispatch
  split
  · next r _ =>
    unfold executeCheckpointWithContext
    split
    · exact e.answer hc _
    split
    · exact e.answer hc _
    · refine (e.activate _ _).advance hc nofun ⟨hs.done, fun _ => htask, ?_⟩
      simp [Handler.releases]
  · split
    · exact e.answer hc _
    split
    · unfold executeWithContext
      split
      · exact e.answer hc _
      · exact e.putIfAbsent hc htask
    · unfold cancel
      split
      · exact e.answer hc _
      split
      · exact e.answer hc _
      · refine e.advance hc nofun ⟨hs.done, nofun, ?_⟩
        simp [Handler.releases]
    all_goals exact e.answer hc _

theorem cancelFound (d : Connection) : Exclusive (cancelFound s c h d) := by
  unfold WorkerServer.cancelFound
  dsimp only
  by_cases hd : c = d
  · subst hd
    rw [answer_cancelFuture]
    exact e.answer hc _
  · exact (e.cancelFuture d).answer ((cancelFuture_other hd).trans hc) _

theorem remove_answer (hdead : s.accepting = true → h.live = false)
    (response : WorkerResponse) : Exclusive (WorkerServer.answer (WorkerServer.remove s c h.taskId) c h response) := by
  refine (e.remove h.taskId ?_).answer (by rw [remove_handlers, hc]) _
  intro ha k hk
  obtain rfl := Option.some.inj (hc.symm.trans hk)
  exact hdead ha

theorem dead_of_settled (hreleases : h.releases = true)
    (hsettled : settled s (.handle c) = true) (ha : s.accepting = true) : h.live = false := by
  have hs := e.sound c h hc
  have hstage : h.stage ≠ .registered := by
    intro heq
    simp [Handler.releases, heq] at hreleases
  have hexec : h.future.isCancelled = true → h.task.isExecuting = false := by
    intro hcancelled
    simpa [settled, ha, hc, hreleases, hcancelled] using hsettled
  cases hfuture : h.future with
  | fresh =>
    have hstopped := hs.woken hfuture (Or.inl hreleases)
    simp [Worker.accepting, hstopped] at ha
  | done result =>
    simp [Handler.live, Handler.runnable, hs.done result hfuture, hstage, TaskState.isExecuting]
  | cancelled => grind [FutureState.isCancelled, Handler.live, Handler.runnable, FutureState.isFresh]

end

end

variable {workerId : String} {t : Worker}

section

variable (e : Exclusive s)

include e

section

variable (hc : s.handlers c = some h)

include hc

theorem handle (hsettled : settled s (.handle c) = true) (hstep : handle s c workerId h = some t) : Exclusive t := by
  have hs := e.sound c h hc
  unfold WorkerServer.handle at hstep
  split at hstep
  · next hstage => cases hstep; exact e.dispatch hc hstage workerId
  · next hstage => cases hstep; exact e.putIfAbsent hc (hs.early (by simp [hstage]))
  · next target hstage => cases hstep; exact e.cancelFound hc target
  · next hstage =>
    cases hstep
    refine e.remove_answer hc (fun _ => ?_) _
    simp [Handler.live, Handler.runnable, hs.early (by simp [hstage]), hstage, TaskState.isExecuting]
  · next hstage =>
    obtain ⟨response, hreply, rfl⟩ := Option.map_eq_some_iff.mp hstep
    refine e.advance hc nofun ⟨hs.done, nofun, ?_⟩
    intro hfresh
    simp only at hfresh
    simp [hfresh, replied] at hreply
  · next response hstage =>
    cases hstep
    split
    · next hcheckpoint =>
      refine e.advance hc nofun ⟨hs.done, nofun, ?_⟩
      intro hfresh _
      exact hs.woken hfresh (Or.inr ⟨response, hstage⟩)
    · next hplain =>
      have hreleases : h.releases = true := by simp [Handler.releases, hstage, hplain]
      have hremoved := e.remove (c := c) h.taskId (by
        intro ha k hk
        obtain rfl := Option.some.inj (hc.symm.trans hk)
        exact e.dead_of_settled hc hreleases hsettled ha)
      refine hremoved.advance (by rw [remove_handlers, hc]) nofun ⟨hs.done, nofun, ?_⟩
      simp [Handler.releases]
  · cases hstep; exact e.answer hc _
  · next response hstage =>
    cases hstep
    refine e.remove_answer hc (e.dead_of_settled hc ?_ hsettled) _
    simp [Handler.releases, hstage]
  · cases hstep
  · cases hstep

theorem submit {accepted : Bool} (hstep : submit s c accepted h = some t) : Exclusive t := by
  have hs := e.sound c h hc
  unfold WorkerServer.submit at hstep
  split at hstep
  · next hstage =>
    have htask := hs.early (by simp [hstage])
    split at hstep
    · split at hstep
      · next ha =>
        cases hstep
        refine e.put hc rfl ⟨?_, nofun, by simp [Handler.releases]⟩ ?_ ?_
        · intro result hdone
          have := hs.done result hdone
          simp [htask] at this
        · grind [Handler.live, Handler.runnable, TaskState.isExecuting]
        · intro _
          right
          simpa [Worker.accepting] using ha
      · cases hstep
    · cases hstep
      exact e.advance hc nofun ⟨hs.done, fun _ => htask, by simp [Handler.releases]⟩
  · cases hstep

theorem progress {future : FutureState} {task : TaskState}
    (htask : h.task ≠ .unsubmitted) (hdone : ∀ result, future = .done result → task = .ended)
    (hfresh : future = .fresh → h.future = .fresh)
    (hrun : ({ h with future, task } : Handler).runnable = true → h.runnable = true) :
    Exclusive (WorkerServer.put s c { h with future, task }) := by
  have hs := e.sound c h hc
  have hstage : h.stage ≠ .registered := fun heq => htask (hs.early (by simp [heq]))
  refine e.put hc rfl ⟨hdone, fun hearly => absurd (hs.early hearly) htask, ?_⟩ ?_ (Or.inl ∘ hrun)
  · intro hf
    exact hs.woken (hfresh hf)
  · grind [runnable_live, Handler.live]

theorem start (hstep : start s c h = some t) : Exclusive t := by
  unfold WorkerServer.start at hstep
  split at hstep
  · next htask =>
    cases hstep
    have hdone := (e.sound c h hc).done
    apply e.progress hc (by simp [htask])
    · grind
    · exact id
    · grind [Handler.runnable, TaskState.isExecuting, FutureState.isFresh]
  · cases hstep

theorem finish {checkpoints : Bool}
    {conduct : Conduct} (hstep : finish s c workerId checkpoints conduct h = some t) : Exclusive t := by
  unfold WorkerServer.finish at hstep
  split at hstep
  · next htask =>
    obtain ⟨result, -, rfl⟩ := Option.map_eq_some_iff.mp hstep
    apply e.progress hc (by simp [htask])
    · simp
    · cases hfuture : h.future <;> simp
    · simp [Handler.runnable, TaskState.isExecuting]
  · cases hstep

theorem interrupt (hstep : interrupt s c h = some t) : Exclusive t := by
  unfold WorkerServer.interrupt at hstep
  split at hstep
  · split at hstep
    · next hstopped =>
      cases hstep
      exact e.advance hc nofun ⟨(e.sound c h hc).done, nofun, fun _ _ => hstopped⟩
    · cases hstep
  · cases hstep

end

theorem receive (request : WorkerRequest) :
    Exclusive (WorkerServer.put s c ⟨request, .received, .fresh, .unsubmitted⟩) := by
  apply e.put_dead
  · exact ⟨nofun, fun _ => rfl, by simp [Handler.releases]⟩
  · rfl

theorem closed {phase : Closing} (haccepting : ({ s with closing := phase } : Worker).accepting = true →
      s.accepting = true) (hstopped : s.closing = .stopped → phase = .stopped) :
    Exclusive { s with closing := phase } where
  sound c h hc :=
    have hs := e.sound c h hc
    ⟨hs.done, hs.early, fun hfresh hwoken => hstopped (hs.woken hfresh hwoken)⟩
  held ha := e.held (haccepting ha)
  once := e.once

theorem closeRemove {taskId : String} (hsettled : settled s (.closeRemove taskId) = true) :
    Exclusive { s with activeTasks := Function.update s.activeTasks taskId none } where
  sound := e.sound
  held ha d k hd hl := by
    have hheld := e.held ha d k hd hl
    have hne : k.taskId ≠ taskId := by
      rintro rfl
      replace ha : s.accepting = true := ha
      replace hd : s.handlers d = some k := hd
      simp [settled, ha, hheld, hd, hl] at hsettled
    exact (Function.update_of_ne hne _ _).trans hheld
  once := e.once

end

theorem step {checkpoints : Bool} (s : Worker) (event : Event) (t : Worker) (e : Exclusive s)
    (hsettled : settled s event = true) (hstep : step workerId checkpoints s event = some t) : Exclusive t := by
  unfold WorkerServer.step at hstep
  split at hstep
  · split at hstep
    · split at hstep
      · cases hstep
      · cases hstep; exact e.receive _
    · cases hstep
  · obtain ⟨h, hc, hstep⟩ := Option.bind_eq_some_iff.mp hstep
    exact e.handle hc hsettled hstep
  · obtain ⟨h, hc, hstep⟩ := Option.bind_eq_some_iff.mp hstep
    exact e.submit hc hstep
  · obtain ⟨h, hc, hstep⟩ := Option.bind_eq_some_iff.mp hstep
    exact e.start hc hstep
  · obtain ⟨h, hc, hstep⟩ := Option.bind_eq_some_iff.mp hstep
    exact e.finish hc hstep
  · obtain ⟨h, hc, hstep⟩ := Option.bind_eq_some_iff.mp hstep
    exact e.interrupt hc hstep
  · split at hstep
    · next hrunning =>
      cases hstep
      exact e.closed (by simp [Worker.accepting, hrunning]) (by simp [hrunning])
    · cases hstep; exact e
  · split at hstep
    · cases hstep
    · cases hstep; exact e.cancelFuture _
  · split at hstep
    · cases hstep
    · cases hstep; exact e.closeRemove hsettled
  · split at hstep
    · next hclosing =>
      cases hstep
      exact e.closed (by simp [Worker.accepting]) (by simp [hclosing])
    · cases hstep
  · split at hstep
    · cases hstep
      exact e.closed (by simp [Worker.accepting]) fun _ => rfl
    · cases hstep

end Exclusive

end

theorem run_exclusive {workerId : String} {checkpoints : Bool} {events : List Event} {s : Worker}
    (hrun : run (step workerId checkpoints) initial events = some s)
    (hsettled : meets (step workerId checkpoints) settled initial events = true) {taskId : String} {c d : Connection}
    (hc : Executing s taskId c) (hd : Executing s taskId d) : c = d := by
  have e : Exclusive s := run_invariant Exclusive.step exclusive_initial hsettled hrun
  obtain ⟨h, hc, rfl, hh⟩ := hc
  obtain ⟨k, hd, hid, hk⟩ := hd
  exact e.once c d h k hc hd (by simp [Handler.runnable, hh]) (by simp [Handler.runnable, hk]) hid.symm

def splitRequest : WorkerRequest where
  protocolVersion := currentVersion
  operation := .executeTask {
    workerId := "worker-1"
    taskId := "split-1"
    split := some ⟨"split-1", "orders", [], []⟩
    maxBatchRecords := 100
    maxInFlightBatches := 2
    adaptiveBatch := none
    spill := none
    jobId := "job-a" }

def cancelRequest : WorkerRequest := ⟨currentVersion, .cancelTask "worker-1" "split-1"⟩

def opened (c : Connection) : List Event := [.receive c splitRequest, .handle c, .submit c true, .start c]

def cancelling (c : Connection) : List Event := [.receive c cancelRequest, .handle c, .handle c]

def leaving (c : Connection) : List Event := [.handle c, .handle c, .handle c]

def failing : Conduct := ⟨.error (.runtime ⟨"java.lang.RuntimeException", none⟩), .error (.runtime ⟨"", none⟩)⟩

def first : Connection := ⟨"job-a", 1⟩

def second : Connection := ⟨"job-a", 2⟩

def third : Connection := ⟨"job-a", 3⟩

def retried : List Event := opened first ++ cancelling second ++ .finish first failing :: leaving first ++ opened third

theorem run_exclusive_retried : ∃ s, run (step "worker-1" true) initial retried = some s ∧ Executing s "split-1" third ∧
      ∀ c, Executing s "split-1" c → c = third := by
  have hrun : run (step "worker-1" true) initial retried = some _ := rfl
  refine ⟨_, hrun, ⟨_, rfl, rfl, rfl⟩, ?_⟩
  intro c hc
  exact run_exclusive hrun (by decide +kernel) hc ⟨_, rfl, rfl, rfl⟩

def overlapped : List Event := opened first ++ cancelling second ++ leaving first ++ opened third

theorem executed_twice_at_once :
    ∃ s, run (step "worker-1" true) initial overlapped = some s ∧ Executing s "split-1" first ∧
      Executing s "split-1" third ∧ first ≠ third :=
  ⟨_, rfl, ⟨_, rfl, rfl, rfl⟩, ⟨_, rfl, rfl, rfl⟩, by decide⟩

end AstraSync.WorkerServer
