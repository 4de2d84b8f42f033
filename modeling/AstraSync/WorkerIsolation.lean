import AstraSync.WorkerServer

/-!
What the requests of one job can tell of the requests of the others. The registry of active tasks is shared and keyed by
task id alone, so jobs are separate as long as they name different tasks.
-/

namespace AstraSync.WorkerServer

open Transitions

section

variable {job : String} {s : Worker} {c d : Connection} {h : Handler} {taskId : String}

def view (job : String) (s : Worker) : Worker where
  handlers c := if c.job = job then s.handlers c else none
  activeTasks taskId := (s.activeTasks taskId).filter fun c => c.job = job
  activeEpochs jobId := if jobId = job then s.activeEpochs jobId else 0
  closing := s.closing

def concerns (job : String) : Event → Bool
  | .receive c _ | .handle c | .submit c _ | .start c | .finish c _ | .interrupt c | .closeCancel c => c.job = job
  | .close | .closeRemove _ | .closeTasks | .closeConnections => true

theorem view_initial (job : String) : view job initial = initial := by
  simp [view, initial]

theorem view_handlers (hc : c.job = job) : (view job s).handlers c = s.handlers c := if_pos hc

theorem view_put (hc : c.job = job) : view job (put s c h) = put (view job s) c h := by
  have hhandlers : (fun d => if d.job = job then (put s c h).handlers d else none) =
      Function.update (view job s).handlers c (some h) := by
    funext d
    by_cases hd : d = c
    · subst hd; simp [put, hc]
    · simp [put, hd, view]
  simp only [view, put] at hhandlers ⊢
  rw [hhandlers]

theorem view_put_other (hc : c.job ≠ job) : view job (put s c h) = view job s := by
  have hhandlers : (fun d => if d.job = job then (put s c h).handlers d else none) = (view job s).handlers := by
    funext d
    by_cases hd : d = c
    · subst hd; simp [hc, view]
    · simp [put, hd, view]
  simp only [view, put] at hhandlers ⊢
  rw [hhandlers]

theorem filter_update (job : String) (s : Worker) (taskId : String) (entry : Option Connection) :
    (fun id => (Function.update s.activeTasks taskId entry id).filter fun c => c.job = job) =
      Function.update (view job s).activeTasks taskId (entry.filter fun c => c.job = job) := by
  grind [view]

theorem view_register (hc : c.job = job) : view job (register s c taskId) = register (view job s) c taskId := by
  have := filter_update job s taskId (some c)
  simp only [Option.filter_some, hc, decide_true, if_true] at this
  simp only [view, register] at this ⊢
  rw [this]

theorem view_register_other (hc : c.job ≠ job) (hfree : s.activeTasks taskId = none) :
    view job (register s c taskId) = view job s := by
  have := filter_update job s taskId (some c)
  have hnone : (view job s).activeTasks taskId = none := by simp [view, hfree]
  rw [Option.filter_some, decide_eq_false hc, if_neg Bool.false_ne_true, ← hnone, Function.update_eq_self] at this
  simp only [view, register] at this ⊢
  rw [this]

theorem view_closeRemove : view job { s with activeTasks := Function.update s.activeTasks taskId none } =
      { view job s with activeTasks := Function.update (view job s).activeTasks taskId none } := by
  have := filter_update job s taskId none
  simp only [view, Option.filter_none] at this ⊢
  rw [this]

theorem view_remove (hc : c.job = job) : view job (remove s c taskId) = remove (view job s) c taskId := by
  have hsame : (view job s).activeTasks taskId = some c ↔ s.activeTasks taskId = some c := by
    simp [view, Option.filter_eq_some_iff, hc]
  unfold remove
  by_cases ha : s.activeTasks taskId = some c
  · rw [if_pos ha, if_pos (hsame.mpr ha)]
    exact view_closeRemove
  · rw [if_neg ha, if_neg (mt hsame.mp ha)]

theorem view_remove_other (hc : c.job ≠ job) : view job (remove s c taskId) = view job s := by
  unfold remove
  split
  · grind [view_closeRemove, Function.update_eq_self, view]
  · rfl

theorem view_activate (executionEpoch : ℤ) :
    view job (activate s job executionEpoch) = activate (view job s) job executionEpoch := by
  have hepochs : (fun jobId => if jobId = job then (activate s job executionEpoch).activeEpochs jobId else 0) =
      Function.update (view job s).activeEpochs job executionEpoch := by
    funext jobId
    by_cases hj : jobId = job
    · subst hj; simp [activate]
    · simp [hj, view]
  simp only [view, activate] at hepochs ⊢
  rw [hepochs]

theorem view_activate_other {jobId : String} (hj : jobId ≠ job) (executionEpoch : ℤ) :
    view job (activate s jobId executionEpoch) = view job s := by
  have hepochs : (fun id => if id = job then (activate s jobId executionEpoch).activeEpochs id else 0) =
      (view job s).activeEpochs := by
    funext id
    by_cases hid : id = job
    · subst hid; simp [activate, view, hj.symm]
    · simp [hid, view]
  simp only [view, activate] at hepochs ⊢
  rw [hepochs]

theorem view_cancelFuture (hd : d.job = job) :
    cancelFuture (view job s) d = (view job (cancelFuture s d).1, (cancelFuture s d).2) := by
  unfold cancelFuture
  rw [view_handlers hd]
  split
  · rw [view_put hd]
  · rfl

theorem view_cancelFuture_other (hd : d.job ≠ job) : view job (cancelFuture s d).1 = view job s := by
  unfold cancelFuture
  split
  · exact view_put_other hd
  · rfl

end

section

def Operation.names : Operation → Option String
  | .executeTask r => some r.taskId
  | .cancelTask _ taskId => some taskId
  | .executeCheckpointTask r => some r.taskId
  | .checkpointAck | .notSet => none

def Operation.jobId : Operation → Option String
  | .executeCheckpointTask r => some r.jobId
  | .executeTask _ | .cancelTask _ _ | .checkpointAck | .notSet => none

variable {job : String} {own : String → Prop} {s t : Worker} {c d : Connection} {h k : Handler} {workerId : String}

structure Apart (job : String) (own : String → Prop) (s : Worker) : Prop where
  named : ∀ c h, s.handlers c = some h → ∀ taskId, h.request.operation.names = some taskId → (own taskId ↔ c.job = job)
  signed : ∀ c h, s.handlers c = some h → ∀ jobId, h.request.operation.jobId = some jobId → jobId = c.job
  active : ∀ taskId c, s.activeTasks taskId = some c → (own taskId ↔ c.job = job)
  found : ∀ c h d, s.handlers c = some h → h.stage = .found d → (d.job = job ↔ c.job = job)
  activated : ∀ c h, s.handlers c = some h → h.stage = .activated → h.request.operation.names = some h.taskId

theorem apart_initial : Apart job own initial where
  named _ _ hc := by cases hc
  signed _ _ hc := by cases hc
  active _ _ hc := by cases hc
  found _ _ _ hc := by cases hc
  activated _ _ hc := by cases hc

namespace Apart

variable (a : Apart job own s)

include a

theorem put (hc : s.handlers c = some h) (hrequest : k.request = h.request)
    (hfound : ∀ d, k.stage = .found d → (d.job = job ↔ c.job = job))
    (hactivated : k.stage = .activated → h.request.operation.names = some h.taskId) : Apart job own (put s c k) where
  named d h' hd := by
    rcases put_handlers.mp hd with ⟨rfl, rfl⟩ | ⟨-, hd⟩
    · rw [hrequest]; exact a.named _ h hc
    · exact a.named d h' hd
  signed d h' hd := by
    rcases put_handlers.mp hd with ⟨rfl, rfl⟩ | ⟨-, hd⟩
    · rw [hrequest]; exact a.signed _ h hc
    · exact a.signed d h' hd
  active := a.active
  found d h' target hd hstage := by
    rcases put_handlers.mp hd with ⟨rfl, rfl⟩ | ⟨-, hd⟩
    · exact hfound target hstage
    · exact a.found d h' target hd hstage
  activated d h' hd hstage := by
    rcases put_handlers.mp hd with ⟨rfl, rfl⟩ | ⟨-, hd⟩
    · simp only [Handler.taskId, hrequest]; exact hactivated hstage
    · exact a.activated d h' hd hstage

theorem move (hc : s.handlers c = some h) (hrequest : k.request = h.request)
    (hfound : ∀ d, k.stage ≠ .found d) (hactivated : k.stage ≠ .activated) : Apart job own (WorkerServer.put s c k) :=
  a.put hc hrequest (fun d hd => absurd hd (hfound d)) fun hstage => absurd hstage hactivated

theorem receive {request : WorkerRequest}
    (hnamed : ∀ taskId, request.operation.names = some taskId → (own taskId ↔ c.job = job))
    (hsigned : ∀ jobId, request.operation.jobId = some jobId → jobId = c.job) :
    Apart job own (WorkerServer.put s c ⟨request, .received, .fresh, .unsubmitted⟩) where
  named d h' hd := by
    rcases put_handlers.mp hd with ⟨rfl, rfl⟩ | ⟨-, hd⟩
    · exact hnamed
    · exact a.named d h' hd
  signed d h' hd := by
    rcases put_handlers.mp hd with ⟨rfl, rfl⟩ | ⟨-, hd⟩
    · exact hsigned
    · exact a.signed d h' hd
  active := a.active
  found d h' target hd := by
    rcases put_handlers.mp hd with ⟨rfl, rfl⟩ | ⟨-, hd⟩
    · nofun
    · exact a.found d h' target hd
  activated d h' hd := by
    rcases put_handlers.mp hd with ⟨rfl, rfl⟩ | ⟨-, hd⟩
    · nofun
    · exact a.activated d h' hd

theorem withActive {activeTasks : String → Option Connection}
    (hactive : ∀ taskId c, activeTasks taskId = some c → (own taskId ↔ c.job = job)) :
    Apart job own { s with activeTasks } := ⟨a.named, a.signed, hactive, a.found, a.activated⟩

theorem withClosing (phase : Closing) : Apart job own { s with closing := phase } :=
  ⟨a.named, a.signed, a.active, a.found, a.activated⟩

theorem unregister (taskId : String) :
    Apart job own { s with activeTasks := Function.update s.activeTasks taskId none } := by
  grind [Apart, Function.update_of_ne]

theorem remove (taskId : String) : Apart job own (remove s c taskId) := by
  unfold WorkerServer.remove
  split
  · exact a.unregister taskId
  · exact a

theorem register {taskId : String} (hown : own taskId ↔ c.job = job) : Apart job own (register s c taskId) := by
  apply a.withActive
  intro id d hid
  by_cases heq : id = taskId
  · grind
  · rw [Function.update_of_ne heq] at hid
    exact a.active id d hid

theorem activate (jobId : String) (executionEpoch : ℤ) :
    Apart job own (activate s jobId executionEpoch) := ⟨a.named, a.signed, a.active, a.found, a.activated⟩

theorem view_active {taskId : String} (hown : own taskId) : (view job s).activeTasks taskId = s.activeTasks taskId := by
  cases hactive : s.activeTasks taskId with
  | none => simp [view, hactive]
  | some d => simp [view, hactive, (a.active taskId d hactive).mp hown]

end Apart

/-- One action for a connection: if the connection is the job's, the view takes the same action, and otherwise it stays
as it is. -/
structure Isolates (job : String) (own : String → Prop) (c : Connection) (s : Worker) (act : Worker → Worker) : Prop where
  apart : Apart job own (act s)
  own : c.job = job → act (view job s) = view job (act s)
  other : c.job ≠ job → view job (act s) = view job s

namespace Isolates

variable {act more : Worker → Worker}

theorem comp (i : Isolates job own c s act) (j : Isolates job own c (act s) more) :
    Isolates job own c s fun s => more (act s) where
  apart := j.apart
  own hc := by rw [i.own hc, j.own hc]
  other hc := (j.other hc).trans (i.other hc)

theorem put (a : Apart job own (put s c k)) : Isolates job own c s fun s => WorkerServer.put s c k :=
  ⟨a, fun hc => (view_put hc).symm, fun hc => view_put_other hc⟩

theorem advance (a : Apart job own s) (hc : s.handlers c = some h) (stage : Stage) (hfound : ∀ d, stage ≠ .found d)
    (hactivated : stage ≠ .activated) : Isolates job own c s fun s => WorkerServer.put s c { h with stage } :=
  put (a.move hc rfl hfound hactivated)

theorem answer (a : Apart job own s) (hc : s.handlers c = some h) (response : WorkerResponse) :
    Isolates job own c s fun s => answer s c h response :=
  advance a hc (.answered response) nofun nofun

theorem remove (a : Apart job own s) (taskId : String) : Isolates job own c s fun s => remove s c taskId :=
  ⟨a.remove taskId, fun hc => (view_remove hc).symm, fun hc => view_remove_other hc⟩

theorem congr (i : Isolates job own c s more) (hs : act s = more s)
    (hview : c.job = job → act (view job s) = more (view job s)) : Isolates job own c s act where
  apart := hs ▸ i.apart
  own hc := by rw [hview hc, hs, i.own hc]
  other hc := hs ▸ i.other hc

theorem register (a : Apart job own s) {taskId : String} (hown : own taskId ↔ c.job = job)
    (hfree : s.activeTasks taskId = none) : Isolates job own c s fun s => register s c taskId :=
  ⟨a.register hown, fun hc => (view_register hc).symm, fun hc => view_register_other hc hfree⟩

theorem activate (a : Apart job own s) (executionEpoch : ℤ) :
    Isolates job own c s fun s => activate s c.job executionEpoch where
  apart := a.activate c.job executionEpoch
  own hc := by subst hc; exact (view_activate executionEpoch).symm
  other hc := view_activate_other hc executionEpoch

theorem putIfAbsent (a : Apart job own s) (hc : s.handlers c = some h)
    (hnames : h.request.operation.names = some h.taskId) : Isolates job own c s fun s => putIfAbsent s c h := by
  have hown := a.named c h hc h.taskId hnames
  have hview (hjob : c.job = job) := a.view_active (hown.mpr hjob)
  unfold WorkerServer.putIfAbsent
  cases hactive : s.activeTasks h.taskId with
  | some =>
    refine (answer a hc _).congr (by simp only [hactive]; rfl) ?_
    intro hjob
    simp only [hview hjob, hactive]
  | none =>
    have hregistered := register a hown hactive
    refine (hregistered.comp (advance hregistered.apart hc .registered nofun nofun)).congr
      (by simp only [hactive]) ?_
    intro hjob
    simp only [hview hjob, hactive]

theorem executeCheckpointWithContext (a : Apart job own s) (hc : s.handlers c = some h)
    {r : ExecuteCheckpointTaskRequest} (hoperation : h.request.operation = .executeCheckpointTask r) :
    Isolates job own c s fun s => executeCheckpointWithContext s c workerId h r := by
  have hjobId : r.jobId = c.job := a.signed c h hc r.jobId (by rw [hoperation]; rfl)
  have hepoch (hjob : c.job = job) : (view job s).activeEpochs c.job = s.activeEpochs c.job := if_pos hjob
  unfold WorkerServer.executeCheckpointWithContext
  rw [hjobId]
  split
  · exact answer a hc _
  by_cases hstale : r.executionEpoch < s.activeEpochs c.job
  · refine (answer a hc _).congr (if_pos hstale) ?_
    intro hjob
    rw [hepoch hjob, if_pos hstale]
  · have hactive := activate (c := c) a r.executionEpoch
    have hput := hactive.apart.put (k := { h with stage := .activated }) hc rfl nofun fun _ => by
      simp [Handler.taskId, hoperation, Operation.names, Operation.taskId]
    refine (hactive.comp (put hput)).congr (if_neg hstale) ?_
    intro hjob
    rw [hepoch hjob, if_neg hstale]

theorem cancel (a : Apart job own s) (hc : s.handlers c = some h) {requestedWorkerId taskId : String}
    (hoperation : h.request.operation = .cancelTask requestedWorkerId taskId) :
    Isolates job own c s fun s => cancel s c workerId h requestedWorkerId taskId := by
  have hown := a.named c h hc taskId (by rw [hoperation]; rfl)
  have hview (hjob : c.job = job) := a.view_active (hown.mpr hjob)
  unfold WorkerServer.cancel
  split
  · exact answer a hc _
  cases hactive : s.activeTasks taskId with
  | none =>
    refine (answer a hc _).congr (by simp only [hactive]; rfl) ?_
    intro hjob
    simp only [hview hjob, hactive]
  | some target =>
    have htarget := (a.active taskId target hactive).symm.trans hown
    have hput := a.put (k := { h with stage := .found target }) hc rfl (by rintro d ⟨⟩; exact htarget) nofun
    refine (put hput).congr (by simp only [hactive]) ?_
    intro hjob
    simp only [hview hjob, hactive]

theorem dispatch (a : Apart job own s) (hc : s.handlers c = some h) :
    Isolates job own c s fun s => dispatch s c workerId h := by
  unfold WorkerServer.dispatch
  split
  · next hoperation => exact executeCheckpointWithContext a hc hoperation
  split
  · exact answer a hc _
  split
  · next r hoperation =>
    unfold executeWithContext
    split
    · exact answer a hc _
    · exact putIfAbsent a hc (by simp [Handler.taskId, hoperation, Operation.names, Operation.taskId])
  · next hoperation => exact cancel a hc hoperation
  all_goals exact answer a hc _

theorem cancelFuture (a : Apart job own s) (hd : d.job = job ↔ c.job = job) :
    Isolates job own c s fun s => (cancelFuture s d).1 where
  apart := by
    unfold WorkerServer.cancelFuture
    split
    · next request stage task htarget =>
      exact a.put htarget rfl (fun e he => a.found d _ e htarget he) fun hstage => a.activated d _ htarget hstage
    · exact a
  own hc := by rw [view_cancelFuture (hd.mpr hc)]
  other hc := view_cancelFuture_other (mt hd.mp hc)

theorem cancelFound (a : Apart job own s) (hc : s.handlers c = some h) (hstage : h.stage = .found d) :
    Isolates job own c s fun s => cancelFound s c h d := by
  have hd := a.found c h d hc hstage
  have hcancel := cancelFuture a hd
  obtain ⟨k, hk, hrequest⟩ := cancelFuture_request (d := d) hc
  have hput := hcancel.apart.move (k := { h with
    stage := .answered (.cancelResponse h.taskId (WorkerServer.cancelFuture s d).2
      (if (WorkerServer.cancelFuture s d).2 then "task cancellation requested" else "task already completed")) })
    hk hrequest.symm nofun nofun
  refine (hcancel.comp (put hput)).congr rfl ?_
  intro hjob
  have hdone : (WorkerServer.cancelFuture (view job s) d).2 = (WorkerServer.cancelFuture s d).2 := by
    rw [view_cancelFuture (hd.mpr hjob)]
  unfold WorkerServer.cancelFound
  rw [← hdone]
  rfl

theorem remove_put (a : Apart job own s) (hc : s.handlers c = some h) (stage : Stage) (hfound : ∀ d, stage ≠ .found d)
    (hactivated : stage ≠ .activated) :
    Isolates job own c s fun s => WorkerServer.put (WorkerServer.remove s c h.taskId) c { h with stage } :=
  (remove a h.taskId).comp (advance (a.remove h.taskId) (by rw [remove_handlers, hc]) stage hfound hactivated)

theorem progress (a : Apart job own s) (hc : s.handlers c = some h) (future : FutureState) (task : TaskState) :
    Isolates job own c s fun s => WorkerServer.put s c { h with future, task } :=
  put (a.put hc rfl (fun d hd => a.found c h d hc hd) (a.activated c h hc))

end Isolates

structure IsolatesTo (job : String) (own : String → Prop) (c : Connection) (s : Worker) (act : Worker → Option Worker)
    (t : Worker) : Prop where
  apart : Apart job own t
  own : c.job = job → act (view job s) = some (view job t)
  other : c.job ≠ job → view job t = view job s

namespace IsolatesTo

theorem of_isolates {act : Worker → Worker} (i : Isolates job own c s act) :
    IsolatesTo job own c s (fun s => some (act s)) (act s) :=
  ⟨i.apart, fun hc => congrArg some (i.own hc), i.other⟩

section

variable (a : Apart job own s)

include a

section

variable (hc : s.handlers c = some h)

include hc

theorem handle (hstep : handle s c workerId h = some t) :
    IsolatesTo job own c s (fun s => handle s c workerId h) t := by
  unfold WorkerServer.handle at hstep ⊢
  split at hstep
  · cases hstep; exact of_isolates (.dispatch a hc)
  · next hstage => cases hstep; exact of_isolates (.putIfAbsent a hc (a.activated c h hc hstage))
  · next hstage => cases hstep; exact of_isolates (.cancelFound a hc hstage)
  · cases hstep; exact of_isolates (.remove_put a hc _ nofun nofun)
  · obtain ⟨response, hreply, rfl⟩ := Option.map_eq_some_iff.mp hstep
    simp only [hreply, Option.map_some]
    exact of_isolates (.advance a hc _ nofun nofun)
  · cases hstep
    split
    · exact of_isolates (.advance a hc _ nofun nofun)
    · exact of_isolates (.remove_put a hc _ nofun nofun)
  · cases hstep; exact of_isolates (.answer a hc _)
  · cases hstep; exact of_isolates (.remove_put a hc _ nofun nofun)
  · cases hstep
  · cases hstep

theorem submit {accepted : Bool}
    (hstep : submit s c accepted h = some t) : IsolatesTo job own c s (fun s => submit s c accepted h) t := by
  unfold WorkerServer.submit at hstep ⊢
  split at hstep
  · split at hstep
    · next haccepted =>
      split at hstep
      · next hopen =>
        cases hstep
        have hput := Isolates.put (a.move (k := { h with stage := .waiting, task := .pending }) hc rfl nofun nofun)
        refine ⟨hput.apart, ?_, hput.other⟩
        intro hjob
        rw [if_pos haccepted]
        exact (if_pos hopen).trans (congrArg some (hput.own hjob))
      · cases hstep
    · next hrejected =>
      cases hstep
      simp only [hrejected]
      exact of_isolates (.advance a hc .refused nofun nofun)
  · cases hstep

theorem start (hstep : start s c h = some t) : IsolatesTo job own c s (fun s => start s c h) t := by
  have hepoch (hjob : c.job = job) : currentEpoch (view job s) h.request.operation =
      currentEpoch s h.request.operation := by
    cases hoperation : h.request.operation with
    | executeCheckpointTask r =>
      have hjobId := a.signed c h hc r.jobId (by rw [hoperation]; rfl)
      simp [currentEpoch, view, hjobId, hjob]
    | _ => rfl
  unfold WorkerServer.start at hstep ⊢
  split at hstep
  · cases hstep
    have hput := Isolates.progress a hc h.future
    refine ⟨(hput _).apart, ?_, (hput _).other⟩
    intro hjob
    rw [hepoch hjob]
    exact congrArg some ((hput _).own hjob)
  · cases hstep

theorem finish {checkpoints : Bool} {conduct : Conduct} (hstep : finish s c workerId checkpoints conduct h = some t) :
    IsolatesTo job own c s (fun s => finish s c workerId checkpoints conduct h) t := by
  unfold WorkerServer.finish at hstep ⊢
  split at hstep
  · obtain ⟨result, hresult, rfl⟩ := Option.map_eq_some_iff.mp hstep
    simp only [hresult, Option.map_some]
    exact of_isolates (.progress a hc _ _)
  · cases hstep

theorem interrupt (hstep : interrupt s c h = some t) : IsolatesTo job own c s (fun s => interrupt s c h) t := by
  unfold WorkerServer.interrupt at hstep ⊢
  split at hstep
  · split at hstep
    · next hstopped =>
      cases hstep
      have hput := Isolates.advance a hc (.woken (h.failing .taskCancelled "task wait interrupted")) nofun nofun
      refine ⟨hput.apart, ?_, hput.other⟩
      intro hjob
      exact (if_pos hstopped).trans (congrArg some (hput.own hjob))
    · cases hstep
  · cases hstep

end

end

theorem bind (act : Worker → Connection → Handler → Option Worker) (hstep : (s.handlers c).bind (act s c) = some t)
    (hact : ∀ h, s.handlers c = some h → act s c h = some t → IsolatesTo job own c s (fun s => act s c h) t) :
    IsolatesTo job own c s (fun s => (s.handlers c).bind (act s c)) t := by
  grind [IsolatesTo, Option.bind_eq_some_iff, view_handlers]

end IsolatesTo

def Distinct (job : String) (own : String → Prop) : Event → Prop
  | .receive c request =>
    (∀ taskId, request.operation.names = some taskId → (own taskId ↔ c.job = job)) ∧
      ∀ jobId, request.operation.jobId = some jobId → jobId = c.job
  | _ => True

variable {checkpoints : Bool}

theorem apart_step (s : Worker) (event : Event) (t : Worker) (a : Apart job own s) (hd : Distinct job own event)
    (hstep : step workerId checkpoints s event = some t) :
    Apart job own t ∧
      (concerns job event = true → step workerId checkpoints (view job s) event = some (view job t)) ∧
      (concerns job event = false → view job t = view job s) := by
  have hconnection {c : Connection} {act : Worker → Option Worker} (i : IsolatesTo job own c s act t) :
      Apart job own t ∧ (decide (c.job = job) = true → act (view job s) = some (view job t)) ∧
        (decide (c.job = job) = false → view job t = view job s) :=
    ⟨i.apart, fun hc => i.own (of_decide_eq_true hc), fun hc => i.other (of_decide_eq_false hc)⟩
  cases event with
  | receive c request =>
    simp only [step] at hstep
    split at hstep
    · next hfree =>
      split at hstep
      · cases hstep
      · next hopen =>
        cases hstep
        have hput := Isolates.put (a.receive hd.1 hd.2)
        refine ⟨hput.apart, fun hc => ?_, fun hc => hput.other (of_decide_eq_false hc)⟩
        have hjob : c.job = job := of_decide_eq_true hc
        simp only [step, view_handlers hjob, hfree]
        exact (if_neg hopen).trans (congrArg some (hput.own hjob))
    · cases hstep
  | handle c =>
    exact hconnection (IsolatesTo.bind (fun s c => handle s c workerId) hstep fun h hc hstep => .handle a hc hstep)
  | submit c accepted =>
    exact hconnection (IsolatesTo.bind (fun s c => submit s c accepted) hstep fun h hc hstep => .submit a hc hstep)
  | start c =>
    exact hconnection (IsolatesTo.bind (fun s c => start s c) hstep fun h hc hstep => .start a hc hstep)
  | finish c conduct =>
    exact hconnection (IsolatesTo.bind (fun s c => finish s c workerId checkpoints conduct) hstep fun h hc hstep => .finish a hc hstep)
  | interrupt c =>
    exact hconnection (IsolatesTo.bind (fun s c => interrupt s c) hstep fun h hc hstep => .interrupt a hc hstep)
  | close =>
    simp only [step] at hstep
    split at hstep
    · next hrunning =>
      cases hstep
      exact ⟨a.withClosing _, fun _ => if_pos hrunning, nofun⟩
    · next hclosing =>
      cases hstep
      exact ⟨a, fun _ => if_neg hclosing, nofun⟩
  | closeCancel c =>
    simp only [step] at hstep
    split at hstep
    · cases hstep
    · next hclosing =>
      cases hstep
      have hcancel := Isolates.cancelFuture (c := c) (d := c) a Iff.rfl
      refine ⟨hcancel.apart, fun hc => ?_, fun hc => hcancel.other (of_decide_eq_false hc)⟩
      exact (if_neg hclosing).trans (congrArg some (hcancel.own (of_decide_eq_true hc)))
  | closeRemove taskId =>
    simp only [step] at hstep
    split at hstep
    · cases hstep
    · next hclosing =>
      cases hstep
      refine ⟨a.unregister taskId, fun _ => ?_, nofun⟩
      exact (if_neg hclosing).trans (congrArg some view_closeRemove.symm)
  | closeTasks | closeConnections =>
    simp only [step] at hstep
    split at hstep
    · next hclosing =>
      cases hstep
      exact ⟨a.withClosing _, fun _ => if_pos hclosing, nofun⟩
    · cases hstep

end

def NamesApart (job : String) (events : List Event) : Prop :=
  ∀ c d request other taskId, .receive c request ∈ events → .receive d other ∈ events → c.job = job → d.job ≠ job →
    request.operation.names = some taskId → other.operation.names ≠ some taskId

def Signed (events : List Event) : Prop :=
  ∀ c request jobId, .receive c request ∈ events → request.operation.jobId = some jobId → jobId = c.job

theorem run_isolated {workerId : String} {checkpoints : Bool} (job : String) {events : List Event} {s : Worker}
    (hrun : run (step workerId checkpoints) initial events = some s) (hsigned : Signed events)
    (hnames : NamesApart job events) :
    ∃ alone, run (step workerId checkpoints) initial (events.filter (concerns job)) = some alone ∧
      ∀ c, c.job = job → alone.handlers c = s.handlers c := by
  let own taskId := ∃ c request, .receive c request ∈ events ∧ c.job = job ∧ request.operation.names = some taskId
  have hdistinct : ∀ event ∈ events, Distinct job own event := by
    intro event hevent
    cases event with
    | receive c request =>
      refine ⟨fun taskId hid => ⟨?_, fun hc => ⟨c, request, hevent, hc, hid⟩⟩, fun jobId => hsigned c request jobId hevent⟩
      rintro ⟨d, other, hother, hd, hsame⟩
      by_contra hc
      exact hnames d c other request taskId hother hevent hd hc hsame hid
    | _ => trivial
  have hview := run_view (view job) (concerns job)
    (fun s event t a hd hstep => (apart_step s event t a hd hstep).1)
    (fun s event t a hd hk hstep => (apart_step s event t a hd hstep).2.1 hk)
    (fun s event t a hd hk hstep => (apart_step s event t a hd hstep).2.2 hk) apart_initial hdistinct hrun
  rw [view_initial] at hview
  exact ⟨view job s, hview, fun c hc => view_handlers hc⟩

def requestOf (jobId taskId : String) : WorkerRequest where
  protocolVersion := currentVersion
  operation := .executeTask {
    workerId := "worker-1"
    taskId
    split := some ⟨taskId, "orders", [], []⟩
    maxBatchRecords := 100
    maxInFlightBatches := 2
    adaptiveBatch := none
    spill := none
    jobId }

def ours : Connection := ⟨"job-a", 1⟩

def theirs : Connection := ⟨"job-b", 1⟩

def bothJobs (ourTask theirTask : String) : List Event :=
  [.receive theirs (requestOf "job-b" theirTask), .handle theirs, .receive ours (requestOf "job-a" ourTask), .handle ours]

theorem mem_bothJobs {c : Connection} {request : WorkerRequest} {ourTask theirTask : String}
    (hr : .receive c request ∈ bothJobs ourTask theirTask) :
    (c = theirs ∧ request = requestOf "job-b" theirTask) ∨ (c = ours ∧ request = requestOf "job-a" ourTask) := by
  simpa [bothJobs] using hr

theorem signed_bothJobs (ourTask theirTask : String) : Signed (bothJobs ourTask theirTask) := by
  intro c request jobId hr hjob
  -- a plain execute carries its job for the metrics only
  rcases mem_bothJobs hr with ⟨-, rfl⟩ | ⟨-, rfl⟩ <;> cases hjob

theorem namesApart_bothJobs {ourTask theirTask : String} (hne : ourTask ≠ theirTask) :
    NamesApart "job-a" (bothJobs ourTask theirTask) := by
  intro c d request other taskId hr ho hc hd hid hid'
  rcases mem_bothJobs hr with ⟨rfl, rfl⟩ | ⟨rfl, rfl⟩
  · exact absurd hc (by decide)
  rcases mem_bothJobs ho with ⟨rfl, rfl⟩ | ⟨rfl, rfl⟩
  · exact hne ((Option.some.inj hid).trans (Option.some.inj hid').symm)
  · exact hd rfl

theorem run_isolated_both : ∃ s alone, run (step "worker-1" true) initial (bothJobs "split-1" "split-2") = some s ∧
      run (step "worker-1" true) initial ((bothJobs "split-1" "split-2").filter (concerns "job-a")) = some alone ∧
      (s.handlers ours).map (·.stage) = some .registered ∧ alone.handlers ours = s.handlers ours := by
  have hrun : run (step "worker-1" true) initial (bothJobs "split-1" "split-2") = some _ := rfl
  obtain ⟨alone, halone, hsame⟩ := run_isolated "job-a" hrun (signed_bothJobs _ _) (namesApart_bothJobs (by decide))
  exact ⟨_, alone, hrun, halone, rfl, hsame ours rfl⟩

def cancelledByOther : List Event :=
  [.receive ours (requestOf "job-a" "split-1"), .handle ours, .submit ours true, .start ours,
    .receive theirs ⟨currentVersion, .cancelTask "worker-1" "split-1"⟩, .handle theirs, .handle theirs]

/-- A job is refused a task because another job's task has the id, and loses a task to another job's cancel. -/
theorem same_task_ids_interfere :
    (∃ s alone, run (step "worker-1" true) initial (bothJobs "split-1" "split-1") = some s ∧
      run (step "worker-1" true) initial ((bothJobs "split-1" "split-1").filter (concerns "job-a")) = some alone ∧
      (s.handlers ours).map (·.stage) =
        some (.answered (.error currentVersion .taskRejected "split-1" "task is already active")) ∧
      (alone.handlers ours).map (·.stage) = some .registered) ∧
    ∃ s, run (step "worker-1" true) initial cancelledByOther = some s ∧
      (s.handlers ours).map (·.future) = some .cancelled ∧
      run (step "worker-1" true) initial (cancelledByOther.filter (concerns "job-a") ++ [.handle ours]) = none ∧
      (run (step "worker-1" true) initial (cancelledByOther ++ [.handle ours])).isSome := by
  exact ⟨⟨_, _, rfl, rfl, rfl, rfl⟩, _, rfl, rfl, rfl, rfl⟩

end AstraSync.WorkerServer
