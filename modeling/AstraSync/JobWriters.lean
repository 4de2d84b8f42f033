import AstraSync.SyncJobController

namespace AstraSync.JobWriters

open ByteStrings JobLifecycle JobRepository JobMutations SyncJobController Programs Transitions
open JobTable (JobLater)

structure System where
  store : Store
  processes : List (SyncJob × Prog (Except Fault Unit))

def idle : System := ⟨emptyStore, []⟩

inductive Event
  | mutate (connections : List ConnectionRow) (m : Mutation)
  | reconcile (r : SyncJob)
  | call (n : ℕ) (choice : Choice)
  | advance (key : Key) (epoch : Int64) (state : State) (failure : Option Failure) (now : Time)

def mutate (c : Settings) (connections : List ConnectionRow) (s : Store) (m : Mutation) : Store :=
  match applyMutation c.toContext connections s m with
  | .ok (t, _) => t
  | .error _ => s

def transition (c : Settings) (s : Store) (key : Key) (epoch : Int64) (state : State) (failure : Option Failure)
    (now : Time) : Store :=
  match JobTable.find s.jobs key with
  | none => s
  | some j =>
    match advance j epoch state failure now with
    | .ok (next, true) =>
      match JobTable.update c.toContext s.jobs next j.version with
      | .ok (jobs, _) => { s with jobs }
      | .error _ => s
    | _ => s

def step (c : Settings) (s : System) : Event → Option System
  | .mutate connections m => some { s with store := mutate c connections s.store m }
  | .reconcile r => some { s with processes := s.processes ++ [(r, reconcile c r)] }
  | .call n choice =>
    s.processes[n]?.bind fun p =>
      (p.2.resume (execute c.toContext) s.store choice).map fun next =>
        ⟨next.1, s.processes.set n (p.1, next.2)⟩
  | .advance key epoch state failure now =>
    some { s with store := transition c s.store key epoch state failure now }

/-- No job is created under the identifier of a deleted one, and no reconcile reads its job in a state that is
blocked for its resource. -/
def apart (blocked : SyncJob → State → Bool) (s : System) : Event → Bool
  | .mutate _ m => m.kind ≠ .create || m.uid ∉ s.store.deleted
  | .call n _ => s.processes[n]?.all fun p => p.2.allows (permitted (blocked p.1) s.store)
  | _ => true

section

variable {c : Settings} {blocked : SyncJob → State → Bool} {s t : System}

structure Inv (c : Settings) (blocked : SyncJob → State → Bool) (s : System) : Prop where
  sound : JobTable.Sound c.toContext s.store.jobs
  processes : ∀ p ∈ s.processes, Keeps c (blocked p.1) p.1 p.2 s.store

structure Transition (c : Settings) (s t : Store) : Prop where
  change : Change c.toContext s t
  executions : t.executions = s.executions
  kept : ∀ j ∈ s.jobs, ∃ j' ∈ t.jobs, j'.key = j.key
  jobs : ∀ j' ∈ t.jobs, ∃ j ∈ s.jobs, JobLater j j' ∧ j'.status.epoch = j.status.epoch

inductive Wrote (c : Settings) (blocked : SyncJob → State → Bool) (s : System) : Event → Store → Prop
  | refused (e : Event) : Wrote c blocked s e s.store
  | mutated {connections : List ConnectionRow} {m : Mutation} {store : Store}
      (effect : Effect c.toContext m s.store store) : Wrote c blocked s (.mutate connections m) store
  | called {n : ℕ} {choice : Choice} {p : SyncJob × Prog (Except Fault Unit)} {store : Store} (mem : p ∈ s.processes)
      (guarantee : Guarantee c.toContext (blocked p.1) p.1 s.store store) : Wrote c blocked s (.call n choice) store
  | advanced {key : Key} {epoch : Int64} {state : State} {failure : Option Failure} {now : Time} {store : Store}
      (transition : Transition c s.store store) : Wrote c blocked s (.advance key epoch state failure now) store

theorem effect_change {m : Mutation} {s t : Store} (h : Effect c.toContext m s t)
    (hunused : m.kind = .create → m.uid ∉ s.deleted) : Change c.toContext s t := by
  cases h with
  | unchanged jobs executions deleted => exact .same jobs deleted
  | created j state kind uid jobs executions deleted => exact .created j jobs (uid ▸ hunused kind) deleted
  | moved j stored find advances epoch jobs executions deleted => exact .written j stored find advances jobs deleted
  | started j stored added find advances epoch jobs executions own count deleted =>
    exact .written j stored find advances jobs deleted
  | removed j mem inactive jobs executions deleted => exact .removed j mem jobs deleted

theorem transition_spec {s : Store} (hsound : JobTable.Sound c.toContext s.jobs) (key : Key) (epoch : Int64)
    (state : State) (failure : Option Failure) (now : Time) :
    transition c s key epoch state failure now = s ∨
      Transition c s (transition c s key epoch state failure now) := by
  unfold transition
  split
  · exact .inl rfl
  · next j hfind =>
    split
    · next next hadvance =>
      split
      · next jobs written hupdate =>
        obtain ⟨hsame, hmove⟩ := advance_move hadvance
        obtain ⟨current, hcurrent, -, -, hvalid, hrange, rfl, rfl⟩ := JobTable.update_ok hupdate
        obtain ⟨hmem, hkey⟩ := JobTable.find_some hfind
        rw [hsame.key, hkey, hfind] at hcurrent
        cases hcurrent
        have hadvances := JobTable.advances_of_move hmove (JobTable.written_validate hsame hvalid hrange) hrange
        have hwritten : JobTable.find s.jobs (JobTable.written j next).key = some j := hkey ▸ hfind
        refine .inr ⟨.written j _ hwritten hadvances rfl rfl, rfl, fun j hj => JobTable.put_kept hj, fun j' hj' => ?_⟩
        rcases mem_put hsound hwritten hj' with rfl | ⟨hj', -⟩
        · exact ⟨j, hmem, JobTable.advances_jobLater hadvances, (advance_ok hadvance).1⟩
        · exact ⟨j', hj', .refl j', rfl⟩
      · exact .inl rfl
    · exact .inl rfl

variable {e : Event} {store : Store}

theorem wrote_change (h : Wrote c blocked s e store) (hapart : apart blocked s e = true) :
    Change c.toContext s.store store := by
  cases h with
  | refused => exact .same rfl rfl
  | mutated effect =>
    refine effect_change effect fun hkind => ?_
    simpa [apart, hkind] using hapart
  | called mem guarantee => exact guarantee.change
  | advanced transition => exact transition.change

theorem Inv.rely (hinv : Inv c blocked s) (h : Wrote c blocked s e store)
    (hapart : apart blocked s e = true) : Rely c.toContext s.store store :=
  ⟨(wrote_change h hapart).sound hinv.sound, (wrote_change h hapart).later hinv.sound⟩

theorem Inv.keeps {p : SyncJob × Prog (Except Fault Unit)} (hinv : Inv c blocked s)
    (hp : p ∈ s.processes) (hrely : Rely c.toContext s.store store) : Keeps c (blocked p.1) p.1 p.2 store :=
  obeys_rely (hinv.processes p hp) rely_trans hrely

theorem step_wrote (hinv : Inv c blocked s) (hnew : ∀ r, blocked r .created = false)
    (hapart : apart blocked s e = true) (h : step c s e = some t) :
    Wrote c blocked s e t.store ∧ Inv c blocked t := by
  cases e with
  | mutate connections m =>
    cases h
    have hwrote : Wrote c blocked s (.mutate connections m) (mutate c connections s.store m) := by
      unfold mutate
      split
      · next hmutation => exact .mutated (applyMutation_effect hinv.sound hmutation)
      · exact .refused _
    have hrely := hinv.rely hwrote hapart
    exact ⟨hwrote, hrely.sound, fun p hp => hinv.keeps hp hrely⟩
  | reconcile r =>
    cases h
    refine ⟨.refused _, hinv.sound, fun p hp => ?_⟩
    rcases List.mem_append.mp hp with hp | hp
    · exact hinv.processes p hp
    · rw [List.mem_singleton.mp hp]
      exact reconcile_keeps (hnew r) s.store
  | call n choice =>
    obtain ⟨p, hp, h⟩ := Option.bind_eq_some_iff.mp h
    obtain ⟨⟨store, rest⟩, hresume, rfl⟩ := Option.map_eq_some_iff.mp h
    have hmem := List.mem_of_getElem? hp
    have hallows : p.2.allows (permitted (blocked p.1) s.store) = true := by simpa [apart, hp] using hapart
    obtain ⟨⟨_, _, hguarantee⟩, hrest⟩ := obeys_resume id (hinv.processes p hmem)
      (Program.resume_allowed hallows hresume) (fun e a h => by
        split_ifs at h with hpermitted
        exact ⟨hpermitted, choice, h⟩) ⟨hinv.sound, .refl _⟩
    have hwrote : Wrote c blocked s (.call n choice) store := .called hmem hguarantee
    have hrely := hinv.rely hwrote hapart
    refine ⟨hwrote, hrely.sound, fun q hq => ?_⟩
    rcases List.mem_or_eq_of_mem_set hq with hq | rfl
    · exact hinv.keeps hq hrely
    · exact hrest
  | advance key epoch state failure now =>
    cases h
    have hwrote : Wrote c blocked s (.advance key epoch state failure now)
        (transition c s.store key epoch state failure now) := by
      rcases transition_spec hinv.sound key epoch state failure now with hsame | htransition
      · rw [hsame]
        exact .refused _
      · exact .advanced htransition
    have hrely := hinv.rely hwrote hapart
    exact ⟨hwrote, hrely.sound, fun p hp => hinv.keeps hp hrely⟩

theorem step_later {start : Store} (s : System) (e : Event) (t : System)
    (h : Inv c (fun _ _ => false) s ∧ Later start s.store) (hok : apart (fun _ _ => false) s e = true)
    (hstep : step c s e = some t) : Inv c (fun _ _ => false) t ∧ Later start t.store := by
  obtain ⟨hwrote, hinv⟩ := step_wrote h.1 (fun _ => rfl) hok hstep
  exact ⟨hinv, h.2.trans (h.1.rely hwrote hok).later⟩

/-- However the API, the controllers and the scheduler write side by side: the stored jobs stay sound, and what is there
of a job later goes on from what it was. -/
theorem run_writers_later {before after : List Event} {u : System}
    (hok : meets (step c) (apart fun _ _ => false) idle (before ++ after) = true)
    (ht : run (step c) idle before = some t) (hu : run (step c) t after = some u) :
    JobTable.Sound c.toContext t.store.jobs ∧ Later t.store u.store := by
  obtain ⟨hbefore, hafter⟩ := meets_append hok ht
  have hinv := (run_invariant step_later ⟨⟨JobTable.sound_nil _, by simp [idle]⟩, .refl _⟩ hbefore ht).1
  exact ⟨hinv.sound, (run_invariant step_later ⟨hinv, .refl _⟩ hafter hu).2⟩

end

section

variable {c : Settings} {r : SyncJob} {s t : System}

def restarts (r : SyncJob) (state : State) : Bool := r.toRun && state = .finished

def Undisturbed (r : SyncJob) : Event → Prop
  | .mutate _ _ => False
  | .reconcile r' => r'.key = r.key → r' = r
  | _ => True

def Unmodified (r : SyncJob) (s : System) : Prop := ∀ p ∈ s.processes, p.1.key = r.key → p.1 = r

structure Finished (r : SyncJob) (j : Job Spec) (s : System) : Prop where
  jobs : ∀ j' ∈ s.store.jobs, j'.key = r.key →
    j'.uid = j.uid ∧ j'.status.epoch = j.status.epoch ∧ j'.status.state = .finished
  kept : r.deleting = false → ∃ j' ∈ s.store.jobs, j'.key = r.key

theorem Unmodified.step {e : Event} (h : Unmodified r s) (he : Undisturbed r e) (hstep : step c s e = some t) :
    Unmodified r t := by
  cases e with
  | mutate => exact he.elim
  | reconcile =>
    cases hstep
    intro p hp hkey
    rcases List.mem_append.mp hp with hp | hp
    · exact h p hp hkey
    · rw [List.mem_singleton.mp hp] at hkey ⊢
      exact he hkey
  | call =>
    obtain ⟨p, hp, hstep⟩ := Option.bind_eq_some_iff.mp hstep
    obtain ⟨_, _, rfl⟩ := Option.map_eq_some_iff.mp hstep
    intro q hq hkey
    rcases List.mem_or_eq_of_mem_set hq with hq | rfl
    · exact h q hq hkey
    · exact h p (List.mem_of_getElem? hp) hkey
  | advance =>
    cases hstep
    exact h

variable {j : Job Spec}

theorem Finished.later {j₀ j' : Job Spec} (h : Finished r j s) (hj₀ : j₀ ∈ s.store.jobs) (hlater : JobLater j₀ j')
    (hepoch : j'.status.epoch = j₀.status.epoch) (hkey : j'.key = r.key) :
    j'.uid = j.uid ∧ j'.status.epoch = j.status.epoch ∧ j'.status.state = .finished := by
  obtain ⟨huid, hold, hfinished⟩ := h.jobs j₀ hj₀ (hlater.key.symm.trans hkey)
  refine ⟨hlater.uid.trans huid, hepoch.trans hold, ?_⟩
  exact (hlater.history.ended hepoch (by rw [hfinished]; rfl)).trans hfinished

theorem Finished.call {r' : SyncJob} {store : Store} (h : Finished r j s)
    (hown : r'.key = r.key → r' = r) (hg : Guarantee c.toContext (restarts r') r' s.store store) (processes) :
    Finished r j ⟨store, processes⟩ := by
  constructor
  · intro j' hj' hkey
    rcases hg.jobs j' hj' with hj' | ⟨-, hkey', hdeleting, hnone⟩ | ⟨j₀, hj₀, hlater, hepoch | hopens⟩
    · exact h.jobs j' hj' hkey
    · grind [Finished]
    · exact h.later hj₀ hlater hepoch hkey
    · obtain ⟨-, hruns, -, -, hfree⟩ := hopens
      obtain ⟨-, -, hfinished⟩ := h.jobs j₀ hj₀ (hlater.key.symm.trans hkey)
      simp [restarts, hruns, hfinished] at hfree
  · intro hdeleting
    obtain ⟨j₀, hj₀, hkey₀⟩ := h.kept hdeleting
    have hkeeps : j₀.key ≠ r'.key ∨ r'.deleting = false := by
      grind
    obtain ⟨j', hj', hkey'⟩ := hg.kept j₀ hj₀ hkeeps
    exact ⟨j', hj', hkey'.trans hkey₀⟩

theorem Finished.advance {store : Store} (h : Finished r j s) (ht : Transition c s.store store)
    (processes) : Finished r j ⟨store, processes⟩ := by
  constructor
  · intro j' hj' hkey
    obtain ⟨j₀, hj₀, hlater, hepoch⟩ := ht.jobs j' hj'
    exact h.later hj₀ hlater hepoch hkey
  · grind [Transition, Finished]

theorem Finished.step {e : Event} (h : Finished r j s) (hown : Unmodified r s) (he : Undisturbed r e)
    (hwrote : Wrote c restarts s e t.store) : Finished r j t := by
  obtain ⟨store, processes⟩ := t
  cases hwrote with
  | refused => exact ⟨h.jobs, h.kept⟩
  | mutated => exact he.elim
  | called mem guarantee => exact h.call (hown _ mem) guarantee processes
  | advanced transition => exact h.advance transition processes

theorem restarts_created (r : SyncJob) : restarts r .created = false := Bool.and_false _

/-- Once the job of a resource has finished, it stays in the epoch that has finished, as long as no reconcile of a
resource that is to run reads a job that is FINISHED. -/
theorem run_finished {before after : List Event} {u : System} {j : Job Spec}
    (hsound : JobTable.Sound c.toContext s.store.jobs) (hidle : s.processes = [])
    (hundisturbed : ∀ e ∈ before ++ after, Undisturbed r e)
    (hapart : meets (step c) (apart restarts) s (before ++ after) = true)
    (hbefore : run (step c) s before = some t) (hafter : run (step c) t after = some u)
    (hj : j ∈ t.store.jobs) (hkey : j.key = r.key) (hfinished : j.status.state = .finished) :
    (∀ j' ∈ u.store.jobs, j'.key = r.key →
      j'.uid = j.uid ∧ j'.status.epoch = j.status.epoch ∧ j'.status.state = .finished) ∧
    (r.deleting = false → ∃ j' ∈ u.store.jobs, j'.key = r.key) := by
  obtain ⟨hok, hok'⟩ := meets_append hapart hbefore
  have hfirst : Inv c restarts t ∧ Unmodified r t := by
    refine run_invariant_on (P := Undisturbed r) (A := fun s => Inv c restarts s ∧ Unmodified r s)
      (fun s e t hs he hok hstep => ?_) ⟨⟨hsound, ?_⟩, ?_⟩
      (fun e he => hundisturbed e (List.mem_append_left _ he)) hok hbefore
    · exact ⟨(step_wrote hs.1 restarts_created hok hstep).2, hs.2.step he hstep⟩
    · simp [hidle]
    · simp [Unmodified, hidle]
  have hlast : (Inv c restarts u ∧ Unmodified r u) ∧ Finished r j u := by
    refine run_invariant_on (P := Undisturbed r) (A := fun s => (Inv c restarts s ∧ Unmodified r s) ∧ Finished r j s)
      (fun s e t hs he hok hstep => ?_) ⟨hfirst, ?_, ?_⟩
      (fun e he => hundisturbed e (List.mem_append_right _ he)) hok' hafter
    · obtain ⟨hwrote, hinv⟩ := step_wrote hs.1.1 restarts_created hok hstep
      exact ⟨⟨hinv, hs.1.2.step he hstep⟩, hs.2.step hs.1.2 he hwrote⟩
    · intro j' hj' hkey'
      cases hfirst.1.sound.eq_of_key hj' hj (hkey'.trans hkey.symm)
      exact ⟨rfl, rfl, hfinished⟩
    · exact fun _ => ⟨j, hj, hkey⟩
  exact ⟨hlast.2.jobs, hlast.2.kept⟩

end

def sampleSettings : Settings := ⟨⟨fun uid => uid.length = 36, Spec.validate⟩, (·.uid)⟩

def sampleUID : Bytes := lit "11111111-1111-1111-1111-111111111111"

def sampleSpec (connection : Bytes) : Spec :=
  ⟨⟨lit "mysql-cdc", connection, []⟩, ⟨lit "doris", [], []⟩, [], .atLeastOnce, 1024⟩

def orders (connection : Bytes) : SyncJob :=
  ⟨⟨lit "default", lit "orders"⟩, sampleUID, sampleSpec connection, some .running, false⟩

def reconciled (r : SyncJob) : List Event :=
  [.reconcile r, .call 0 .answer, .call 0 (.time 10), .call 0 .answer, .call 0 (.time 11), .call 0 .answer]

def ranToEnd : List Event :=
  reconciled (orders []) ++
    [.advance (orders []).key 1 .running none 20, .advance (orders []).key 1 .finished none 30]

def raced : List Event :=
  [.reconcile (orders []), .call 0 .answer, .call 0 (.time 10), .call 0 .answer, .reconcile (orders []), .call 1 .answer,
    .call 0 (.time 11), .call 0 .answer, .advance (orders []).key 1 .running none 20,
    .advance (orders []).key 1 .finished none 30]

def overtaken : List Event := [.call 1 (.time 40), .call 1 .answer]

def reconciledAgain : List Event := [.reconcile (orders []), .call 1 .answer, .call 1 (.time 40), .call 1 .answer]

def observed (s : System) : List (Key × State × Int64) :=
  s.store.jobs.map fun j => (j.key, j.status.state, j.status.epoch)

/-- The scheduler has set the desired state of the job to STOPPED with its end, and the resource still says
RUNNING: the job is started once more. -/
theorem finished_restarted :
    ∃ s t, run (step sampleSettings) idle ranToEnd = some s ∧ run (step sampleSettings) s reconciledAgain = some t ∧
      observed s = [((orders []).key, .finished, 1)] ∧ observed t = [((orders []).key, .initializing, 2)] ∧
      ∀ e ∈ ranToEnd ++ reconciledAgain, Undisturbed (orders []) e := by
  have hrun : ((run (step sampleSettings) idle ranToEnd).bind fun s =>
      (run (step sampleSettings) s reconciledAgain).map fun t => (observed s, observed t)) =
      some ([((orders []).key, .finished, 1)], [((orders []).key, .initializing, 2)]) := by decide +kernel
  obtain ⟨s, hs, hnext⟩ := Option.bind_eq_some_iff.mp hrun
  obtain ⟨t, ht, hobserved⟩ := Option.map_eq_some_iff.mp hnext
  obtain ⟨hbefore, hafter⟩ := Prod.mk.inj hobserved
  refine ⟨s, t, hs, ht, hbefore, hafter, ?_⟩
  simp [ranToEnd, reconciled, reconciledAgain, Undisturbed]

theorem run_writers_later_restarted :
    ∃ s t, run (step sampleSettings) idle ranToEnd = some s ∧ run (step sampleSettings) s reconciledAgain = some t ∧
      Later s.store t.store := by
  have hrun : ((run (step sampleSettings) idle ranToEnd).bind (run (step sampleSettings) · reconciledAgain)).isSome =
      true := by decide +kernel
  obtain ⟨t, hrun⟩ := Option.isSome_iff_exists.mp hrun
  obtain ⟨s, hs, ht⟩ := Option.bind_eq_some_iff.mp hrun
  exact ⟨s, t, hs, ht, (run_writers_later (by decide +kernel) hs ht).2⟩

theorem run_finished_overtaken :
    ∃ s t j, run (step sampleSettings) idle raced = some s ∧ run (step sampleSettings) s overtaken = some t ∧
      j ∈ s.store.jobs ∧ j.key = (orders []).key ∧ j.status.state = .finished ∧
      ∀ j' ∈ t.store.jobs, j'.key = (orders []).key → j'.status.epoch = j.status.epoch := by
  have hrun : ((run (step sampleSettings) idle raced).bind fun s =>
      (run (step sampleSettings) s overtaken).map fun _ => observed s) =
      some [((orders []).key, .finished, 1)] := by decide +kernel
  obtain ⟨s, hs, hnext⟩ := Option.bind_eq_some_iff.mp hrun
  obtain ⟨t, ht, hobserved⟩ := Option.map_eq_some_iff.mp hnext
  obtain ⟨j, hj, hfields⟩ : ∃ j ∈ s.store.jobs, (j.key, j.status.state, j.status.epoch) =
      ((orders []).key, State.finished, (1 : Int64)) := by
    rw [← List.mem_map]
    change _ ∈ observed s
    rw [hobserved]
    exact List.mem_singleton_self _
  obtain ⟨hkey, hstatus⟩ := Prod.mk.inj hfields
  have hfinished := (Prod.mk.inj hstatus).1
  have hkept := run_finished (c := sampleSettings) (r := orders []) (JobTable.sound_nil _) rfl
    (by simp [raced, overtaken, Undisturbed]) (by decide +kernel) hs ht hj hkey hfinished
  exact ⟨s, t, j, hs, ht, hj, hkey, hfinished, fun j' hj' hkey' => (hkept.1 j' hj' hkey').2.1⟩

end AstraSync.JobWriters
