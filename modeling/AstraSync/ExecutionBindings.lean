import AstraSync.JobWriters

namespace AstraSync.ExecutionBindings

open ByteStrings SignedNumerals JobLifecycle JobRepository JobMutations SyncJobController JobWriters Transitions
open JobTable (JobLater)

def bound (executions : List ExecutionBinding) (j : Job Spec) (role : ConnectionRole) : ℕ :=
  executions.countP fun b => b.jobUID = j.uid && b.epoch = j.status.epoch && b.role = role

def expected (j : Job Spec) (role : ConnectionRole) : ℕ := if j.spec.refers role then 1 else 0

def Exact (s : Store) : Prop :=
  ∀ j ∈ s.jobs, runs j.status.state = true → ∀ role, bound s.executions j role = expected j role

structure Bounded (s : Store) : Prop where
  known : ∀ b ∈ s.executions, b.jobUID ∈ known s
  epoch : ∀ b ∈ s.executions, ∀ j ∈ s.jobs, j.uid = b.jobUID → b.epoch ≤ j.status.epoch

def Continues (s t : Store) : Prop :=
  ∀ j' ∈ t.jobs, runs j'.status.state = true → ∃ j ∈ s.jobs, JobLater j j' ∧
    (j'.status.epoch = j.status.epoch ∨
      (j'.status.epoch = j.status.epoch + 1 ∧ ∀ role, j'.spec.refers role = false))

section

variable {c : Context Spec} {s t : Store} {j j' : Job Spec}

theorem Bounded.fresh (h : Bounded s) (hj : j ∈ s.jobs) (hlater : JobLater j j')
    (hepoch : j'.status.epoch = j.status.epoch + 1) (role : ConnectionRole) : bound s.executions j' role = 0 := by
  rw [bound, List.countP_eq_zero]
  intro b hb hbound
  simp only [Bool.and_eq_true, decide_eq_true_eq] at hbound
  obtain ⟨⟨huid, hnew⟩, -⟩ := hbound
  have hle := h.epoch b hb j hj (hlater.uid.symm.trans huid.symm)
  have heq := Int64.le_antisymm hlater.history.epoch (hnew ▸ hle)
  exact succ_ne _ (hepoch.symm.trans heq.symm)

theorem Bounded.later (h : Bounded s) (hlater : Later s t) :
    (∀ b ∈ s.executions, b.jobUID ∈ SyncJobController.known t) ∧
      ∀ b ∈ s.executions, ∀ j' ∈ t.jobs, j'.uid = b.jobUID → b.epoch ≤ j'.status.epoch := by
  refine ⟨fun b hb => hlater.known _ (h.known b hb), fun b hb j' hj' huid => ?_⟩
  obtain ⟨j, hj, hjlater⟩ := hlater.jobs j' hj' (huid ▸ h.known b hb)
  exact Int64.le_trans (h.epoch b hb j hj (hjlater.uid.symm.trans huid)) hjlater.history.epoch

theorem Exact.later (h : Exact s) (hj : j ∈ s.jobs) (hlater : JobLater j j')
    (hepoch : j'.status.epoch = j.status.epoch) (hruns : runs j'.status.state = true) (role : ConnectionRole) :
    bound s.executions j' role = expected j' role := by
  have hactive : active j'.status.state = true := by
    revert hruns
    cases j'.status.state <;> decide
  have hspec := (hlater.history.spec hepoch hactive).2
  have hold := h j hj (hlater.history.halted hepoch hruns) role
  rw [bound, expected] at hold ⊢
  rw [hlater.uid, hepoch, hspec]
  exact hold

theorem Exact.continues (h : Exact s) (hbounded : Bounded s) (hexecutions : t.executions = s.executions)
    (hjobs : Continues s t) : Exact t := by
  intro j' hj' hruns role
  obtain ⟨j, hj, hlater, hepoch | ⟨hepoch, hplain⟩⟩ := hjobs j' hj' hruns
  · rw [hexecutions]
    exact h.later hj hlater hepoch hruns role
  · rw [hexecutions, hbounded.fresh hj hlater hepoch, expected, hplain role]
    rfl

theorem bound_append (executions added : List ExecutionBinding) (j : Job Spec) (role : ConnectionRole) :
    bound (executions ++ added) j role = bound executions j role + bound added j role :=
  List.countP_append ..

theorem bound_own {stored : Job Spec} {added : List ExecutionBinding}
    (hown : ∀ b ∈ added, b.jobUID = stored.uid ∧ b.epoch = stored.status.epoch) (role : ConnectionRole) :
    bound added stored role = added.countP (·.role = role) := by
  refine List.countP_congr fun b hb => ?_
  obtain ⟨huid, hepoch⟩ := hown b hb
  simp [huid, hepoch]

theorem bound_other {stored : Job Spec} {added : List ExecutionBinding}
    (hown : ∀ b ∈ added, b.jobUID = stored.uid ∧ b.epoch = stored.status.epoch) (hne : j.uid ≠ stored.uid)
    (role : ConnectionRole) : bound added j role = 0 := by
  rw [bound, List.countP_eq_zero]
  intro b hb hbound
  simp only [Bool.and_eq_true, decide_eq_true_eq] at hbound
  exact hne (hbound.1.1.symm.trans (hown b hb).1)

end

section

variable {c : Settings} {s t : System}

def plain (r : SyncJob) : Bool := !r.toRun || (!r.spec.refers .source && !r.spec.refers .sink)

/-- The controller is asked to run resources without Connections only, and no job is created under the identifier of
a deleted one. -/
def unbound (s : System) (e : Event) : Bool :=
  apart (fun _ _ => false) s e && match e with
    | .reconcile r => plain r
    | _ => true

structure Bound (c : Settings) (s : System) : Prop where
  inv : Inv c (fun _ _ => false) s
  plain : ∀ p ∈ s.processes, plain p.1 = true
  bounded : Bounded s.store
  exact : Exact s.store

theorem created_halted {state : State} (h : state = .created) : runs state = false := by
  rw [h]
  rfl

section

variable (h : Bound c s)

include h

theorem Bound.store {store : Store} (hlater : Later s.store store)
    (hexecutions : store.executions = s.store.executions) (hjobs : Continues s.store store) :
    Bounded store ∧ Exact store := by
  obtain ⟨hknown, hepoch⟩ := h.bounded.later hlater
  refine ⟨⟨?_, ?_⟩, h.exact.continues h.bounded hexecutions hjobs⟩
  · rw [hexecutions]
    exact hknown
  · rw [hexecutions]
    exact hepoch

theorem Bound.started {store : Store} {j stored : Job Spec} {added : List ExecutionBinding}
    (hlater : Later s.store store) (hfind : JobTable.find s.store.jobs stored.key = some j)
    (hadvances : JobTable.Advances c.toContext j stored) (hepoch : stored.status.epoch = j.status.epoch + 1)
    (hjobs : store.jobs = JobTable.put s.store.jobs stored) (hexecutions : store.executions = s.store.executions ++ added)
    (hown : ∀ b ∈ added, b.jobUID = stored.uid ∧ b.epoch = stored.status.epoch)
    (hcount : ∀ role, added.countP (·.role = role) = if stored.spec.refers role then 1 else 0) :
    Bounded store ∧ Exact store := by
  obtain ⟨hknown, hbound⟩ := h.bounded.later hlater
  have hmem := (JobTable.find_some hfind).1
  have huid : stored.uid = j.uid := hadvances.uid
  refine ⟨⟨fun b hb => ?_, fun b hb j' hj' hbuid => ?_⟩, fun j' hj' hruns role => ?_⟩
  · rw [hexecutions] at hb
    rcases List.mem_append.mp hb with hb | hb
    · exact hknown b hb
    · rw [(hown b hb).1, huid]
      exact hlater.known _ (known_of_mem hmem)
  · rw [hexecutions] at hb
    rcases List.mem_append.mp hb with hb | hb
    · exact hbound b hb j' hj' hbuid
    · obtain ⟨hb, hbepoch⟩ := hown b hb
      rw [hjobs] at hj'
      rcases mem_put h.inv.sound hfind hj' with rfl | ⟨-, hne⟩
      · exact hbepoch ▸ Int64.le_refl _
      · exact absurd (hbuid.trans (hb.trans huid)) hne
  · rw [hexecutions, bound_append]
    rw [hjobs] at hj'
    rcases mem_put h.inv.sound hfind hj' with rfl | ⟨hj', hne⟩
    · rw [h.bounded.fresh hmem (JobTable.advances_jobLater hadvances) hepoch, bound_own hown, hcount, expected,
        Nat.zero_add]
    · rw [bound_other hown (huid ▸ hne), h.exact j' hj' hruns, Nat.add_zero]

theorem Bound.mutate {m : Mutation} {store : Store} (hlater : Later s.store store)
    (heffect : Effect c.toContext m s.store store) : Bounded store ∧ Exact store := by
  cases heffect with
  | unchanged jobs executions deleted =>
    exact h.store hlater executions fun j hj _ => ⟨j, jobs ▸ hj, .refl j, .inl rfl⟩
  | created j state kind uid jobs executions deleted =>
    refine h.store hlater executions fun j' hj' hruns => ?_
    rw [JobTable.create_ok jobs] at hj'
    rcases List.mem_append.mp hj' with hj' | hj'
    · exact ⟨j', hj', .refl j', .inl rfl⟩
    · rw [List.mem_singleton.mp hj', created_halted state] at hruns
      cases hruns
  | moved j stored find advances epoch jobs executions deleted =>
    refine h.store hlater executions fun j' hj' _ => ?_
    rw [jobs] at hj'
    rcases mem_put h.inv.sound find hj' with rfl | ⟨hj', -⟩
    · exact ⟨j, (JobTable.find_some find).1, JobTable.advances_jobLater advances, .inl epoch⟩
    · exact ⟨j', hj', .refl j', .inl rfl⟩
  | started j stored added find advances epoch jobs executions own count deleted =>
    exact h.started hlater find advances epoch jobs executions own count
  | removed j mem inactive jobs executions deleted =>
    refine h.store hlater executions fun j' hj' _ => ⟨j', ?_, .refl j', .inl rfl⟩
    rw [jobs] at hj'
    exact List.mem_of_mem_filter hj'

theorem Bound.call {r : SyncJob} {store : Store} (hlater : Later s.store store)
    (hplain : ExecutionBindings.plain r = true) (hg : Guarantee c.toContext (fun _ => false) r s.store store) :
    Bounded store ∧ Exact store := by
  refine h.store hlater hg.executions fun j' hj' hruns => ?_
  rcases hg.jobs j' hj' with hj' | ⟨hcreated, -⟩ | ⟨j, hj, hjlater, hepoch | ⟨hepoch, htoRun, hspec, -⟩⟩
  · exact ⟨j', hj', .refl j', .inl rfl⟩
  · rw [created_halted hcreated] at hruns
    cases hruns
  · exact ⟨j, hj, hjlater, .inl hepoch⟩
  · refine ⟨j, hj, hjlater, .inr ⟨hepoch, fun role => ?_⟩⟩
    simp only [ExecutionBindings.plain, htoRun, Bool.not_true, Bool.false_or, Bool.and_eq_true,
      Bool.not_eq_true'] at hplain
    rw [hspec]
    cases role with
    | source => exact hplain.1
    | sink => exact hplain.2

theorem Bound.wrote {e : Event} {store : Store} (hlater : Later s.store store)
    (hwrote : Wrote c (fun _ _ => false) s e store) : Bounded store ∧ Exact store := by
  cases hwrote with
  | refused => exact ⟨h.bounded, h.exact⟩
  | mutated effect => exact h.mutate hlater effect
  | called mem guarantee => exact h.call hlater (h.plain _ mem) guarantee
  | advanced transition =>
    refine h.store hlater transition.executions fun j' hj' _ => ?_
    obtain ⟨j, hj, hjlater, hepoch⟩ := transition.jobs j' hj'
    exact ⟨j, hj, hjlater, .inl hepoch⟩

end

theorem plain_step {e : Event} (h : ∀ p ∈ s.processes, plain p.1 = true) (hok : unbound s e = true)
    (hstep : step c s e = some t) : ∀ p ∈ t.processes, plain p.1 = true := by
  cases e with
  | mutate =>
    cases hstep
    exact h
  | reconcile =>
    cases hstep
    intro p hp
    rcases List.mem_append.mp hp with hp | hp
    · exact h p hp
    · rw [List.mem_singleton.mp hp]
      exact (Bool.and_eq_true_iff.mp hok).2
  | call =>
    obtain ⟨p, hp, hstep⟩ := Option.bind_eq_some_iff.mp hstep
    obtain ⟨_, _, rfl⟩ := Option.map_eq_some_iff.mp hstep
    intro q hq
    rcases List.mem_or_eq_of_mem_set hq with hq | rfl
    · exact h q hq
    · exact h p (List.mem_of_getElem? hp)
  | advance =>
    cases hstep
    exact h

theorem Bound.step (s : System) (e : Event) (t : System) (h : Bound c s) (hok : unbound s e = true)
    (hstep : step c s e = some t) : Bound c t := by
  have hapart := (Bool.and_eq_true_iff.mp hok).1
  obtain ⟨hwrote, hinv⟩ := step_wrote h.inv (fun _ => rfl) hapart hstep
  obtain ⟨hbounded, hexact⟩ := h.wrote (h.inv.rely hwrote hapart).later hwrote
  exact ⟨hinv, plain_step h.plain hok hstep, hbounded, hexact⟩

theorem idle_bound (c : Settings) : Bound c idle := by
  refine ⟨⟨JobTable.sound_nil _, ?_⟩, ?_, ⟨?_, ?_⟩, ?_⟩ <;> intro _ h <;> cases h

/-- Whatever the API, the controller and the scheduler do, a job that runs has its bindings, as long as the controller
runs resources without Connections only. -/
theorem run_bindings {events : List Event} (hok : meets (step c) unbound idle events = true)
    (hrun : run (step c) idle events = some t) : Exact t.store :=
  (run_invariant Bound.step (idle_bound c) hok hrun).exact

end

def warehouse : Bytes := lit "warehouse"

/-- The controller starts the job of a resource that names a Connection, and nothing is bound for the execution. -/
theorem bindings_missing : ∃ t, run (step sampleSettings) idle (reconciled (orders warehouse)) = some t ∧
      observed t = [((orders warehouse).key, .initializing, 1)] ∧ ¬ Exact t.store := by
  have hrun : (run (step sampleSettings) idle (reconciled (orders warehouse))).map
      (fun t => (observed t, t.store.jobs.any fun j =>
        runs j.status.state && bound t.store.executions j .source ≠ expected j .source)) =
      some ([((orders warehouse).key, .initializing, 1)], true) := by decide +kernel
  obtain ⟨t, ht, hobserved⟩ := Option.map_eq_some_iff.mp hrun
  obtain ⟨hjobs, hmissing⟩ := Prod.mk.inj hobserved
  refine ⟨t, ht, hjobs, fun hexact => ?_⟩
  obtain ⟨j, hj, hne⟩ := List.any_eq_true.mp hmissing
  rw [Bool.and_eq_true, decide_eq_true_iff] at hne
  exact hne.2 (hexact j hj hne.1 .source)

def sampleRevision : Bytes := lit "sha256:" ++ List.replicate 64 48

def sampleTenant : Bytes := lit "22222222-2222-2222-2222-222222222222"

def sampleConnection : Bytes := lit "33333333-3333-3333-3333-333333333333"

def sampleFence : ValidationFence :=
  ⟨"validation", sampleRevision, sampleRevision,
    [⟨.source, sampleTenant, warehouse, sampleConnection, lit "mysql-cdc", 1, sampleRevision, sampleRevision⟩]⟩

def sampleConnections : List ConnectionRow :=
  [⟨sampleTenant, warehouse, sampleConnection, lit "mysql-cdc", true, 1, sampleRevision⟩]

def sampleMutation (kind : MutationKind) (version : Int64) (spec : Option Spec) : Mutation :=
  ⟨kind, sampleTenant, (orders warehouse).key, version, sampleUID, spec, some sampleFence,
    ⟨"operator", auditAction kind, sampleRevision, sampleRevision, "request", auditAction kind, 10⟩, []⟩

def startedByAPI : List Event :=
  [.mutate sampleConnections (sampleMutation .create 0 (some (sampleSpec warehouse))),
    .mutate sampleConnections (sampleMutation .start 1 none)]

theorem run_bindings_captured : ∃ t, run (step sampleSettings) idle startedByAPI = some t ∧
      observed t = [((orders warehouse).key, .initializing, 1)] ∧
      t.store.executions.map (fun b => (b.epoch, b.role)) = [(1, .source)] ∧ Exact t.store := by
  have hrun : (run (step sampleSettings) idle startedByAPI).map
      (fun t => (observed t, t.store.executions.map fun b => (b.epoch, b.role))) =
      some ([((orders warehouse).key, .initializing, 1)], [(1, .source)]) := by decide +kernel
  obtain ⟨t, ht, hobserved⟩ := Option.map_eq_some_iff.mp hrun
  obtain ⟨hjobs, hbindings⟩ := Prod.mk.inj hobserved
  exact ⟨t, ht, hjobs, hbindings, run_bindings (by decide +kernel) ht⟩

end AstraSync.ExecutionBindings
