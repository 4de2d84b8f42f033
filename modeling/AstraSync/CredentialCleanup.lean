import AstraSync.CredentialMaterializer

/-!
The clean-up obligation of execution credentials under any number of schedulers that materialize and clean
up the credentials of the same executions.
-/

namespace AstraSync.CredentialCleanup

open ByteStrings JobLifecycle DispatchStore ExecutionResources DispatchDatabase Programs SchedulerWorld
open CredentialMaterializer Transitions

variable {S : Type}

inductive Operation
  | ensure (record : Record)
  | cleanup (i : Identity)
  deriving DecidableEq

def Operation.identity : Operation → Identity
  | .ensure record => record.identity
  | .cleanup i => i

def Operation.cleans : Operation → Bool
  | .ensure _ => false
  | .cleanup _ => true

def Operation.program (c : Settings S) : Operation → Prog S Unit
  | .ensure record => do let _ ← CredentialMaterializer.ensure c record
  | .cleanup i => do let _ ← CredentialMaterializer.cleanup c i

structure Process (S : Type) where
  operation : Operation
  program : Prog S Unit

structure State (S : Type) where
  world : World S
  processes : List (Process S)

/-- A scheduler starts an operation, makes its next call or crashes; a transaction on the dispatch table,
such as the one that takes a lease over, or the removal of an object comes in between. -/
inductive Event (S : Type)
  | start (operation : Operation)
  | call (n : ℕ) (choice : Choice)
  | crash (n : ℕ)
  | transact (t : Transaction S)
  | remove (kind : Kind) (name : Bytes)

def step (c : Settings S) (s : State S) : Event S → Option (State S)
  | .start operation => some { s with processes := s.processes ++ [⟨operation, operation.program c⟩] }
  | .call n choice =>
    s.processes[n]?.bind fun p =>
      (p.program.resume (execute c) s.world choice).map fun next =>
        ⟨next.1, s.processes.set n ⟨p.operation, next.2⟩⟩
  | .crash n => some { s with processes := s.processes.eraseIdx n }
  | .transact t => (transact c.toContext s.world.db t).map fun db => { s with world := { s.world with db } }
  | .remove kind name => some { s with world := removeObject s.world kind name }

def Claimed (w : World S) (i : Identity) : Prop :=
  ∀ b ∈ w.bindings, bound i b = true → ∃ o ∈ w.obligations, obligationOf b o = true ∧ o.state = .pending

def Covered (w : World S) : Prop :=
  ∀ i, i.validate = none → ∀ o ∈ w.objects, o.resource = resourceOf i .credentials → Claimed w i

def obliged (i : Identity) (o : Obligation) : Bool := o.jobUID = i.jobUID && o.epoch = i.epoch

def inFlight (i : Identity) (cleans : Bool) (p : Process S) : Bool :=
  p.operation.identity = i && p.operation.cleans = cleans && !p.program.finished

/-- Materialization starts only before any clean-up of the execution, and clean-up only while no
materialization of it is in flight. -/
def apart (s : State S) : Event S → Bool
  | .start (.ensure record) =>
    !s.processes.any (inFlight record.identity true) &&
      s.world.obligations.all fun o => !obliged record.identity o || o.state = .pending
  | .start (.cleanup i) => !s.processes.any (inFlight i false)
  | _ => true

def NoneComplete (w : World S) (i : Identity) : Prop :=
  ∀ o ∈ w.obligations, obliged i o = true → o.state = .pending

def Absent (w : World S) (i : Identity) : Prop :=
  ∀ o ∈ w.objects, o.resource ≠ resourceOf i .credentials

structure EnsureStep (i : Identity) (t u : World S) : Prop where
  bindings : u.bindings = t.bindings
  kept : ∀ o ∈ t.obligations, o ∈ u.obligations
  fresh : ∀ o ∈ u.obligations, o ∈ t.obligations ∨ o.state = .pending
  objects : ∀ o ∈ u.objects, o ∈ t.objects ∨ (o.resource = resourceOf i .credentials ∧ i.validate = none ∧ Claimed u i)

structure CleanupStep (i : Identity) (t u : World S) : Prop where
  bindings : u.bindings = t.bindings
  objects : ∀ o ∈ u.objects, o ∈ t.objects
  obligations : u.obligations = t.obligations ∨
    (u.obligations = t.obligations.map (finishObligation i) ∧ i.validate = none ∧ Absent u i)

structure EnsureRely (i : Identity) (s t : World S) : Prop where
  bindings : t.bindings = s.bindings
  pending : NoneComplete t i
  claimed : Claimed s i → Claimed t i

def ensureRules (c : Settings S) (i : Identity) : Rules (World S) (Call S) Answer :=
  ⟨executes c, EnsureRely i, fun t _ _ u => EnsureStep i t u⟩

def cleanupRules (c : Settings S) (i : Identity) : Rules (World S) (Call S) Answer :=
  ⟨executes c, fun s t => i.validate = none → Absent s i → Absent t i, fun t _ _ u => CleanupStep i t u⟩

theorem claimObligation_spec (obligations : List Obligation) (b : Binding) :
    (∀ o ∈ obligations, o ∈ claimObligation obligations b) ∧
    (∀ o ∈ claimObligation obligations b, o ∈ obligations ∨ o.state = .pending) ∧
    ∃ o ∈ claimObligation obligations b, obligationOf b o = true := by
  unfold claimObligation
  split_ifs with h
  · exact ⟨fun _ ho => ho, fun _ ho => .inl ho, List.any_eq_true.mp h⟩
  · refine ⟨fun o ho => List.mem_append_left _ ho, fun o ho => ?_, _,
      List.mem_append_right _ (List.mem_singleton_self _), ?_⟩
    · grind
    · simp [obligationOf]

theorem foldl_claimObligation (bindings : List Binding) (obligations : List Obligation) :
    (∀ o ∈ obligations, o ∈ bindings.foldl claimObligation obligations) ∧
    (∀ o ∈ bindings.foldl claimObligation obligations, o ∈ obligations ∨ o.state = .pending) ∧
    ∀ b ∈ bindings, ∃ o ∈ bindings.foldl claimObligation obligations, obligationOf b o = true := by
  induction bindings generalizing obligations with
  | nil => exact ⟨fun _ ho => ho, fun _ ho => .inl ho, by simp⟩
  | cons b bindings ih =>
    obtain ⟨hkept, hfresh, o, ho, hof⟩ := claimObligation_spec obligations b
    obtain ⟨ihkept, ihfresh, ihall⟩ := ih (claimObligation obligations b)
    refine ⟨fun q hq => ihkept q (hkept q hq), fun q hq => ?_, fun d hd => ?_⟩
    · grind
    · grind

theorem mem_sortBindings {bindings : List Binding} {b : Binding} : b ∈ sortBindings bindings ↔ b ∈ bindings := by
  simp only [sortBindings, List.mem_append, List.mem_filter, decide_eq_true_eq]
  cases b.role <;> simp

variable {i j : Identity} {o : Obligation}

theorem nameFault_none {c : Settings S} (h : nameFault c i = none) : i.validate = none := by
  unfold nameFault at h
  split at h
  · cases h
  · assumption

theorem obliged_of_obligationOf {b : Binding} (hb : bound i b = true)
    (ho : obligationOf b o = true) : obliged i o = true := by
  simp only [bound, obligationOf, obliged, Bool.and_eq_true, decide_eq_true_eq] at *
  exact ⟨ho.1.2.trans hb.1, ho.2.trans hb.2⟩

theorem EnsureStep.refl (i : Identity) (t : World S) : EnsureStep i t t :=
  ⟨rfl, fun _ h => h, fun _ h => .inl h, fun _ h => .inl h⟩

theorem CleanupStep.refl (i : Identity) (t : World S) : CleanupStep i t t := ⟨rfl, fun _ h => h, .inl rfl⟩

section

variable {c : Settings S} {record : Record} {bindings : List Binding} {now : Time} {result : Materialized}
  {i : Identity} {s : World S}

theorem ensure_call {α : Type} {post : α → World S → Prop} {e : Call S} {f : Answer e → Prog S α} (hs : Claimed s i)
    (hstep : ∀ t r u, Claimed t i → executes c t e r u → EnsureStep i t u ∧ Claimed u i)
    (hnext : ∀ r u, Claimed u i → Obeys (ensureRules c i) post (f r) u) :
    Obeys (ensureRules c i) post (perform e >>= f) s := by
  apply obeys_perform
  intro t ht r u hu
  obtain ⟨hguarantee, hclaimed⟩ := hstep t r u (ht.claimed hs) hu
  exact ⟨hguarantee, hnext r u hclaimed⟩

theorem ensure_read {e : Call S} (hreads : e.reads = true) (t : World S) (r : Answer e) (u : World S)
    (ht : Claimed t i) (h : executes c t e r u) : EnsureStep i t u ∧ Claimed u i := by
  obtain ⟨choice, h⟩ := h
  cases execute_reads hreads h
  exact ⟨.refl i t, ht⟩

theorem commit_obeys {providers : List ProviderReceipt} {o : Object} (hs : Claimed s record.identity) :
    Obeys (ensureRules c record.identity) (fun _ _ => True) (commit c record bindings now result providers o) s := by
  unfold commit
  split_ifs
  · trivial
  · refine ensure_call hs (fun t r u ht h => ?_) (fun r u _ => by split <;> trivial)
    obtain ⟨choice, h⟩ := h
    rcases execute_commitReceipts h with rfl | ⟨committed, rfl⟩
    · exact ⟨.refl _ _, ht⟩
    · exact ⟨⟨rfl, fun _ h => h, fun _ h => .inl h, fun _ h => .inl h⟩, ht⟩

theorem createSecret_obeys (hi : i.validate = none) {fingerprint : Bytes}
    {data : List (Bytes × Bytes)} (hs : Claimed s i) :
    Obeys (ensureRules c i) (fun _ u => Claimed u i) (createSecret i fingerprint data) s := by
  unfold createSecret
  refine ensure_call hs (fun t r u ht h => ?_) (fun r u hu => ?_)
  · obtain ⟨choice, h⟩ := h
    rcases execute_createObject h with rfl | ⟨o, ho, rfl⟩
    · exact ⟨.refl i _, ht⟩
    · refine ⟨⟨rfl, fun _ h => h, fun _ h => .inl h, fun q hq => ?_⟩, ht⟩
      rcases List.mem_append.mp hq with hq | hq
      · exact .inl hq
      · rw [List.mem_singleton.mp hq]
        exact .inr ⟨ho, hi, ht⟩
  · split
    · exact hu
    · refine ensure_call hu (ensure_read rfl) (fun r u hu => ?_)
      split
      · exact hu
      · split_ifs <;> exact hu
    · exact hu

theorem materialize_obeys (hi : record.identity.validate = none) (hs : Claimed s record.identity) :
    Obeys (ensureRules c record.identity) (fun _ _ => True) (materialize c record bindings now result) s := by
  unfold materialize
  refine ensure_call hs (ensure_read rfl) (fun r u hu => ?_)
  split
  · -- no Secret yet: it is created
    refine ensure_call hu (ensure_read rfl) (fun r u hu => ?_)
    split
    · trivial
    · refine ensure_call hu (ensure_read rfl) (fun r u hu => ?_)
      split
      · trivial
      · apply obeys_bind
        apply obeys_weaken (createSecret_obeys hi hu)
        intro r u hu
        split
        · trivial
        · exact commit_obeys hu
  · trivial
  · refine ensure_call hu (ensure_read rfl) (fun r u hu => ?_)
    split
    · trivial
    · split_ifs
      · trivial
      · trivial
      · refine ensure_call hu (ensure_read rfl) (fun r u hu => ?_)
        split
        · trivial
        · split_ifs
          · exact commit_obeys hu
          · trivial

theorem ensure_obeys (s : World S) : Obeys (ensureRules c record.identity) (fun _ _ => True) (ensure c record) s := by
  unfold ensure
  apply obeys_perform
  intro t ht now u ⟨choice, h⟩
  cases execute_reads rfl h
  refine ⟨.refl _ _, ?_⟩
  apply obeys_perform
  intro v hv loaded x ⟨choice, h⟩
  cases execute_reads rfl h
  refine ⟨.refl _ _, ?_⟩
  split
  · trivial
  · next loaded =>
    have hloaded := execute_loadBindings h
    split
    · trivial
    · next first rest hsorted =>
      dsimp only
      split_ifs
      · trivial
      · apply obeys_perform
        intro y hy r z ⟨choice, h⟩
        obtain ⟨hkept, hfresh, hall⟩ := foldl_claimObligation (first :: rest) y.obligations
        rcases execute_claimCleanup h with ⟨rfl, hr⟩ | rfl
        · refine ⟨.refl _ _, ?_⟩
          split
          · trivial
          · exact absurd rfl hr
        · refine ⟨⟨rfl, hkept, hfresh, fun _ h => .inl h⟩, ?_⟩
          split
          · trivial
          · split
            · trivial
            · next hname =>
              apply materialize_obeys (nameFault_none hname)
              -- an obligation that was there before is pending too, as none is complete
              intro b hb hbound
              have hmem : b ∈ first :: rest := by
                rw [← hsorted, mem_sortBindings, hloaded]
                exact List.mem_filter.mpr ⟨hy.bindings ▸ hb, hbound⟩
              obtain ⟨o, ho, hof⟩ := hall b hmem
              refine ⟨o, ho, hof, ?_⟩
              rcases hfresh o ho with hold | hpending
              · exact hy.pending o hold (obliged_of_obligationOf hbound hof)
              · exact hpending

theorem cleanup_read {α : Type} {e : Call S} (hreads : e.reads = true) {f : Answer e → Prog S α} {s : World S}
    (hnext : ∀ t r, executes c t e r t → Obeys (cleanupRules c i) (fun _ _ => True) (f r) t) :
    Obeys (cleanupRules c i) (fun _ _ => True) (perform e >>= f) s := by
  apply obeys_perform
  intro t _ r u ⟨choice, h⟩
  cases execute_reads hreads h
  exact ⟨.refl i t, hnext t r ⟨choice, h⟩⟩

theorem confirmCleanup_obeys (hi : i.validate = none) (s : World S) :
    Obeys (cleanupRules c i) (fun _ _ => True) (confirmCleanup i) s := by
  unfold confirmCleanup
  refine cleanup_read rfl fun t r h => ?_
  split
  · trivial
  · obtain ⟨choice, h⟩ := h
    have habsent : Absent t i := by
      intro o ho hresource
      have := execute_getObject h rfl o ho
      simp [isObject, hresource, resourceOf, Part.kind] at this
    intro u hu r v ⟨choice, h⟩
    refine ⟨?_, trivial⟩
    rcases execute_completeCleanup h with rfl | rfl
    · exact .refl i _
    · exact ⟨rfl, fun _ h => h, .inr ⟨rfl, hi, hu hi habsent⟩⟩
  · trivial

theorem cleanup_obeys (s : World S) : Obeys (cleanupRules c i) (fun _ _ => True) (cleanup c i) s := by
  unfold cleanup
  split
  · trivial
  · next hname =>
    have hi := nameFault_none hname
    refine cleanup_read rfl fun t r _ => ?_
    split
    · split_ifs
      · trivial
      · apply obeys_perform
        intro u _ r v ⟨choice, h⟩
        refine ⟨?_, ?_⟩
        · rcases execute_deleteObject h with rfl | rfl
          · exact .refl i _
          · exact ⟨rfl, fun _ h => List.mem_of_mem_filter h, .inl rfl⟩
        · split
          · exact confirmCleanup_obeys hi v
          · trivial
          · exact confirmCleanup_obeys hi v
    · exact confirmCleanup_obeys hi t
    · trivial

end

theorem validate_epoch (h : i.validate = none) : 0 < i.epoch := by
  grind [Identity.validate, Int64.not_le]

theorem resourceOf_inj {p q : Part} (hi : i.validate = none) (hj : j.validate = none)
    (h : resourceOf i p = resourceOf j q) : i = j := by
  have hlabels : labels i p.component = labels j q.component := congrArg Resource.labels h
  have hidentity := identityOf_labels (validate_epoch hi) p.component
  rw [hlabels, identityOf_labels (validate_epoch hj)] at hidentity
  exact (Option.some.inj hidentity).symm

theorem eq_of_obliged (hi : obliged i o = true) (hj : obliged j o = true) : i = j := by
  simp only [obliged, Bool.and_eq_true, decide_eq_true_eq] at hi hj
  cases i
  cases j
  simp only at hi hj
  rw [← hi.1, ← hi.2, ← hj.1, ← hj.2]

theorem finishObligation_other (hne : j ≠ i) (ho : obliged j o = true) : finishObligation i o = o := by
  unfold finishObligation
  rw [if_neg]
  rintro ⟨huid, hepoch⟩
  exact hne (eq_of_obliged ho (by simp [obliged, huid, hepoch]))

section

variable {i j : Identity} {t u : World S}

theorem EnsureStep.rely (h : EnsureStep i t u) (hpending : NoneComplete t j) : EnsureRely j t u := by
  refine ⟨h.bindings, fun o ho hj => ?_, fun hclaimed b hb hbound => ?_⟩
  · rcases h.fresh o ho with ho | ho
    · exact hpending o ho hj
    · exact ho
  · obtain ⟨o, ho, hof⟩ := hclaimed b (h.bindings ▸ hb) hbound
    exact ⟨o, h.kept o ho, hof⟩

theorem EnsureStep.absent (h : EnsureStep i t u) (hj : j.validate = none) (hne : i ≠ j) (habsent : Absent t j) :
    Absent u j := by
  intro o ho hresource
  rcases h.objects o ho with ho | ⟨hi, hvalid, -⟩
  · exact habsent o ho hresource
  · exact hne (resourceOf_inj hvalid hj (hi.symm.trans hresource))

theorem EnsureStep.covered (h : EnsureStep i t u) (hcovered : Covered t) : Covered u := by
  intro j hj o ho hresource
  rcases h.objects o ho with ho | ⟨hi, hvalid, hclaimed⟩
  · intro b hb hbound
    obtain ⟨o, ho, hof⟩ := hcovered j hj o ho hresource b (h.bindings ▸ hb) hbound
    exact ⟨o, h.kept o ho, hof⟩
  · cases resourceOf_inj hvalid hj (hi.symm.trans hresource)
    exact hclaimed

section

variable (h : CleanupStep i t u)

include h

theorem CleanupStep.mem_iff (hne : j ≠ i) {o : Obligation} (ho : obliged j o = true) :
    o ∈ u.obligations ↔ o ∈ t.obligations := by
  rcases h.obligations with heq | ⟨heq, -⟩
  · rw [heq]
  · rw [heq, List.mem_map]
    constructor
    · rintro ⟨q, hq, rfl⟩
      have hobliged : obliged j q = true := by
        unfold finishObligation at ho
        split_ifs at ho <;> exact ho
      rw [finishObligation_other hne hobliged]
      exact hq
    · intro hmem
      exact ⟨o, hmem, finishObligation_other hne ho⟩

theorem CleanupStep.claimed (hne : j ≠ i) (hclaimed : Claimed t j) : Claimed u j := by
  intro b hb hbound
  obtain ⟨o, ho, hof, hstate⟩ := hclaimed b (h.bindings ▸ hb) hbound
  exact ⟨o, (h.mem_iff hne (obliged_of_obligationOf hbound hof)).mpr ho, hof, hstate⟩

theorem CleanupStep.rely (hne : j ≠ i) (hpending : NoneComplete t j) : EnsureRely j t u :=
  ⟨h.bindings, fun o ho hj => hpending o ((h.mem_iff hne hj).mp ho) hj, h.claimed hne⟩

theorem CleanupStep.covered (hcovered : Covered t) : Covered u := by
  intro j hj o ho hresource
  have hclaimed := hcovered j hj o (h.objects o ho) hresource
  rcases eq_or_ne j i with rfl | hne
  · rcases h.obligations with heq | ⟨-, -, habsent⟩
    · intro b hb hbound
      rw [heq]
      exact hclaimed b (h.bindings ▸ hb) hbound
    · exact absurd hresource (habsent o ho)
  · exact h.claimed hne hclaimed

end

end

structure Inv (c : Settings S) (s : State S) : Prop where
  covered : Covered s.world
  ensures : ∀ p ∈ s.processes, p.operation.cleans = false → p.program.finished = false →
    NoneComplete s.world p.operation.identity ∧
      Obeys (ensureRules c p.operation.identity) (fun _ _ => True) p.program s.world
  cleanups : ∀ p ∈ s.processes, p.operation.cleans = true →
    Obeys (cleanupRules c p.operation.identity) (fun _ _ => True) p.program s.world
  apart : ∀ p ∈ s.processes, ∀ q ∈ s.processes, p.operation.cleans = false → p.program.finished = false →
    q.operation.cleans = true → q.program.finished = false → p.operation.identity ≠ q.operation.identity

section

variable {c : Settings S} {s : State S}

theorem ensureRely_trans {i : Identity} (s t u : World S) (hst : EnsureRely i s t) (htu : EnsureRely i t u) :
    EnsureRely i s u :=
  ⟨htu.bindings.trans hst.bindings, htu.pending, fun h => htu.claimed (hst.claimed h)⟩

theorem world_inv (h : Inv c s) {w : World S} (hcovered : Covered w)
    (hensures : ∀ p ∈ s.processes, p.operation.cleans = false → p.program.finished = false →
      EnsureRely p.operation.identity s.world w)
    (hcleanups : ∀ p ∈ s.processes, p.operation.cleans = true → p.program.finished = false →
      p.operation.identity.validate = none → Absent s.world p.operation.identity → Absent w p.operation.identity) :
    Inv c { s with world := w } := by
  refine ⟨hcovered, fun p hp hcleans hfinished => ?_, fun p hp hcleans => ?_, h.apart⟩
  · have hrely := hensures p hp hcleans hfinished
    exact ⟨hrely.pending, obeys_rely (h.ensures p hp hcleans hfinished).2 ensureRely_trans hrely⟩
  · cases hprogram : p.program with
    | done => trivial
    | call =>
      rw [← hprogram]
      apply obeys_rely (h.cleanups p hp hcleans) (fun s t u hst htu hi habsent => htu hi (hst hi habsent))
      exact hcleanups p hp hcleans (by rw [hprogram]; rfl)

variable {p : Process S} {rest : Prog S Unit}

theorem set_inv (h : Inv c s) {n : ℕ} (hp : p ∈ s.processes) (hunfinished : p.program.finished = false)
    (hensure : p.operation.cleans = false → NoneComplete s.world p.operation.identity ∧
      Obeys (ensureRules c p.operation.identity) (fun _ _ => True) rest s.world)
    (hcleanup : p.operation.cleans = true →
      Obeys (cleanupRules c p.operation.identity) (fun _ _ => True) rest s.world) :
    Inv c { s with processes := s.processes.set n ⟨p.operation, rest⟩ } := by
  -- the operations in flight afterwards are among those in flight before
  have hmem : ∀ q ∈ s.processes.set n ⟨p.operation, rest⟩, q.program.finished = false →
      ∃ q' ∈ s.processes, q'.operation = q.operation ∧ q'.program.finished = false := by
    grind
  refine ⟨h.covered, fun q hq hcleans hfinished => ?_, fun q hq hcleans => ?_, ?_⟩
  · grind [Inv, List.mem_or_eq_of_mem_set]
  · grind [Inv, List.mem_or_eq_of_mem_set]
  · grind [Inv]

theorem resume_unfinished {p : Prog S Unit} {w u : World S} {choice : Choice}
    (h : p.resume (execute c) w choice = some (u, rest)) : p.finished = false := by
  cases p with
  | done => cases h
  | call => rfl

theorem call_inv (h : Inv c s) {n : ℕ} {choice : Choice} {u : World S}
    (hp : s.processes[n]? = some p) (hresume : p.program.resume (execute c) s.world choice = some (u, rest)) :
    Inv c ⟨u, s.processes.set n ⟨p.operation, rest⟩⟩ := by
  have hmem := List.mem_of_getElem? hp
  have hunfinished := resume_unfinished hresume
  cases hcleans : p.operation.cleans with
  | false =>
    obtain ⟨hpending, hobeys⟩ := h.ensures p hmem hcleans hunfinished
    obtain ⟨⟨e, r, hstep⟩, hrest⟩ := obeys_resume id hobeys hresume (fun _ _ => executes_of)
      ⟨rfl, hpending, fun hclaimed => hclaimed⟩
    have hworld : Inv c { s with world := u } := by
      refine world_inv h (EnsureStep.covered hstep h.covered) (fun q hq hqcleans hqfinished => ?_)
        (fun q hq hqcleans hqfinished hvalid => ?_)
      · exact EnsureStep.rely hstep (h.ensures q hq hqcleans hqfinished).1
      · exact EnsureStep.absent hstep hvalid (h.apart p hmem q hq hcleans hunfinished hqcleans hqfinished)
    refine set_inv hworld hmem hunfinished (fun _ => ⟨?_, hrest⟩) (fun hcontra => ?_)
    · exact (EnsureStep.rely hstep hpending).pending
    · rw [hcleans] at hcontra
      cases hcontra
  | true =>
    obtain ⟨⟨e, r, hstep⟩, hrest⟩ := obeys_resume id (h.cleanups p hmem hcleans) hresume
      (fun _ _ => executes_of) (fun _ habsent => habsent)
    have hworld : Inv c { s with world := u } := by
      refine world_inv h (CleanupStep.covered hstep h.covered) (fun q hq hqcleans hqfinished => ?_)
        (fun q hq hqcleans hqfinished _ habsent o ho => habsent o (CleanupStep.objects hstep o ho))
      exact CleanupStep.rely hstep (h.apart q hq p hmem hqcleans hqfinished hcleans hunfinished)
        (h.ensures q hq hqcleans hqfinished).1
    refine set_inv hworld hmem hunfinished (fun hcontra => ?_) (fun _ => hrest)
    rw [hcleans] at hcontra
    cases hcontra

theorem program_obeys_ensure (record : Record) (w : World S) :
    Obeys (ensureRules c record.identity) (fun _ _ => True) ((Operation.ensure record).program c) w :=
  obeys_bind (obeys_weaken (ensure_obeys w) fun _ _ _ => trivial)

theorem program_obeys_cleanup (i : Identity) (w : World S) :
    Obeys (cleanupRules c i) (fun _ _ => True) ((Operation.cleanup i).program c) w :=
  obeys_bind (obeys_weaken (cleanup_obeys w) fun _ _ _ => trivial)

theorem inFlight_iff {i : Identity} {cleans : Bool} :
    inFlight i cleans p = true ↔ p.operation.identity = i ∧ p.operation.cleans = cleans ∧ p.program.finished = false := by
  simp [inFlight, and_assoc]

theorem start_inv (h : Inv c s) (operation : Operation) (hok : apart s (.start operation) = true) :
    Inv c { s with processes := s.processes ++ [⟨operation, operation.program c⟩] } := by
  refine ⟨h.covered, fun p hp hcleans hfinished => ?_, fun p hp hcleans => ?_, ?_⟩
  · rcases List.mem_append.mp hp with hp | hp
    · exact h.ensures p hp hcleans hfinished
    · cases List.mem_singleton.mp hp
      cases operation with
      | cleanup => cases hcleans
      | ensure record =>
        refine ⟨fun o ho hobliged => ?_, program_obeys_ensure record s.world⟩
        simp only [apart, Bool.and_eq_true, List.all_eq_true] at hok
        have hrecord : obliged record.identity o = true := hobliged
        simpa [hrecord] using hok.2 o ho
  · rcases List.mem_append.mp hp with hp | hp
    · exact h.cleanups p hp hcleans
    · cases List.mem_singleton.mp hp
      cases operation with
      | ensure => cases hcleans
      | cleanup i => exact program_obeys_cleanup i s.world
  · intro p hp q hq hpcleans hpfinished hqcleans hqfinished heq
    rcases List.mem_append.mp hp with hpold | hpnew <;> rcases List.mem_append.mp hq with hqold | hqnew
    · exact h.apart p hpold q hqold hpcleans hpfinished hqcleans hqfinished heq
    · cases List.mem_singleton.mp hqnew
      cases operation with
      | ensure => cases hqcleans
      | cleanup =>
        simp only [apart, Bool.not_eq_true', List.any_eq_false] at hok
        exact hok p hpold (inFlight_iff.mpr ⟨heq, hpcleans, hpfinished⟩)
    · cases List.mem_singleton.mp hpnew
      cases operation with
      | cleanup => cases hpcleans
      | ensure =>
        simp only [apart, Bool.and_eq_true, Bool.not_eq_true', List.any_eq_false] at hok
        exact hok.1 q hqold (inFlight_iff.mpr ⟨heq.symm, hqcleans, hqfinished⟩)
    · grind

theorem step_inv (h : Inv c s) {e : Event S} {t : State S} (hok : apart s e = true) (ht : step c s e = some t) :
    Inv c t := by
  cases e with
  | start operation =>
    cases ht
    exact start_inv h operation hok
  | call =>
    obtain ⟨p, hp, ht⟩ := Option.bind_eq_some_iff.mp ht
    obtain ⟨⟨u, rest⟩, hresume, heq⟩ := Option.map_eq_some_iff.mp ht
    cases heq
    exact call_inv h hp hresume
  | crash n =>
    cases ht
    have hsub {p : Process S} (hp : p ∈ s.processes.eraseIdx n) : p ∈ s.processes := List.mem_of_mem_eraseIdx hp
    exact ⟨h.covered, fun p hp => h.ensures p (hsub hp), fun p hp => h.cleanups p (hsub hp),
      fun p hp q hq => h.apart p (hsub hp) q (hsub hq)⟩
  | transact =>
    obtain ⟨db, -, rfl⟩ := Option.map_eq_some_iff.mp ht
    exact world_inv h h.covered (fun p hp hcleans hfinished => ⟨rfl, (h.ensures p hp hcleans hfinished).1, id⟩)
      (fun _ _ _ _ _ habsent => habsent)
  | remove kind name =>
    cases ht
    have hsub : ∀ o ∈ (removeObject s.world kind name).objects, o ∈ s.world.objects :=
      fun o ho => List.mem_of_mem_filter ho
    refine world_inv h (fun i hi o ho => h.covered i hi o (hsub o ho))
      (fun p hp hcleans hfinished => ⟨rfl, (h.ensures p hp hcleans hfinished).1, id⟩)
      (fun p _ _ _ _ habsent o ho => habsent o (hsub o ho))

/-- As long as no materialization overlaps a clean-up of its execution or follows one, every credential
Secret has its pending obligations, after any run of the schedulers. -/
theorem run_covered {w : World S} {events : List (Event S)} (hw : Covered w)
    (hmeets : meets (step c) apart ⟨w, []⟩ events = true) (hrun : run (step c) ⟨w, []⟩ events = some s) :
    Covered s.world := by
  have hstart : Inv c (⟨w, []⟩ : State S) := ⟨hw, by simp, by simp, by simp⟩
  exact (run_invariant (fun _ _ _ h hok ht => step_inv h hok ht) hstart hmeets hrun).covered

end

def execution : Identity := ⟨sampleUID, 1⟩

def claimedByA : Record :=
  ⟨execution, sampleKey, lit "A", .claimed, 160, some 100, sampleUID, 1, "", 100, 100⟩

def claimed : List (Event Unit) :=
  [.transact (.createJob sampleKey sampleUID () 10), .transact (.request sampleUID .start 20),
    .transact (.claim (lit "A") 4 60 30 100 fun _ => sampleUID)]

def envelopes : Choice := .envelopes [(lit "source.json", lit "secret")] [⟨lit "NONE", lit "object", lit "v1"⟩]

/-- Scheduler A is about to look at the receipts when its lease runs out; the job is stopped, and scheduler B
takes over, cleans up and completes the dispatch before A goes on. -/
def overtaken : List (Event Unit) :=
  claimed ++ [.start (.ensure claimedByA), .call 0 (.time 110), .call 0 .answer, .call 0 .answer, .call 0 .answer,
    .transact (.request sampleUID .stop 120), .transact (.claim (lit "B") 4 60 30 170 fun _ => sampleUID),
    .transact (.update execution (lit "B") .stopping "" 60 171), .start (.cleanup execution), .call 1 .answer,
    .call 1 .answer, .call 1 .answer, .transact (.complete execution (lit "B") .canceled "" 180),
    .call 0 .answer, .call 0 envelopes, .call 0 .answer]

theorem worldWith_covered (bindings : List Binding) : Covered (worldWith bindings) := by
  intro i _ o ho
  cases ho

theorem not_covered {w : World Unit} (hresources : w.objects.map (·.resource) = [resourceOf execution .credentials])
    (hbindings : w.bindings = [sampleBinding])
    (hobligations : w.obligations = [⟨lit "connection", sampleUID, 1, .complete⟩]) : ¬ Covered w := by
  intro hcovered
  have hmem : resourceOf execution .credentials ∈ w.objects.map (·.resource) := by
    rw [hresources]
    exact List.mem_singleton_self _
  obtain ⟨o, ho, hresource⟩ := List.mem_map.mp hmem
  obtain ⟨q, hq, -, hpending⟩ := hcovered execution (by decide +kernel) o ho hresource sampleBinding
    (by rw [hbindings]; exact List.mem_singleton_self _) (by decide +kernel)
  rw [hobligations] at hq
  cases List.mem_singleton.mp hq
  cases hpending

/-- A Secret created after the clean-up was completed has no pending obligation left. -/
theorem overtaken_not_covered :
    ∃ s, run (step sampleSettings) ⟨worldWith [sampleBinding], []⟩ overtaken = some s ∧ ¬ Covered s.world := by
  have hrun : (run (step sampleSettings) ⟨worldWith [sampleBinding], []⟩ overtaken).map
      (fun s => (s.world.objects.map (·.resource), s.world.bindings, s.world.obligations)) =
      some ([resourceOf execution .credentials], [sampleBinding],
        [⟨lit "connection", sampleUID, 1, .complete⟩]) := by
    decide +kernel
  obtain ⟨s, hs, hfields⟩ := Option.map_eq_some_iff.mp hrun
  simp only [Prod.mk.injEq] at hfields
  exact ⟨s, hs, not_covered hfields.1 hfields.2.1 hfields.2.2⟩

def materialized : List (Event Unit) :=
  claimed ++ [.start (.ensure claimedByA), .call 0 (.time 110), .call 0 .answer, .call 0 .answer, .call 0 .answer,
    .call 0 .answer, .call 0 envelopes, .call 0 .answer, .call 0 .answer]

theorem run_covered_materialized :
    ∃ s, run (step sampleSettings) ⟨worldWith [sampleBinding], []⟩ materialized = some s ∧
      s.world.objects.map (·.resource) = [resourceOf execution .credentials] ∧ Covered s.world := by
  have hrun : (run (step sampleSettings) ⟨worldWith [sampleBinding], []⟩ materialized).map
      (fun s => s.world.objects.map (·.resource)) = some [resourceOf execution .credentials] := by
    decide +kernel
  obtain ⟨s, hs, hresources⟩ := Option.map_eq_some_iff.mp hrun
  exact ⟨s, hs, hresources, run_covered (worldWith_covered _) (by decide +kernel) hs⟩

end AstraSync.CredentialCleanup
