import AstraSync.JobMutations

namespace AstraSync.JobRetries

open ByteStrings JobLifecycle JobRepository JobMutations Results Transitions

def sameKey (m m' : Mutation) : Bool :=
  m'.tenantID = m.tenantID && m'.identity.actorID = m.identity.actorID && m'.identity.method = m.identity.method &&
    m'.identity.keyFingerprint = m.identity.keyFingerprint

/-- How the commit of a transaction ends: the caller has the answer, or the answer is lost though the transaction took
place, or it did not take place. -/
inductive Commit
  | answered
  | lost
  | aborted
  deriving DecidableEq

inductive Event
  | call (connections : List ConnectionRow) (m : Mutation) (commit : Commit)
  | others (jobs : List (Job Spec)) (stable : List StableBinding) (executions : List ExecutionBinding)
      (deleted : List Bytes)

def step (c : Context Spec) (s : Store) : Event → Option Store
  | .call connections m commit =>
    match applyMutation c connections s m with
    | .ok (t, _) => some (if commit = .aborted then s else t)
    | .error _ => some s
  | .others jobs stable executions deleted => some { s with jobs, stable, executions, deleted }

def failed (c : Context Spec) (m : Mutation) (s : Store) : Event → Bool
  | .call connections m' commit =>
    !sameKey m m' || commit = .aborted ||
      match applyMutation c connections s m' with
      | .ok _ => false
      | .error _ => true
  | _ => true

section

variable {c : Context Spec} {connections : List ConnectionRow} {s t : Store} {m m' : Mutation}
  {result : MutationResult}

theorem recordOf_congr (h : sameKey m m' = true) : recordOf m' = recordOf m := by
  simp only [sameKey, Bool.and_eq_true, decide_eq_true_eq] at h
  obtain ⟨⟨⟨htenant, hactor⟩, hmethod⟩, hkey⟩ := h
  funext r
  simp only [recordOf, htenant, hactor, hmethod, hkey]

theorem readMutationIdempotency_some (h : readMutationIdempotency s m = .ok (some result)) :
    ∃ r completed, s.idempotency.find? (recordOf m) = some r ∧ r.requestDigest = m.identity.requestDigest ∧
      r.completed = some completed ∧ completed.kind = m.kind ∧ result.outcome = .replayed ∧
      ((m.kind = .delete ∧ ∃ tombstone,
          s.tombstones.find? (fun t => t.tenantID = m.tenantID && t.uid = completed.jobUID) = some tombstone ∧
          result.tombstone = some tombstone) ∨
        (m.kind ≠ .delete ∧ ∃ j, j.uid = completed.jobUID ∧ completed.version ≤ j.version ∧ result.job = some j)) := by
  unfold readMutationIdempotency at h
  split at h
  · cases h
  · next r hr =>
    split at h
    · cases h
    · next hdigest =>
      split at h
      · cases h
      · next completed hcompleted =>
        split at h
        · cases h
        · next hkind =>
          refine ⟨r, completed, hr, not_not.mp hdigest, hcompleted, not_not.mp hkind, ?_⟩
          split at h
          · grind
          · grind

theorem readMutationIdempotency_none :
    readMutationIdempotency s m = .ok none ↔ s.idempotency.find? (recordOf m) = none := by
  constructor
  · intro h
    cases hfind : s.idempotency.find? (recordOf m) with
    | none => rfl
    | some =>
      -- whatever is found under the key, it is an answer
      unfold readMutationIdempotency at h
      rw [hfind] at h
      dsimp only at h
      repeat' split at h
      all_goals cases h
  · intro h
    unfold readMutationIdempotency
    rw [h]

structure Answered (m : Mutation) (s t : Store) (result : MutationResult) : Prop where
  idempotency : t.idempotency = s.idempotency
  outcome : result.outcome ≠ .replayed
  answer : (m.kind ≠ .delete ∧ t.tombstones = s.tombstones ∧ ∃ j, result.job = some j ∧ result.tombstone = none) ∨
    (m.kind = .delete ∧ ∃ tombstone, result.job = none ∧ result.tombstone = some tombstone ∧
      tombstone.tenantID = m.tenantID ∧
      s.tombstones.find? (fun t => t.tenantID = m.tenantID && t.uid = tombstone.uid) = none ∧
      t.tombstones = s.tombstones ++ [tombstone])

variable {fence : ValidationFence}

theorem createJobMutation_answered {spec : Spec} (hkind : m.kind = .create)
    (h : createJobMutation connections s m spec fence = .ok (t, result)) : Answered m s t result := by
  unfold createJobMutation at h
  replace h := bind_rest h
  replace h := bind_rest h
  replace h := bind_rest h
  cases h
  exact ⟨rfl, by simp, .inl ⟨by simp [hkind], rfl, _, rfl, rfl⟩⟩

theorem updateJobMutation_answered {spec : Spec} (hkind : m.kind = .update)
    (h : updateJobMutation c connections s m spec fence = .ok (t, result)) : Answered m s t result := by
  unfold updateJobMutation at h
  obtain ⟨current, -, h⟩ := bind_eq_ok.mp h
  replace h := bind_rest h
  replace h := bind_rest h
  replace h := bind_rest h
  obtain ⟨next, -, h⟩ := bind_eq_ok.mp h
  obtain ⟨⟨jobs, updated⟩, -, h⟩ := bind_eq_ok.mp h
  cases h
  exact ⟨rfl, by simp, .inl ⟨by simp [hkind], rfl, _, rfl, rfl⟩⟩

theorem startJobMutation_answered (hkind : m.kind = .start)
    (h : startJobMutation c connections s m fence = .ok (t, result)) : Answered m s t result := by
  unfold startJobMutation at h
  obtain ⟨current, -, h⟩ := bind_eq_ok.mp h
  obtain ⟨⟨next, changed⟩, -, h⟩ := bind_eq_ok.mp h
  cases changed with
  | false =>
    cases h
    exact ⟨rfl, by simp, .inl ⟨by simp [hkind], rfl, _, rfl, rfl⟩⟩
  | true =>
    replace h := bind_rest h
    replace h := bind_rest h
    replace h := bind_rest h
    replace h := bind_rest h
    obtain ⟨⟨jobs, updated⟩, -, h⟩ := bind_eq_ok.mp h
    obtain ⟨executions, -, h⟩ := bind_eq_ok.mp h
    cases h
    exact ⟨rfl, by simp, .inl ⟨by simp [hkind], rfl, _, rfl, rfl⟩⟩

theorem stopJobMutation_answered (hkind : m.kind = .stop) (h : stopJobMutation c s m = .ok (t, result)) :
    Answered m s t result := by
  unfold stopJobMutation at h
  obtain ⟨current, -, h⟩ := bind_eq_ok.mp h
  obtain ⟨⟨next, changed⟩, -, h⟩ := bind_eq_ok.mp h
  cases changed with
  | false =>
    cases h
    exact ⟨rfl, by simp, .inl ⟨by simp [hkind], rfl, _, rfl, rfl⟩⟩
  | true =>
    replace h := bind_rest h
    obtain ⟨⟨jobs, updated⟩, -, h⟩ := bind_eq_ok.mp h
    cases h
    exact ⟨rfl, by simp, .inl ⟨by simp [hkind], rfl, _, rfl, rfl⟩⟩

theorem deleteJobMutation_answered (hkind : m.kind = .delete) (h : deleteJobMutation s m = .ok (t, result)) :
    Answered m s t result := by
  unfold deleteJobMutation at h
  obtain ⟨current, -, h⟩ := bind_eq_ok.mp h
  replace h := bind_rest h
  replace h := bind_rest h
  obtain ⟨⟨⟩, hunused, h⟩ := bind_eq_ok.mp h
  cases h
  have hnone := check_ok.mp hunused
  rw [Bool.not_eq_true', List.any_eq_false] at hnone
  exact ⟨rfl, by simp, .inr ⟨hkind, _, rfl, rfl, rfl, List.find?_eq_none.mpr hnone, rfl⟩⟩

theorem applyJobMutation_answered (h : applyJobMutation c connections s m = .ok (t, result)) :
    Answered m s t result := by
  unfold applyJobMutation at h
  split at h
  · next hkind _ _ => exact createJobMutation_answered hkind h
  · next hkind _ _ => exact updateJobMutation_answered hkind h
  · next hkind _ => exact startJobMutation_answered hkind h
  · next hkind => exact stopJobMutation_answered hkind h
  · next hkind => exact deleteJobMutation_answered hkind h
  · cases h

theorem applyMutation_ok (h : applyMutation c connections s m = .ok (t, result)) :
    (t = s ∧ readMutationIdempotency s m = .ok (some result)) ∨
      (s.idempotency.find? (recordOf m) = none ∧ ∃ next, Answered m s next result ∧ t.tombstones = next.tombstones ∧
        t.idempotency = next.idempotency ++ [⟨m.tenantID, m.identity.actorID, m.identity.method,
          m.identity.keyFingerprint, m.identity.requestDigest, some (completedOf m result)⟩]) := by
  unfold applyMutation at h
  replace h := bind_rest h
  obtain ⟨replayed, hread, h⟩ := bind_eq_ok.mp h
  cases replayed with
  | some =>
    cases h
    exact .inl ⟨rfl, hread⟩
  | none =>
    obtain ⟨⟨next, result'⟩, hmutation, h⟩ := bind_eq_ok.mp h
    obtain ⟨audit, -, h⟩ := bind_eq_ok.mp h
    cases h
    exact .inr ⟨readMutationIdempotency_none.mp hread, next, applyJobMutation_answered hmutation, rfl, rfl⟩

end

section

variable {c : Context Spec} {connections connections' : List ConnectionRow} {s t : Store} {m m' : Mutation}
  {result result' : MutationResult}

def Used (m : Mutation) (s : Store) : Prop :=
  ∃ r, s.idempotency.find? (recordOf m) = some r ∧ r.requestDigest = m.identity.requestDigest

structure Recorded (m : Mutation) (result : MutationResult) (s : Store) : Prop where
  answer : (m.kind ≠ .delete ∧ ∃ j, result.job = some j) ∨
    (m.kind = .delete ∧ ∃ tombstone, result.job = none ∧ result.tombstone = some tombstone)
  record : ∃ r, s.idempotency.find? (recordOf m) = some r ∧ r.completed = some (completedOf m result)
  tombstone : ∀ tombstone, result.tombstone = some tombstone → tombstone.tenantID = m.tenantID ∧
    s.tombstones.find? (fun t => t.tenantID = m.tenantID && t.uid = tombstone.uid) = some tombstone

theorem applyMutation_appends (h : applyMutation c connections s m = .ok (t, result)) :
    ∃ records tombstones, t.idempotency = s.idempotency ++ records ∧ t.tombstones = s.tombstones ++ tombstones := by
  obtain ⟨rfl, -⟩ | ⟨-, next, hanswered, htombstones, hidempotency⟩ := applyMutation_ok h
  · exact ⟨[], [], (List.append_nil _).symm, (List.append_nil _).symm⟩
  · rw [hanswered.idempotency] at hidempotency
    rcases hanswered.answer with ⟨-, hkept, -⟩ | ⟨-, tombstone, -, -, -, -, hadded⟩
    · exact ⟨_, [], hidempotency, by rw [htombstones, hkept, List.append_nil]⟩
    · exact ⟨_, [tombstone], hidempotency, htombstones.trans hadded⟩

theorem step_appends {e : Event} (h : step c s e = some t) :
    ∃ records tombstones, t.idempotency = s.idempotency ++ records ∧ t.tombstones = s.tombstones ++ tombstones := by
  cases e with
  | call =>
    unfold step at h
    dsimp only at h
    split at h
    · next happly =>
      cases h
      split_ifs
      · exact ⟨[], [], (List.append_nil _).symm, (List.append_nil _).symm⟩
      · exact applyMutation_appends happly
    · cases h
      exact ⟨[], [], (List.append_nil _).symm, (List.append_nil _).symm⟩
  | others =>
    cases h
    exact ⟨[], [], (List.append_nil _).symm, (List.append_nil _).symm⟩

theorem Used.step (s : Store) (e : Event) (t : Store) (h : Used m s) (hstep : step c s e = some t) : Used m t := by
  obtain ⟨r, hr, hdigest⟩ := h
  obtain ⟨records, -, hrecords, -⟩ := step_appends hstep
  rw [Used, hrecords, List.find?_append, hr]
  exact ⟨r, rfl, hdigest⟩

theorem Recorded.step (s : Store) (e : Event) (t : Store) (h : Recorded m result s) (hstep : step c s e = some t) :
    Recorded m result t := by
  obtain ⟨records, tombstones, hrecords, htombstones⟩ := step_appends hstep
  refine ⟨h.answer, ?_, fun tombstone hresult => ⟨(h.tombstone tombstone hresult).1, ?_⟩⟩
  · obtain ⟨r, hr, hcompleted⟩ := h.record
    rw [hrecords, List.find?_append, hr]
    exact ⟨r, rfl, hcompleted⟩
  · rw [htombstones, List.find?_append, (h.tombstone tombstone hresult).2]
    rfl

theorem applyMutation_used (h : applyMutation c connections s m = .ok (t, result)) : Used m t := by
  obtain ⟨rfl, hread⟩ | ⟨hnone, next, hanswered, -, hidempotency⟩ := applyMutation_ok h
  · obtain ⟨r, completed, hr, hdigest, -⟩ := readMutationIdempotency_some hread
    exact ⟨r, hr, hdigest⟩
  · rw [hanswered.idempotency] at hidempotency
    rw [Used, hidempotency, List.find?_append, hnone]
    exact ⟨_, List.find?_cons_of_pos (by simp [recordOf]), rfl⟩

theorem applyMutation_recorded (h : applyMutation c connections s m = .ok (t, result))
    (hnew : result.outcome ≠ .replayed) : Recorded m result t := by
  obtain ⟨rfl, hread⟩ | ⟨hnone, next, hanswered, htombstones, hidempotency⟩ := applyMutation_ok h
  · grind [readMutationIdempotency_some]
  constructor
  · rcases hanswered.answer with ⟨hkind, -, j, hjob, -⟩ | ⟨hkind, written, hjob, hwritten, -⟩
    · exact .inl ⟨hkind, j, hjob⟩
    · exact .inr ⟨hkind, written, hjob, hwritten⟩
  · rw [hidempotency, hanswered.idempotency, List.find?_append, hnone]
    exact ⟨_, List.find?_cons_of_pos (by simp [recordOf]), rfl⟩
  · intro tombstone hresult
    rcases hanswered.answer with ⟨-, -, j, -, hno⟩ | ⟨-, written, -, hwritten, htenant, hunused, hadded⟩
    · rw [hresult] at hno
      cases hno
    · grind

def Replays (first again : MutationResult) : Prop :=
  (∃ j j', first.job = some j ∧ again.job = some j' ∧ j'.uid = j.uid ∧ j.version ≤ j'.version) ∨
    ∃ tombstone, first.tombstone = some tombstone ∧ again.tombstone = some tombstone

theorem used_again (h : Used m s) (hkey : sameKey m m' = true)
    (happly : applyMutation c connections s m' = .ok (t, result)) :
    m'.identity.requestDigest = m.identity.requestDigest ∧ t = s ∧ readMutationIdempotency s m' = .ok (some result) := by
  obtain ⟨r, hr, hdigest⟩ := h
  obtain ⟨rfl, hread⟩ | ⟨hnone, -⟩ := applyMutation_ok happly
  · grind [readMutationIdempotency_some, recordOf_congr]
  · rw [recordOf_congr hkey, hr] at hnone
    cases hnone

theorem recorded_again (h : Recorded m result s) (hkey : sameKey m m' = true)
    (hread : readMutationIdempotency s m' = .ok (some result')) :
    Replays result result' := by
  obtain ⟨r, completed, hr, -, hcompleted, hkind, -, hanswer⟩ := readMutationIdempotency_some hread
  have htenant : m'.tenantID = m.tenantID := by
    simp only [sameKey, Bool.and_eq_true, decide_eq_true_eq] at hkey
    exact hkey.1.1.1
  obtain ⟨r', hr', hcompleted'⟩ := h.record
  rw [recordOf_congr hkey, hr'] at hr
  cases hr
  rw [hcompleted'] at hcompleted
  cases hcompleted
  rcases h.answer with ⟨hne, j, hjob⟩ | ⟨hdelete, tombstone, hjob, htombstone⟩
  · simp only [completedOf, hjob] at hkind hanswer
    rcases hanswer with ⟨hdelete, -⟩ | ⟨-, j', huid, hversion, hjob'⟩
    · exact absurd (hkind.trans hdelete) hne
    · exact .inl ⟨j, j', hjob, hjob', huid, hversion⟩
  · simp only [completedOf, hjob, htombstone] at hkind hanswer
    rcases hanswer with ⟨-, tombstone', hfind, hresult⟩ | ⟨hne, -⟩
    · rw [htenant, (h.tombstone tombstone htombstone).2] at hfind
      cases hfind
      exact .inr ⟨tombstone, htombstone, hresult⟩
    · exact absurd (hkind.symm.trans hdelete) hne

theorem unused_step (s : Store) (e : Event) (t : Store) (h : s.idempotency.find? (recordOf m) = none)
    (hfailed : failed c m s e = true) (hstep : step c s e = some t) : t.idempotency.find? (recordOf m) = none := by
  cases e with
  | call connections m' commit =>
    unfold step at hstep
    dsimp only at hstep
    split at hstep
    · next next result happly =>
      cases hstep
      split_ifs with haborted
      · exact h
      have hother : sameKey m m' = false := by simpa [failed, happly, haborted] using hfailed
      obtain ⟨rfl, -⟩ | ⟨-, next, hanswered, -, hidempotency⟩ := applyMutation_ok happly
      · exact h
      · rw [hidempotency, hanswered.idempotency, List.find?_append, h]
        simpa [recordOf, sameKey] using hother
    · cases hstep
      exact h
  | others =>
    cases hstep
    exact h

/-- Over all interleavings: a key is free while every mutation under it has failed, and a mutation that fails leaves
nothing behind; once one was carried out, also if its answer was lost, each later one under the key is refused, or it is the same request, changes
nothing and has the same answer. -/
theorem run_once {before : List Event} (hbefore : run (step c) emptyStore before = some s) :
    (∀ m, meets (step c) (failed c m) emptyStore before = true → readMutationIdempotency s m = .ok none) ∧
    (∀ connections m commit, failed c m s (.call connections m commit) = true →
      step c s (.call connections m commit) = some s) ∧
    ∀ connections m commit u result between t, applyMutation c connections s m = .ok (u, result) →
      commit ≠ .aborted → run (step c) s (.call connections m commit :: between) = some t →
      ∀ connections' m' t' result', sameKey m m' = true → applyMutation c connections' t m' = .ok (t', result') →
        m'.identity.requestDigest = m.identity.requestDigest ∧ t' = t ∧ result'.outcome = .replayed ∧
          (result.outcome ≠ .replayed → Replays result result') := by
  refine ⟨fun m hfailed => ?_, fun connections m commit hfailed => ?_, ?_⟩
  · exact readMutationIdempotency_none.mpr (run_invariant unused_step rfl hfailed hbefore)
  · have hself : sameKey m m = true := by simp [sameKey]
    cases happly : applyMutation c connections s m with
    | error => simp only [step, happly]
    | ok => simp_all [step, failed]
  · intro connections m commit u result between t happly hcommit hrun connections' m' t' result' hkey happly'
    obtain ⟨next, hnext, hbetween⟩ := run_cons_eq.mp hrun
    have hstored : next = u := by simpa [step, happly, hcommit] using hnext.symm
    rw [hstored] at hbetween
    have hused : Used m t := run_preserves Used.step (applyMutation_used happly) hbetween
    obtain ⟨hdigest, rfl, hread⟩ := used_again hused hkey happly'
    have houtcome : result'.outcome = .replayed := by
      obtain ⟨r, completed, -, -, -, -, houtcome, -⟩ := readMutationIdempotency_some hread
      exact houtcome
    refine ⟨hdigest, rfl, houtcome, fun hnew => ?_⟩
    have hrecorded : Recorded m result t' := run_preserves Recorded.step (applyMutation_recorded happly hnew) hbetween
    exact recorded_again hrecorded hkey hread

end

def sampleContext : Context Spec := ⟨fun uid => uid.length = 36, Spec.validate⟩

def sampleRevision : Bytes := lit "sha256:" ++ List.replicate 64 48

def creation : Mutation :=
  ⟨.create, lit "22222222-2222-2222-2222-222222222222", ⟨lit "default", lit "orders"⟩, 0,
    lit "11111111-1111-1111-1111-111111111111",
    some ⟨⟨lit "mysql-cdc", [], []⟩, ⟨lit "doris", [], []⟩, [], .atLeastOnce, 1024⟩,
    some ⟨"validation", sampleRevision, sampleRevision, []⟩,
    ⟨"operator", "create", sampleRevision, sampleRevision, "request", "event", 10⟩, []⟩

theorem run_once_created : ∃ u result t result', applyMutation sampleContext [] emptyStore creation = .ok (u, result) ∧
      result.outcome = .changed ∧ applyMutation sampleContext [] u creation = .ok (t, result') ∧ t = u ∧
      result'.outcome = .replayed ∧ Replays result result' := by
  have hrun : ((applyMutation sampleContext [] emptyStore creation).toOption.bind fun first =>
      (applyMutation sampleContext [] first.1 creation).toOption.map fun _ => first.2.outcome) = some .changed := by
    decide +kernel
  obtain ⟨⟨u, result⟩, hfirst, hrun⟩ := Option.bind_eq_some_iff.mp hrun
  obtain ⟨⟨t, result'⟩, hagain, houtcome⟩ := Option.map_eq_some_iff.mp hrun
  have hfirst := toOption_eq_some.mp hfirst
  have hagain := toOption_eq_some.mp hagain
  have hbefore : run (step sampleContext) emptyStore [] = some emptyStore := rfl
  have hlost : run (step sampleContext) emptyStore [.call [] creation .lost] = some u := by
    rw [run_cons_eq]
    exact ⟨u, by simp [step, hfirst], rfl⟩
  obtain ⟨-, hsame, hreplayed, hreplays⟩ :=
    (run_once hbefore).2.2 [] creation .lost u result [] u hfirst (by decide) hlost [] creation t result' (by decide)
      hagain
  refine ⟨u, result, t, result', hfirst, houtcome, hagain, hsame, hreplayed, hreplays ?_⟩
  rw [show result.outcome = .changed from houtcome]
  decide

end AstraSync.JobRetries
