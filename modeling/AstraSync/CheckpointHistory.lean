import AstraSync.CachedManifests
import Mathlib.Data.Int.Order.Basic

namespace AstraSync.CheckpointHistory

open CheckpointStore hiding perform
open CachedManifests (Distinguished Known Event perform readCached)
open ByteStrings (lit)

structure World where
  manifests : CachedManifests.World
  grants : String → List ℤ
  log : String → String → List CheckpointRecord

abbrev World.store (w : World) : Store := w.manifests.store

def initial : World := ⟨CachedManifests.start, fun _ => [], fun _ _ => []⟩

def granted (w : World) (jobId : String) : Except StoreError Reply → String → List ℤ
  | .ok (.epoch n) => Function.update w.grants jobId (w.grants jobId ++ [n])
  | _ => w.grants

def logged (w : World) (store : Store) : Call → String → String → List CheckpointRecord
  | .record r =>
    if recordOf store r.jobId r.splitId = recordOf w.store r.jobId r.splitId then w.log
    else put w.log r.jobId r.splitId (w.log r.jobId r.splitId ++ [r])
  | _ => w.log

variable (size : (jobId : String) → CheckpointState jobId → ℕ)

def step (w : World) : Event → World
  | .load who jobId => { w with manifests := (readCached w.manifests who jobId).1 }
  | .perform who call disk modifiedTime =>
    let (manifests, result) := perform size w.manifests who call disk modifiedTime
    ⟨manifests, granted w call.jobId result, logged w manifests.store call⟩

def runFrom (w : World) (events : List Event) : World := events.foldl (step size) w

def run (events : List Event) : World := runFrom size initial events

def carried : Call → Option ℤ
  | .acquireEpoch _ _ => none
  | .acquireGivenEpoch _ _ e => some e
  | .record r => some r.executionEpoch
  | .recordCompletion c => some c.executionEpoch

def IsNextAcquire (store : Store) : Call → Prop
  | .acquireGivenEpoch jobId _ e => e = activeEpoch store jobId + 1
  | _ => False

def oneUpTo (n : ℕ) : List ℤ := (List.range n).map fun i => (i : ℤ) + 1

structure Chain (log : List CheckpointRecord) (stored : Option CheckpointRecord) : Prop where
  latest : stored = log.getLast?
  sequences : log.map (·.checkpointSequence) = oneUpTo log.length
  epochs : (log.map (·.executionEpoch)).Pairwise (· ≤ ·)

structure Consistent (w : World) : Prop where
  grants_sorted : ∀ j, (w.grants j).Pairwise (· ≤ ·)
  grant : ∀ who call disk time n, (perform size w.manifests who call disk time).2 = .ok (.epoch n) →
    (n = activeEpoch w.store call.jobId ∧ (perform size w.manifests who call disk time).1.store = w.store) ∨
      (n = activeEpoch w.store call.jobId + 1 ∧
        activeEpoch (perform size w.manifests who call disk time).1.store call.jobId = n ∧
        ∀ g ∈ w.grants call.jobId, g < n)
  chain : ∀ j s, Chain (w.log j s) (recordOf w.store j s)
  fenced : ∀ who call disk time e, carried call = some e → e ≠ activeEpoch w.store call.jobId →
    ¬ IsNextAcquire w.store call → (∃ err, (perform size w.manifests who call disk time).2 = .error err) ∧
      (perform size w.manifests who call disk time).1.store = w.store
  frozen : ∀ j s c, completionOf w.store j s = some c →
    c.checkpointSequence = (w.log j s).length ∧
      ∀ events, Distinguished (runFrom size w events).manifests →
        completionOf (runFrom size w events).store j s = some c ∧
          recordOf (runFrom size w events).store j s = recordOf w.store j s
  repeated : ∀ j s r who disk time, recordOf w.store j s = some r → r.executionEpoch = activeEpoch w.store j →
    completionOf w.store j s = none → (perform size w.manifests who (.record r) disk time).2 = .ok (.record r) ∧
      (perform size w.manifests who (.record r) disk time).1.store = w.store

structure Inv (w : World) : Prop where
  known : Known w.manifests
  valid : ∀ j s r, recordOf w.store j s = some r → requireJobId j = true
  grants_le : ∀ j, ∀ g ∈ w.grants j, g ≤ activeEpoch w.store j
  grants_sorted : ∀ j, (w.grants j).Pairwise (· ≤ ·)
  chain : ∀ j s, Chain (w.log j s) (recordOf w.store j s)
  completion : ∀ j s c, completionOf w.store j s = some c → c.checkpointSequence = (w.log j s).length

theorem oneUpTo_succ (n : ℕ) : oneUpTo (n + 1) = oneUpTo n ++ [(n : ℤ) + 1] := by
  simp [oneUpTo, List.range_succ]

variable {size} {w : World} {store : Store} {call : Call} {j s : String}

theorem logged_of_same (call : Call) (h : recordOf store = recordOf w.store) : logged w store call = w.log := by
  cases call <;> simp [logged, h]

theorem logged_record {r : CheckpointRecord} (hnext : checkSequence (recordOf w.store r.jobId r.splitId) r = .ok false)
    (hrecords : recordOf store = put (recordOf w.store) r.jobId r.splitId (some r)) :
    logged w store (.record r) = put w.log r.jobId r.splitId (w.log r.jobId r.splitId ++ [r]) := by
  have hnew := (checkSequence_false hnext).2.1
  rw [logged, hrecords, put_self, if_neg fun h => hnew h.symm]

namespace Chain

variable {log : List CheckpointRecord} {stored : Option CheckpointRecord} (h : Chain log stored)

include h

theorem lastSequence_eq : lastSequence stored = log.length := by
  have hseq := h.sequences
  rw [h.latest]
  rcases List.eq_nil_or_concat log with rfl | ⟨before, r, rfl⟩
  · rfl
  · rw [List.concat_eq_append] at hseq ⊢
    rw [List.length_append, List.length_singleton, oneUpTo_succ, List.map_append] at hseq
    have hr := (List.append_inj' hseq rfl).2
    simpa [lastSequence] using hr

theorem epochs_le {p : CheckpointRecord} (hp : stored = some p) :
    ∀ n ∈ log.map (·.executionEpoch), n ≤ p.executionEpoch := by
  have hepochs := h.epochs
  have hlast := h.latest.symm.trans hp
  obtain ⟨before, rfl⟩ := List.getLast?_eq_some_iff.mp hlast
  rw [List.map_append, List.pairwise_append] at hepochs
  intro n hn
  rw [List.map_append, List.mem_append] at hn
  rcases hn with hn | hn
  · exact hepochs.2.2 n hn _ (by simp)
  · rw [List.map_singleton, List.mem_singleton] at hn
    exact hn.le

theorem append {r : CheckpointRecord} (hnext : checkSequence stored r = .ok false) : Chain (log ++ [r]) (some r) := by
  obtain ⟨hseq, -, hepoch⟩ := checkSequence_false hnext
  refine ⟨by simp, ?_, ?_⟩
  · rw [List.map_append, h.sequences, List.length_append, List.length_singleton, oneUpTo_succ]
    rw [List.map_singleton, hseq, h.lastSequence_eq]
  · rw [List.map_append, List.pairwise_append]
    refine ⟨h.epochs, List.pairwise_singleton _ _, ?_⟩
    intro n hn m hm
    rw [List.map_singleton, List.mem_singleton] at hm
    subst hm
    cases hstored : stored with
    | none =>
      rw [List.getLast?_eq_none_iff.mp (h.latest.symm.trans hstored)] at hn
      cases hn
    | some p => exact le_trans (h.epochs_le hstored n hn) (hepoch p hstored)

end Chain

theorem activeEpoch_le {store' : Store} (h : Effect store store' call) (j : String) :
    activeEpoch store j ≤ activeEpoch store' j := by
  cases h with
  | same h => rw [h]
  | epoch _ _ hactive _ _ =>
    rw [hactive]
    by_cases hj : j = call.jobId
    · grind
    · rw [Function.update_of_ne hj]
  | record _ _ _ _ hactive _ _ => rw [hactive]
  | completion _ _ _ hactive _ _ => rw [hactive]

theorem granted_cases (w : World) (jobId : String) (result : Except StoreError Reply) :
    granted w jobId result = w.grants ∨ ∃ n, result = .ok (.epoch n) ∧
      granted w jobId result = Function.update w.grants jobId (w.grants jobId ++ [n]) := by
  cases result with
  | error => exact .inl rfl
  | ok out =>
    cases out with
    | epoch n => exact .inr ⟨n, rfl, rfl⟩
    | record => exact .inl rfl
    | completion => exact .inl rfl

section

variable {w : World} (h : Inv w) (call : Call) (disk : Disk)

include h

theorem grant_bounds {n : ℤ} (hn : (CheckpointStore.perform w.store call disk).2 = .ok (.epoch n)) :
    n ≤ activeEpoch (CheckpointStore.perform w.store call disk).1 call.jobId ∧ ∀ g ∈ w.grants call.jobId, g ≤ n := by
  rcases perform_epoch hn with ⟨hsame, hstore⟩ | ⟨hnext, hactive⟩
  · rw [hstore, hsame]
    exact ⟨le_refl _, h.grants_le _⟩
  · refine ⟨hactive.ge, fun g hg => ?_⟩
    have := h.grants_le _ g hg
    omega

theorem granted_sound (j : String) :
    (∀ g ∈ granted w call.jobId (CheckpointStore.perform w.store call disk).2 j,
        g ≤ activeEpoch (CheckpointStore.perform w.store call disk).1 j) ∧
      (granted w call.jobId (CheckpointStore.perform w.store call disk).2 j).Pairwise (· ≤ ·) := by
  have hold : ∀ g ∈ w.grants j, g ≤ activeEpoch (CheckpointStore.perform w.store call disk).1 j :=
    fun g hg => le_trans (h.grants_le j g hg) (activeEpoch_le (perform_effect w.store call disk) j)
  rcases granted_cases w call.jobId (CheckpointStore.perform w.store call disk).2 with hsame | ⟨n, hn, hgrants⟩
  · rw [hsame]
    exact ⟨hold, h.grants_sorted j⟩
  · obtain ⟨hle, hge⟩ := grant_bounds h call disk hn
    rw [hgrants]
    by_cases hj : j = call.jobId
    · subst hj
      rw [Function.update_self, List.pairwise_append]
      refine ⟨fun g hg => ?_, h.grants_sorted _, List.pairwise_singleton _ _, fun g hg m hm => ?_⟩
      · rcases List.mem_append.mp hg with hg | hg
        · exact hold g hg
        · rw [List.mem_singleton.mp hg]
          exact hle
      · rw [List.mem_singleton.mp hm]
        exact hge g hg
    · rw [Function.update_of_ne hj]
      exact ⟨hold, h.grants_sorted j⟩

theorem performed_inv {manifests : CachedManifests.World} (hknown : Known manifests)
    (hstore : manifests.store = (CheckpointStore.perform w.store call disk).1) :
    Inv ⟨manifests, granted w call.jobId (CheckpointStore.perform w.store call disk).2, logged w manifests.store call⟩ := by
  have hsound := granted_sound h call disk
  have heffect := perform_effect w.store call disk
  rw [← hstore] at heffect
  simp only [← hstore] at hsound
  have hle := fun j => (hsound j).1
  have hsorted := fun j => (hsound j).2
  have hstored {grants log} : World.store ⟨manifests, grants, log⟩ = manifests.store := rfl
  cases heffect with
  | same hsame =>
    have hlog : logged w manifests.store call = w.log := logged_of_same _ (by rw [hsame])
    rw [hlog]
    refine ⟨hknown, ?_, hle, hsorted, ?_, ?_⟩ <;> rw [hstored, hsame]
    · exact h.valid
    · exact h.chain
    · exact h.completion
  | epoch _ _ _ hrecords hcompletions =>
    rw [logged_of_same _ hrecords]
    refine ⟨hknown, ?_, hle, hsorted, ?_, ?_⟩ <;> simp only [hstored, hrecords, hcompletions]
    · exact h.valid
    · exact h.chain
    · exact h.completion
  | @record r hvalid _ hopen hnext _ hrecords hcompletions =>
    rw [logged_record hnext hrecords]
    refine ⟨hknown, ?_, hle, hsorted, ?_, ?_⟩ <;> simp only [hstored, hrecords, hcompletions]
    · intro j s r' hr'
      by_cases hjs : j = r.jobId ∧ s = r.splitId
      · rw [hjs.1]; exact hvalid
      · rw [put_of_ne _ _ hjs] at hr'
        exact h.valid j s r' hr'
    · intro j s
      by_cases hjs : j = r.jobId ∧ s = r.splitId
      · rw [hjs.1, hjs.2, put_self, put_self]
        exact (h.chain r.jobId r.splitId).append hnext
      · rw [put_of_ne _ _ hjs, put_of_ne _ _ hjs]
        exact h.chain j s
    · intro j s c hc
      rw [put_of_ne _ _ (by rintro ⟨rfl, rfl⟩; rw [hopen] at hc; cases hc)]
      exact h.completion j s c hc
  | @completion c hvalid _ hlast _ hrecords hcompletions =>
    rw [logged_of_same _ hrecords]
    refine ⟨hknown, ?_, hle, hsorted, ?_, ?_⟩ <;> simp only [hstored, hrecords, hcompletions]
    · exact h.valid
    · exact h.chain
    · intro j s c' hc'
      by_cases hjs : j = c.jobId ∧ s = c.splitId
      · rw [hjs.1, hjs.2, put_self] at hc'
        cases hc'
        rw [hjs.1, hjs.2, hlast, (h.chain _ _).lastSequence_eq]
      · rw [put_of_ne _ _ hjs] at hc'
        exact h.completion j s c' hc'

theorem step_inv (hdistinct : Distinguished w.manifests) (e : Event) : Inv (step size w e) := by
  cases e with
  | load who jobId =>
    have hstore : (step size w (.load who jobId)).store = w.store := CachedManifests.store_readCached h.known
    have hknown := (CachedManifests.readCached_spec h.known who jobId).1
    exact ⟨hknown, hstore ▸ h.valid, hstore ▸ h.grants_le, h.grants_sorted, hstore ▸ h.chain, hstore ▸ h.completion⟩
  | perform who call disk modifiedTime =>
    obtain ⟨hresult, hstore⟩ := CachedManifests.perform_eq size h.known hdistinct who call disk modifiedTime
    have hknown := (CachedManifests.perform_known size h.known who call disk modifiedTime).1
    simp only [step, hresult]
    exact performed_inv h call disk hknown hstore

end

theorem step_manifests (w : World) (e : Event) : (step size w e).manifests = CachedManifests.step size w.manifests e := by
  cases e <;> rfl

theorem runFrom_written (h : Known w.manifests) (events : List Event) :
    w.manifests.written ⊆ (runFrom size w events).manifests.written := by
  induction events generalizing w with
  | nil => exact List.Subset.refl _
  | cons e events ih =>
    obtain ⟨hknown, hwritten⟩ := CachedManifests.step_known size h e
    rw [← step_manifests] at hknown hwritten
    exact List.Subset.trans hwritten (ih hknown)

theorem initial_inv : Inv initial := by
  refine ⟨CachedManifests.start_known, ?_, ?_, ?_, ?_, ?_⟩
  · intro j s r hr; cases hr
  · intro j g hg; cases hg
  · intro j; exact List.Pairwise.nil
  · intro j s; exact ⟨rfl, rfl, List.Pairwise.nil⟩
  · intro j s c hc; cases hc

theorem runFrom_inv (h : Inv w) (events : List Event) (hdistinct : Distinguished (runFrom size w events).manifests) :
    Inv (runFrom size w events) := by
  induction events generalizing w with
  | nil => exact h
  | cons e events ih => exact ih (step_inv h (hdistinct.of_subset (runFrom_written h.known (e :: events))) e) hdistinct

theorem perform_of_error {err : StoreError} (disk : Disk) (h : decision call (store call.jobId) = .error err) :
    ∃ err, CheckpointStore.perform store call disk = (store, .error err) := by
  cases hvalid : requireJobId call.jobId with
  | false => exact ⟨.invalidJobId, by simp [CheckpointStore.perform, hvalid]⟩
  | true => exact ⟨err, by simp [CheckpointStore.perform, hvalid, h]⟩

theorem carried_of_ok {next : Option (CheckpointState call.jobId)} {out : Reply}
    {e : ℤ} (h : decision call (store call.jobId) = .ok (next, out)) (he : carried call = some e) :
    e = activeEpoch store call.jobId ∨ IsNextAcquire store call := by
  cases call with
  | acquireEpoch => cases he
  | acquireGivenEpoch jobId plan epoch =>
    obtain ⟨n, ha, -⟩ := reply_ok h
    cases he
    have hactive := activeEpoch_getD store jobId plan
    obtain ⟨-, ⟨hsame, -⟩ | ⟨hnext, -⟩⟩ := acquireGivenEpoch_ok ha
    · exact .inl (hsame.trans hactive)
    · exact .inr (hnext.trans (congrArg (· + 1) hactive))
  | record =>
    obtain ⟨r', ha, -⟩ := reply_ok h
    obtain ⟨-, state, hstored, hepoch, -⟩ := record_ok ha
    cases he
    exact .inl (hepoch.trans (activeEpoch_of_stored hstored).symm)
  | recordCompletion =>
    obtain ⟨c', ha, -⟩ := reply_ok h
    obtain ⟨state, hstored, hepoch, -⟩ := recordCompletion_ok ha
    cases he
    exact .inl (hepoch.trans (activeEpoch_of_stored hstored).symm)

theorem fenced {e : ℤ} (disk : Disk) (he : carried call = some e)
    (hstale : e ≠ activeEpoch store call.jobId) (hnext : ¬ IsNextAcquire store call) :
    ∃ err, CheckpointStore.perform store call disk = (store, .error err) := by
  cases hd : decision call (store call.jobId) with
  | error => exact perform_of_error disk hd
  | ok =>
    rcases carried_of_ok hd he with hactive | hacquire
    · exact absurd hactive hstale
    · exact absurd hacquire hnext

theorem completed_keeps {store' : Store} (h : Effect store store' call)
    {c : CheckpointCompletion} (hc : completionOf store j s = some c) :
    completionOf store' j s = some c ∧ recordOf store' j s = recordOf store j s := by
  cases h with
  | same h => exact ⟨h ▸ hc, by rw [h]⟩
  | epoch _ _ _ hrecords hcompletions => rw [hrecords, hcompletions]; exact ⟨hc, rfl⟩
  | @record r _ _ hopen _ _ hrecords hcompletions =>
    have hne : ¬ (j = r.jobId ∧ s = r.splitId) := by rintro ⟨rfl, rfl⟩; rw [hopen] at hc; cases hc
    rw [hrecords, hcompletions, put_of_ne _ _ hne]
    exact ⟨hc, rfl⟩
  | @completion c' _ hopen _ _ hrecords hcompletions =>
    have hne : ¬ (j = c'.jobId ∧ s = c'.splitId) := by rintro ⟨rfl, rfl⟩; rw [hopen] at hc; cases hc
    rw [hrecords, hcompletions, put_of_ne _ _ hne]
    exact ⟨hc, rfl⟩

theorem completed_stays (h : Inv w) {c : CheckpointCompletion}
    (hc : completionOf w.store j s = some c) (events : List Event)
    (hdistinct : Distinguished (runFrom size w events).manifests) :
    completionOf (runFrom size w events).store j s = some c ∧
      recordOf (runFrom size w events).store j s = recordOf w.store j s := by
  induction events generalizing w with
  | nil => exact ⟨hc, rfl⟩
  | cons e events ih =>
    have hd := hdistinct.of_subset (runFrom_written h.known (e :: events))
    have hkept : completionOf (step size w e).store j s = some c ∧
        recordOf (step size w e).store j s = recordOf w.store j s := by
      cases e with
      | load who jobId =>
        have hstore : (step size w (.load who jobId)).store = w.store := CachedManifests.store_readCached h.known
        rw [hstore]
        exact ⟨hc, rfl⟩
      | perform who call disk modifiedTime =>
        have hstore : (step size w (.perform who call disk modifiedTime)).store = _ :=
          (CachedManifests.perform_eq size h.known hd who call disk modifiedTime).2
        rw [hstore]
        exact completed_keeps (perform_effect w.store call disk) hc
    obtain ⟨hend, hrecord⟩ := ih (step_inv h hd e) hkept.1 hdistinct
    exact ⟨hend, hrecord.trans hkept.2⟩

theorem repeated (h : Inv w) {r : CheckpointRecord} (disk : Disk)
    (hr : recordOf w.store j s = some r) (hepoch : r.executionEpoch = activeEpoch w.store j)
    (hopen : completionOf w.store j s = none) :
    CheckpointStore.perform w.store (.record r) disk = (w.store, .ok (.record r)) := by
  obtain ⟨state, hstored, hrec⟩ := Option.bind_eq_some_iff.mp hr
  obtain ⟨rfl, rfl, hplan⟩ := state.record_identity s r hrec
  have hvalid := h.valid _ _ r hr
  rw [activeEpoch_of_stored hstored] at hepoch
  rw [completionOf_of_stored hstored] at hopen
  have hrecord : record r (some state) = .ok (none, r) := by
    simp [record, hepoch, hplan, hopen, hrec, checkSequence_self]
  simp [CheckpointStore.perform, Call.jobId, hvalid, decision, hstored, hrecord, reply]

/-- Whatever the coordinators call in whatever order, each through its own cache of the manifests, the store stays
consistent while the stamps tell the manifests apart. -/
theorem run_consistent (events : List Event) (hdistinct : Distinguished (run size events).manifests) :
    Consistent size (run size events) := by
  have h : Inv (run size events) := runFrom_inv initial_inv events hdistinct
  refine ⟨h.grants_sorted, ?_, h.chain, ?_, ?_, ?_⟩
  · intro who call disk time n hn
    obtain ⟨hresult, hstore⟩ := CachedManifests.perform_eq size h.known hdistinct who call disk time
    rw [hstore]
    rcases perform_epoch (hresult.symm.trans hn) with hsame | ⟨hnext, hactive⟩
    · exact .inl hsame
    · refine .inr ⟨hnext, hactive, fun g hg => ?_⟩
      rw [hnext]
      exact Int.lt_add_one_of_le (h.grants_le _ g hg)
  · intro who call disk time e he hstale hnext
    obtain ⟨hresult, hstore⟩ := CachedManifests.perform_eq size h.known hdistinct who call disk time
    obtain ⟨err, herr⟩ := fenced disk he hstale hnext
    rw [hresult, hstore, herr]
    exact ⟨⟨err, rfl⟩, rfl⟩
  · intro j s c hc
    exact ⟨h.completion j s c hc, completed_stays h hc⟩
  · intro j s r who disk time hr hepoch hopen
    obtain ⟨hresult, hstore⟩ := CachedManifests.perform_eq size h.known hdistinct who (.record r) disk time
    rw [hresult, hstore, repeated h disk hr hepoch hopen]
    exact ⟨rfl, rfl⟩

def ordersPlan : SplitPlan := ⟨"plan-1", [("orders-0", "split-1")]⟩

def ordersRecord : CheckpointRecord :=
  ⟨"orders", 1, "orders-0", "split-1", 1, [("id", "250")], lit "token-1", lit "digest-1", Int.one_pos, Int.one_pos⟩

def ordersCompletion : CheckpointCompletion :=
  ⟨"orders", 1, "orders-0", "split-1", 1, "worker-1", ⟨250, 250, 1, 250, 1, by omega⟩, Int.one_pos, by omega⟩

def ordersSecond : CheckpointRecord :=
  ⟨"orders", 1, "orders-0", "split-1", 2, [("id", "500")], lit "token-2", lit "digest-2", Int.one_pos, by omega⟩

def acquireFirst (time : ℤ) : Event := .perform 0 (.acquireGivenEpoch "orders" ordersPlan 1) .written time

def recordedFirst : List Event := [acquireFirst 1, .perform 0 (.record ordersRecord) .written 2]

def acquireNext : Event := .perform 1 (.acquireEpoch "orders" ordersPlan) .written 3

/-- A second coordinator takes the next epoch: the first, which has cached the manifest of its own, is refused. -/
theorem run_consistent_overtaken :
    Distinguished (run CachedManifests.digits (recordedFirst ++ [acquireNext])).manifests ∧
      (perform CachedManifests.digits (run CachedManifests.digits (recordedFirst ++ [acquireNext])).manifests 0
        (.record ordersSecond) .written 4).1.store =
          (run CachedManifests.digits (recordedFirst ++ [acquireNext])).store := by
  have hdistinct : Distinguished (run CachedManifests.digits (recordedFirst ++ [acquireNext])).manifests :=
    CachedManifests.distinguished_of_nodup (by decide +kernel)
  have hconsistent := run_consistent _ hdistinct
  exact ⟨hdistinct, (hconsistent.fenced 0 _ .written 4 1 rfl (by decide +kernel) id).2⟩

def again (events : List Event) : Except StoreError Reply :=
  (perform CachedManifests.digits (run CachedManifests.digits (recordedFirst ++ events)).manifests 0
    (.record ordersRecord) .written 9).2

/-- An epoch granted twice to the coordinator that holds it; the next epoch accepted while it is not the
current one; a record refused when it is repeated after its split has completed, after a newer epoch or
after a newer record. -/
theorem same_epoch_granted_again :
    (run CachedManifests.digits [acquireFirst 1, acquireFirst 2]).grants "orders" = [1, 1] ∧
    (activeEpoch (run CachedManifests.digits []).store "orders" = 0 ∧
      activeEpoch (run CachedManifests.digits [acquireFirst 1]).store "orders" = 1) ∧
    recordOf (run CachedManifests.digits recordedFirst).store "orders" "orders-0" = some ordersRecord ∧
    again [.perform 0 (.recordCompletion ordersCompletion) .written 3] = .error (.splitComplete "orders-0") ∧
    again [acquireNext] = .error (.staleRecord 1 2) ∧
    again [.perform 0 (.record ordersSecond) .written 3] = .error (.sequenceMustAdvance 2 3) := by
  decide +kernel

end AstraSync.CheckpointHistory
