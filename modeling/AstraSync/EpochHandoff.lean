import AstraSync.CheckpointHistory
import AstraSync.JobLifecycle
import AstraSync.Library.SignedNumerals
import AstraSync.Library.Transitions

namespace AstraSync.EpochHandoff

open ByteStrings JobLifecycle SignedNumerals
open CheckpointStore hiding perform
open CachedManifests (Distinguished Known perform readCached)

variable {S : Type}

structure Setting (S : Type) where
  jobId : String
  plan : SplitPlan
  validate : S → Option String
  size : (jobId : String) → CheckpointState jobId → ℕ
  valid_id : requireJobId jobId = true

structure World (S : Type) where
  job : Job S
  manifests : CachedManifests.World
  starts : ℕ
  reached : List ℤ

abbrev World.store (w : World S) : Store := w.manifests.store

def initial (key : Key) (uid : Bytes) (spec : S) (now : Time) : World S :=
  ⟨new key uid spec now, CachedManifests.start, 0, []⟩

inductive Event (S : Type)
  | request (r : Request S) (now : Time)
  | acquire (who : ℕ) (epoch : Int64) (disk : Disk) (time : ℤ)
  | record (who : ℕ) (r : CheckpointRecord) (disk : Disk) (time : ℤ)
  | complete (who : ℕ) (c : CheckpointCompletion) (disk : Disk) (time : ℤ)
  | load (who : ℕ)

def acquire (c : Setting S) (epoch : ℤ) : Call := .acquireGivenEpoch c.jobId c.plan epoch

def arrive (c : Setting S) (w : World S) (manifests : CachedManifests.World) (epoch : ℤ) : World S :=
  { w with
    manifests
    reached := if activeEpoch manifests.store c.jobId = epoch then w.reached ++ [epoch] else w.reached }

def report (c : Setting S) (w : World S) (who : ℕ) (call : Call) (disk : Disk) (time : ℤ) : Option (World S) :=
  if call.jobId = c.jobId then some { w with manifests := (perform c.size w.manifests who call disk time).1 } else none

def step (c : Setting S) (w : World S) : Event S → Option (World S)
  | .request r now =>
    some { w with
      job := requested c.validate w.job r now
      starts := w.starts + startCount c.validate w.job r now }
  | .acquire who epoch disk time =>
    if 0 < epoch ∧ epoch ≤ w.job.status.epoch then
      some (arrive c w (perform c.size w.manifests who (acquire c epoch.toInt) disk time).1 epoch.toInt)
    else none
  | .record who r disk time => report c w who (.record r) disk time
  | .complete who r disk time => report c w who (.recordCompletion r) disk time
  | .load who => some { w with manifests := (readCached w.manifests who c.jobId).1 }

def Granted (c : Setting S) (w : World S) (who : ℕ) (time : ℤ) (epoch : ℤ) : Prop :=
  (perform c.size w.manifests who (acquire c epoch) .written time).2 = .ok (.epoch epoch)

def Refused (c : Setting S) (w : World S) (who : ℕ) (time : ℤ) (epoch : ℤ) : Prop :=
  ∀ disk, (∃ err, (perform c.size w.manifests who (acquire c epoch) disk time).2 = .error err) ∧
    (perform c.size w.manifests who (acquire c epoch) disk time).1.store = w.store

structure HandsOff (c : Setting S) (w : World S) (who : ℕ) (time : ℤ) : Prop where
  latest : 0 < w.job.status.epoch → (Granted c w who time w.job.status.epoch.toInt ↔
    ∀ e, 0 < e → e < w.job.status.epoch.toInt → e ∈ w.reached)
  fenced : w.job.status.epoch.toInt ∈ w.reached → ∀ e < w.job.status.epoch.toInt, Refused c w who time e
  older : ∀ e, 0 < e → e ≤ w.job.status.epoch.toInt →
    (Granted c w who time e ↔ (∀ d, 0 < d → d < e → d ∈ w.reached) ∧ ∀ d ∈ w.reached, d ≤ e)

structure Inv (c : Setting S) (w : World S) : Prop where
  counted : w.job.status.epoch.toInt = w.starts
  active_nonneg : 0 ≤ activeEpoch w.store c.jobId
  active_le : activeEpoch w.store c.jobId ≤ w.starts
  reached : ∀ e, e ∈ w.reached ↔ 0 < e ∧ e ≤ activeEpoch w.store c.jobId
  plan : ∀ state, w.store c.jobId = some state → state.plan = c.plan

def UsesPlan (plan : SplitPlan) : Call → Prop
  | .acquireEpoch _ p | .acquireGivenEpoch _ p _ => p = plan
  | _ => True

section

variable {store : Store} {plan : SplitPlan} {jobId : String}

theorem getD_plan (h : ∀ state, store jobId = some state → state.plan = plan) :
    ((store jobId).getD (.empty jobId plan)).plan = plan := by
  cases hs : store jobId with
  | none => rfl
  | some state => exact h state hs

theorem advance_plan {state next : CheckpointState jobId} (h : state.advance = some next) : next.plan = state.plan := by
  unfold CheckpointState.advance at h
  split_ifs at h
  cases h
  rfl

theorem decision_plan {call : Call} {next : CheckpointState call.jobId} {out : Reply}
    (hplan : ∀ state, store call.jobId = some state → state.plan = plan)
    (hcall : UsesPlan plan call) (h : decision call (store call.jobId) = .ok (some next, out)) : next.plan = plan := by
  cases call with
  | acquireEpoch jobId p =>
    obtain rfl : p = plan := hcall
    obtain ⟨n, ha, -⟩ := reply_ok h
    obtain ⟨-, state, hnext, hadvance⟩ := acquireEpoch_ok ha
    cases hnext
    exact (advance_plan hadvance).trans (getD_plan hplan)
  | acquireGivenEpoch jobId p e =>
    obtain rfl : p = plan := hcall
    obtain ⟨n, ha, -⟩ := reply_ok h
    obtain ⟨-, ⟨-, hnext⟩ | ⟨-, state, hnext, hadvance⟩⟩ := acquireGivenEpoch_ok ha
    · cases hnext
    · cases hnext
      exact (advance_plan hadvance).trans (getD_plan hplan)
  | record =>
    obtain ⟨r', ha, -⟩ := reply_ok h
    obtain ⟨-, state, hstored, -, -, ⟨hnext, -⟩ | ⟨hr, hnext, -⟩⟩ := record_ok ha
    · cases hnext
    · cases hnext
      exact hplan state hstored
  | recordCompletion =>
    obtain ⟨r', ha, -⟩ := reply_ok h
    obtain ⟨state, hstored, -, ⟨hnext, -⟩ | ⟨hr, hnext, -⟩⟩ := recordCompletion_ok ha
    · cases hnext
    · cases hnext
      exact hplan state hstored

theorem perform_plan {call : Call} (disk : Disk) (hplan : ∀ state, store call.jobId = some state → state.plan = plan)
    (hcall : UsesPlan plan call) :
    ∀ state, (CheckpointStore.perform store call disk).1 call.jobId = some state → state.plan = plan := by
  rcases perform_store store call disk with hsame | ⟨next, out, -, hd, hput⟩
  · rw [hsame]
    exact hplan
  · intro state hs
    rw [hput, Function.update_self] at hs
    cases hs
    exact decision_plan hplan hcall hd

theorem granted_iff {e : ℤ} (hvalid : requireJobId jobId = true)
    (hplan : ∀ state, store jobId = some state → state.plan = plan) (hpos : 0 < e) (hlimit : e + 1 < longLimit) :
    (CheckpointStore.perform store (.acquireGivenEpoch jobId plan e) .written).2 = .ok (.epoch e) ↔
      e = activeEpoch store jobId ∨ e = activeEpoch store jobId + 1 := by
  constructor
  · intro h
    rcases perform_epoch h with ⟨hsame, -⟩ | ⟨hnext, -⟩
    · exact .inl hsame
    · exact .inr hnext
  · intro h
    have hactive := activeEpoch_getD store jobId plan
    have hplan' := getD_plan hplan
    have hsub : ((store jobId).getD (.empty jobId plan)).nextExecutionEpoch = activeEpoch store jobId + 1 := by
      rw [← hactive, CheckpointState.activeEpoch]
      omega
    rcases h with h | h
    · have hgiven : acquireGivenEpoch jobId plan e (store jobId) = .ok (none, e) := by
        simp only [acquireGivenEpoch]
        rw [if_neg (by omega), if_neg (by rw [hplan']; simp), if_pos (h.trans hactive.symm)]
      simp [CheckpointStore.perform, Call.jobId, hvalid, decision, hgiven, reply]
    · obtain ⟨next, hnext⟩ : ∃ next, ((store jobId).getD (.empty jobId plan)).advance = some next := by
        refine ⟨_, if_pos ?_⟩
        rw [hsub]
        omega
      have hgiven : acquireGivenEpoch jobId plan e (store jobId) = .ok (some next, e) := by
        simp only [acquireGivenEpoch]
        rw [if_neg (by omega), if_neg (by rw [hplan']; simp), if_neg (by rw [hactive]; omega),
          if_neg (by rw [hsub]; omega), hnext]
      simp [CheckpointStore.perform, Call.jobId, hvalid, decision, hgiven, reply]

end

variable {c : Setting S} {w : World S}

theorem mem_reached {manifests : CachedManifests.World} {epoch d : ℤ} : d ∈ (arrive c w manifests epoch).reached ↔
      d ∈ w.reached ∨ (activeEpoch manifests.store c.jobId = epoch ∧ d = epoch) := by
  by_cases h : activeEpoch manifests.store c.jobId = epoch <;> simp [arrive, h]

theorem Inv.of_active (h : Inv c w) {manifests : CachedManifests.World}
    (hactive : activeEpoch manifests.store c.jobId = activeEpoch w.store c.jobId)
    (hplan : ∀ state, manifests.store c.jobId = some state → state.plan = c.plan) : Inv c { w with manifests } :=
  ⟨h.counted, hactive ▸ h.active_nonneg, hactive ▸ h.active_le, hactive ▸ h.reached, hplan⟩

section

variable {c : Setting S} {w : World S} (h : Inv c w)

include h

theorem request_inv (r : Request S) (now : Time)
    (hlimit : ((w.starts + startCount c.validate w.job r now : ℕ) : ℤ) + 1 < longLimit) :
    Inv c { w with
      job := requested c.validate w.job r now
      starts := w.starts + startCount c.validate w.job r now } := by
  have hcounted := h.counted
  have hle := h.active_le
  refine ⟨?_, h.active_nonneg, hle.trans (by dsimp only; omega), h.reached, h.plan⟩
  rcases (requested_cases c.validate w.job r now).2 with ⟨hepoch, hcount⟩ | ⟨hepoch, hcount⟩
  · simp only [hepoch, hcount, hcounted, Nat.add_zero]
  · have hsucc : (w.job.status.epoch + 1).toInt = w.job.status.epoch.toInt + 1 :=
      toInt_add_one_of_lt (by simp only [hcount, longLimit] at hlimit; omega)
    simp only [hepoch, hcount, hsucc, hcounted]
    omega

variable {manifests : CachedManifests.World}

theorem acquire_inv {epoch : Int64} (disk : Disk) (hpos : 0 < epoch) (hle : epoch ≤ w.job.status.epoch)
    (hstore : manifests.store = (CheckpointStore.perform w.store (acquire c epoch.toInt) disk).1) :
    Inv c (arrive c w manifests epoch.toInt) := by
  have hnonneg := h.active_nonneg
  have hcounted := h.counted
  rw [Int64.lt_iff_toInt_lt, Int64.toInt_zero] at hpos
  rw [Int64.le_iff_toInt_le] at hle
  have hplan := perform_plan disk (show ∀ state, w.store (acquire c epoch.toInt).jobId = some state → _ from h.plan) rfl
  rw [← hstore] at hplan
  have harrived : (arrive c w manifests epoch.toInt).store = manifests.store := rfl
  rcases perform_acquireGiven w.store c.jobId c.plan epoch.toInt disk with hsame | ⟨hnext, hactive⟩
  · have hkept : manifests.store = w.store := hstore.trans hsame
    refine ⟨hcounted, ?_, ?_, fun d => ?_, hplan⟩
    · rw [harrived, hkept]
      exact hnonneg
    · rw [harrived, hkept]
      exact h.active_le
    · rw [mem_reached, h.reached, harrived, hkept]
      omega
  · have hadvanced : activeEpoch manifests.store c.jobId = epoch.toInt := by rw [hstore]; exact hactive
    refine ⟨hcounted, ?_, ?_, fun d => ?_, hplan⟩
    · rw [harrived, hadvanced]
      omega
    · rw [harrived, hadvanced]
      exact hle.trans hcounted.le
    · rw [mem_reached, h.reached, harrived, hadvanced]
      omega

theorem report_inv {call : Call} (disk : Disk) (hjob : call.jobId = c.jobId) (hcall : call.acquires = false)
    (hstore : manifests.store = (CheckpointStore.perform w.store call disk).1) : Inv c { w with manifests } := by
  refine h.of_active ?_ ?_
  · rw [hstore, activeEpoch_perform _ _ hcall]
  · have huses : UsesPlan c.plan call := by cases call <;> first | exact trivial | cases hcall
    rw [hstore, ← hjob]
    exact perform_plan disk (hjob ▸ h.plan) huses

end

theorem step_grows {t : World S} {e : Event S} (h : Known w.manifests) (hs : step c w e = some t) :
    w.starts ≤ t.starts ∧ Known t.manifests ∧ w.manifests.written ⊆ t.manifests.written := by
  cases e with
  | request r now =>
    cases hs
    exact ⟨Nat.le_add_right _ _, h, List.Subset.refl _⟩
  | acquire who epoch disk time =>
    simp only [step] at hs
    split_ifs at hs
    cases hs
    exact ⟨le_refl _, CachedManifests.perform_known _ h who _ disk time⟩
  | record who r disk time | complete who r disk time =>
    simp only [step, report] at hs
    split_ifs at hs
    cases hs
    exact ⟨le_refl _, CachedManifests.perform_known _ h who _ disk time⟩
  | load who =>
    cases hs
    obtain ⟨hread, -, hwritten, -⟩ := CachedManifests.readCached_spec h who c.jobId
    exact ⟨le_refl _, hread, hwritten.symm ▸ List.Subset.refl _⟩

theorem step_inv {t : World S} {e : Event S} (h : Inv c w) (hknown : Known w.manifests)
    (hdistinct : Distinguished w.manifests) (hlimit : (t.starts : ℤ) + 1 < longLimit) (hs : step c w e = some t) :
    Inv c t := by
  cases e with
  | request r now =>
    cases hs
    exact request_inv h r now hlimit
  | acquire who epoch disk time =>
    simp only [step] at hs
    split_ifs at hs with hstarted
    cases hs
    exact acquire_inv h disk hstarted.1 hstarted.2 (CachedManifests.perform_eq _ hknown hdistinct who _ disk time).2
  | record who r disk time | complete who r disk time =>
    simp only [step, report] at hs
    split_ifs at hs with hjob
    cases hs
    exact report_inv h disk hjob rfl (CachedManifests.perform_eq _ hknown hdistinct who _ disk time).2
  | load who =>
    cases hs
    have hstore : (readCached w.manifests who c.jobId).1.store = w.store := CachedManifests.store_readCached hknown
    exact h.of_active (by rw [hstore]) (by rw [hstore]; exact h.plan)

theorem initial_inv (c : Setting S) (key : Key) (uid : Bytes) (spec : S) (now : Time) :
    Inv c (initial key uid spec now) := by
  refine ⟨rfl, le_refl _, le_refl _, fun e => ?_, fun state hs => ?_⟩
  · change e ∈ [] ↔ 0 < e ∧ e ≤ 0
    simp only [List.not_mem_nil, false_iff]
    omega
  · cases hs

theorem run_inv {key : Key} {uid : Bytes} {spec : S} {now : Time} {events : List (Event S)}
    (hrun : Transitions.run (step c) (initial key uid spec now) events = some w) :
    Known w.manifests ∧ (Distinguished w.manifests → (w.starts : ℤ) + 1 < longLimit → Inv c w) := by
  have hstep : ∀ (w : World S) (e : Event S) (t : World S),
      (Known w.manifests ∧ (Distinguished w.manifests → (w.starts : ℤ) + 1 < longLimit → Inv c w)) →
        step c w e = some t →
          Known t.manifests ∧ (Distinguished t.manifests → (t.starts : ℤ) + 1 < longLimit → Inv c t) := by
    intro w e t ⟨hknown, h⟩ hs
    obtain ⟨hle, hknown', hwritten⟩ := step_grows hknown hs
    refine ⟨hknown', fun hdistinct hlimit => ?_⟩
    have hbefore := hdistinct.of_subset hwritten
    exact step_inv (h hbefore (by omega)) hknown hbefore hlimit hs
  exact Transitions.run_preserves hstep ⟨CachedManifests.start_known, fun _ _ => initial_inv c key uid spec now⟩ hrun

/-- In every history the latest epoch acquires exactly when every earlier one has reached the store, and
then fences them, while the stamps tell the job's manifests apart. -/
theorem run_handsOff (c : Setting S) (key : Key) (uid : Bytes) (spec : S) (now : Time) (events : List (Event S)) (w : World S)
    (hrun : Transitions.run (step c) (initial key uid spec now) events = some w)
    (hdistinct : Distinguished w.manifests) (hlimit : (w.starts : ℤ) + 1 < longLimit) (who : ℕ) (time : ℤ) :
    HandsOff c w who time := by
  obtain ⟨hknown, hinv⟩ := run_inv hrun
  have h := hinv hdistinct hlimit
  have hnonneg := h.active_nonneg
  have hle := h.active_le
  have holder : ∀ e, 0 < e → e ≤ (w.starts : ℤ) →
      (Granted c w who time e ↔ (∀ d, 0 < d → d < e → d ∈ w.reached) ∧ ∀ d ∈ w.reached, d ≤ e) := by
    intro e hpos hstarted
    rw [Granted, (CachedManifests.perform_eq c.size hknown hdistinct who _ _ _).1, acquire,
      granted_iff c.valid_id h.plan hpos (by omega)]
    simp only [h.reached]
    constructor
    · intro hactive
      exact ⟨fun d _ _ => by omega, fun d _ => by omega⟩
    · rintro ⟨hbefore, hafter⟩
      have hprevious := hbefore (e - 1)
      have hcurrent := hafter (activeEpoch w.store c.jobId)
      omega
  refine ⟨fun hpos => ?_, fun hreached e he disk => ?_, fun e hpos hstarted => ?_⟩
  · rw [Int64.lt_iff_toInt_lt, Int64.toInt_zero, h.counted] at hpos
    rw [h.counted, holder _ hpos (le_refl _)]
    refine and_iff_left fun d hd => ?_
    have := (h.reached d).mp hd
    omega
  · rw [h.reached, h.counted] at hreached
    rw [h.counted] at he
    obtain ⟨hresult, hstore⟩ := CachedManifests.perform_eq c.size hknown hdistinct who (acquire c e) disk time
    obtain ⟨err, herr⟩ := CheckpointHistory.fenced disk rfl (show e ≠ activeEpoch w.store (acquire c e).jobId by
      change e ≠ activeEpoch w.store c.jobId; omega) (show ¬ e = activeEpoch w.store c.jobId + 1 by omega)
    rw [hresult, hstore, herr]
    exact ⟨⟨err, rfl⟩, rfl⟩
  · rw [h.counted] at hstarted
    exact holder e hpos hstarted

def orders : Setting Unit :=
  ⟨"orders", ⟨"plan-1", [("orders-0", "split-1")]⟩, fun _ => none, CachedManifests.digits, by decide⟩

def ordersRun (events : List (Event Unit)) : Option (World Unit) :=
  Transitions.run (step orders) (initial ⟨lit "default", lit "orders"⟩ (lit "uid-1") () 0) events

def restarted : List (Event Unit) :=
  [.request .stop 2, .request (.advance 1 .canceled none) 3, .request .start 4]

def handedOver : List (Event Unit) :=
  [.request .start 1, .acquire 0 1 .written 1] ++ restarted ++ [.acquire 1 2 .written 2]

/-- The job is started, its coordinator acquires epoch 1, the job is restarted and epoch 2 acquired: the first
coordinator, which has cached its own manifest, is refused. -/
theorem handedOver_handsOff : ∃ w, ordersRun handedOver = some w ∧ w.job.status.epoch = 2 ∧
    HandsOff orders w 0 3 ∧ Refused orders w 0 3 1 := by
  have hrun : (ordersRun handedOver).map (fun w => (w.starts, w.job.status.epoch, w.reached,
      w.manifests.written.map fun e => (e.1, e.2.1))) =
        some (2, 2, [1, 2], [("orders", ⟨151, 2⟩), ("orders", ⟨151, 1⟩)]) := by decide +kernel
  obtain ⟨w, hw, hout⟩ := Option.map_eq_some_iff.mp hrun
  simp only [Prod.mk.injEq] at hout
  obtain ⟨hstarts, hepoch, hreached, hwritten⟩ := hout
  have hdistinct : Distinguished w.manifests := CachedManifests.distinguished_of_nodup (by rw [hwritten]; decide)
  have h := run_handsOff orders _ _ () 0 _ w hw hdistinct (by rw [hstarts]; decide) 0 3
  exact ⟨w, hw, hepoch, h, h.fenced (by rw [hepoch, hreached]; decide) 1 (by rw [hepoch]; decide)⟩

/-- Cancelled before its coordinator reaches the store, epoch 1 keeps epoch 2 out; and where epoch 1 has
reached it, its coordinator is still granted the epoch after epoch 2 has been started. -/
theorem skipped_epoch_refuses_latest : (ordersRun ([.request .start 1] ++ restarted)).map (fun w =>
      (w.job.status.epoch, (perform orders.size w.manifests 0 (acquire orders 2) .written 5).2)) =
        some (2, .error (.cannotAdvance 2 0)) ∧
    (ordersRun ([.request .start 1, .acquire 0 1 .written 1] ++ restarted)).map (fun w =>
      (w.job.status.epoch, (perform orders.size w.manifests 0 (acquire orders 1) .written 5).2)) = some (2, .ok (.epoch 1)) := by
  decide +kernel

end AstraSync.EpochHandoff
