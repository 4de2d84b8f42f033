import AstraSync.BatchLog

/-!
What a checkpointed run delivers: every row once, where a batch written again is the batch committed before.
-/

namespace AstraSync.BatchDelivery

open ByteStrings CommitTokens CheckpointStore JdbcRangeSplits RowBatches BatchWorker BatchLog

section

variable {K : Type} [LinearOrder K] (job : Job K) (sha256 : Bytes → Bytes) (splits : List SourceSplit)
  (target : Target)

structure Running (store : Store) (c : Coordinator (limits job)) : Prop where
  done : ∃ done, splits = done ++ c.pending ∧ ∀ split ∈ done, splitCompletion job store split ≠ none
  attempt : ∀ a, c.attempt = some a →
    c.pending.head? = some a.split ∧ a.sequence = loadedSequence job store a.split

structure Inv (w : World (limits job)) : Prop where
  log : Log job splits w.committed
  marks : Marks job sha256 splits w.committed w.markers
  stored : Stored job splits w.committed w.store
  delivered : w.target = target + (contents w.committed : List (List Cell))
  workers : ∀ who a, worker job w who = some a → Good job splits w.committed w.store a
  running : ∀ c, w.coordinator = some c → Running job splits w.store c
  finished : ∀ t ∈ w.finished, t = target + (job.source.rows.map (·.cells) : List (List Cell))

variable {job sha256 splits target} {w : World (limits job)}

theorem inv_initial : Inv job sha256 splits target (initial (limits job) target) where
  log := by
    constructor
    · intro e he; cases he
    · intro split q e he; cases he
    · intro e he; cases he
    · intro split; exact List.nil_prefix
  marks := ⟨fun _ he => absurd he List.not_mem_nil, fun _ _ _ _ _ _ _ => rfl⟩
  stored := ⟨fun _ _ => Nat.le_refl 0, fun _ _ => rfl, fun _ _ h => absurd rfl h⟩
  delivered := by simp [initial, contents]
  workers := by
    intro who a ha
    cases who <;> cases ha
  running := fun _ h => by cases h
  finished := fun _ h => by cases h

namespace Inv

theorem ended (h : Inv job sha256 splits target w) : Inv job sha256 splits target (ended job w) :=
  { h with
    workers := fun who a ha => h.workers who a (worker_ended ha)
    running := fun _ hc => by cases hc }

theorem loseWorker (h : Inv job sha256 splits target w) (who : Option ℕ) :
    Inv job sha256 splits target (loseWorker job w who) := by
  have hworkers : ∀ other a, worker job (BatchWorker.loseWorker job w who) other = some a →
      Good job splits w.committed w.store a := by
    grind [Inv, worker_loseWorker]
  cases who with
  | none => exact h.ended
  | some => exact { h with workers := hworkers }

variable {who : Option ℕ} {a : Attempt (limits job)} {split : SourceSplit} {batch : RowBatch} {store : Store}
  {c : Coordinator (limits job)} {r : CheckpointRecord}

section

variable (h : Inv job sha256 splits target w)

include h

theorem setWorker {a' : Attempt (limits job)}
    (ha : worker job w who = some a) (hgood : Good job splits w.committed w.store a') (hsplit : a'.split = a.split)
    (hsequence : a'.sequence = a.sequence) : Inv job sha256 splits target (setWorker job w who a') := by
  have hworkers : ∀ other b, worker job (BatchWorker.setWorker job w who a') other = some b →
      Good job splits w.committed w.store b := by
    intro other b hb
    rcases worker_setWorker ha hb with rfl | hb
    · exact hgood
    · exact h.workers other b hb
  cases who with
  | none =>
    obtain ⟨c, hc, hattempt⟩ := Option.bind_eq_some_iff.mp ha
    refine { h with workers := hworkers, running := ?_ }
    intro c' hc'
    simp only [BatchWorker.setWorker, hc, Option.map_some, Option.some.injEq] at hc'
    obtain ⟨hdone, hrunning⟩ := h.running c hc
    rw [← hc']
    refine ⟨hdone, ?_⟩
    rintro b ⟨⟩
    rw [hsplit, hsequence]
    exact hrunning a hattempt
  | some => exact { h with workers := hworkers }

theorem read (ha : worker job w who = some a) (identity : ℕ → ℕ → UInt32) :
    Inv job sha256 splits target (BatchWorker.setWorker job w who (afterRead job identity a)) := by
  obtain ⟨hknown, hle, hremaining, -⟩ := h.workers who a ha
  refine h.setWorker ha ⟨hknown, hle, hremaining, ?_⟩ rfl rfl
  by_cases hrows : (readBatch identity a.remaining a.controller.currentBatchRecords.toInt.toNat).rows = []
  · have hstage : (afterRead job identity a).stage = .ended := if_pos hrows
    have hpos := a.controller.current_pos
    rw [StageOk, hstage]
    have htake : a.remaining.take a.controller.currentBatchRecords.toInt.toNat = [] := hrows
    exact (List.take_eq_nil_iff.mp htake).resolve_left (by omega)
  · have hstage : (afterRead job identity a).stage = .read _ := if_neg hrows
    rw [StageOk, hstage]
    exact ⟨hrows, identity, _, rfl⟩

theorem entry_of_lt {q : ℕ} (hrepeats : ∀ e ∈ w.committed, e.split = split → e.sequence = q + 1 → e.batch = batch)
    (hlt : q < (history w.committed split).length) :
    ∃ e ∈ w.committed, (history w.committed split)[q]? = some e ∧ e.split = split ∧ e.sequence = q + 1 ∧
      e.batch = batch := by
  have he := List.getElem?_eq_getElem hlt
  obtain ⟨hmem, hsplit⟩ := mem_of_history he
  have hsequence := h.log.numbered split q _ he
  exact ⟨_, hmem, he, hsplit, hsequence, hrepeats _ hmem hsplit hsequence⟩

theorem reads (ha : worker job w who = some a) (hread : a.stage = .read batch) :
    Reads ((splitRows job.source a.split).drop (offset w.committed a.split a.sequence)) batch := by
  have hgood := h.workers who a ha
  have hstage := hgood.stage
  rw [StageOk, hread] at hstage
  rw [← hgood.remaining]
  exact hstage

theorem commit (henum : enumerate job.source = .ok splits)
    (hsha : Set.InjOn sha256 (texts job sha256 splits)) (hsplit : split ∈ splits)
    (hreads : Reads ((splitRows job.source split).drop (rowsOf (history w.committed split)).length) batch)
    (digest : Bytes) :
    Inv job sha256 splits target { w with
      markers := Function.update w.markers
        (commitToken job sha256 split ((history w.committed split).length + 1) batch) (some digest)
      target := w.target + (batch.rows.map (·.cells) : List (List Cell))
      committed := w.committed ++ [⟨split, (history w.committed split).length + 1, batch⟩] } := by
  obtain ⟨hfilled, identity, n, hbatch⟩ := hreads
  have hlog := h.log.commit hsplit hfilled hbatch
  have hbound := h.log.succ_length_le hsplit hfilled hbatch
  refine {
    log := hlog
    marks := h.marks.commit henum hsha hsplit ⟨hfilled, _, identity, n, hbatch⟩ hbound digest
    stored := h.stored.commit hlog
    delivered := ?_
    workers := fun who a ha => (h.workers who a ha).commit h.stored
    running := h.running
    finished := h.finished }
  simp only [h.delivered, contents, List.flatMap_append, List.flatMap_singleton]
  rw [← Multiset.coe_add, add_assoc]

end

variable {w' : World (limits job)}

section

variable (h : Inv job sha256 splits target w)

include h

theorem written (henum : enumerate job.source = .ok splits) (hsha : Set.InjOn sha256 (texts job sha256 splits))
    (ha : worker job w who = some a) (hread : a.stage = .read batch)
    (hrepeats : ∀ e ∈ w.committed, e.split = a.split → e.sequence = a.sequence + 1 → e.batch = batch)
    (hw : written job sha256 w a batch = some w') :
    Inv job sha256 splits target w' ∧ worker job w' who = some a ∧
      ∃ e, (history w'.committed a.split)[a.sequence]? = some e ∧ e.batch = batch := by
  have hgood := h.workers who a ha
  have hreads := h.reads ha hread
  have hle : a.sequence ≤ (history w.committed a.split).length :=
    hgood.sequence_le.trans (h.stored.sequence_le a.split hgood.known)
  -- where the history ends at the worker's sequence, the batch is the next one to commit
  have hnext (hlast : a.sequence = (history w.committed a.split).length) :
      Reads ((splitRows job.source a.split).drop (rowsOf (history w.committed a.split)).length) batch := by
    rw [offset, hlast, List.take_length] at hreads
    exact hreads
  unfold BatchWorker.written at hw
  split_ifs at hw with hlimit
  dsimp only at hw
  split at hw
  · cases hw
  · rename_i markers' target' hwrite
    cases hw
    rcases writeBatch_ok hwrite with ⟨hmarked, rfl, rfl⟩ | ⟨hnone, rfl, hinsert⟩
    · have hne : w.markers (commitToken job sha256 a.split (a.sequence + 1) batch) ≠ none := by
        rw [hmarked]; exact Option.some_ne_none _
      have hlt : a.sequence < (history w.committed a.split).length := by
        by_contra hge
        obtain ⟨hfilled, identity, n, hbatch⟩ := hnext (by omega)
        have hbound := h.log.succ_length_le hgood.known hfilled hbatch
        exact hne (h.marks.fresh a.split hgood.known _ batch (by omega) (by omega) ⟨hfilled, _, identity, n, hbatch⟩)
      obtain ⟨e, -, he, -, -, hbatch⟩ := h.entry_of_lt hrepeats hlt
      simp only [if_neg hne]
      exact ⟨h, ha, e, he, hbatch⟩
    · have hlast : a.sequence = (history w.committed a.split).length := by
        by_contra hne
        obtain ⟨e, hmem, -, hsplit, hsequence, hbatch⟩ := h.entry_of_lt hrepeats (lt_of_le_of_ne hle hne)
        have hmarked := h.marks.marked e hmem
        rw [hsplit, hsequence, hbatch] at hmarked
        exact hmarked hnone
      cases hinsert
      simp only [if_pos hnone]
      rw [hlast]
      refine ⟨h.commit henum hsha hgood.known (hnext hlast) _, ha, ?_⟩
      exact ⟨_, by rw [history_append_self rfl, List.getElem?_concat_length], rfl⟩

theorem write (henum : enumerate job.source = .ok splits) (hsha : Set.InjOn sha256 (texts job sha256 splits))
    (ha : worker job w who = some a) (hread : a.stage = .read batch)
    (hrepeats : ∀ e ∈ w.committed, e.split = a.split → e.sequence = a.sequence + 1 → e.batch = batch)
    (hw : BatchWorker.written job sha256 w a batch = some w') (readNanos writeNanos : ℕ) :
    Inv job sha256 splits target (BatchWorker.setWorker job w' who (afterWrite job batch readNanos writeNanos a)) := by
  obtain ⟨h', ha', hentry⟩ := h.written henum hsha ha hread hrepeats hw
  have hgood := h'.workers who a ha'
  have hreads := h'.reads ha' hread
  rw [← hgood.remaining] at hreads
  exact h'.setWorker ha' ⟨hgood.known, hgood.sequence_le, hgood.remaining, hreads, hentry⟩ rfl rfl

theorem withStore (hrecords : recordOf store = recordOf w.store)
    (hkeeps : ∀ split, splitCompletion job w.store split ≠ none → splitCompletion job store split ≠ none)
    (hcomplete : ∀ split ∈ splits, splitCompletion job store split ≠ none →
      rowsOf (history w.committed split) = splitRows job.source split) :
    Inv job sha256 splits target { w with store := store } := by
  have hsequence (split : SourceSplit) : loadedSequence job store split = loadedSequence job w.store split := by
    rw [loadedSequence, splitRecord, hrecords, loadedSequence, splitRecord]
  refine { h with
    stored := h.stored.congr hrecords hcomplete
    workers := fun who a ha => (h.workers who a ha).mono (hsequence a.split).ge
    running := ?_ }
  intro c hc
  obtain ⟨⟨done, hdone, hall⟩, hattempt⟩ := h.running c hc
  refine ⟨⟨done, hdone, fun split hsplit => hkeeps split (hall split hsplit)⟩, fun a ha => ?_⟩
  rw [hsequence]
  exact hattempt a ha

theorem withSameStore
    (hrecords : recordOf store = recordOf w.store) (hcompletions : completionOf store = completionOf w.store) :
    Inv job sha256 splits target { w with store := store } := by
  have hcompletion (split : SourceSplit) : splitCompletion job store split = splitCompletion job w.store split := by
    rw [splitCompletion, hcompletions, splitCompletion]
  refine h.withStore hrecords (fun split => ?_) (fun split hsplit => ?_)
  · rw [hcompletion]
    exact id
  · rw [hcompletion]
    exact h.stored.complete split hsplit

theorem started (executionEpoch : ℕ) (disk : Disk) :
    Inv job sha256 splits target (started job w splits executionEpoch disk) := by
  unfold BatchWorker.started
  dsimp only
  generalize hcall : (if executionEpoch = 0 then Call.acquireEpoch (jobId job) (splitPlan job splits)
    else .acquireGivenEpoch (jobId job) (splitPlan job splits) executionEpoch) = call
  have hacquires : call.acquires = true := by
    rw [← hcall]
    split_ifs <;> rfl
  obtain ⟨hrecords, hcompletions⟩ := perform_acquires w.store disk hacquires
  generalize perform w.store call disk = out at hrecords hcompletions ⊢
  obtain ⟨store, reply⟩ := out
  have h' := h.withSameStore hrecords hcompletions
  rcases reply with e | (e | r | c)
  · exact h'
  · refine { h' with workers := ?_, running := ?_ }
    · intro who a ha
      cases who with
      | none => cases ha
      | some k => exact h'.workers (some k) a ha
    · rintro c ⟨⟩
      exact ⟨⟨[], rfl, fun split hsplit => by cases hsplit⟩, fun a ha => by cases ha⟩
  · exact h'
  · exact h'

theorem dispatched {rest : List SourceSplit} (hc : w.coordinator = some c) (hpending : c.pending = split :: rest)
    (hidle : c.attempt = none) : Inv job sha256 splits target (dispatched job w c split rest) := by
  obtain ⟨⟨done, hdone, hcomplete⟩, -⟩ := h.running c hc
  have hsplit : split ∈ splits := by rw [hdone, hpending]; simp
  unfold BatchWorker.dispatched
  split_ifs with hcompletion
  · refine { h with workers := ?_, running := ?_ }
    · intro who a ha
      cases who with
      | none => simp [worker, hidle] at ha
      | some k => exact h.workers (some k) a ha
    · rintro c' ⟨⟩
      refine ⟨⟨done ++ [split], by rw [hdone, hpending]; simp, ?_⟩, fun a ha => by rw [hidle] at ha; cases ha⟩
      intro other hother
      rcases List.mem_append.mp hother with hother | hother
      · exact hcomplete other hother
      · grind
  · rw [h.stored.opens split hsplit]
    refine { h with workers := ?_, running := ?_ }
    · intro who a ha
      cases who with
      | none =>
        cases ha
        exact ⟨hsplit, Nat.le_refl _, rfl, trivial⟩
      | some k => exact h.workers (some k) a ha
    · rintro c' ⟨⟩
      refine ⟨⟨done, hdone, hcomplete⟩, ?_⟩
      rintro a ⟨⟩
      exact ⟨by rw [hpending]; rfl, rfl⟩

end

theorem good_afterRecord {committed : List Entry}
    (hgood : Good job splits committed store a) (hstage : a.stage = .committed batch)
    (hloaded : loadedSequence job store a.split = a.sequence + 1) :
    Good job splits committed store (afterRecord job batch a) := by
  have hok := hgood.stage
  rw [StageOk, hstage] at hok
  obtain ⟨⟨-, identity, n, hbatch⟩, e, he, rfl⟩ := hok
  refine ⟨hgood.known, hloaded.ge, ?_, ?_⟩
  · simp only [afterRecord]
    rw [hgood.remaining, List.drop_drop, offset, offset, rowsOf_take_succ he, List.length_append]
  · cases hend : e.batch.endOfInput with
    | false => simp only [StageOk, afterRecord, hend, Bool.false_eq_true, ↓reduceIte]
    | true =>
      simp only [StageOk, afterRecord, hend, ↓reduceIte]
      rw [hbatch] at hend ⊢
      have hlt : a.remaining.length < n := of_decide_eq_true hend
      rw [readBatch, List.take_of_length_le hlt.le, List.drop_length]

omit [LinearOrder K] in
theorem progress_some (h : progress job sha256 a batch = some r) : r.jobId = jobId job ∧ r.splitId = a.split.splitId ∧
      r.checkpointSequence = a.sequence + 1 ∧ positionAfter job.source batch = some r.sourcePosition := by
  unfold progress at h
  cases hposition : positionAfter job.source batch with
  | none => simp [hposition] at h
  | some => grind

theorem record_put (h : Inv job sha256 splits target w) (henum : enumerate job.source = .ok splits)
    (hscalar : ∀ r ∈ job.source.rows, ∃ text, resumeCell job.source r = .scalar text)
    (ha : worker job w none = some a) (hat : a.sequence = loadedSequence job w.store a.split)
    (hstage : a.stage = .committed batch) (hr : progress job sha256 a batch = some r)
    (hcompletions : completionOf store = completionOf w.store)
    (hput : recordOf store = put (recordOf w.store) (jobId job) a.split.splitId (some r)) :
    Stored job splits w.committed store ∧ loadedSequence job store a.split = a.sequence + 1 ∧
      ∀ who b, worker job w who = some b → Good job splits w.committed store b := by
  obtain ⟨-, -, hsequence, hposition⟩ := progress_some hr
  have hgood := h.workers none a ha
  have hok := hgood.stage
  rw [StageOk, hstage] at hok
  obtain ⟨hreads, e, he, hbatch⟩ := hok
  rw [hgood.remaining, ← hbatch] at hreads
  rw [← hbatch] at hposition
  have hloaded : loadedSequence job store a.split = a.sequence + 1 := by
    simp only [loadedSequence, splitRecord_self hput, lastSequence, hsequence]
    omega
  have hmono : ∀ other ∈ splits, loadedSequence job w.store other ≤ loadedSequence job store other := by
    intro other hother
    by_cases hne : other = a.split
    · rw [hne]; omega
    · rw [loadedSequence, loadedSequence, splitRecord_other henum hgood.known hput hother hne]
  refine ⟨?_, hloaded, fun who b hb => ?_⟩
  · exact h.stored.record henum hgood.known hput h.log hscalar hcompletions he hreads hsequence hposition
  · exact (h.workers who b hb).mono (hmono b.split (h.workers who b hb).known)

theorem recorded (h : Inv job sha256 splits target w) (henum : enumerate job.source = .ok splits)
    (hscalar : ∀ r ∈ job.source.rows, ∃ text, resumeCell job.source r = .scalar text)
    (hc : w.coordinator = some c) (ha : c.attempt = some a)
    (hstage : a.stage = .committed batch) (hr : progress job sha256 a batch = some r)
    (disk : Disk) : Inv job sha256 splits target (recordedWith job w c (afterRecord job batch a) r disk) := by
  obtain ⟨hjob, hsplitId, hsequence, -⟩ := progress_some hr
  obtain ⟨⟨done, hdone, hcomplete⟩, hattempt⟩ := h.running c hc
  obtain ⟨hhead, hat⟩ := hattempt a ha
  have hworker : worker job w none = some a := by simp [worker, hc, ha]
  obtain ⟨hcompletions, hrecords⟩ := perform_record w.store r disk
  have hstored := @recordOf_perform_record w.store r disk
  unfold recordedWith
  generalize perform w.store (.record r) disk = out at hcompletions hrecords hstored ⊢
  obtain ⟨store, reply⟩ := out
  simp only [hjob, hsplitId] at hstored hrecords hcompletions
  rcases hrecords with hsame | hput
  · have h' := h.withSameStore hsame hcompletions
    cases reply with
    | error => exact h'.ended
    | ok =>
      -- the store would already hold the record of a sequence it has not reached
      have hrecord := hstored rfl
      rw [hsame] at hrecord
      have hloaded : loadedSequence job w.store a.split = a.sequence + 1 := by
        simp only [loadedSequence, splitRecord, hrecord, lastSequence, hsequence]
        omega
      omega
  · obtain ⟨hstored', hloaded, hgoods⟩ := h.record_put henum hscalar hworker hat hstage hr hcompletions hput
    cases reply with
    | error =>
      refine { h with stored := hstored', workers := ?_, running := fun _ hc => by cases hc }
      intro who b hb
      cases who with
      | none => cases hb
      | some k => exact hgoods (some k) b hb
    | ok =>
      refine { h with stored := hstored', workers := ?_, running := ?_ }
      · intro who b hb
        cases who with
        | none =>
          cases hb
          exact good_afterRecord (hgoods none a hworker) hstage hloaded
        | some k => exact hgoods (some k) b hb
      · rintro c' ⟨⟩
        refine ⟨⟨done, hdone, fun split hsplit => ?_⟩, ?_⟩
        · rw [splitCompletion, hcompletions]
          exact hcomplete split hsplit
        · rintro b ⟨⟩
          exact ⟨hhead, hloaded.symm⟩

variable {workerId : String} {metrics : SyncResult} {d : CheckpointCompletion}

omit [LinearOrder K] in
theorem completion_some (h : completion job a workerId metrics = some d) :
    d.jobId = jobId job ∧ d.splitId = a.split.splitId := by
  unfold completion at h
  split_ifs at h
  cases h
  exact ⟨rfl, rfl⟩

variable (h : Inv job sha256 splits target w)

include h

theorem rowsOf_ended (ha : worker job w who = some a) (hstage : a.stage = .ended) :
    rowsOf (history w.committed a.split) = splitRows job.source a.split := by
  have hgood := h.workers who a ha
  have hempty := hgood.stage
  rw [StageOk, hstage, hgood.remaining, List.drop_eq_nil_iff] at hempty
  refine (h.log.contiguous a.split).eq_of_length_le (hempty.trans ?_)
  exact (rowsOf_take_isPrefix _ a.sequence).length_le

theorem completed (henum : enumerate job.source = .ok splits) (hc : w.coordinator = some c) (ha : c.attempt = some a)
    (hstage : a.stage = .ended)
    (hd : completion job a workerId metrics = some d) (disk : Disk) :
    Inv job sha256 splits target (completedWith job w c d disk) := by
  obtain ⟨hjob, hsplitId⟩ := completion_some hd
  obtain ⟨-, hattempt⟩ := h.running c hc
  obtain ⟨hhead, -⟩ := hattempt a ha
  have hworker : worker job w none = some a := by simp [worker, hc, ha]
  have hgood := h.workers none a hworker
  have hrows := h.rowsOf_ended hworker hstage
  obtain ⟨hrecords, hcompletions⟩ := perform_recordCompletion w.store d disk
  have hstored := @completionOf_perform_recordCompletion w.store d disk
  unfold completedWith
  generalize perform w.store (.recordCompletion d) disk = out at hrecords hcompletions hstored ⊢
  obtain ⟨store, reply⟩ := out
  simp only [hjob, hsplitId] at hrecords hcompletions hstored
  -- a completion is only ever added, and only to a split whose rows are committed
  have hput (split : SourceSplit) : splitCompletion job store split = splitCompletion job w.store split ∨
      (split.splitId = a.split.splitId ∧ splitCompletion job store split = some d) := by
    rcases hcompletions with hsame | hput
    · exact .inl (by rw [splitCompletion, hsame, splitCompletion])
    · by_cases hid : split.splitId = a.split.splitId
      · exact .inr ⟨hid, by rw [splitCompletion, hput, hid, put_self]⟩
      · exact .inl (by rw [splitCompletion, hput, put_of_ne _ _ fun h => hid h.2, splitCompletion])
  have h' : Inv job sha256 splits target { w with store := store } := by
    refine h.withStore hrecords (fun split hsplit => ?_) (fun split hsplit hne => ?_)
    · grind
    · rcases hput split with hsame | ⟨hid, -⟩
      · exact h.stored.complete split hsplit (hsame ▸ hne)
      · rw [split_of_splitId henum hsplit hgood.known hid]
        exact hrows
  cases reply with
  | error => exact h'.ended
  | ok =>
    obtain ⟨⟨done', hdone', hall⟩, -⟩ := h'.running c hc
    obtain ⟨rest, hrest⟩ := List.head?_eq_some_iff.mp hhead
    refine { h' with workers := ?_, running := ?_ }
    · intro who b hb
      cases who with
      | none => cases hb
      | some k => exact h'.workers (some k) b hb
    · rintro c' ⟨⟩
      refine ⟨⟨done' ++ [a.split], by rw [hdone', hrest]; simp, ?_⟩, fun b hb => by cases hb⟩
      intro split hsplit
      rcases List.mem_append.mp hsplit with hsplit | hsplit
      · exact hall split hsplit
      · cases List.mem_singleton.mp hsplit
        rw [splitCompletion, hstored rfl]
        exact Option.some_ne_none d

theorem complete (henum : enumerate job.source = .ok splits) (hsplit : ∀ r ∈ job.source.rows, r.splitValue ≠ none)
    (hc : w.coordinator = some c) (hpending : c.pending = []) :
    Inv job sha256 splits target { w with coordinator := none, finished := w.finished ++ [w.target] } := by
  obtain ⟨⟨done, hdone, hall⟩, -⟩ := h.running c hc
  rw [hpending, List.append_nil] at hdone
  refine { h.ended with finished := ?_ }
  intro t ht
  rcases List.mem_append.mp ht with ht | ht
  · exact h.finished t ht
  · cases List.mem_singleton.mp ht
    have hrows := rowsOf_all henum hsplit h.log fun split hmem =>
      h.stored.complete split hmem (hall split (hdone ▸ hmem))
    rw [h.delivered, contents_eq, ← Multiset.map_coe, hrows, Multiset.map_coe]

theorem crash (hc : w.coordinator = some c) (workerSurvives : Bool) : Inv job sha256 splits target { w with
      coordinator := none
      orphans := if workerSurvives then w.orphans ++ c.attempt.toList else w.orphans } := by
  refine { h.ended with workers := ?_ }
  intro who a ha
  obtain ⟨who', ha'⟩ := worker_crash hc ha
  exact h.workers who' a ha'

end Inv

variable {w' : World (limits job)}

theorem step_inv (henum : enumerate job.source = .ok splits) (hsha : Set.InjOn sha256 (texts job sha256 splits))
    (hscalar : ∀ r ∈ job.source.rows, ∃ text, resumeCell job.source r = .scalar text)
    (hsplit : ∀ r ∈ job.source.rows, r.splitValue ≠ none) {event : Event}
    (h : Inv job sha256 splits target w) (hok : repeats job w event = true)
    (hstep : step job sha256 w event = some w') : Inv job sha256 splits target w' := by
  cases step_outcome hstep with
  | refused => exact h
  | started executionEpoch disk henum' =>
    cases henum.symm.trans henum'
    exact h.started executionEpoch disk
  | dispatched hc hpending hidle => exact h.dispatched hc hpending hidle
  | read identity ha => exact h.read ha identity
  | written readNanos writeNanos ha hread hw =>
    exact h.write henum hsha ha hread ((repeats_write ha hread).mp hok) hw readNanos writeNanos
  | lost => exact h.loseWorker _
  | recorded disk hc ha hstage hr => exact h.recorded henum hscalar hc ha hstage hr disk
  | unrecorded => exact h.ended
  | finished disk hc ha hstage hdone => exact h.completed henum hc ha hstage hdone disk
  | unfinished => exact h.ended
  | completed hc hpending => exact h.complete henum hsplit hc hpending
  | crashed workerSurvives hc => exact h.crash hc workerSurvives

theorem resumeCell_scalar (henum : enumerate job.source = .ok splits)
    (hscalar : ∀ r ∈ job.source.rows, ∀ content, resumeCell job.source r ≠ .binary content) :
    ∀ r ∈ job.source.rows, ∃ text, resumeCell job.source r = .scalar text := by
  intro r hr
  obtain ⟨hnull, -⟩ := enumerate_ok henum
  cases hcell : resumeCell job.source r with
  | null => exact absurd hcell (hnull r hr)
  | scalar text => exact ⟨text, rfl⟩
  | binary content => exact absurd hcell (hscalar r hr content)

theorem step_refused {error : SplitError} (herror : enumerate job.source = .error error)
    {event : Event} (h : w = initial (limits job) target) (hstep : step job sha256 w event = some w') :
    w' = initial (limits job) target := by
  subst h
  cases event with
  | start =>
    simp only [step, initial, herror] at hstep
    cases hstep
    rfl
  | read who | write who => cases who <;> simp [step, initial, worker] at hstep
  | dispatch | record | finish | complete | crash => simp [step, initial] at hstep

end

/-- Where every batch written again is the batch committed before, a completed run has delivered every row
once. -/
theorem run_deliversOnce {K : Type} [LinearOrder K] {job : Job K} {sha256 : Bytes → Bytes}
    (hsha : ∀ splits, enumerate job.source = .ok splits → Set.InjOn sha256 (texts job sha256 splits))
    (hscalar : ∀ r ∈ job.source.rows, ∀ content, resumeCell job.source r ≠ .binary content)
    (hsplit : ∀ r ∈ job.source.rows, r.splitValue ≠ none) {target : Target} {events : List Event}
    {w : World (limits job)}
    (hok : Transitions.meets (step job sha256) (repeats job) (initial (limits job) target) events = true)
    (hrun : Transitions.run (step job sha256) (initial (limits job) target) events = some w) :
    ∀ t ∈ w.finished, t = target + (job.source.rows.map (·.cells) : List (List Cell)) := by
  cases henum : enumerate job.source with
  | error =>
    have hsame := Transitions.run_preserves (fun _ _ _ h hs => step_refused henum h hs) rfl hrun
    rw [hsame]
    intro t ht
    cases ht
  | ok splits =>
    have hscalar' := resumeCell_scalar henum hscalar
    have hinit : Inv job sha256 splits target (initial (limits job) target) := inv_initial
    exact (Transitions.run_invariant (fun _ _ _ h hok hs => step_inv henum (hsha splits henum) hscalar' hsplit h hok hs)
      hinit hok hrun).finished

open JobCompiler

def jdbc : ConnectorDescriptor :=
  ⟨"jdbc", "1.1.0", [.source, .sink], [.batchRead, .batchWrite, .replayableOffset, .idempotentWrite, .upsert, .delete]⟩

def orderSpec (runtime : RuntimeSpec) : JobSpec where
  name := "orders"
  source := ⟨"jdbc", [("table", "orders"), ("splitColumn", "id"), ("resumeColumn", "id")]⟩
  sink := ⟨"jdbc", [("table", "orders_copy")]⟩
  transforms := []
  guarantee := .exactlyOnce
  runtime := runtime

def orderRank : Cell → ℕ
  | .scalar text => ["1", "2", "3"].idxOf text
  | _ => 0

def orderJob (runtime : RuntimeSpec) (columns : List String) (rows : List SourceRow) : Job ℕ where
  registry := [jdbc]
  spec := orderSpec runtime
  plan := ⟨"orders", ⟨.source, "jdbc", "1.1.0", (orderSpec runtime).source.options⟩,
    ⟨.sink, "jdbc", "1.1.0", (orderSpec runtime).sink.options⟩, .batch, .exactlyOnce, runtime⟩
  source := ⟨"orders", columns, "id", 1, rows, orderRank, Nat.one_pos⟩
  planFingerprint := "plan-1"
  splitFingerprint split := split.splitId
  compiled := rfl
  exactlyOnce := rfl

def fixedRuntime : RuntimeSpec := ⟨⟨⟨2, 2, 0, 0, by decide, by decide, by decide, by decide⟩, 2, by decide⟩, fun _ => ⟨rfl, rfl⟩, fun _ => rfl⟩

def adaptiveRuntime : RuntimeSpec := ⟨⟨⟨1, 1, 100, 0, by decide, by decide, by decide, by decide⟩, 2, by decide⟩, by decide, by decide⟩

def threeOrders : List SourceRow := [⟨[.scalar "1"], some 1⟩, ⟨[.scalar "2"], some 2⟩, ⟨[.scalar "3"], some 3⟩]

def fixedOrders : Job ℕ := orderJob fixedRuntime ["id"] threeOrders

def adaptiveOrders : Job ℕ := orderJob adaptiveRuntime ["id"] threeOrders

def signedOrder : Job ℕ := orderJob fixedRuntime ["id", "signature"] [⟨[.scalar "1", .binary [7]], some 1⟩]

def batchWith (identity : UInt32) : List Event := [.read none fun _ _ => identity, .write none true 0 0]

def batch : List Event := batchWith 0 ++ [.record .written]

def begin : List Event := [.start 0 .written, .dispatch]

def close : List Event := [.finish "worker" ⟨0, 0, 0, 0, 0, by decide⟩ .written, .complete]

def regrown : List Event := begin ++ batch ++ batchWith 0 ++ .crash false :: begin ++ batch ++ batch ++ close

def reread : List Event := begin ++ batchWith 1 ++ .crash false :: begin ++ batchWith 2 ++ .record .written :: close

/-- An adaptive limit cuts the replayed batch elsewhere, and a binary value gives it another text: either way
rows already in the target are inserted again. -/
theorem replay_delivers_twice :
    (∃ w, Transitions.run (step adaptiveOrders id) (initial (limits adaptiveOrders) 0) regrown = some w ∧
      ∃ t ∈ w.finished, t.count [.scalar "2"] = 2 ∧ t.count [.scalar "3"] = 2) ∧
    ∃ w, Transitions.run (step signedOrder id) (initial (limits signedOrder) 0) reread = some w ∧
      ∃ t ∈ w.finished, t.count [.scalar "1", .binary [7]] = 2 := by
  have hadaptive : (Transitions.run (step adaptiveOrders id) (initial (limits adaptiveOrders) 0) regrown).map
      (fun w => w.finished) = some [{[.scalar "1"], [.scalar "2"], [.scalar "3"], [.scalar "2"], [.scalar "3"]}] := by
    decide +kernel
  have hsigned : (Transitions.run (step signedOrder id) (initial (limits signedOrder) 0) reread).map
      (fun w => w.finished) = some [{[.scalar "1", .binary [7]], [.scalar "1", .binary [7]]}] := by
    decide +kernel
  obtain ⟨w, hw, hfinished⟩ := Option.map_eq_some_iff.mp hadaptive
  obtain ⟨w', hw', hfinished'⟩ := Option.map_eq_some_iff.mp hsigned
  refine ⟨⟨w, hw, _, by rw [hfinished]; exact List.mem_singleton_self _, ?_⟩,
    w', hw', _, by rw [hfinished']; exact List.mem_singleton_self _, ?_⟩ <;> decide +kernel

def repeated : List Event := begin ++ batchWith 0 ++ .crash true :: begin ++ batch ++ batch ++ close

theorem repeated_deliversOnce :
    ∃ w, Transitions.run (step fixedOrders id) (initial (limits fixedOrders) 0) repeated = some w ∧
      w.finished ≠ [] ∧ ∀ t ∈ w.finished, t = 0 + (fixedOrders.source.rows.map (·.cells) : List (List Cell)) := by
  have hok : Transitions.meets (step fixedOrders id) (repeats fixedOrders) (initial (limits fixedOrders) 0) repeated =
      true := by
    decide +kernel
  have hrun : (Transitions.run (step fixedOrders id) (initial (limits fixedOrders) 0) repeated).map
      (fun w => w.finished.length) = some 1 := by
    decide +kernel
  obtain ⟨w, hw, hlength⟩ := Option.map_eq_some_iff.mp hrun
  have hscalar : ∀ r ∈ fixedOrders.source.rows, ∀ content, resumeCell fixedOrders.source r ≠ .binary content := by
    intro r hr content
    simp only [fixedOrders, orderJob, threeOrders, List.mem_cons, List.not_mem_nil, or_false] at hr
    rcases hr with rfl | rfl | rfl <;> exact Cell.noConfusion
  exact ⟨w, hw, List.ne_nil_of_length_pos (by omega),
    run_deliversOnce (fun _ _ => Function.injective_id.injOn) hscalar (by decide) hok hw⟩

end AstraSync.BatchDelivery
