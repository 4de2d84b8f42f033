import AstraSync.BatchWorker

namespace AstraSync.BatchLog

open ByteStrings CommitTokens CheckpointStore JdbcRangeSplits RowBatches BatchWorker

def history (committed : List Entry) (split : SourceSplit) : List Entry :=
  committed.filter fun e => e.split = split

def rowsOf (entries : List Entry) : List SourceRow := entries.flatMap fun e => e.batch.rows

section

variable {committed : List Entry} {split : SourceSplit} {e : Entry}

theorem rowsOf_append (entries more : List Entry) : rowsOf (entries ++ more) = rowsOf entries ++ rowsOf more :=
  List.flatMap_append

theorem history_append_self (h : e.split = split) :
    history (committed ++ [e]) split = history committed split ++ [e] := by
  simp [history, h]

theorem history_append_other (h : e.split ≠ split) : history (committed ++ [e]) split = history committed split := by
  simp [history, h]

theorem history_isPrefix (committed : List Entry) (e : Entry) (split : SourceSplit) :
    history committed split <+: history (committed ++ [e]) split := by
  by_cases h : e.split = split
  · rw [history_append_self h]
    exact List.prefix_append _ _
  · rw [history_append_other h]

variable {q : ℕ}

theorem mem_of_history (h : (history committed split)[q]? = some e) : e ∈ committed ∧ e.split = split := by
  have hmem := List.mem_of_getElem? h
  simpa [history] using List.mem_filter.mp hmem

theorem take_history (h : q ≤ (history committed split).length) (e : Entry) :
    (history (committed ++ [e]) split).take q = (history committed split).take q := by
  obtain ⟨more, hmore⟩ := history_isPrefix committed e split
  rw [← hmore, List.take_append_of_le_length h]

theorem rowsOf_take_succ (h : (history committed split)[q]? = some e) :
    rowsOf ((history committed split).take (q + 1)) = rowsOf ((history committed split).take q) ++ e.batch.rows := by
  rw [List.take_add_one, h, rowsOf_append]
  simp [rowsOf]

theorem rowsOf_take_isPrefix (entries : List Entry) (q : ℕ) : rowsOf (entries.take q) <+: rowsOf entries := by
  conv_rhs => rw [← List.take_append_drop q entries, rowsOf_append]
  exact List.prefix_append _ _

end

section

variable {K : Type} [LinearOrder K] (job : Job K) (splits : List SourceSplit)

def Readable (split : SourceSplit) (batch : RowBatch) : Prop :=
  batch.rows ≠ [] ∧ ∃ k identity n, batch = readBatch identity ((splitRows job.source split).drop k) n

structure Log (committed : List Entry) : Prop where
  known : ∀ e ∈ committed, e.split ∈ splits
  numbered : ∀ split q e, (history committed split)[q]? = some e → e.sequence = q + 1
  filled : ∀ e ∈ committed, e.batch.rows ≠ []
  contiguous : ∀ split, rowsOf (history committed split) <+: splitRows job.source split

variable {job splits} {committed : List Entry}

theorem length_le_rowsOf {entries : List Entry} (h : ∀ e ∈ entries, e.batch.rows ≠ []) :
    entries.length ≤ (rowsOf entries).length := by
  induction entries with
  | nil => exact Nat.le_refl 0
  | cons e entries ih =>
    obtain ⟨he, hrest⟩ := List.forall_mem_cons.mp h
    have hpos := List.length_pos_of_ne_nil he
    have hle := ih hrest
    simp only [rowsOf, List.flatMap_cons, List.length_append, List.length_cons] at hle ⊢
    omega

namespace Log

theorem rowsOf_take_eq (h : Log job splits committed) (split : SourceSplit) (q : ℕ) :
    rowsOf ((history committed split).take q) =
      (splitRows job.source split).take (rowsOf ((history committed split).take q)).length :=
  List.prefix_iff_eq_take.mp ((rowsOf_take_isPrefix _ q).trans (h.contiguous split))

variable {split : SourceSplit} {batch : RowBatch} {identity : ℕ → ℕ → UInt32} {n : ℕ}

variable (h : Log job splits committed)

include h

theorem rowsOf_commit
    (hbatch : batch = readBatch identity ((splitRows job.source split).drop (rowsOf (history committed split)).length) n) :
    rowsOf (history committed split) ++ batch.rows <+: splitRows job.source split := by
  have hrows := List.prefix_iff_eq_take.mp (h.contiguous split)
  set k := (rowsOf (history committed split)).length with hk
  rw [hrows, hbatch, readBatch]
  simp only
  rw [← List.take_add]
  exact List.take_prefix _ _

theorem commit (hsplit : split ∈ splits) (hfilled : batch.rows ≠ [])
    (hbatch : batch = readBatch identity ((splitRows job.source split).drop (rowsOf (history committed split)).length) n) :
    Log job splits (committed ++ [⟨split, (history committed split).length + 1, batch⟩]) := by
  constructor
  · grind [Log, List.mem_singleton]
  · intro other q e he
    by_cases hother : split = other
    · grind [Log, history_append_self, Nat.lt_or_ge]
    · rw [history_append_other hother] at he
      exact h.numbered other q e he
  · grind [Log, List.mem_singleton]
  · intro other
    by_cases hother : split = other
    · subst hother
      rw [history_append_self rfl, rowsOf_append]
      simpa [rowsOf] using h.rowsOf_commit hbatch
    · rw [history_append_other hother]
      exact h.contiguous other

theorem length_history_le (split : SourceSplit) : (history committed split).length ≤ job.source.rows.length := by
  have hfilled : ∀ e ∈ history committed split, e.batch.rows ≠ [] :=
    fun e he => h.filled e (List.mem_of_mem_filter he)
  calc (history committed split).length
      ≤ (rowsOf (history committed split)).length := length_le_rowsOf hfilled
    _ ≤ (splitRows job.source split).length := (h.contiguous split).length_le
    _ ≤ job.source.rows.length := by
      rw [splitRows, List.length_insertionSort]
      exact List.length_filter_le _ _

theorem succ_length_le (hsplit : split ∈ splits) (hfilled : batch.rows ≠ [])
    (hbatch : batch = readBatch identity ((splitRows job.source split).drop (rowsOf (history committed split)).length) n) :
    (history committed split).length + 1 ≤ job.source.rows.length := by
  have hle := (h.commit hsplit hfilled hbatch).length_history_le split
  rwa [history_append_self rfl, List.length_append, List.length_singleton] at hle

end Log

end

section

variable {K : Type} [LinearOrder K] (job : Job K) (sha256 : Bytes → Bytes) (splits : List SourceSplit)

def texts : Set Bytes :=
  {x | ∃ split ∈ splits, ∃ q batch, q ≤ job.source.rows.length ∧ Readable job split batch ∧
    x = canonical (jobId job) split.splitId q (batchDigest job sha256 batch)}

structure Marks (committed : List Entry) (markers : Markers) : Prop where
  marked : ∀ e ∈ committed, markers (commitToken job sha256 e.split e.sequence e.batch) ≠ none
  fresh : ∀ split ∈ splits, ∀ q batch, (history committed split).length < q → q ≤ job.source.rows.length →
    Readable job split batch → markers (commitToken job sha256 split q batch) = none

variable {job sha256 splits} {split : SourceSplit}

theorem split_of_splitId (henum : enumerate job.source = .ok splits) {other : SourceSplit}
    (hsplit : split ∈ splits) (hother : other ∈ splits) (h : split.splitId = other.splitId) : split = other :=
  List.inj_on_of_nodup_map (splitIds_nodup henum) hsplit hother h

theorem commitToken_inj (henum : enumerate job.source = .ok splits) (hsha : Set.InjOn sha256 (texts job sha256 splits))
    {split' : SourceSplit} {q q' : ℕ} {batch batch' : RowBatch} (hsplit : split ∈ splits)
    (hsplit' : split' ∈ splits) (hq : q ≤ job.source.rows.length) (hq' : q' ≤ job.source.rows.length)
    (hbatch : Readable job split batch) (hbatch' : Readable job split' batch')
    (h : commitToken job sha256 split q batch = commitToken job sha256 split' q' batch') : split = split' ∧ q = q' := by
  have hcanonical := hsha ⟨split, hsplit, q, batch, hq, hbatch, rfl⟩ ⟨split', hsplit', q', batch', hq', hbatch', rfl⟩
    (hexEncode_injective h)
  obtain ⟨hid, hqq, -⟩ := canonical_inj (bar_not_mem_hexEncode _) (bar_not_mem_hexEncode _) hcanonical
  exact ⟨split_of_splitId henum hsplit hsplit' hid, hqq⟩

theorem Marks.commit {committed : List Entry} {markers : Markers} {batch : RowBatch}
    (h : Marks job sha256 splits committed markers) (henum : enumerate job.source = .ok splits)
    (hsha : Set.InjOn sha256 (texts job sha256 splits)) (hsplit : split ∈ splits)
    (hbatch : Readable job split batch) (hq : (history committed split).length + 1 ≤ job.source.rows.length)
    (digest : Bytes) :
    Marks job sha256 splits (committed ++ [⟨split, (history committed split).length + 1, batch⟩])
      (Function.update markers (commitToken job sha256 split ((history committed split).length + 1) batch)
        (some digest)) := by
  constructor
  · intro e he
    by_cases htoken : commitToken job sha256 e.split e.sequence e.batch =
        commitToken job sha256 split ((history committed split).length + 1) batch
    · rw [htoken, Function.update_self]
      exact Option.some_ne_none _
    · grind [Marks, Function.update_of_ne, List.mem_singleton]
  · intro other hother q b hlength hq' hb
    have hlength' : (history committed other).length < q :=
      (history_isPrefix committed _ other).length_le.trans_lt hlength
    have htoken : commitToken job sha256 other q b ≠
        commitToken job sha256 split ((history committed split).length + 1) batch := by
      intro htoken
      obtain ⟨rfl, rfl⟩ := commitToken_inj henum hsha hother hsplit hq' hq hb hbatch htoken
      rw [history_append_self rfl, List.length_append, List.length_singleton] at hlength
      exact absurd hlength (Nat.lt_irrefl _)
    rw [Function.update_of_ne htoken]
    exact h.fresh other hother q b hlength' hq' hb

end

section

variable {K : Type} [LinearOrder K] (job : Job K) (splits : List SourceSplit)

def offset (committed : List Entry) (split : SourceSplit) (q : ℕ) : ℕ :=
  (rowsOf ((history committed split).take q)).length

/-- Every recorded batch is committed, its position opens the source right after it, and the rows of a
completed split are committed to the last. -/
structure Stored (committed : List Entry) (store : Store) : Prop where
  sequence_le : ∀ split ∈ splits, loadedSequence job store split ≤ (history committed split).length
  opens : ∀ split ∈ splits, openAt job.source split (loadedPosition job store split) =
    some ((splitRows job.source split).drop (offset committed split (loadedSequence job store split)))
  complete : ∀ split ∈ splits, splitCompletion job store split ≠ none →
    rowsOf (history committed split) = splitRows job.source split

def Reads (remaining : List SourceRow) (batch : RowBatch) : Prop :=
  batch.rows ≠ [] ∧ ∃ identity n, batch = readBatch identity remaining n

def StageOk (committed : List Entry) (a : Attempt (limits job)) : Prop :=
  match a.stage with
  | .idle => True
  | .read batch => Reads a.remaining batch
  | .committed batch => Reads a.remaining batch ∧
      ∃ e, (history committed a.split)[a.sequence]? = some e ∧ e.batch = batch
  | .ended => a.remaining = []

structure Good (committed : List Entry) (store : Store) (a : Attempt (limits job)) : Prop where
  known : a.split ∈ splits
  sequence_le : a.sequence ≤ loadedSequence job store a.split
  remaining : a.remaining = (splitRows job.source a.split).drop (offset committed a.split a.sequence)
  stage : StageOk job committed a

variable {job splits} {committed : List Entry} {store store' : Store} {e : Entry} {split : SourceSplit} {q : ℕ}

theorem offset_commit (h : q ≤ (history committed split).length) :
    offset (committed ++ [e]) split q = offset committed split q := by
  rw [offset, take_history h, offset]

theorem getElem?_history_commit {e' : Entry}
    (h : (history committed split)[q]? = some e') : (history (committed ++ [e]) split)[q]? = some e' := by
  obtain ⟨more, hmore⟩ := history_isPrefix committed e split
  obtain ⟨hlt, -⟩ := List.getElem?_eq_some_iff.mp h
  rw [← hmore, List.getElem?_append_left hlt, h]

theorem Stored.commit (h : Stored job splits committed store) (hlog : Log job splits (committed ++ [e])) :
    Stored job splits (committed ++ [e]) store := by
  constructor
  · intro split hsplit
    exact (h.sequence_le split hsplit).trans (history_isPrefix committed e split).length_le
  · grind [Log, Stored, offset_commit]
  · intro split hsplit hdone
    have hrows := h.complete split hsplit hdone
    obtain ⟨more, hmore⟩ := history_isPrefix committed e split
    have hle := (hlog.contiguous split).length_le
    rw [← hmore, rowsOf_append, hrows, List.length_append] at hle
    refine (hlog.contiguous split).eq_of_length_le ?_
    rw [← hmore, rowsOf_append, hrows, List.length_append]
    omega

theorem Good.commit {a : Attempt (limits job)} (h : Good job splits committed store a)
    (hstored : Stored job splits committed store) : Good job splits (committed ++ [e]) store a := by
  have hle : a.sequence ≤ (history committed a.split).length :=
    h.sequence_le.trans (hstored.sequence_le a.split h.known)
  refine ⟨h.known, h.sequence_le, ?_, ?_⟩
  · rw [offset_commit hle]
    exact h.remaining
  · have hstage := h.stage
    unfold StageOk at hstage ⊢
    cases hs : a.stage with
    | idle => trivial
    | read => rw [hs] at hstage; exact hstage
    | ended => rw [hs] at hstage; exact hstage
    | committed =>
      rw [hs] at hstage
      obtain ⟨hreads, e', he', hbatch⟩ := hstage
      exact ⟨hreads, e', getElem?_history_commit he', hbatch⟩

theorem Stored.congr (h : Stored job splits committed store) (hrecords : recordOf store' = recordOf store)
    (hcomplete : ∀ split ∈ splits, splitCompletion job store' split ≠ none →
      rowsOf (history committed split) = splitRows job.source split) : Stored job splits committed store' := by
  have hrecord (split : SourceSplit) : splitRecord job store' split = splitRecord job store split := by
    rw [splitRecord, hrecords, splitRecord]
  refine ⟨fun split hsplit => ?_, fun split hsplit => ?_, hcomplete⟩
  · rw [loadedSequence, hrecord]
    exact h.sequence_le split hsplit
  · have hopens := h.opens split hsplit
    rw [loadedPosition, loadedSequence] at hopens ⊢
    rw [hrecord]
    exact hopens

theorem Good.mono {a : Attempt (limits job)} (h : Good job splits committed store a)
    (hle : loadedSequence job store a.split ≤ loadedSequence job store' a.split) :
    Good job splits committed store' a :=
  { h with sequence_le := h.sequence_le.trans hle }

theorem openAt_committed (henum : enumerate job.source = .ok splits)
    (hscalar : ∀ r ∈ job.source.rows, ∃ text, resumeCell job.source r = .scalar text)
    (hlog : Log job splits committed)
    (he : (history committed split)[q]? = some e)
    (hreads : Reads ((splitRows job.source split).drop (offset committed split q)) e.batch) {position : SplitPosition}
    (hposition : positionAfter job.source e.batch = some position) :
    openAt job.source split position = some ((splitRows job.source split).drop (offset committed split (q + 1))) := by
  obtain ⟨hfilled, identity, n, hbatch⟩ := hreads
  set rows := splitRows job.source split with hrows
  set k := offset committed split q with hk
  have hbatchRows : e.batch.rows = (rows.drop k).take n := by rw [hbatch]; rfl
  obtain hnil | ⟨before, r, hlast⟩ := List.eq_nil_or_concat ((rows.drop k).take n)
  · exact absurd (hbatchRows.trans hnil) hfilled
  rw [List.concat_eq_append] at hlast
  have hlength : (rows.take k).length = k := by
    have heq := hlog.rowsOf_take_eq split q
    rw [← hrows] at heq
    exact (congrArg List.length heq).symm
  have hcut : rows = (rows.take k ++ before) ++ r :: (rows.drop k).drop n := by
    conv_lhs => rw [← List.take_append_drop k rows, ← List.take_append_drop n (rows.drop k), hlast]
    simp
  have hmem : r ∈ splitRows job.source split := by rw [← hrows, hcut]; simp
  obtain ⟨text, htext⟩ := hscalar r (mem_splitRows hmem)
  rw [hbatch, positionAfter_readBatch job.source hlast htext] at hposition
  cases hposition
  rw [openAt_after henum (hrows ▸ hcut) htext]
  have hnext : offset committed split (q + 1) = (rows.take k ++ before).length + 1 := by
    rw [offset, rowsOf_take_succ he, List.length_append, hbatchRows, hlast, List.length_append, List.length_append,
      hlength, List.length_singleton, hk, offset]
    omega
  have hdrop : rows.drop ((rows.take k ++ before).length + 1) = (rows.drop k).drop n := by
    grind [List.drop, List.append_cons, List.drop_left', List.length_append, List.length_singleton]
  rw [hnext, hdrop]

section

variable (henum : enumerate job.source = .ok splits) {split : SourceSplit} (hsplit : split ∈ splits)
  {r : CheckpointRecord} (hrecords : recordOf store' = put (recordOf store) (jobId job) split.splitId (some r))

include hrecords

omit [LinearOrder K] in
theorem splitRecord_self : splitRecord job store' split = some r := by
  rw [splitRecord, hrecords, put_self]

include henum hsplit

theorem splitRecord_other {other : SourceSplit} (hother : other ∈ splits) (hne : other ≠ split) :
    splitRecord job store' other = splitRecord job store other := by
  rw [splitRecord, hrecords, put_of_ne _ _ fun h => hne (split_of_splitId henum hother hsplit h.2), splitRecord]

theorem Stored.record (h : Stored job splits committed store) (hlog : Log job splits committed)
    (hscalar : ∀ r ∈ job.source.rows, ∃ text, resumeCell job.source r = .scalar text)
    (hcompletions : completionOf store' = completionOf store) {q : ℕ}
    (he : (history committed split)[q]? = some e)
    (hreads : Reads ((splitRows job.source split).drop (offset committed split q)) e.batch)
    (hsequence : r.checkpointSequence = q + 1) (hposition : positionAfter job.source e.batch = some r.sourcePosition) :
    Stored job splits committed store' := by
  have hself := splitRecord_self hrecords
  have hloaded : loadedSequence job store' split = q + 1 := by
    simp only [loadedSequence, hself, lastSequence, hsequence]
    omega
  constructor
  · intro other hother
    by_cases hne : other = split
    · grind
    · rw [loadedSequence, splitRecord_other henum hsplit hrecords hother hne]
      exact h.sequence_le other hother
  · intro other hother
    by_cases hne : other = split
    · subst hne
      rw [hloaded, loadedPosition, hself]
      exact openAt_committed henum hscalar hlog he hreads hposition
    · have hopens := h.opens other hother
      rw [loadedPosition, loadedSequence] at hopens ⊢
      rw [splitRecord_other henum hsplit hrecords hother hne]
      exact hopens
  · intro other hother hdone
    rw [splitCompletion, hcompletions] at hdone
    exact h.complete other hother hdone

end

end

theorem sum_bind {ι α β : Type} (l : List ι) (f : ι → Multiset α) (g : α → Multiset β) :
    (l.map f).sum.bind g = (l.map fun i => (f i).bind g).sum := by
  induction l with
  | nil => rfl
  | cons i l ih => rw [List.map_cons, List.sum_cons, Multiset.add_bind, ih, List.map_cons, List.sum_cons]

theorem contents_eq (entries : List Entry) : contents entries = (rowsOf entries).map (·.cells) := by
  rw [contents, rowsOf, List.map_flatMap]

theorem coe_rowsOf (entries : List Entry) : (rowsOf entries : Multiset SourceRow) =
    (entries : Multiset Entry).bind fun e => (e.batch.rows : Multiset SourceRow) :=
  (Multiset.coe_bind entries fun e => e.batch.rows).symm

theorem rowsOf_all {K : Type} [LinearOrder K] {job : Job K} {splits : List SourceSplit} {committed : List Entry}
    (henum : enumerate job.source = .ok splits) (hsplit : ∀ r ∈ job.source.rows, r.splitValue ≠ none)
    (hlog : Log job splits committed)
    (hall : ∀ split ∈ splits, rowsOf (history committed split) = splitRows job.source split) :
    (rowsOf committed : Multiset SourceRow) = job.source.rows := by
  have hone : ∀ e ∈ (committed : Multiset Entry), splits.countP (fun split => decide (e.split = split)) = 1 := by
    intro e he
    have hcount := List.count_eq_one_of_mem (splitIds_nodup henum).of_map (hlog.known e he)
    rw [List.count] at hcount
    rw [← hcount]
    refine List.countP_congr fun split _ => ?_
    rw [decide_eq_true_iff, beq_iff_eq]
    exact eq_comm
  have hparts := Partitions.sum_filter_eq hone
  rw [coe_rowsOf, ← hparts, sum_bind, ← sum_splitRows henum hsplit]
  refine congrArg List.sum (List.map_congr_left fun split hmem => ?_)
  rw [← hall split hmem, coe_rowsOf, history, Multiset.filter_coe]
  simp

end AstraSync.BatchLog
