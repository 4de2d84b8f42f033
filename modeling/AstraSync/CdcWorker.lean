import AstraSync.CdcSink
import AstraSync.CheckpointStore
import AstraSync.CommitTokens
import AstraSync.Library.Transitions
import Mathlib.Data.Set.Function
import Mathlib.Data.Int.Order.Basic

/-!
The change-data worker: it polls a batch, commits it to the sink under the next sequence, acknowledges it
and has the coordinator record the position. A crash may come between any two of these, and the next
attempt starts at the recorded position.
-/

namespace AstraSync.CdcWorker

open ByteStrings CommitTokens CheckpointStore CdcSink

def operationName : Operation → Bytes
  | .insert => lit "INSERT"
  | .update => lit "UPDATE"
  | .delete => lit "DELETE"
  | .snapshot => lit "SNAPSHOT"
  | .truncate => lit "TRUNCATE"
  | .schemaChange => lit "SCHEMA_CHANGE"

variable {C V : Type}

def eventText (e : DataEvent C V) : Bytes :=
  e.eventId ++ bar :: operationName e.operation ++ bar :: e.positionId ++ lit ";"

def digestText (events : List (DataEvent C V)) : Bytes :=
  lit "astrasync-cdc-v1|" ++ events.flatMap eventText

structure Pipeline (C V : Type) where
  (jobId taskId planFingerprint splitFingerprint : String)
  target : Target C V
  stream : List (DataEvent C V)
  position : ℕ → SplitPosition
  resume : SplitPosition → ℕ
  resume_position : ∀ k ≤ stream.length, resume (position k) = k
  resume_unbounded : resume [] = 0

inductive Stage
  | idle
  | polled (size : ℕ)
  | committed (size : ℕ)
  deriving DecidableEq

structure Session where
  executionEpoch : ℤ
  (sequence offset : ℕ)
  stage : Stage
  deriving DecidableEq

/-- The checkpoint store, the target database and the running attempt, with the table seen at every
position recorded so far. -/
structure World (C V : Type) where
  store : Store
  markers : Markers
  table : Table C V
  session : Option Session
  recorded : List (ℕ × Table C V)

def initial (table : Table C V) : World C V := ⟨fun _ => none, fun _ => none, table, none, []⟩

inductive Event
  | restart (disk : Disk)
  | poll (size : ℕ)
  | write (commits : Bool)
  | record (disk : Disk)
  | crash

section

variable (p : Pipeline C V) (sha256 : Bytes → Bytes)

def plan : SplitPlan := ⟨p.planFingerprint, [(p.taskId, p.splitFingerprint)]⟩

def batch (offset size : ℕ) : List (DataEvent C V) := (p.stream.drop offset).take size

def batchDigest (offset size : ℕ) : Bytes := hexDigest sha256 (digestText (batch p offset size))

def commitToken (sequence offset size : ℕ) : Bytes :=
  forBatch sha256 p.jobId p.taskId sequence (batchDigest p sha256 offset size)

def loadedSequence (store : Store) : ℕ := (lastSequence (recordOf store p.jobId p.taskId)).toNat

def loadedOffset (store : Store) : ℕ :=
  p.resume (match recordOf store p.jobId p.taskId with
    | none => []
    | some r => r.sourcePosition)

def progress (s : Session) (size : ℕ) : Option CheckpointRecord :=
  if h : 0 < s.executionEpoch then
    some {
      jobId := p.jobId
      executionEpoch := s.executionEpoch
      splitId := p.taskId
      splitFingerprint := p.splitFingerprint
      checkpointSequence := s.sequence + 1
      sourcePosition := p.position (s.offset + size)
      sinkCommitToken := commitToken p sha256 (s.sequence + 1) s.offset size
      batchDigest := batchDigest p sha256 s.offset size
      epoch_pos := h
      sequence_pos := by omega }
  else none

def stopped (w : World C V) : World C V := { w with session := none }

def restarted (w : World C V) (disk : Disk) : World C V :=
  let (store, reply) := perform w.store (.acquireEpoch p.jobId (plan p)) disk
  match reply with
  | .ok (.epoch e) => { w with
      store := store
      session := some ⟨e, loadedSequence p store, loadedOffset p store, .idle⟩ }
  | _ => { w with store := store, session := none }

def recordedWith (w : World C V) (s : Session) (size : ℕ) (r : CheckpointRecord) (disk : Disk) : World C V :=
  let (store, reply) := perform w.store (.record r) disk
  { w with
    store := store
    recorded := if recordOf store p.jobId p.taskId = some r then w.recorded ++ [(s.offset + size, w.table)]
      else w.recorded
    session := match reply with
      | .ok _ => some ⟨s.executionEpoch, s.sequence + 1, s.offset + size, .idle⟩
      | .error _ => none }

variable [DecidableEq C] [DecidableEq V]

def written (w : World C V) (s : Session) (size : ℕ) : World C V :=
  if longLimit ≤ (s.sequence : ℤ) + 1 then stopped w
  else
    match writeBatch (applyEvents p.target (batch p s.offset size))
      (commitToken p sha256 (s.sequence + 1) s.offset size) (batchDigest p sha256 s.offset size)
      w.markers w.table with
    | .error _ => stopped w
    | .ok (markers, table) => { w with
        markers := markers, table := table, session := some { s with stage := .committed size } }

def step (w : World C V) : Event → Option (World C V)
  | .restart disk =>
    match w.session with
    | none => some (restarted p w disk)
    | some _ => none
  | .poll size =>
    match w.session with
    | some ⟨epoch, sequence, offset, .idle⟩ =>
      if 0 < size ∧ offset + size ≤ p.stream.length then
        some { w with session := some ⟨epoch, sequence, offset, .polled size⟩ }
      else none
    | _ => none
  | .write commits =>
    match w.session with
    | some ⟨epoch, sequence, offset, .polled size⟩ =>
      some (if commits then written p sha256 w ⟨epoch, sequence, offset, .polled size⟩ size else stopped w)
    | _ => none
  | .record disk =>
    match w.session with
    | some ⟨epoch, sequence, offset, .committed size⟩ =>
      let s : Session := ⟨epoch, sequence, offset, .committed size⟩
      match progress p sha256 s size with
      | none => some (stopped w)
      | some r => some (recordedWith p w s size r disk)
    | _ => none
  | .crash =>
    match w.session with
    | none => none
    | some _ => some (stopped w)

def covers (w : World C V) : Event → Bool
  | .poll size =>
    match w.session with
    | some ⟨_, sequence, offset, .idle⟩ =>
      (List.range (p.stream.length + 1)).all fun n =>
        n ≤ size || offset + n > p.stream.length || (w.markers (commitToken p sha256 (sequence + 1) offset n)).isNone
    | _ => true
  | _ => true

end

section

variable (p : Pipeline C V)

theorem batch_add (a m n : ℕ) : batch p a (m + n) = batch p a m ++ batch p (a + m) n := by
  rw [batch, List.take_add, List.drop_drop]
  rfl

theorem take_add_batch (a n : ℕ) : p.stream.take (a + n) = p.stream.take a ++ batch p a n := List.take_add

theorem length_batch {a n : ℕ} (h : a + n ≤ p.stream.length) : (batch p a n).length = n := by
  rw [batch, List.length_take, List.length_drop]
  omega

theorem batch_isPrefix (a : ℕ) {m n : ℕ} (h : m ≤ n) : batch p a m <+: batch p a n := by
  obtain ⟨k, rfl⟩ := Nat.exists_eq_add_of_le h
  rw [batch_add]
  exact List.prefix_append _ _

theorem eventText_ne_nil (e : DataEvent C V) : eventText e ≠ [] := by
  simp [eventText]

theorem digestText_inj {a m n : ℕ} (hm : a + m ≤ p.stream.length) (hn : a + n ≤ p.stream.length)
    (h : digestText (batch p a m) = digestText (batch p a n)) : m = n := by
  have hle : ∀ {m n : ℕ}, m ≤ n → a + n ≤ p.stream.length →
      digestText (batch p a m) = digestText (batch p a n) → m = n := by
    intro m n hmn hn h
    obtain ⟨k, rfl⟩ := Nat.exists_eq_add_of_le hmn
    rw [batch_add, digestText, digestText, List.flatMap_append, ← List.append_assoc] at h
    have hnil := List.self_eq_append_right.mp h
    have hempty : batch p (a + m) k = [] := by
      cases hb : batch p (a + m) k with
      | nil => rfl
      | cons => simp [hb, eventText_ne_nil] at hnil
    have hlength := length_batch p (show a + m + k ≤ p.stream.length by omega)
    rw [hempty, List.length_nil] at hlength
    omega
  rcases Nat.le_total m n with hmn | hnm
  · exact hle hmn hn h
  · exact (hle hnm hm h.symm).symm

end

section

variable (p : Pipeline C V) (sha256 : Bytes → Bytes)

def texts : Set Bytes :=
  {x | ∃ a n, a + n ≤ p.stream.length ∧ x = digestText (batch p a n)} ∪
    {x | ∃ q a n, q ≤ p.stream.length ∧ a + n ≤ p.stream.length ∧
      x = canonical p.jobId p.taskId q (batchDigest p sha256 a n)}

variable {p sha256} (hsha : Set.InjOn sha256 (texts p sha256))

include hsha

theorem commitToken_inj {q q' a a' n n' : ℕ} (hq : q ≤ p.stream.length) (hq' : q' ≤ p.stream.length)
    (hn : a + n ≤ p.stream.length) (hn' : a' + n' ≤ p.stream.length)
    (h : commitToken p sha256 q a n = commitToken p sha256 q' a' n') :
    q = q' ∧ digestText (batch p a n) = digestText (batch p a' n') := by
  have hcanonical := hsha (.inr ⟨q, a, n, hq, hn, rfl⟩) (.inr ⟨q', a', n', hq', hn', rfl⟩) (hexEncode_injective h)
  obtain ⟨-, hqq, hdigest⟩ := canonical_inj (bar_not_mem_hexEncode _) (bar_not_mem_hexEncode _) hcanonical
  exact ⟨hqq, hsha (.inl ⟨a, n, hn, rfl⟩) (.inl ⟨a', n', hn', rfl⟩) (hexEncode_injective hdigest)⟩

theorem commitToken_size_inj {q a n n' : ℕ} (hq : q ≤ p.stream.length) (hn : a + n ≤ p.stream.length)
    (hn' : a + n' ≤ p.stream.length) (h : commitToken p sha256 q a n = commitToken p sha256 q a n') : n = n' :=
  digestText_inj p hn hn' (commitToken_inj hsha hq hq hn hn' h).2

end

def Agrees (p : Pipeline C V) (s a c : ℕ) (session : Session) : Prop :=
  session.sequence = s ∧ session.offset = a ∧
    match session.stage with
    | .idle => True
    | .polled n => 0 < n ∧ a + n ≤ p.stream.length ∧ c ≤ n
    | .committed n => 0 < n ∧ n = c

/-- The markers with `s` batches recorded, up to event `a`: under the next sequence batches of up to `c`
events are marked, under later ones none. -/
structure Marked (p : Pipeline C V) (sha256 : Bytes → Bytes) (markers : Markers) (s a c : ℕ) : Prop where
  longest : ∀ n, a + n ≤ p.stream.length → markers (commitToken p sha256 (s + 1) a n) ≠ none → n ≤ c
  marked : 0 < c → markers (commitToken p sha256 (s + 1) a c) ≠ none
  fresh : ∀ q b n, s + 1 < q → q ≤ p.stream.length → b + n ≤ p.stream.length →
    markers (commitToken p sha256 q b n) = none

namespace Marked

variable {p : Pipeline C V} {sha256 : Bytes → Bytes} {markers : Markers} {s a c : ℕ}

theorem commit (h : Marked p sha256 markers s a c) (hsha : Set.InjOn sha256 (texts p sha256))
    (hs : s + 1 ≤ p.stream.length) {n : ℕ} (hbound : a + n ≤ p.stream.length) (hcovers : c ≤ n) (digest : Bytes) :
    Marked p sha256 (Function.update markers (commitToken p sha256 (s + 1) a n) (some digest)) s a n := by
  constructor
  · grind [Marked, commitToken_size_inj, Function.update_of_ne]
  · simp
  · intro q b m hq hq' hm
    have htoken : commitToken p sha256 q b m ≠ commitToken p sha256 (s + 1) a n := by
      intro htoken
      have := (commitToken_inj hsha hq' hs hm hbound htoken).1
      omega
    rw [Function.update_of_ne htoken]
    exact h.fresh q b m hq hq' hm

theorem next (h : Marked p sha256 markers s a c) {b : ℕ} (hb : s + 1 ≤ b) : Marked p sha256 markers (s + 1) b 0 := by
  constructor
  · intro n hn hmarker
    by_contra hpos
    exact hmarker (h.fresh (s + 1 + 1) b n (by omega) (by omega) hn)
  · intro h
    cases h
  · intro q d n hq
    exact h.fresh q d n (by omega)

end Marked

variable [DecidableEq C] [DecidableEq V]

/-- With `s` batches recorded, up to event `a`, the sink has committed batches of the next sequence, the
longest of them `c` events long, and the table holds the effect of the first `a + c` events. -/
structure Inv (p : Pipeline C V) (sha256 : Bytes → Bytes) (table : Table C V) (w : World C V) (s a c : ℕ) :
    Prop where
  sequence : loadedSequence p w.store = s
  offset : loadedOffset p w.store = a
  sequence_le : s ≤ a
  bounded : a + c ≤ p.stream.length
  applied : applyEvents p.target (p.stream.take (a + c)) table = .ok w.table
  markers : Marked p sha256 w.markers s a c
  session : ∀ session, w.session = some session → Agrees p s a c session
  recorded : ∀ o ∈ w.recorded, applyEvents p.target (p.stream.take o.1) table = .ok o.2

section

variable {p : Pipeline C V} {sha256 : Bytes → Bytes} {table : Table C V} {w : World C V} {s a c : ℕ}

theorem inv_initial (p : Pipeline C V) (sha256 : Bytes → Bytes) (table : Table C V) :
    Inv p sha256 table (initial table) 0 0 0 where
  sequence := rfl
  offset := p.resume_unbounded
  sequence_le := Nat.le_refl 0
  bounded := Nat.zero_le _
  applied := rfl
  markers := ⟨fun _ _ h => absurd rfl h, fun h => absurd h (Nat.lt_irrefl 0), fun _ _ _ _ _ _ => rfl⟩
  session _ h := by cases h
  recorded _ h := by cases h

variable {store store' : Store}

omit [DecidableEq C] [DecidableEq V] in
theorem loadedSequence_congr (p : Pipeline C V)
    (h : recordOf store' p.jobId p.taskId = recordOf store p.jobId p.taskId) :
    loadedSequence p store' = loadedSequence p store := by
  rw [loadedSequence, h, loadedSequence]

omit [DecidableEq C] [DecidableEq V] in
theorem loadedOffset_congr (p : Pipeline C V) (h : recordOf store' p.jobId p.taskId = recordOf store p.jobId p.taskId) :
    loadedOffset p store' = loadedOffset p store := by
  rw [loadedOffset, h, loadedOffset]

omit [DecidableEq C] [DecidableEq V] in
theorem progress_some {session : Session} {n : ℕ} {r : CheckpointRecord}
    (h : progress p sha256 session n = some r) : r.jobId = p.jobId ∧ r.splitId = p.taskId ∧
      r.checkpointSequence = session.sequence + 1 ∧ r.sourcePosition = p.position (session.offset + n) := by
  unfold progress at h
  split_ifs at h
  cases h
  exact ⟨rfl, rfl, rfl, rfl⟩

namespace Inv

variable (h : Inv p sha256 table w s a c)

include h

theorem stopped : Inv p sha256 table (stopped w) s a c :=
  { h with session := fun _ hs => by cases hs }

theorem restarted (disk : Disk) : Inv p sha256 table (restarted p w disk) s a c := by
  obtain ⟨hrecords, -⟩ := perform_acquires w.store disk
    (show (Call.acquireEpoch p.jobId (plan p)).acquires = true from rfl)
  have hsequence := (loadedSequence_congr p (congrFun (congrFun hrecords p.jobId) p.taskId)).trans h.sequence
  have hoffset := (loadedOffset_congr p (congrFun (congrFun hrecords p.jobId) p.taskId)).trans h.offset
  unfold CdcWorker.restarted
  generalize perform w.store (.acquireEpoch p.jobId (plan p)) disk = out at hsequence hoffset ⊢
  obtain ⟨store, reply⟩ := out
  have hstopped : Inv p sha256 table { w with store := store, session := none } s a c :=
    { h with
      sequence := hsequence
      offset := hoffset
      session := fun _ hs => by cases hs }
  rcases reply with e | (e | r | c')
  · exact hstopped
  · exact { hstopped with session := fun _ hs => by cases hs; exact ⟨hsequence, hoffset, trivial⟩ }
  · exact hstopped
  · exact hstopped

variable {epoch : ℤ} {n : ℕ}

theorem polled (hpos : 0 < n) (hbound : a + n ≤ p.stream.length) (hcovers : c ≤ n) :
    Inv p sha256 table { w with session := some ⟨epoch, s, a, .polled n⟩ } s a c :=
  { h with session := fun _ hs => by cases hs; exact ⟨rfl, rfl, hpos, hbound, hcovers⟩ }

theorem applied_batch (hkeyed : ∀ e ∈ p.stream, Keyed p.target e)
    (hcovers : c ≤ n) {table' : Table C V} (happly : applyEvents p.target (batch p a n) w.table = .ok table') :
    applyEvents p.target (p.stream.take (a + n)) table = .ok table' := by
  have hkeyed' : ∀ e ∈ batch p a n, Keyed p.target e :=
    fun e he => hkeyed e (List.mem_of_mem_drop (List.mem_of_mem_take he))
  have happlied := h.applied
  rw [take_add_batch] at happlied
  cases hbase : applyEvents p.target (p.stream.take a) table with
  | error =>
    rw [applyEvents, List.foldlM_append] at happlied
    rw [applyEvents] at hbase
    rw [hbase] at happlied
    cases happlied
  | ok =>
    rw [applyEvents_append _ _ hbase] at happlied
    rw [take_add_batch, applyEvents_append _ _ hbase]
    exact applyEvents_absorbs hkeyed' (batch_isPrefix p a hcovers) happlied happly

theorem written (hkeyed : ∀ e ∈ p.stream, Keyed p.target e) (hsha : Set.InjOn sha256 (texts p sha256)) (hpos : 0 < n)
    (hbound : a + n ≤ p.stream.length) (hcovers : c ≤ n) :
    ∃ c', Inv p sha256 table (written p sha256 w ⟨epoch, s, a, .polled n⟩ n) s a c' := by
  have hs : s + 1 ≤ p.stream.length := by have := h.sequence_le; omega
  unfold CdcWorker.written
  split_ifs with hlimit
  · exact ⟨c, h.stopped⟩
  dsimp only
  split
  · exact ⟨c, h.stopped⟩
  · rename_i markers' table' hwrite
    rcases writeBatch_ok hwrite with ⟨hmarked, rfl, rfl⟩ | ⟨-, rfl, happly⟩
    · -- the batch was committed before, so it is the longest one
      have hlongest : n ≤ c := h.markers.longest n hbound (by rw [hmarked]; exact Option.some_ne_none _)
      exact ⟨c, { h with session := fun _ hs => by cases hs; exact ⟨rfl, rfl, hpos, by omega⟩ }⟩
    · exact ⟨n, { h with
        bounded := hbound
        applied := h.applied_batch hkeyed hcovers happly
        markers := h.markers.commit hsha hs hbound hcovers _
        session := fun _ hs => by cases hs; exact ⟨rfl, rfl, hpos, rfl⟩ }⟩

theorem recordedWith (hpos : 0 < c) {r : CheckpointRecord}
    (hr : progress p sha256 ⟨epoch, s, a, .committed c⟩ c = some r) (disk : Disk) :
    ∃ s' a' c', Inv p sha256 table (recordedWith p w ⟨epoch, s, a, .committed c⟩ c r disk) s' a' c' := by
  obtain ⟨hjob, hsplit, hsequence, hposition⟩ := progress_some hr
  obtain ⟨-, hcases⟩ := perform_record w.store r disk
  have hstored := @recordOf_perform_record w.store r disk
  unfold CdcWorker.recordedWith
  generalize perform w.store (.record r) disk = out at hcases hstored ⊢
  obtain ⟨store, reply⟩ := out
  rw [hjob, hsplit] at hcases
  simp only [hjob, hsplit] at hstored
  by_cases hrecord : recordOf store p.jobId p.taskId = some r
  · refine ⟨s + 1, a + c, 0, ?_⟩
    refine {
      sequence := ?_
      offset := ?_
      sequence_le := by have := h.sequence_le; omega
      bounded := h.bounded
      applied := h.applied
      markers := h.markers.next (by have := h.sequence_le; omega)
      session := ?_
      recorded := ?_ }
    · simp only [loadedSequence, hrecord, lastSequence, hsequence]
      omega
    · simp only [loadedOffset, hrecord, hposition]
      exact p.resume_position (a + c) h.bounded
    · intro session hs
      cases reply with
      | error => cases hs
      | ok => cases hs; exact ⟨rfl, rfl, trivial⟩
    · intro o ho
      simp only [if_pos hrecord] at ho
      rcases List.mem_append.mp ho with ho | ho
      · exact h.recorded o ho
      · cases List.mem_singleton.mp ho
        exact h.applied
  · have hsame := hcases.resolve_right fun hput => hrecord (by rw [hput, put_self])
    have hsame' := congrFun (congrFun hsame p.jobId) p.taskId
    cases reply with
    | ok => exact absurd (hstored rfl) hrecord
    | error =>
      refine ⟨s, a, c, { h with
        sequence := (loadedSequence_congr p hsame').trans h.sequence
        offset := (loadedOffset_congr p hsame').trans h.offset
        session := fun _ hs => by cases hs
        recorded := ?_ }⟩
      intro o ho
      simp only [if_neg hrecord] at ho
      exact h.recorded o ho

end Inv

theorem covers_longest (h : Inv p sha256 table w s a c) {epoch : ℤ} {n : ℕ}
    (hsession : w.session = some ⟨epoch, s, a, .idle⟩) (hok : covers p sha256 w (.poll n) = true) : c ≤ n := by
  simp only [covers, hsession, List.all_eq_true, List.mem_range] at hok
  have hbound := h.bounded
  have hc := hok c (by omega)
  rcases Nat.eq_zero_or_pos c with rfl | hpos
  · exact Nat.zero_le n
  · have hmarked := h.markers.marked hpos
    simp only [Bool.or_eq_true, decide_eq_true_eq, Option.isNone_iff_eq_none] at hc
    rcases hc with (hc | hc) | hc
    · exact hc
    · omega
    · exact absurd hc hmarked

theorem step_inv (hkeyed : ∀ e ∈ p.stream, Keyed p.target e) (hsha : Set.InjOn sha256 (texts p sha256))
    {w' : World C V} {e : Event} (h : ∃ s a c, Inv p sha256 table w s a c) (hok : covers p sha256 w e = true)
    (hstep : step p sha256 w e = some w') : ∃ s a c, Inv p sha256 table w' s a c := by
  obtain ⟨s, a, c, h⟩ := h
  cases e with
  | restart disk =>
    cases hs : w.session with
    | some => simp [step, hs] at hstep
    | none =>
      simp only [step, hs] at hstep
      cases hstep
      exact ⟨s, a, c, h.restarted disk⟩
  | poll =>
    cases hs : w.session with
    | none => simp [step, hs] at hstep
    | some session =>
      obtain ⟨hsequence, hoffset, hstage⟩ := h.session session hs
      obtain ⟨epoch, _, _, _ | n' | n'⟩ := session
      · subst hsequence hoffset
        simp only [step, hs] at hstep
        split_ifs at hstep with hbound
        cases hstep
        exact ⟨_, _, c, h.polled hbound.1 hbound.2 (covers_longest h hs hok)⟩
      · simp [step, hs] at hstep
      · simp [step, hs] at hstep
  | write commits =>
    cases hs : w.session with
    | none => simp [step, hs] at hstep
    | some session =>
      obtain ⟨hsequence, hoffset, hstage⟩ := h.session session hs
      obtain ⟨epoch, _, _, _ | n | n⟩ := session
      · simp [step, hs] at hstep
      · subst hsequence hoffset
        simp only [step, hs] at hstep
        cases hstep
        cases commits with
        | false => exact ⟨_, _, c, h.stopped⟩
        | true =>
          obtain ⟨hpos, hbound, hcovers⟩ := hstage
          obtain ⟨c', h'⟩ := h.written hkeyed hsha hpos hbound hcovers
          exact ⟨_, _, c', h'⟩
      · simp [step, hs] at hstep
  | record disk =>
    cases hs : w.session with
    | none => simp [step, hs] at hstep
    | some session =>
      obtain ⟨hsequence, hoffset, hstage⟩ := h.session session hs
      obtain ⟨epoch, _, _, _ | n | n⟩ := session
      · simp [step, hs] at hstep
      · simp [step, hs] at hstep
      · subst hsequence hoffset
        obtain ⟨hpos, rfl⟩ := hstage
        simp only [step, hs] at hstep
        split at hstep
        · cases hstep
          exact ⟨_, _, _, h.stopped⟩
        · rename_i r hr
          cases hstep
          exact h.recordedWith hpos hr disk
  | crash =>
    cases hs : w.session with
    | none => simp [step, hs] at hstep
    | some =>
      simp only [step, hs] at hstep
      cases hstep
      exact ⟨s, a, c, h.stopped⟩

end

/-- Where every batch polled covers those committed under its sequence, the table at a recorded position is
the result of applying the events up to it once each. -/
theorem run_appliesOnce {p : Pipeline C V} {sha256 : Bytes → Bytes} (hkeyed : ∀ e ∈ p.stream, Keyed p.target e)
    (hsha : Set.InjOn sha256 (texts p sha256)) {table : Table C V} {events : List Event} {w : World C V}
    (hok : Transitions.meets (step p sha256) (covers p sha256) (initial table) events = true)
    (hrun : Transitions.run (step p sha256) (initial table) events = some w) :
    ∀ o ∈ w.recorded, applyEvents p.target (p.stream.take o.1) table = .ok o.2 := by
  have hinit : ∃ s a c, Inv p sha256 table (initial table) s a c := ⟨0, 0, 0, inv_initial p sha256 table⟩
  obtain ⟨s, a, c, h⟩ := Transitions.run_invariant (fun _ _ _ h hok hs => step_inv hkeyed hsha h hok hs) hinit hok hrun
  exact h.recorded

inductive OrderColumn
  | id
  | total
  deriving DecidableEq

def orderImage (total : ℕ) : Image OrderColumn ℕ := ⟨[(.id, some 1), (.total, some total)], by simp⟩

def orderKey : OrderColumn → Option ℕ
  | .id => some 1
  | .total => none

def orderPlaced : DataEvent OrderColumn ℕ := ⟨lit "e1", lit "1", .insert, orderKey, none, some (orderImage 10)⟩

def orderChanged : DataEvent OrderColumn ℕ :=
  ⟨lit "e2", lit "2", .update, orderKey, some (orderImage 10), some (orderImage 20)⟩

def orders : Pipeline OrderColumn ℕ where
  jobId := "orders"
  taskId := "orders-cdc"
  planFingerprint := "plan-1"
  splitFingerprint := "split-1"
  target := ⟨⟨[.id], false, by decide, by decide⟩, fun _ => true, fun _ => none⟩
  stream := [orderPlaced, orderChanged]
  position k := (List.range k).map fun i => ("event", toString i)
  resume := List.length
  resume_position k _ := by simp
  resume_unbounded := rfl

theorem orders_keyed : ∀ e ∈ orders.stream, Keyed orders.target e := by
  have himage : ∀ total, ∀ c ∈ orders.target.keyColumns, ∀ v, orderKey c = some v → (orderImage total).get c = some v := by
    intro total c hc v hv
    cases List.mem_singleton.mp hc
    cases hv
    rfl
  intro e he image himg
  simp only [orders, List.mem_cons, List.not_mem_nil, or_false] at he
  rcases he with rfl | rfl <;> cases himg <;> exact himage _

def orderRows (table : Table OrderColumn ℕ) : Multiset (Option ℕ × Option ℕ) := table.map fun r => (r .id, r .total)

def attempt (size : ℕ) : List Event := [.restart .written, .poll size, .write true]

def shorterReplay : List Event := attempt 2 ++ .crash :: attempt 1 ++ .crash :: attempt 2 ++ [.record .written]

/-- The marker of the longer batch suppresses it although the shorter one has undone its second event. -/
theorem shorter_replay_hides_event : (∀ e ∈ orders.stream, Keyed orders.target e) ∧ Set.InjOn id (texts orders id) ∧
    ∃ w, Transitions.run (step orders id) (initial 0) shorterReplay = some w ∧
      ∃ o ∈ w.recorded, applyEvents orders.target (orders.stream.take o.1) 0 ≠ .ok o.2 := by
  refine ⟨orders_keyed, Function.injective_id.injOn, ?_⟩
  have hrun : (Transitions.run (step orders id) (initial 0) shorterReplay).map
      (fun w => w.recorded.map fun o => (o.1, orderRows o.2)) = some [(2, {(some 1, some 10)})] := by
    decide +kernel
  have hspec : (applyEvents orders.target (orders.stream.take 2) 0).map orderRows = .ok {(some 1, some 20)} := by
    decide +kernel
  obtain ⟨w, hw, hrecorded⟩ := Option.map_eq_some_iff.mp hrun
  obtain ⟨o, ho, hrows⟩ := List.map_eq_singleton_iff.mp hrecorded
  obtain ⟨hposition, htable⟩ := Prod.mk.inj hrows
  refine ⟨w, hw, o, by simp [ho], fun hsame => ?_⟩
  rw [hposition] at hsame
  rw [hsame, Except.map, htable] at hspec
  exact absurd hspec (by decide)

def longerReplay : List Event := attempt 1 ++ .crash :: attempt 2 ++ [.record .written]

theorem longerReplay_appliesOnce : ∃ w, Transitions.run (step orders id) (initial 0) longerReplay = some w ∧
    (∃ table, w.recorded = [(2, table)]) ∧
    ∀ o ∈ w.recorded, applyEvents orders.target (orders.stream.take o.1) 0 = .ok o.2 := by
  have hok : Transitions.meets (step orders id) (covers orders id) (initial 0) longerReplay = true := by
    decide +kernel
  have hrun : (Transitions.run (step orders id) (initial 0) longerReplay).map
      (fun w => w.recorded.map Prod.fst) = some [2] := by
    decide +kernel
  obtain ⟨w, hw, hrecorded⟩ := Option.map_eq_some_iff.mp hrun
  obtain ⟨o, ho, hposition⟩ := List.map_eq_singleton_iff.mp hrecorded
  exact ⟨w, hw, ⟨o.2, by rw [ho, ← hposition]⟩, run_appliesOnce orders_keyed Function.injective_id.injOn hok hw⟩

end AstraSync.CdcWorker
