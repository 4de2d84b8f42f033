import AstraSync.Library.ByteStrings
import AstraSync.Library.Transitions
import AstraSync.Library.Triples

namespace AstraSync.JdbcBatchSink

open ByteStrings Transitions Triples

section

structure Row (C V : Type) where
  values : List (C × V)
  nodup : (values.map Prod.fst).Nodup

def Row.columns {C V : Type} (r : Row C V) : List C := r.values.map Prod.fst

structure CheckpointContext where
  jobId : Bytes
  executionEpoch : ℕ
  splitId : Bytes

structure SinkCommitContext where
  (jobId splitId batchDigest commitToken : Bytes)

def SinkCommitContext.marker (c : SinkCommitContext) : Bytes × Bytes := (c.commitToken, c.batchDigest)

structure Database (C V : Type) where
  rows : List (Row C V)
  markers : List (Bytes × Bytes)
  pendingRows : List (Row C V)
  pendingMarkers : List (Bytes × Bytes)

def Database.commit {C V : Type} (d : Database C V) : Database C V :=
  ⟨d.rows ++ d.pendingRows, d.markers ++ d.pendingMarkers, [], []⟩

def Database.rollback {C V : Type} (d : Database C V) : Database C V := { d with pendingRows := [], pendingMarkers := [] }

structure Sink (C V : Type) where
  isOpen : Bool
  db : Database C V
  columns : List C
  statement : Bool
  batch : List (Row C V)
  checkpointContext : Option CheckpointContext
  commitSequence : ℕ
  lastCommitToken : Option Bytes
  (commitTokenTableReady stale : Bool)

inductive Failure (C : Type)
  | emptyRow
  | columnsMismatch (expected received : List C)
  | unsupportedValue (column : C)
  | contextMismatch
  | epochArgument
  | sql
  | notOpen
  | notCheckpointed
  | digestMismatch
  | epochMismatch (expected received : ℕ)
  | staleEpoch
  | clearFailed

def Failure.caught {C : Type} : Failure C → Bool
  | .emptyRow | .columnsMismatch _ _ | .unsupportedValue _ | .contextMismatch | .epochArgument | .sql => true
  | _ => false

inductive Check
  | passes
  | illegalState
  | illegalArgument

/-- How the operations that a call makes end. `execute` is the number of rows that were executed when a batch failed. -/
structure Conduct (C : Type) where
  validate : Check
  (createTable lookup prepare setTimeout clear : Bool)
  setObject : ℕ → C → Bool
  addBatch : ℕ → Bool
  execute : Option ℕ
  marker : Bool
  epoch : Check
  clearAfter : Bool

structure Write (C V : Type) where
  rows : List (Row C V)
  commitContext : Option SinkCommitContext

inductive Done
  | recognised
  | written

variable {C V : Type} [DecidableEq C]

abbrev Act (C V : Type) := EStateM (Failure C) (Sink C V)

def succeeds (ok : Bool) : Act C V Unit := if ok then pure () else throw .sql

def changeDb (f : Database C V → Database C V) : Act C V Unit := modify fun s => { s with db := f s.db }

def assertCurrent (check : Check) : Act C V Unit := do
  let s ← get
  match s.stale, check with
  | false, .passes => pure ()
  | _, .illegalArgument => do
    modify fun s => { s with stale := true }
    throw .epochArgument
  | _, _ => do
    modify fun s => { s with stale := true }
    throw .staleEpoch

def assertEpoch (executionEpoch : ℕ) (check : Check) : Act C V Unit := do
  let s ← get
  match s.checkpointContext with
  | none => throw .notCheckpointed
  | some context =>
    if context.executionEpoch ≠ executionEpoch then throw (.epochMismatch context.executionEpoch executionEpoch)
    else assertCurrent check

def validateCommitContext (check : Check) (commitContext : SinkCommitContext) : Act C V Unit := do
  let s ← get
  match s.checkpointContext with
  | none => throw .notCheckpointed
  | some context =>
    if context.jobId ≠ commitContext.jobId ∨ context.splitId ≠ commitContext.splitId then throw .contextMismatch
    else assertCurrent check

def ensureCommitTokenTable (env : Conduct C) : Act C V Unit := do
  let s ← get
  if s.commitTokenTableReady then pure ()
  else do
    succeeds env.createTable
    changeDb Database.commit
    modify fun s => { s with commitTokenTableReady := true }

def findCommitDigest (env : Conduct C) (commitToken : Bytes) : Act C V (Option Bytes) := do
  succeeds env.lookup
  let s ← get
  pure ((s.db.markers ++ s.db.pendingMarkers).lookup commitToken)

def establishStatement (env : Conduct C) (row : Row C V) : Act C V Unit :=
  if row.values = [] then throw .emptyRow
  else do
    modify fun s => { s with columns := row.columns }
    succeeds env.prepare
    modify fun s => { s with statement := true, batch := [] }
    succeeds env.setTimeout

def validateColumns (row : Row C V) : Act C V Unit := do
  let s ← get
  if (∀ c ∈ row.columns, c ∈ s.columns) ∧ (∀ c ∈ s.columns, c ∈ row.columns) then pure ()
  else throw (.columnsMismatch s.columns row.columns)

variable (supported : V → Bool)

def bindColumn (env : Conduct C) (index : ℕ) (row : Row C V) (column : C) : Act C V Unit :=
  if (row.values.lookup column).all supported then succeeds (env.setObject index column)
  else throw (.unsupportedValue column)

def bindRow (env : Conduct C) (index : ℕ) (row : Row C V) : Act C V Unit := do
  let s ← get
  s.columns.forM (bindColumn supported env index row)

def addRow (env : Conduct C) (row : Row C V × ℕ) : Act C V Unit := do
  validateColumns row.1
  bindRow supported env row.2 row.1
  succeeds (env.addBatch row.2)
  modify fun s => { s with batch := s.batch ++ [row.1] }

def clearBatch (env : Conduct C) : Act C V Unit := do
  succeeds env.clear
  modify fun s => { s with batch := [] }

def insertRows (rows : List (Row C V)) : Act C V Unit :=
  changeDb fun d => { d with pendingRows := d.pendingRows ++ rows }

def executeBatch (env : Conduct C) : Act C V Unit := do
  let s ← get
  modify fun s => { s with batch := [] }
  match env.execute with
  | none => insertRows s.batch
  | some n => do
    insertRows (s.batch.take n)
    throw .sql

def insertCommitMarker (env : Conduct C) (commitContext : SinkCommitContext) : Act C V Unit := do
  let s ← get
  succeeds (env.marker && ((s.db.markers ++ s.db.pendingMarkers).lookup commitContext.commitToken).isNone)
  changeDb fun d => { d with pendingMarkers := d.pendingMarkers ++ [commitContext.marker] }

def sequenceToken (context : CheckpointContext) (sequence : ℕ) : Bytes :=
  decimal context.executionEpoch ++ lit ":" ++ context.splitId ++ lit ":" ++ decimal sequence

def noteCommit (commitContext : Option SinkCommitContext) : Act C V Unit :=
  modify fun s =>
    match commitContext, s.checkpointContext with
    | some c, _ => { s with lastCommitToken := some c.commitToken }
    | none, some context =>
      { s with
        commitSequence := s.commitSequence + 1
        lastCommitToken := some (sequenceToken context (s.commitSequence + 1)) }
    | none, none => s

def recognise (env : Conduct C) (commitContext : SinkCommitContext) : Act C V Bool := do
  validateCommitContext env.validate commitContext
  ensureCommitTokenTable env
  let recorded ← findCommitDigest env commitContext.commitToken
  match recorded with
  | none => pure false
  | some digest =>
    if digest ≠ commitContext.batchDigest then throw .digestMismatch
    else do
      changeDb Database.commit
      modify fun s => { s with lastCommitToken := some commitContext.commitToken }
      pure true

def ensureStatement (env : Conduct C) (first : Row C V) : Act C V Unit := do
  let s ← get
  if s.statement then pure () else establishStatement env first

def writeRows (env : Conduct C) (first : Row C V) (w : Write C V) : Act C V Unit := do
  ensureStatement env first
  clearBatch env
  w.rows.zipIdx.forM (addRow supported env)
  executeBatch env

def markBatch (env : Conduct C) : Option SinkCommitContext → Act C V Unit
  | none => pure ()
  | some c => insertCommitMarker env c

def checkEpoch (env : Conduct C) : Act C V Unit := do
  let s ← get
  match s.checkpointContext with
  | none => pure ()
  | some context => assertEpoch context.executionEpoch env.epoch

def commitRows (env : Conduct C) (commitContext : Option SinkCommitContext) : Act C V Unit := do
  markBatch env commitContext
  checkEpoch env
  changeDb Database.commit
  noteCommit commitContext

def body (env : Conduct C) (first : Row C V) (w : Write C V) : Act C V Done := do
  let recognised ← w.commitContext.elim (pure false) (recognise env)
  if recognised then pure .recognised
  else do
    writeRows supported env first w
    commitRows env w.commitContext
    pure .written

inductive Outcome (C : Type)
  | empty
  | recognised
  | written
  | threw (e : Failure C)

def rollback (s : Sink C V) : Sink C V := { s with db := s.db.rollback }

/-- The `finally` clause: the error of the clearing is suppressed where one is caught, and thrown where none is. -/
def clearFinally (env : Conduct C) (s : Sink C V) (caught : Bool) (outcome : Outcome C) : Sink C V × Outcome C :=
  if s.statement && !env.clearAfter then (s, if caught then outcome else .threw .clearFailed)
  else (if s.statement then { s with batch := [] } else s, outcome)

def settle (env : Conduct C) : EStateM.Result (Failure C) (Sink C V) Done → Sink C V × Outcome C
  | .ok .recognised s => clearFinally env s false .recognised
  | .ok .written s => clearFinally env s false .written
  | .error e s => clearFinally env (if e.caught then rollback s else s) e.caught (.threw e)

def writeBatch (env : Conduct C) (w : Write C V) (s : Sink C V) : Sink C V × Outcome C :=
  if !s.isOpen then (s, .threw .notOpen)
  else
    match w.rows with
    | [] => (s, .empty)
    | first :: _ => settle env (body supported env first w s)

def close (s : Sink C V) : Sink C V :=
  if !s.isOpen then s
  else
    { s with
      isOpen := false
      db := s.db.rollback
      columns := []
      statement := false
      batch := []
      checkpointContext := none
      commitSequence := 0
      lastCommitToken := none
      commitTokenTableReady := false }

structure Session (C V : Type) where
  sink : Sink C V
  log : List (Write C V × Outcome C)

def step (session : Session C V) (call : Write C V × Conduct C) : Option (Session C V) :=
  let (sink, outcome) := writeBatch supported call.2 call.1 session.sink
  some ⟨sink, session.log ++ [(call.1, outcome)]⟩

end

section

variable {C V : Type} {supported : V → Bool} {env : Conduct C} {s₀ s : Sink C V} {added : List (Row C V)}
  {noted : List (Bytes × Bytes)}

def Idle (s : Sink C V) : Prop := s.db.pendingRows = [] ∧ s.db.pendingMarkers = []

def Safe (s : Sink C V) : Prop := Idle s ∨ (s.stale = true ∧ s.checkpointContext.isSome = true)

structure During (s₀ : Sink C V) (added : List (Row C V)) (noted : List (Bytes × Bytes)) (s : Sink C V) : Prop where
  rows : s.db.rows = s₀.db.rows
  markers : s.db.markers = s₀.db.markers
  pendingRows : s.db.pendingRows = s₀.db.pendingRows ++ added
  pendingMarkers : s.db.pendingMarkers = s₀.db.pendingMarkers ++ noted
  context : s.checkpointContext = s₀.checkpointContext
  isOpen : s.isOpen = s₀.isOpen
  stale : s.stale = false → s₀.stale = false

structure After (s₀ : Sink C V) (added : List (Row C V)) (noted : List (Bytes × Bytes)) (s : Sink C V) : Prop where
  rows : s.db.rows = s₀.db.rows ++ added
  markers : s.db.markers = s₀.db.markers ++ noted
  isOpen : s.isOpen = s₀.isOpen
  safe : Safe s

structure Failed (s₀ : Sink C V) (e : Failure C) (s : Sink C V) : Prop where
  rows : s.db.rows = s₀.db.rows
  markers : s.db.markers = s₀.db.markers
  isOpen : s.isOpen = s₀.isOpen
  safe : e.caught = false → Safe s

theorem During.refl (s : Sink C V) : During s [] [] s :=
  ⟨rfl, rfl, (List.append_nil _).symm, (List.append_nil _).symm, rfl, rfl, id⟩

theorem During.failed (h : During s₀ added noted s) {e : Failure C} (he : e.caught = true) : Failed s₀ e s :=
  ⟨h.rows, h.markers, h.isOpen, fun hnot => absurd (he.symm.trans hnot) nofun⟩

theorem idle_of_not_stale (hsafe : Safe s₀) (h : During s₀ added noted s) (hs : s.stale = false) : Idle s₀ := by
  refine hsafe.resolve_right fun hstale => ?_
  rw [h.stale hs] at hstale
  exact absurd hstale.1 nofun

theorem During.commit (h : During s₀ added noted s) (hidle : Idle s₀) :
    (s.db.commit).rows = s₀.db.rows ++ added ∧ (s.db.commit).markers = s₀.db.markers ++ noted := by
  rw [Database.commit, h.rows, h.markers, h.pendingRows, h.pendingMarkers, hidle.1, hidle.2]
  exact ⟨rfl, rfl⟩

theorem During.commit_nothing (h : During s₀ [] [] s) (hidle : Idle s₀) : During s₀ [] [] { s with db := s.db.commit } := by
  obtain ⟨hrows, hmarkers⟩ := h.commit hidle
  refine ⟨hrows.trans (List.append_nil _), hmarkers.trans (List.append_nil _), ?_, ?_, h.context, h.isOpen, h.stale⟩
  · rw [hidle.1]
    rfl
  · rw [hidle.2]
    rfl

theorem succeeds_triple {P : Sink C V → Prop} {F : Failure C → Sink C V → Prop} (ok : Bool) (h : ∀ s, P s → F .sql s) :
    Triple P (succeeds ok) (fun _ => P) F :=
  triple_ite (fun _ => triple_pure fun _ hs => hs) fun _ => triple_throw h

theorem assertCurrent_triple (check : Check) (hcontext : s₀.checkpointContext.isSome = true) :
    Triple (During s₀ added noted) (assertCurrent check) (fun _ s => During s₀ added noted s ∧ s.stale = false)
      (Failed s₀) := by
  refine triple_read fun t ht => ?_
  have hfailed (e : Failure C) : Failed s₀ e { t with stale := true } :=
    ⟨ht.rows, ht.markers, ht.isOpen, fun _ => .inr ⟨rfl, by rw [ht.context]; exact hcontext⟩⟩
  have failing (e : Failure C) :
      Triple (· = t) (do modify fun s => { s with stale := true }; throw e : Act C V Unit)
        (fun _ s => During s₀ added noted s ∧ s.stale = false) (Failed s₀) := by
    intro s hs
    rw [hs]
    exact hfailed e
  split
  · grind [triple_pure]
  · exact failing _
  · exact failing _

theorem assertEpoch_triple {context : CheckpointContext} (check : Check) (hcontext : s₀.checkpointContext = some context) :
    Triple (During s₀ added noted) (assertEpoch context.executionEpoch check)
      (fun _ s => During s₀ added noted s ∧ s.stale = false) (Failed s₀) := by
  refine triple_read fun t ht => ?_
  rw [ht.context, hcontext]
  refine triple_ite (fun hne => absurd rfl hne) fun _ => ?_
  refine triple_mono (assertCurrent_triple check (by rw [hcontext]; rfl)) (fun s hs => ?_) (fun _ _ h => h) fun _ _ h => h
  rw [hs]
  exact ht

theorem validateCommitContext_triple (check : Check) (c : SinkCommitContext) (hsafe : Safe s₀) :
    Triple (During s₀ [] []) (validateCommitContext check c) (fun _ s => During s₀ [] [] s ∧ s.stale = false)
      (Failed s₀) := by
  refine triple_read fun t ht => ?_
  cases hcontext : t.checkpointContext with
  | none =>
    refine triple_throw fun s hs => ?_
    rw [hs]
    have hidle : Idle s₀ := hsafe.resolve_right fun h => by
      rw [← ht.context, hcontext] at h
      exact absurd h.2 nofun
    refine ⟨ht.rows, ht.markers, ht.isOpen, fun _ => .inl ?_⟩
    rw [Idle, ht.pendingRows, ht.pendingMarkers, hidle.1, hidle.2]
    exact ⟨rfl, rfl⟩
  | some context =>
    refine triple_ite (fun _ => triple_throw fun s hs => ?_) fun _ => ?_
    · rw [hs]
      exact ht.failed rfl
    · refine triple_mono (assertCurrent_triple check (by rw [← ht.context, hcontext]; rfl)) (fun s hs => ?_)
        (fun _ _ h => h) fun _ _ h => h
      rw [hs]
      exact ht

def Current (s₀ s : Sink C V) : Prop := During s₀ [] [] s ∧ s.stale = false ∧ Idle s₀

theorem Current.idle (h : Current s₀ s) : Idle s := by
  obtain ⟨hduring, -, hidle⟩ := h
  rw [Idle, hduring.pendingRows, hduring.pendingMarkers, hidle.1, hidle.2]
  exact ⟨rfl, rfl⟩

theorem ensureCommitTokenTable_triple : Triple (Current s₀) (ensureCommitTokenTable env) (fun _ => Current s₀) (Failed s₀) := by
  refine triple_read fun t ht => triple_ite (fun _ => triple_pure fun s hs => hs ▸ ht) fun _ => ?_
  refine triple_bind (succeeds_triple _ fun s hs => ?_) fun _ => ?_
  · rw [hs]
    exact ht.1.failed rfl
  · refine triple_bind (R := fun _ => Current s₀) (triple_modify fun s hs => ?_) fun _ => triple_modify fun s hs => ?_
    · rw [hs]
      exact ⟨ht.1.commit_nothing ht.2.2, ht.2⟩
    · exact ⟨⟨hs.1.rows, hs.1.markers, hs.1.pendingRows, hs.1.pendingMarkers, hs.1.context, hs.1.isOpen, hs.1.stale⟩, hs.2⟩

theorem findCommitDigest_triple (token : Bytes) :
    Triple (Current s₀) (findCommitDigest env token) (fun _ => Current s₀) (Failed s₀) := by
  refine triple_bind (succeeds_triple _ fun s hs => hs.1.failed rfl) fun _ => ?_
  exact triple_read fun t ht => triple_pure fun s hs => hs ▸ ht

theorem recognise_triple (c : SinkCommitContext) (hsafe : Safe s₀) : Triple (During s₀ [] []) (recognise env c)
      (fun recognised s => if recognised then After s₀ [] [] s else During s₀ [] [] s) (Failed s₀) := by
  refine triple_bind (R := fun _ => Current s₀) ?_ fun _ => ?_
  · refine triple_mono (validateCommitContext_triple _ c hsafe) (fun _ h => h) (fun _ s h => ?_) fun _ _ h => h
    exact ⟨h.1, h.2, idle_of_not_stale hsafe h.1 h.2⟩
  refine triple_bind ensureCommitTokenTable_triple fun _ => triple_bind (findCommitDigest_triple _) fun recorded => ?_
  cases recorded with
  | none => exact triple_pure fun s hs => hs.1
  | some =>
    refine triple_ite (fun _ => triple_throw fun s hs => ?_) fun _ => ?_
    · exact ⟨hs.1.rows, hs.1.markers, hs.1.isOpen, fun _ => .inl hs.idle⟩
    · refine triple_bind (R := fun _ => After s₀ [] []) (triple_modify fun s hs => ?_) fun _ => ?_
      · obtain ⟨hrows, hmarkers⟩ := hs.1.commit hs.2.2
        exact ⟨hrows, hmarkers, hs.1.isOpen, .inl ⟨rfl, rfl⟩⟩
      · refine triple_bind (R := fun _ => After s₀ [] []) (triple_modify fun s hs => ?_) fun _ => triple_pure fun s hs => hs
        exact ⟨hs.rows, hs.markers, hs.isOpen, hs.safe⟩

def Batched (s₀ : Sink C V) (rows : List (Row C V × ℕ)) (s : Sink C V) : Prop :=
  During s₀ [] [] s ∧ s.batch = rows.map Prod.fst

variable {rows : List (Row C V × ℕ)}

theorem Batched.failed (h : Batched s₀ rows s) {e : Failure C} (he : e.caught = true) : Failed s₀ e s :=
  h.1.failed he

theorem establishStatement_triple (row : Row C V) :
    Triple (During s₀ [] []) (establishStatement env row) (fun _ => During s₀ [] []) (Failed s₀) := by
  have kept {s t : Sink C V} (h : During s₀ [] [] s) (hdb : t.db = s.db) (hcontext : t.checkpointContext = s.checkpointContext)
      (hopen : t.isOpen = s.isOpen) (hstale : t.stale = s.stale) : During s₀ [] [] t :=
    ⟨hdb ▸ h.rows, hdb ▸ h.markers, hdb ▸ h.pendingRows, hdb ▸ h.pendingMarkers, hcontext.trans h.context,
      hopen.trans h.isOpen, fun ht => h.stale (hstale ▸ ht)⟩
  refine triple_ite (fun _ => triple_throw fun s hs => hs.failed rfl) fun _ => ?_
  refine triple_bind (R := fun _ => During s₀ [] []) (triple_modify fun s hs => kept hs rfl rfl rfl rfl) fun _ => ?_
  refine triple_bind (succeeds_triple _ fun s hs => hs.failed rfl) fun _ => ?_
  refine triple_bind (R := fun _ => During s₀ [] []) (triple_modify fun s hs => kept hs rfl rfl rfl rfl) fun _ => ?_
  exact succeeds_triple _ fun s hs => hs.failed rfl

variable [DecidableEq C]

theorem bindRow_triple (index : ℕ) (row : Row C V) :
    Triple (Batched s₀ rows) (bindRow supported env index row) (fun _ => Batched s₀ rows) (Failed s₀) := by
  refine triple_read fun t ht => ?_
  refine triple_mono (triple_forM (I := fun _ => Batched s₀ rows) t.columns (fun _ c _ => ?_) []) (fun s hs => hs ▸ ht)
    (fun _ _ h => h) fun _ _ h => h
  refine triple_ite (fun _ => succeeds_triple _ fun s hs => hs.failed rfl) fun _ => ?_
  exact triple_throw fun s hs => hs.failed rfl

theorem addRow_triple (row : Row C V × ℕ) :
    Triple (Batched s₀ rows) (addRow supported env row) (fun _ => Batched s₀ (rows ++ [row])) (Failed s₀) := by
  refine triple_bind (R := fun _ => Batched s₀ rows) (triple_read fun t ht => ?_) fun _ => ?_
  · refine triple_ite (fun _ => triple_pure fun s hs => hs ▸ ht) fun _ => triple_throw fun s hs => ?_
    rw [hs]
    exact ht.failed rfl
  refine triple_bind (bindRow_triple _ _) fun _ => ?_
  refine triple_bind (succeeds_triple _ fun s hs => hs.failed rfl) fun _ => triple_modify fun s hs => ?_
  refine ⟨⟨hs.1.rows, hs.1.markers, hs.1.pendingRows, hs.1.pendingMarkers, hs.1.context, hs.1.isOpen, hs.1.stale⟩, ?_⟩
  rw [List.map_append, hs.2]
  rfl

omit [DecidableEq C] in
theorem executeBatch_triple :
    Triple (Batched s₀ rows) (executeBatch env) (fun _ => During s₀ (rows.map Prod.fst) []) (Failed s₀) := by
  refine triple_read fun t ht => ?_
  have inserting {more : List (Row C V)} {s : Sink C V} (hs : s = { t with batch := [] }) :
      During s₀ more [] { s with db := { s.db with pendingRows := s.db.pendingRows ++ more } } := by
    obtain ⟨h, -⟩ := ht
    rw [hs]
    refine ⟨h.rows, h.markers, ?_, h.pendingMarkers, h.context, h.isOpen, h.stale⟩
    rw [h.pendingRows, List.append_nil]
  refine triple_bind (R := fun _ s => s = { t with batch := [] }) (triple_modify fun s hs => by rw [hs]) fun _ => ?_
  cases env.execute with
  | none =>
    rw [← ht.2]
    exact triple_modify fun s hs => inserting hs
  | some n =>
    refine triple_bind (R := fun _ => During s₀ (t.batch.take n) []) (triple_modify fun s hs => inserting hs) fun _ => ?_
    exact triple_throw fun s hs => hs.failed rfl

theorem writeRows_triple (first : Row C V) (w : Write C V) :
    Triple (During s₀ [] []) (writeRows supported env first w) (fun _ => During s₀ w.rows []) (Failed s₀) := by
  refine triple_bind (R := fun _ => During s₀ [] []) (triple_read fun t ht => ?_) fun _ => ?_
  · refine triple_ite (fun _ => triple_pure fun s hs => hs ▸ ht) fun _ => ?_
    exact triple_mono (establishStatement_triple first) (fun s hs => hs ▸ ht) (fun _ _ h => h) fun _ _ h => h
  refine triple_bind (R := fun _ => Batched s₀ []) ?_ fun _ => ?_
  · refine triple_bind (succeeds_triple _ fun s hs => hs.failed rfl) fun _ => triple_modify fun s hs => ?_
    exact ⟨⟨hs.rows, hs.markers, hs.pendingRows, hs.pendingMarkers, hs.context, hs.isOpen, hs.stale⟩, rfl⟩
  refine triple_bind (triple_forM (I := Batched s₀) w.rows.zipIdx (fun _ row _ => addRow_triple row) []) fun _ => ?_
  have hrows : (w.rows.zipIdx).map Prod.fst = w.rows := List.zipIdx_map_fst 0 w.rows
  have hexecute : Triple (Batched s₀ w.rows.zipIdx) (executeBatch env)
      (fun _ => During s₀ (w.rows.zipIdx.map Prod.fst) []) (Failed s₀) := executeBatch_triple
  rwa [hrows] at hexecute

omit [DecidableEq C] in
theorem insertCommitMarker_triple (c : SinkCommitContext) :
    Triple (During s₀ added []) (insertCommitMarker env c) (fun _ => During s₀ added [c.marker]) (Failed s₀) := by
  refine triple_read fun t ht => ?_
  refine triple_bind (succeeds_triple _ fun s hs => hs ▸ ht.failed rfl) fun _ => triple_modify fun s hs => ?_
  rw [hs]
  refine ⟨ht.rows, ht.markers, ht.pendingRows, ?_, ht.context, ht.isOpen, ht.stale⟩
  change t.db.pendingMarkers ++ [c.marker] = _
  rw [ht.pendingMarkers, List.append_nil]

def markersOf (commitContext : Option SinkCommitContext) : List (Bytes × Bytes) := commitContext.toList.map (·.marker)

omit [DecidableEq C] in
theorem noteCommit_triple (commitContext : Option SinkCommitContext) :
    Triple (After s₀ added noted) (noteCommit commitContext) (fun _ => After s₀ added noted) (Failed s₀) := by
  refine triple_modify fun s hs => ?_
  have kept {t : Sink C V} (hdb : t.db = s.db) (hcontext : t.checkpointContext = s.checkpointContext)
      (hopen : t.isOpen = s.isOpen) (hstale : t.stale = s.stale) : After s₀ added noted t := by
    refine ⟨hdb ▸ hs.rows, hdb ▸ hs.markers, hopen.trans hs.isOpen, ?_⟩
    rw [Safe, Idle, hdb, hcontext, hstale]
    exact hs.safe
  split
  · exact kept rfl rfl rfl rfl
  · exact kept rfl rfl rfl rfl
  · exact hs

omit [DecidableEq C] in
theorem commitRows_triple (hsafe : Safe s₀) (commitContext : Option SinkCommitContext) :
    Triple (During s₀ added []) (commitRows env commitContext) (fun _ => After s₀ added (markersOf commitContext))
      (Failed s₀) := by
  refine triple_bind (R := fun _ => During s₀ added (markersOf commitContext)) ?_ fun _ => ?_
  · cases commitContext with
    | none => exact triple_pure fun s hs => hs
    | some c => exact insertCommitMarker_triple c
  -- the transaction holds what this call added: an earlier rest would fail the check of the epoch
  refine triple_bind (R := fun _ s => During s₀ added (markersOf commitContext) s ∧ Idle s₀)
    (triple_read fun t ht => ?_) fun _ => ?_
  · cases hcontext : t.checkpointContext with
    | none =>
      have hidle : Idle s₀ := hsafe.resolve_right fun h => by
        rw [← ht.context, hcontext] at h
        exact absurd h.2 nofun
      exact triple_pure fun s hs => ⟨hs ▸ ht, hidle⟩
    | some context =>
      refine triple_mono (assertEpoch_triple env.epoch (ht.context ▸ hcontext)) (fun s hs => hs ▸ ht) (fun _ s h => ?_)
        fun _ _ h => h
      exact ⟨h.1, idle_of_not_stale hsafe h.1 h.2⟩
  refine triple_bind (R := fun _ => After s₀ added (markersOf commitContext)) (triple_modify fun s hs => ?_) fun _ => ?_
  · obtain ⟨hrows, hmarkers⟩ := hs.1.commit hs.2
    exact ⟨hrows, hmarkers, hs.1.isOpen, .inl ⟨rfl, rfl⟩⟩
  · exact noteCommit_triple commitContext

def Ends (s₀ : Sink C V) (w : Write C V) (done : Done) (s : Sink C V) : Prop :=
  match done with
  | .recognised => After s₀ [] [] s
  | .written => After s₀ w.rows (markersOf w.commitContext) s

theorem body_triple (hsafe : Safe s₀) (first : Row C V) (w : Write C V) :
    Triple (During s₀ [] []) (body supported env first w) (Ends s₀ w) (Failed s₀) := by
  refine triple_bind
    (R := fun (recognised : Bool) s => if recognised then After s₀ [] [] s else During s₀ [] [] s) ?_ fun recognised => ?_
  · cases w.commitContext with
    | none => exact triple_pure fun s hs => hs
    | some c => exact recognise_triple c hsafe
  · cases recognised with
    | true => exact triple_pure fun s hs => hs
    | false =>
      refine triple_bind (writeRows_triple first w) fun _ => ?_
      exact triple_bind (commitRows_triple hsafe w.commitContext) fun _ => triple_pure fun s hs => hs

end

section

variable {C V : Type} [DecidableEq C] {supported : V → Bool} {env : Conduct C} {s : Sink C V} {w : Write C V}

def rowsOf (entry : Write C V × Outcome C) : List (Row C V) :=
  match entry.2 with
  | .written => entry.1.rows
  | _ => []

def markersIn (entry : Write C V × Outcome C) : List (Bytes × Bytes) :=
  match entry.2 with
  | .written => markersOf entry.1.commitContext
  | _ => []

def cleared (supported : V → Bool) (session : Session C V) (call : Write C V × Conduct C) : Bool :=
  match call.1.rows with
  | [] => true
  | first :: _ =>
    match body supported call.2 first call.1 session.sink with
    | .ok .written _ => call.2.clearAfter
    | _ => true

omit [DecidableEq C] in
theorem clearFinally_after {added : List (Row C V)} {noted : List (Bytes × Bytes)} {t : Sink C V} (h : After s added noted t)
    (caught : Bool) (outcome : Outcome C) : After s added noted (clearFinally env t caught outcome).1 := by
  unfold clearFinally
  split
  · exact h
  · change After s added noted (if t.statement then { t with batch := [] } else t)
    split
    · exact ⟨h.rows, h.markers, h.isOpen, h.safe⟩
    · exact h

omit [DecidableEq C] in
theorem clearFinally_threw (env : Conduct C) (t : Sink C V) (caught : Bool) (e : Failure C) :
    ∃ e', (clearFinally env t caught (.threw e)).2 = .threw e' := by
  unfold clearFinally
  split
  · cases caught with
    | true | false => exact ⟨_, rfl⟩
  · exact ⟨e, rfl⟩

omit [DecidableEq C] in
theorem Failed.settled {e : Failure C} {t : Sink C V} (h : Failed s e t) :
    After s [] [] (if e.caught then rollback t else t) := by
  cases hcaught : e.caught with
  | true => exact ⟨h.rows.trans (List.append_nil _).symm, h.markers.trans (List.append_nil _).symm, h.isOpen, .inl ⟨rfl, rfl⟩⟩
  | false =>
    exact ⟨h.rows.trans (List.append_nil _).symm, h.markers.trans (List.append_nil _).symm, h.isOpen, h.safe hcaught⟩

omit [DecidableEq C] in
theorem settle_error {e : Failure C} {t : Sink C V} (h : Failed s e t) :
    After s (rowsOf (w, (settle env (.error e t)).2)) (markersIn (w, (settle env (.error e t)).2))
      (settle env (.error e t)).1 := by
  obtain ⟨e', he'⟩ := clearFinally_threw env (if e.caught then rollback t else t) e.caught e
  have hafter : After s [] [] (settle env (.error e t)).1 := clearFinally_after h.settled _ _
  rw [show (settle env (.error e t)).2 = .threw e' from he']
  exact hafter

omit [DecidableEq C] in
theorem settle_ok {done : Done} {t : Sink C V} (h : Ends s w done t) (hclear : done = .written → env.clearAfter = true) :
    After s (rowsOf (w, (settle env (.ok done t)).2)) (markersIn (w, (settle env (.ok done t)).2))
      (settle env (.ok done t)).1 := by
  cases done with
  | recognised =>
    have hafter : After s [] [] (settle env (.ok .recognised t)).1 := clearFinally_after h _ _
    have hnothing : (settle env (.ok .recognised t)).2 = .recognised ∨
        (settle env (.ok .recognised t)).2 = .threw .clearFailed := by
      dsimp only [settle, clearFinally]
      split
      · exact .inr rfl
      · exact .inl rfl
    rcases hnothing with houtcome | houtcome <;> rw [houtcome] <;> exact hafter
  | written =>
    have houtcome : (settle env (.ok .written t)).2 = .written := by
      simp [settle, clearFinally, hclear rfl]
    rw [houtcome]
    exact clearFinally_after h _ _

theorem writeBatch_after (w : Write C V) (env : Conduct C) (hsafe : Safe s) (hopen : s.isOpen = true)
    (hclear : cleared supported ⟨s, []⟩ (w, env) = true) :
    After s (rowsOf (w, (writeBatch supported env w s).2)) (markersIn (w, (writeBatch supported env w s).2))
      (writeBatch supported env w s).1 := by
  cases hrows : w.rows with
  | nil =>
    have heq : writeBatch supported env w s = (s, .empty) := by simp [writeBatch, hopen, hrows]
    rw [heq]
    exact ⟨(List.append_nil _).symm, (List.append_nil _).symm, rfl, hsafe⟩
  | cons first rest =>
    have heq : writeBatch supported env w s = settle env (body supported env first w s) := by simp [writeBatch, hopen, hrows]
    have htriple : Triple (During s [] []) (body supported env first w) (Ends s w) (Failed s) := body_triple hsafe first w
    rw [heq]
    cases hbody : body supported env first w s with
    | ok =>
      refine settle_ok (triple_ok htriple (During.refl s) hbody) fun hdone => ?_
      subst hdone
      simpa [cleared, hrows, hbody] using hclear
    | error => exact settle_error (triple_error htriple (During.refl s) hbody)

omit [DecidableEq C] in
theorem close_db (hopen : s.isOpen = true) : (close s).db = s.db.rollback := by
  simp [close, hopen]

structure Holds (sink : Sink C V) (session : Session C V) : Prop where
  rows : session.sink.db.rows = sink.db.rows ++ session.log.flatMap rowsOf
  markers : session.sink.db.markers = sink.db.markers ++ session.log.flatMap markersIn
  isOpen : session.sink.isOpen = true
  safe : Safe session.sink

theorem step_holds {sink : Sink C V} {session session' : Session C V} {call : Write C V × Conduct C}
    (h : Holds sink session) (hcleared : cleared supported session call = true)
    (hstep : step supported session call = some session') : Holds sink session' := by
  have hafter := writeBatch_after call.1 call.2 h.safe h.isOpen hcleared
  cases hstep
  refine ⟨?_, ?_, hafter.isOpen.trans h.isOpen, hafter.safe⟩
  · rw [List.flatMap_append, List.flatMap_singleton, ← List.append_assoc, ← h.rows]
    exact hafter.rows
  · rw [List.flatMap_append, List.flatMap_singleton, ← List.append_assoc, ← h.markers]
    exact hafter.markers

/-- Behind the calls of a session and the `close`, the target holds the rows and markers of the calls that wrote them and
returned, and of no other; what is cleared behind a commit has to be cleared without an error. -/
theorem close_committed (supported : V → Bool) (sink : Sink C V) (hopen : sink.isOpen = true) (hidle : Idle sink)
    (calls : List (Write C V × Conduct C)) (session : Session C V)
    (hcleared : meets (step supported) (cleared supported) ⟨sink, []⟩ calls = true)
    (hrun : run (step supported) ⟨sink, []⟩ calls = some session) :
    (close session.sink).db = ⟨sink.db.rows ++ session.log.flatMap rowsOf,
      sink.db.markers ++ session.log.flatMap markersIn, [], []⟩ := by
  have hinitial : Holds sink ⟨sink, []⟩ := ⟨(List.append_nil _).symm, (List.append_nil _).symm, hopen, .inl hidle⟩
  have h : Holds sink session := run_invariant (fun _ _ _ h ho hs => step_holds h ho hs) hinitial hcleared hrun
  rw [close_db h.isOpen, Database.rollback, h.rows, h.markers]

end

def sampleRow (n : ℕ) : Row Bool ℕ := ⟨[(false, n)], by simp⟩

def sampleContext : CheckpointContext := ⟨lit "j", 1, lit "s"⟩

def sampleSink : Sink Bool ℕ := ⟨true, ⟨[], [], [], []⟩, [], false, [], some sampleContext, 0, none, false, false⟩

def smooth : Conduct Bool := ⟨.passes, true, true, true, true, true, fun _ _ => true, fun _ => true, none, true, .passes, true⟩

def sampleWrite (n : ℕ) (token : String) : Write Bool ℕ := ⟨[sampleRow n], some ⟨lit "j", lit "s", lit "d", lit token⟩⟩

def sampleCalls : List (Write Bool ℕ × Conduct Bool) :=
  [(sampleWrite 1 "a", smooth), (sampleWrite 2 "b", { smooth with execute := some 1 }), (sampleWrite 1 "a", smooth),
    (sampleWrite 3 "c", { smooth with epoch := .illegalState }), (sampleWrite 4 "e", smooth)]

theorem close_committed_sample : ∃ session, run (step fun _ => true) ⟨sampleSink, []⟩ sampleCalls = some session ∧
      (close session.sink).db.rows = [sampleRow 1] ∧ (close session.sink).db.markers = [(lit "a", lit "d")] := by
  have hcleared : meets (step fun _ => true) (cleared fun _ => true) ⟨sampleSink, []⟩ sampleCalls = true := by decide +kernel
  have hrun : run (step fun _ => true) ⟨sampleSink, []⟩ sampleCalls = some _ := rfl
  have hclose := close_committed (fun _ => true) sampleSink rfl ⟨rfl, rfl⟩ sampleCalls _ hcleared hrun
  exact ⟨_, hrun, congrArg Database.rows hclose, congrArg Database.markers hclose⟩

/-- The statement of a batch that is committed cannot be cleared. -/
theorem uncleared_batch_stays :
    ∃ session, run (step fun _ => true) ⟨sampleSink, []⟩ [(sampleWrite 1 "a", { smooth with clearAfter := false })] =
        some session ∧
      session.log.map Prod.snd = [.threw .clearFailed] ∧ (close session.sink).db.rows = [sampleRow 1] :=
  ⟨_, rfl, rfl, rfl⟩

end AstraSync.JdbcBatchSink
