import AstraSync.CheckpointStore
import Mathlib.Data.List.Sigma

/-!
The manifests of the checkpoint store as its instances see them: each keeps what it has read or written,
and reads a manifest again only when the file's size or modification time has changed.
-/

namespace AstraSync.CachedManifests

open CheckpointStore

structure FileStamp where
  size : ℕ
  modifiedTime : ℤ
  deriving DecidableEq

abbrev Stamped (jobId : String) := FileStamp × CheckpointState jobId

abbrev Entry := Σ jobId, Stamped jobId

structure World where
  files : (jobId : String) → Option (Stamped jobId)
  cache : ℕ → List Entry
  written : List Entry

def World.store (w : World) : Store := fun jobId => (w.files jobId).map (·.2)

-- The entries stand in the order of their last access, the eldest first.
def accessed (entries : List Entry) (entry : Entry) : List Entry := entries.kerase entry.1 ++ [entry]

def removeEldestEntry (entries : List Entry) : List Entry := if entries.length > 64 then entries.tail else entries

def setCache (w : World) (who : ℕ) (entries : List Entry) : World :=
  { w with cache := Function.update w.cache who entries }

def putCache (w : World) (who : ℕ) (entry : Entry) : World :=
  setCache w who (removeEldestEntry (accessed (w.cache who) entry))

def readCached (w : World) (who : ℕ) (jobId : String) : World × Option (CheckpointState jobId) :=
  match w.files jobId with
  | none => (w, none)
  | some file =>
    match (w.cache who).dlookup jobId with
    | some cached =>
      let w := setCache w who (accessed (w.cache who) ⟨jobId, cached⟩)
      if cached.1 = file.1 then (w, some cached.2) else (putCache w who ⟨jobId, file⟩, some file.2)
    | none => (putCache w who ⟨jobId, file⟩, some file.2)

def putFile (w : World) (jobId : String) (entry : Stamped jobId) : World :=
  { w with files := Function.update w.files jobId (some entry), written := ⟨jobId, entry⟩ :: w.written }

variable (size : (jobId : String) → CheckpointState jobId → ℕ)

def perform (w : World) (who : ℕ) (call : Call) (disk : Disk) (modifiedTime : ℤ) : World × Except StoreError Reply :=
  if !requireJobId call.jobId then (w, .error .invalidJobId)
  else
    let (w, stored) := readCached w who call.jobId
    match decision call stored with
    | .error e => (w, .error e)
    | .ok (none, reply) => (w, .ok reply)
    | .ok (some next, reply) =>
      let entry := (⟨size call.jobId next, modifiedTime⟩, next)
      match disk with
      | .written => (putCache (putFile w call.jobId entry) who ⟨call.jobId, entry⟩, .ok reply)
      | .lost => (putFile w call.jobId entry, .error (.write call.jobId))
      | .refused => (w, .error (.write call.jobId))

inductive Event
  | load (who : ℕ) (jobId : String)
  | perform (who : ℕ) (call : Call) (disk : Disk) (modifiedTime : ℤ)

def step (w : World) : Event → World
  | .load who jobId => (readCached w who jobId).1
  | .perform who call disk modifiedTime => (perform size w who call disk modifiedTime).1

def start : World := ⟨fun _ => none, fun _ => [], []⟩

def Distinguished (w : World) : Prop :=
  ∀ jobId stamp a b, ⟨jobId, stamp, a⟩ ∈ w.written → ⟨jobId, stamp, b⟩ ∈ w.written → a = b

structure Known (w : World) : Prop where
  files : ∀ jobId entry, w.files jobId = some entry → ⟨jobId, entry⟩ ∈ w.written
  cache : ∀ who, w.cache who ⊆ w.written

variable {size} {w : World} {who : ℕ} {jobId : String} {entry : Entry} {entries : List Entry}

theorem accessed_subset (hentries : entries ⊆ w.written) (hentry : entry ∈ w.written) :
    accessed entries entry ⊆ w.written := by
  refine List.append_subset.mpr ⟨?_, List.cons_subset.mpr ⟨hentry, List.nil_subset _⟩⟩
  exact List.Subset.trans (List.kerase_sublist _ _).subset hentries

theorem removeEldestEntry_subset (entries : List Entry) : removeEldestEntry entries ⊆ entries := by
  unfold removeEldestEntry
  split_ifs
  · exact List.tail_subset entries
  · exact List.Subset.refl entries

theorem Known.setCache (h : Known w) (hentries : entries ⊆ w.written) : Known (setCache w who entries) := by
  refine ⟨h.files, fun other => ?_⟩
  by_cases hwho : other = who
  · subst hwho
    simpa only [CachedManifests.setCache, Function.update_self] using hentries
  · simpa only [CachedManifests.setCache, Function.update_of_ne hwho] using h.cache other

theorem Known.putCache (h : Known w) (hentry : entry ∈ w.written) : Known (putCache w who entry) :=
  h.setCache (List.Subset.trans (removeEldestEntry_subset _) (accessed_subset (h.cache who) hentry))

theorem Known.putFile (h : Known w) (entry : Stamped jobId) : Known (putFile w jobId entry) := by
  refine ⟨fun id e he => ?_, fun other => List.subset_cons_of_subset _ (h.cache other)⟩
  by_cases hid : id = jobId
  · subst hid
    simp only [CachedManifests.putFile, Function.update_self] at he
    cases he
    exact List.mem_cons_self
  · simp only [CachedManifests.putFile, Function.update_of_ne hid] at he
    exact List.mem_cons_of_mem _ (h.files id e he)

-- Everything `readCached` does: it changes what is cached and nothing else, and answers with the file's state or,
-- where the stamps agree, with the cached one.
theorem readCached_spec (h : Known w) (who : ℕ) (jobId : String) :
    Known (readCached w who jobId).1 ∧ (readCached w who jobId).1.files = w.files ∧
      (readCached w who jobId).1.written = w.written ∧
      ((readCached w who jobId).2 = w.store jobId ∨ ∃ file cached, w.files jobId = some file ∧
        cached.1 = file.1 ∧ ⟨jobId, cached⟩ ∈ w.written ∧ (readCached w who jobId).2 = some cached.2) := by
  cases hfile : w.files jobId with
  | none => simp [readCached, World.store, hfile, h]
  | some file =>
    have hput {w' : World} (h' : Known w') (hw : w'.written = w.written) : Known (putCache w' who ⟨jobId, file⟩) :=
      h'.putCache (hw ▸ h.files jobId file hfile)
    cases hcached : (w.cache who).dlookup jobId with
    | none => simpa [readCached, World.store, hfile, hcached, hput h rfl] using ⟨rfl, rfl⟩
    | some cached =>
      have hmem := h.cache who (List.of_mem_dlookup hcached)
      have htouch : Known (setCache w who (accessed (w.cache who) ⟨jobId, cached⟩)) :=
        h.setCache (accessed_subset (h.cache who) hmem)
      by_cases heq : cached.1 = file.1
      · simp only [readCached, hfile, hcached, if_pos heq]
        exact ⟨htouch, rfl, rfl, .inr ⟨file, cached, rfl, heq, hmem, rfl⟩⟩
      · simp only [readCached, hfile, hcached, if_neg heq]
        exact ⟨hput htouch rfl, rfl, rfl, .inl (by simp [World.store, hfile])⟩

theorem readCached_eq (h : Known w) (hdistinct : Distinguished w) : (readCached w who jobId).2 = w.store jobId := by
  obtain ⟨-, -, -, hread | ⟨file, cached, hfile, hstamp, hcached, hread⟩⟩ := readCached_spec h who jobId
  · exact hread
  · have hsame := hdistinct jobId file.1 cached.2 file.2 (hstamp ▸ hcached) (h.files jobId file hfile)
    rw [hread, hsame, World.store, hfile]
    rfl

theorem store_readCached (h : Known w) : (readCached w who jobId).1.store = w.store := by
  unfold World.store
  rw [(readCached_spec h who jobId).2.1]

theorem store_putFile (w : World) (entry : Stamped jobId) :
    (putFile w jobId entry).store = Function.update w.store jobId (some entry.2) := by
  funext id
  by_cases hid : id = jobId
  · subst hid
    simp [World.store, putFile]
  · simp [World.store, putFile, Function.update_of_ne hid]

variable (size) in
theorem perform_known (h : Known w) (who : ℕ) (call : Call) (disk : Disk) (modifiedTime : ℤ) :
    Known (perform size w who call disk modifiedTime).1 ∧
      w.written ⊆ (perform size w who call disk modifiedTime).1.written := by
  obtain ⟨hread, -, hwritten, -⟩ := readCached_spec h who call.jobId
  unfold perform
  split
  · exact ⟨h, List.Subset.refl _⟩
  · dsimp only
    rw [← hwritten]
    split
    · exact ⟨hread, List.Subset.refl _⟩
    · exact ⟨hread, List.Subset.refl _⟩
    · cases disk with
      | written => exact ⟨(hread.putFile _).putCache List.mem_cons_self, List.subset_cons_self _ _⟩
      | lost => exact ⟨hread.putFile _, List.subset_cons_self _ _⟩
      | refused => exact ⟨hread, List.Subset.refl _⟩

variable (size) in
theorem perform_eq (h : Known w) (hdistinct : Distinguished w) (who : ℕ) (call : Call) (disk : Disk) (modifiedTime : ℤ) :
    (perform size w who call disk modifiedTime).2 = (CheckpointStore.perform w.store call disk).2 ∧
      (perform size w who call disk modifiedTime).1.store = (CheckpointStore.perform w.store call disk).1 := by
  have hstore : (readCached w who call.jobId).1.store = w.store := store_readCached h
  unfold perform CheckpointStore.perform
  split
  · exact ⟨rfl, rfl⟩
  · dsimp only
    rw [readCached_eq h hdistinct]
    rcases decision call (w.store call.jobId) with e | ⟨_ | next, reply⟩
    · exact ⟨rfl, hstore⟩
    · exact ⟨rfl, hstore⟩
    · have hput := store_putFile (readCached w who call.jobId).1 (⟨size call.jobId next, modifiedTime⟩, next)
      rw [hstore] at hput
      cases disk with
      | written => exact ⟨rfl, hput⟩
      | lost => exact ⟨rfl, hput⟩
      | refused => exact ⟨rfl, hstore⟩

variable (size) in
theorem step_known (h : Known w) (e : Event) : Known (step size w e) ∧ w.written ⊆ (step size w e).written := by
  cases e with
  | load who jobId =>
    obtain ⟨hread, -, hwritten, -⟩ := readCached_spec h who jobId
    exact ⟨hread, hwritten.symm ▸ List.Subset.refl _⟩
  | perform who call disk modifiedTime => exact perform_known size h who call disk modifiedTime

theorem run_known (h : Known w) (events : List Event) : Known (events.foldl (step size) w) ∧
    w.written ⊆ (events.foldl (step size) w).written := by
  induction events generalizing w with
  | nil => exact ⟨h, List.Subset.refl _⟩
  | cons e events ih =>
    obtain ⟨hstep, hwritten⟩ := step_known size h e
    exact ⟨(ih hstep).1, List.Subset.trans hwritten (ih hstep).2⟩

theorem start_known : Known start := ⟨by rintro _ _ ⟨⟩, fun _ => List.nil_subset _⟩

theorem Distinguished.of_subset {w' : World} (h : Distinguished w') (hw : w.written ⊆ w'.written) : Distinguished w :=
  fun jobId stamp a b ha hb => h jobId stamp a b (hw ha) (hw hb)

theorem distinguished_of_nodup (h : (w.written.map fun e => (e.1, e.2.1)).Nodup) : Distinguished w := by
  intro jobId stamp a b ha hb
  have heq := List.inj_on_of_nodup_map h ha hb rfl
  cases heq
  rfl

/-- While stamps tell the manifests apart, every read returns what the file contains, and every call answers and
writes as the store without a cache does. -/
theorem run_coherent (events : List Event) (hdistinct : Distinguished (events.foldl (step size) start)) (who : ℕ) :
    (∀ jobId, (readCached (events.foldl (step size) start) who jobId).2 = (events.foldl (step size) start).store jobId) ∧
      ∀ call disk modifiedTime,
        (perform size (events.foldl (step size) start) who call disk modifiedTime).2 =
            (CheckpointStore.perform (events.foldl (step size) start).store call disk).2 ∧
          (perform size (events.foldl (step size) start) who call disk modifiedTime).1.store =
            (CheckpointStore.perform (events.foldl (step size) start).store call disk).1 := by
  have hknown : Known (events.foldl (step size) start) := (run_known start_known events).1
  exact ⟨fun jobId => readCached_eq hknown hdistinct, perform_eq size hknown hdistinct who⟩

def digits (jobId : String) (state : CheckpointState jobId) : ℕ := 150 + (toString state.nextExecutionEpoch).length

def acquire (who : ℕ) (modifiedTime : ℤ) : Event := .perform who (.acquireEpoch "orders" ⟨"plan", []⟩) .written modifiedTime

/-- The second instance has cached a manifest that the first has since replaced by one of the same size. -/
theorem run_coherent_overtaken :
    Distinguished ([acquire 0 1, acquire 1 2, acquire 0 3, .load 1 "orders", acquire 0 4].foldl (step digits) start) ∧
      (perform digits ([acquire 0 1, acquire 1 2, acquire 0 3, .load 1 "orders", acquire 0 4].foldl (step digits) start) 1
        (.acquireEpoch "orders" ⟨"plan", []⟩) .written 5).2 = .ok (.epoch 5) := by
  have hdistinct : Distinguished
      ([acquire 0 1, acquire 1 2, acquire 0 3, .load 1 "orders", acquire 0 4].foldl (step digits) start) :=
    distinguished_of_nodup (by decide +kernel)
  exact ⟨hdistinct, (((run_coherent _ hdistinct 1).2 _ _ _).1).trans (by decide +kernel)⟩

/-- Two writes of one instance within the resolution of file times give files of one size: the other instance goes on
with the manifest it has cached, and gives the epoch out that the first has just given out. -/
theorem same_stamp_stale :
    ((readCached ([acquire 0 1, .load 1 "orders", acquire 0 1].foldl (step digits) start) 1 "orders").2.map
        (·.nextExecutionEpoch),
      (([acquire 0 1, .load 1 "orders", acquire 0 1].foldl (step digits) start).store "orders").map
        (·.nextExecutionEpoch)) = (some 2, some 3) := by
  decide +kernel

end AstraSync.CachedManifests
