import AstraSync.Library.Programs
import AstraSync.WalReader
import Mathlib.Data.Set.Finite.Lemmas

namespace AstraSync.CheckpointRecovery

open ByteStrings Programs WalEntry WalReader

structure CheckpointFile where
  (name uri : Bytes)
  size : Int64
  crc32c : UInt32
  deriving DecidableEq

structure CheckpointManifest where
  jobID : Bytes
  (epoch sequence : Int64)
  checkpointURI : Bytes
  files : List CheckpointFile
  deriving DecidableEq

inductive RecoveryState
  | pending
  | checkpointLocated
  | checkpointValidated
  | filesDownloading
  | filesDownloaded
  | restoring
  | complete
  | failed
  deriving DecidableEq

def RecoveryState.rank : RecoveryState → ℕ
  | .pending => 0
  | .checkpointLocated => 1
  | .checkpointValidated => 2
  | .filesDownloading => 3
  | .filesDownloaded => 4
  | .restoring => 5
  | .complete => 6
  | .failed => 7

inductive RecoveryError
  | checkpointNotFound
  | checkpointNotReplicated (detail : String)
  | checkpointCorrupted (detail : String)
  | checkpointEpochMismatch (got target : Int64)
  | checkpointSeqMismatch
  | recoveryAborted (detail : String)
  | log (cause : ReadError)
  | readManifest
  | parseManifest
  | downloadFile (name : Bytes) (cause : RecoveryError)
  | getObject
  | fileSize (name : Bytes) (got : ℕ) (want : Int64)
  | fileChecksum (name : Bytes)
  | validateCheckpoint (cause : RecoveryError)
  | getLatestCheckpoint (cause : RecoveryError)
  | restoreState
  | transition (source target : RecoveryState)
  deriving DecidableEq

structure Recovery where
  jobID : Bytes
  newEpoch : Int64
  checkpoint : Option CheckpointManifest
  state : RecoveryState
  error : Option RecoveryError
  deriving DecidableEq

def newRecovery (jobID : Bytes) (newEpoch : Int64) : Recovery := ⟨jobID, newEpoch, none, .pending, none⟩

def transitionTo (r : Recovery) (state : RecoveryState) (error : Option RecoveryError) :
    Except RecoveryError Recovery :=
  if r.state = .failed ∨ state.rank ≤ r.state.rank then .error (.transition r.state state)
  else .ok { r with state := state, error := error.or r.error }

/-- `parseJSON` reads the manifests that the log points to; `parser` is the manager's own and may be
absent. -/
structure Manager where
  reader : Reader
  (walObjects objects : Bytes → Option Bytes)
  parseJSON : Bytes → Option CheckpointManifest
  parser : Option (Bytes → Except Unit (Option CheckpointManifest))
  restore : CheckpointManifest → Bool

def validate (manifest : CheckpointManifest) : Except RecoveryError Unit :=
  if blank manifest.jobID || manifest.epoch < 0 || manifest.sequence ≤ 0 || blank manifest.checkpointURI then
    .error (.checkpointCorrupted "")
  else if manifest.files.any fun file => blank file.name || blank file.uri || file.size < 0 then
    .error (.checkpointCorrupted "invalid checkpoint file metadata")
  else .ok ()

def manifestOf (m : Manager) (entry : Entry) : Except RecoveryError CheckpointManifest :=
  match m.walObjects entry.checkpointURI with
  | none => .error .readManifest
  | some data =>
    match m.parseJSON data with
    | none => .error .parseManifest
    | some manifest =>
      if manifest.jobID ≠ entry.jobID ∨ manifest.epoch ≠ entry.epoch ∨ manifest.sequence ≠ entry.sequence then
        .error (.checkpointCorrupted "")
      else .ok manifest

def getLatestCheckpoint (m : Manager) (listed : Option (List Bytes)) : Except RecoveryError CheckpointManifest :=
  match readEntries m.reader listed m.walObjects 0 with
  | .error e => .error (.log e)
  | .ok entries =>
    match entries.getLast? with
    | none => .error .checkpointNotFound
    | some latest => manifestOf m latest

def checkManifest (jobID : Bytes) (newEpoch : Int64) (manifest : CheckpointManifest) : Except RecoveryError Unit :=
  if newEpoch < manifest.epoch then .error (.checkpointEpochMismatch manifest.epoch newEpoch)
  else if manifest.jobID ≠ jobID || blank manifest.checkpointURI then
    .error (.checkpointNotReplicated "manifest does not belong to requested job")
  else if manifest.sequence ≤ 0 then .error .checkpointSeqMismatch
  else .ok ()

def wrap {α : Type} (context : RecoveryError → RecoveryError) : Except RecoveryError α → Except RecoveryError α
  | .ok a => .ok a
  | .error e => .error (context e)

inductive Call
  | getLatestCheckpoint
  | getObject (uri : Bytes)
  | parse (data : Bytes)
  | validate (manifest : CheckpointManifest)
  | restore (manifest : CheckpointManifest)
  | write (r : Recovery)
  deriving DecidableEq

@[reducible] def Answer : Call → Type
  | .getLatestCheckpoint => Except RecoveryError (Option CheckpointManifest)
  | .getObject _ => Option Bytes
  | .parse _ => Except Unit (Option CheckpointManifest)
  | .validate _ => Except RecoveryError Unit
  | .restore _ => Bool
  | .write _ => Unit

abbrev Recovering := Program Call Answer

abbrev Outcome := Except (Option Recovery × RecoveryError) Recovery

def failed (r : Recovery) (e : RecoveryError) : Recovering Outcome :=
  match transitionTo r .failed (some e) with
  | .ok r => do
    let _ ← perform (.write r)
    return .error (some r, e)
  | .error _ => return .error (some r, e)

def enter (r : Recovery) (state : RecoveryState) (next : Recovery → Recovering Outcome) : Recovering Outcome :=
  match transitionTo r state none with
  | .ok r => do
    let _ ← perform (.write r)
    next r
  | .error e => return .error (none, e)

def proceed {α : Type} (r : Recovery) (result : Except RecoveryError α) (next : α → Recovering Outcome) :
    Recovering Outcome :=
  match result with
  | .ok a => next a
  | .error e => failed r e

def locatedManifest : Except RecoveryError (Option CheckpointManifest) → Except RecoveryError CheckpointManifest
  | .error e => .error (.getLatestCheckpoint e)
  | .ok none => .error .checkpointNotFound
  | .ok (some manifest) => .ok manifest

def parsedManifest (jobID : Bytes) (located : CheckpointManifest) :
    Except Unit (Option CheckpointManifest) → Except RecoveryError CheckpointManifest
  | .error () => .error (.checkpointCorrupted "parse manifest")
  | .ok none => .error (.checkpointCorrupted "")
  | .ok (some parsed) =>
    if parsed.jobID ≠ jobID ∨ parsed.sequence ≠ located.sequence ∨ parsed.epoch ≠ located.epoch then
      .error (.checkpointCorrupted "")
    else .ok parsed

def confirm (parser : Bool) (jobID : Bytes) (located : CheckpointManifest) :
    Recovering (Except RecoveryError CheckpointManifest) := do
  if !parser then return .ok located
  let fetched ← perform (Call.getObject located.checkpointURI)
  match fetched with
  | none => return .error (.checkpointNotReplicated "fetch manifest")
  | some data =>
    let parsed ← perform (.parse data)
    return parsedManifest jobID located parsed

def downloadedFile (file : CheckpointFile) : Option Bytes → Except RecoveryError Unit
  | none => .error .getObject
  | some data =>
    if 0 ≤ file.size ∧ (data.length : ℤ) ≠ file.size.toInt then .error (.fileSize file.name data.length file.size)
    else if file.crc32c ≠ 0 ∧ checksum data ≠ file.crc32c then .error (.fileChecksum file.name)
    else .ok ()

def downloadFile (file : CheckpointFile) : Recovering (Except RecoveryError Unit) := do
  if blank file.uri then return .error (.checkpointCorrupted "")
  let data ← perform (.getObject file.uri)
  return downloadedFile file data

def downloadFiles : List CheckpointFile → Recovering (Except RecoveryError Unit)
  | [] => return .ok ()
  | file :: rest => do
    match ← downloadFile file with
    | .error e => return .error (.downloadFile file.name e)
    | .ok () => downloadFiles rest

def recover (dependencies parser : Bool) (jobID : Bytes) (newEpoch : Int64) : Recovering Outcome :=
  if blank jobID || newEpoch < 0 then failed (newRecovery jobID newEpoch) (.recoveryAborted "")
  else if !dependencies then
    failed (newRecovery jobID newEpoch) (.recoveryAborted "recovery dependencies are incomplete")
  else
    enter (newRecovery jobID newEpoch) .checkpointLocated fun r => do
    let answer ← perform .getLatestCheckpoint
    proceed r (locatedManifest answer) fun located =>
    proceed { r with checkpoint := some located } (checkManifest jobID newEpoch located) fun () => do
    let confirmed ← confirm parser jobID located
    proceed { r with checkpoint := some located } confirmed fun manifest =>
    enter { r with checkpoint := some manifest } .checkpointValidated fun r => do
    let accepted ← perform (.validate manifest)
    proceed r (wrap .validateCheckpoint accepted) fun () =>
    enter r .filesDownloading fun r => do
    let downloaded ← downloadFiles manifest.files
    proceed r downloaded fun () =>
    enter r .filesDownloaded fun r =>
    enter r .restoring fun r => do
    let restored ← perform (.restore manifest)
    proceed r (if restored then .ok () else .error .restoreState) fun () =>
    enter r .complete fun r => return .ok r

def answer (m : Manager) (latest : Except RecoveryError CheckpointManifest) : (c : Call) → Answer c
  | .getLatestCheckpoint => latest.map some
  | .getObject uri => m.objects uri
  | .parse data => match m.parser with
    | some parse => parse data
    | none => .error ()
  | .validate manifest => validate manifest
  | .restore manifest => m.restore manifest
  | .write _ => ()

def Restores (m : Manager) (listed : Option (List Bytes)) (jobID : Bytes) (newEpoch : Int64)
    (manifest : CheckpointManifest) : Prop :=
  ∃ r, (recover true m.parser.isSome jobID newEpoch).eval (answer m (getLatestCheckpoint m listed)) = .ok r ∧
    r.state = .complete ∧ r.checkpoint = some manifest

theorem transitionTo_later {r : Recovery} {state : RecoveryState} {error : Option RecoveryError}
    (hrank : r.state.rank < state.rank) :
    transitionTo r state error = .ok { r with state := state, error := error.or r.error } := by
  have hstate : r.state ≠ .failed := by
    intro heq
    rw [heq] at hrank
    cases state <;> exact absurd hrank (by decide)
  unfold transitionTo
  rw [if_neg]
  rintro (heq | hle)
  · exact hstate heq
  · omega

section

variable {answer : (c : Call) → Answer c} {r r' : Recovery}

theorem eval_failed (r r' : Recovery) (e : RecoveryError) : (failed r e).eval answer ≠ .ok r' := by
  unfold failed
  cases transitionTo r .failed (some e) <;> simp

theorem eval_proceed {α : Type} {result : Except RecoveryError α} {next : α → Recovering Outcome} :
    (proceed r result next).eval answer = .ok r' ↔ ∃ a, result = .ok a ∧ (next a).eval answer = .ok r' := by
  cases result with
  | ok => simp [proceed]
  | error => simp [proceed, eval_failed]

theorem eval_enter {state : RecoveryState} {next : Recovery → Recovering Outcome} :
    (enter r state next).eval answer = .ok r' ↔
      r.state.rank < state.rank ∧ (next { r with state := state }).eval answer = .ok r' := by
  unfold enter
  by_cases hrank : r.state.rank < state.rank
  · simp [transitionTo_later hrank, hrank]
  · simp [transitionTo, Nat.not_lt.mp hrank, hrank]

end

theorem wrap_ok {α : Type} {context : RecoveryError → RecoveryError} {result : Except RecoveryError α} {a : α} :
    wrap context result = .ok a ↔ result = .ok a := by
  cases result <;> simp [wrap]

variable {m : Manager} {jobID : Bytes} {newEpoch : Int64} {manifest : CheckpointManifest} {e : Entry} {keys : List Bytes}
  {log : List Entry}

theorem locatedManifest_ok {latest : Except RecoveryError CheckpointManifest} :
    locatedManifest (latest.map some) = .ok manifest ↔ latest = .ok manifest := by
  cases latest <;> simp [locatedManifest, Except.map]

theorem restores_iff {listed : Option (List Bytes)} : Restores m listed jobID newEpoch manifest ↔
      blank jobID = false ∧ 0 ≤ newEpoch ∧ ∃ located, getLatestCheckpoint m listed = .ok located ∧
        checkManifest jobID newEpoch located = .ok () ∧
        (confirm m.parser.isSome jobID located).eval (answer m (getLatestCheckpoint m listed)) = .ok manifest ∧
        validate manifest = .ok () ∧
        (downloadFiles manifest.files).eval (answer m (getLatestCheckpoint m listed)) = .ok () ∧
        m.restore manifest = true := by
  unfold Restores recover
  by_cases habort : (blank jobID || decide (newEpoch < 0)) = true
  · simp only [habort, ↓reduceIte, eval_failed, false_and, exists_false, false_iff]
    rintro ⟨hblank, hepoch, -⟩
    simp [hblank, Int64.not_lt.mpr hepoch] at habort
  · have hvalid : blank jobID = false ∧ 0 ≤ newEpoch := by simpa using habort
    rw [if_neg habort]
    cases hrest : m.restore manifest <;>
      simp [hvalid, eval_enter, eval_proceed, RecoveryState.rank, newRecovery, wrap_ok, answer, locatedManifest_ok,
        Unique.exists_iff, hrest]

/-- A log entry that stands for a checkpoint of the job, up to the epoch: its manifest can be found,
names it, passes validation and restores. -/
structure ValidCheckpoint (m : Manager) (jobID : Bytes) (newEpoch : Int64) (entry : Entry)
    (manifest : CheckpointManifest) : Prop where
  job : entry.jobID = jobID
  epoch : entry.epoch ≤ newEpoch
  found : ∃ located, manifestOf m entry = .ok located ∧ blank located.checkpointURI = false ∧
    (confirm m.parser.isSome jobID located).eval (answer m (manifestOf m entry)) = .ok manifest
  valid : validate manifest = .ok ()
  files : (downloadFiles manifest.files).eval (answer m (manifestOf m entry)) = .ok ()
  restores : m.restore manifest = true

def PicksHighest (m : Manager) (listed : Option (List Bytes)) (log : List Entry) (jobID : Bytes)
    (newEpoch : Int64) : Prop :=
  ∀ e ∈ log, ∀ manifest, ValidCheckpoint m jobID newEpoch e manifest →
    (∀ f ∈ log, ∀ other, ValidCheckpoint m jobID newEpoch f other → f.sequence ≤ e.sequence) →
    Restores m listed jobID newEpoch manifest

theorem manifestOf_ok {entry : Entry} (h : manifestOf m entry = .ok manifest) :
    manifest.jobID = entry.jobID ∧ manifest.epoch = entry.epoch ∧ manifest.sequence = entry.sequence := by
  unfold manifestOf at h
  split at h
  · cases h
  · grind

theorem parsedManifest_ok {located : CheckpointManifest} {parsed : Except Unit (Option CheckpointManifest)}
    (h : parsedManifest jobID located parsed = .ok manifest) :
    manifest.jobID = jobID ∧ manifest.sequence = located.sequence ∧ manifest.epoch = located.epoch := by
  unfold parsedManifest at h
  split at h
  · cases h
  · cases h
  · split_ifs at h with hne
    cases h
    push Not at hne
    exact hne

theorem confirm_ok {located : CheckpointManifest} {answer : (c : Call) → Answer c} {parser : Bool}
    (h : (confirm parser jobID located).eval answer = .ok manifest) (hjob : located.jobID = jobID) :
    manifest.jobID = jobID ∧ manifest.epoch = located.epoch := by
  unfold confirm at h
  cases parser with
  | false => cases h; exact ⟨hjob, rfl⟩
  | true =>
    simp only [Bool.not_true, Bool.false_eq_true, if_false, eval_bind, eval_perform] at h
    cases hdata : answer (.getObject located.checkpointURI) with
    | none => rw [hdata] at h; cases h
    | some data =>
      rw [hdata] at h
      obtain ⟨hname, -, hepoch⟩ := parsedManifest_ok h
      exact ⟨hname, hepoch⟩

theorem validate_ok (h : validate manifest = .ok ()) : blank manifest.jobID = false ∧ 0 ≤ manifest.epoch := by
  unfold validate at h
  split_ifs at h with hbad
  simp only [Bool.or_eq_true, decide_eq_true_eq, not_or, Bool.not_eq_true, Int64.not_lt] at hbad
  exact ⟨hbad.1.1.1, hbad.1.1.2⟩

theorem checkManifest_ok_iff :
    checkManifest jobID newEpoch manifest = .ok () ↔ manifest.epoch ≤ newEpoch ∧ manifest.jobID = jobID ∧
      blank manifest.checkpointURI = false ∧ 0 < manifest.sequence := by
  unfold checkManifest
  split_ifs with hepoch hjob hseq
  · simp [Int64.not_le.mpr hepoch]
  · grind
  · simp [Int64.not_lt.mpr hseq]
  · simp_all

theorem restores_iff_valid {listed : Option (List Bytes)} {latest : Entry} (hpos : 0 < latest.sequence)
    (hlatest : getLatestCheckpoint m listed = manifestOf m latest) :
    Restores m listed jobID newEpoch manifest ↔ ValidCheckpoint m jobID newEpoch latest manifest := by
  rw [restores_iff, hlatest]
  constructor
  · rintro ⟨-, -, located, hloc, hcheck, hconf, hval, hfiles, hrest⟩
    obtain ⟨hepoch, hjob, huri, -⟩ := checkManifest_ok_iff.mp hcheck
    obtain ⟨hj, he, -⟩ := manifestOf_ok hloc
    exact ⟨hj.symm.trans hjob, he ▸ hepoch, ⟨located, hloc, huri, hconf⟩, hval, hfiles, hrest⟩
  · rintro ⟨hjob, hepoch, ⟨located, hloc, huri, hconf⟩, hval, hfiles, hrest⟩
    obtain ⟨hj, he, hs⟩ := manifestOf_ok hloc
    obtain ⟨hname, hsame⟩ := confirm_ok hconf (hj.trans hjob)
    obtain ⟨hblank, hnonneg⟩ := validate_ok hval
    refine ⟨hname ▸ hblank, ?_, located, hloc, ?_, hconf, hval, hfiles, hrest⟩
    · rw [hsame, he] at hnonneg
      exact Int64.le_trans hnonneg hepoch
    · exact checkManifest_ok_iff.mpr ⟨he ▸ hepoch, hj.trans hjob, huri, hs ▸ hpos⟩

theorem getLast_of_pairwise {entries : List Entry} {latest : Entry}
    (hsorted : entries.Pairwise (·.sequence < ·.sequence)) (hlast : entries.getLast? = some latest)
    (he : e ∈ entries) : e.sequence ≤ latest.sequence := by
  obtain ⟨front, rfl⟩ := List.getLast?_eq_some_iff.mp hlast
  rcases List.mem_append.mp he with hmem | hmem
  · exact Int64.le_of_lt ((List.pairwise_append.mp hsorted).2.2 e hmem latest (by simp))
  · rw [List.mem_singleton.mp hmem]; exact Int64.le_refl _

def LatestValid (m : Manager) (log : List Entry) (jobID : Bytes) (newEpoch : Int64) : Prop :=
  (∀ e ∈ log, 4 ≤ stringBytes e) ∧ ∃ e ∈ log, (∀ f ∈ log, f.sequence ≤ e.sequence) ∧
    ∃ manifest, ValidCheckpoint m jobID newEpoch e manifest

theorem entry_pos {r : Reader} {objects : Bytes → Option Bytes}
    (hlog : Holds r objects keys log) (he : e ∈ log) : 0 < e.sequence := by
  obtain ⟨data, hm, -⟩ := hlog.stored e he
  exact (marshalBinary_ok hm).1

section

variable (hlog : Holds m.reader m.walObjects keys log)

include hlog

theorem getLatestCheckpoint_eq (hlong : ∀ e ∈ log, 4 ≤ stringBytes e)
    (he : e ∈ log) : ∃ latest ∈ log, (∀ f ∈ log, f.sequence ≤ latest.sequence) ∧
      getLatestCheckpoint m (some keys) = manifestOf m latest := by
  obtain ⟨entries, hread, hsorted, hmem⟩ := readEntries_ok hlog hlong
  have hne : entries ≠ [] := List.ne_nil_of_mem ((hmem e).mpr he)
  have hlast : entries.getLast? = some (entries.getLast hne) := List.getLast?_eq_some_getLast hne
  refine ⟨entries.getLast hne, (hmem _).mp (List.getLast_mem hne), ?_, by simp [getLatestCheckpoint, hread, hlast]⟩
  intro f hf
  exact getLast_of_pairwise hsorted hlast ((hmem f).mpr hf)

theorem picksHighest_of_latestValid (h : LatestValid m log jobID newEpoch) :
    PicksHighest m (some keys) log jobID newEpoch := by
  obtain ⟨hlong, top, htop, hhigh, manifest, hvalid⟩ := h
  intro e he other hother hbest
  obtain ⟨latest, hlatest, hbound, hget⟩ := getLatestCheckpoint_eq hlog hlong he
  have htl : top.sequence = latest.sequence := Int64.le_antisymm (hbound top htop) (hhigh latest hlatest)
  have hel : e.sequence = latest.sequence := Int64.le_antisymm (hbound e he) (htl ▸ hbest top htop manifest hvalid)
  rw [hlog.distinct e he latest hlatest hel] at hother
  exact (restores_iff_valid (entry_pos hlog hlatest) hget).mpr hother

theorem long_of_restores (h : Restores m (some keys) jobID newEpoch manifest) : ∀ e ∈ log, 4 ≤ stringBytes e := by
  intro e he
  by_contra hshort
  obtain ⟨err, herr⟩ := readEntries_short hlog he (not_le.mp hshort)
  obtain ⟨-, -, located, hloc, -⟩ := restores_iff.mp h
  simp [getLatestCheckpoint, herr] at hloc

end

theorem exists_highest_valid (h : ∃ e ∈ log, ∃ manifest, ValidCheckpoint m jobID newEpoch e manifest) :
    ∃ e ∈ log, (∃ manifest, ValidCheckpoint m jobID newEpoch e manifest) ∧
      ∀ f ∈ log, ∀ other, ValidCheckpoint m jobID newEpoch f other → f.sequence ≤ e.sequence := by
  let valid : Set Entry := {e | e ∈ log ∧ ∃ manifest, ValidCheckpoint m jobID newEpoch e manifest}
  have hfinite : valid.Finite := (List.finite_toSet log).subset (fun e he => he.1)
  obtain ⟨e, ⟨he, hvalid⟩, hmax⟩ := Set.exists_max_image valid (fun e => e.sequence.toInt) hfinite h
  exact ⟨e, he, hvalid, fun f hf other ho => Int64.le_iff_toInt_le.mpr (hmax f ⟨hf, other, ho⟩)⟩

theorem latestValid_of_picksHighest (hlog : Holds m.reader m.walObjects keys log)
    (hsome : ∃ e ∈ log, ∃ manifest, ValidCheckpoint m jobID newEpoch e manifest)
    (hpicks : PicksHighest m (some keys) log jobID newEpoch) : LatestValid m log jobID newEpoch := by
  obtain ⟨e, he, ⟨manifest, hvalid⟩, hbest⟩ := exists_highest_valid hsome
  have hrestores := hpicks e he manifest hvalid hbest
  have hlong := long_of_restores hlog hrestores
  obtain ⟨latest, hlatest, hbound, hget⟩ := getLatestCheckpoint_eq hlog hlong he
  exact ⟨hlong, latest, hlatest, hbound, manifest,
    (restores_iff_valid (entry_pos hlog hlatest) hget).mp hrestores⟩

theorem picksHighest_iff {m : Manager} {keys : List Bytes} {log : List Entry} {jobID : Bytes} {newEpoch : Int64}
    (hlog : Holds m.reader m.walObjects keys log) :
    PicksHighest m (some keys) log jobID newEpoch ↔
      (∀ e ∈ log, ∀ manifest, ¬ ValidCheckpoint m jobID newEpoch e manifest) ∨
        LatestValid m log jobID newEpoch := by
  constructor
  · intro hpicks
    by_cases hsome : ∃ e ∈ log, ∃ manifest, ValidCheckpoint m jobID newEpoch e manifest
    · exact .inr (latestValid_of_picksHighest hlog hsome hpicks)
    · push Not at hsome
      exact .inl hsome
  · rintro (hnone | hlatest)
    · intro e he manifest hvalid
      exact absurd hvalid (hnone e he manifest)
    · exact picksHighest_of_latestValid hlog hlatest

def usEast : Reader := ⟨lit "wal", lit "us-east"⟩

def checkpointOf (sequence : Int64) (jobID uri : String) : Entry :=
  sealed ⟨sequence, lit "us-east", 3, lit uri, lit jobID, 0, 0⟩

def manifestFor (sequence : Int64) (jobID : String) : CheckpointManifest :=
  ⟨lit jobID, 3, sequence, lit "checkpoint", []⟩

def encoded (e : Entry) : Bytes := body e ++ LittleEndian.put 4 (checksum (body e)).toNat

def ordersAt1 : Entry := checkpointOf 1 "orders" "manifest-1"

def billingAt2 : Entry := checkpointOf 2 "billing" "manifest-2"

def shared : Manager where
  reader := usEast
  walObjects k := [(entryKey usEast 1, encoded ordersAt1), (entryKey usEast 2, encoded billingAt2),
    (lit "manifest-1", lit "1"), (lit "manifest-2", lit "2")].lookup k
  objects _ := none
  parseJSON data := [(lit "1", manifestFor 1 "orders"), (lit "2", manifestFor 2 "billing")].lookup data
  parser := none
  restore _ := true

theorem shared_holds :
    Holds shared.reader shared.walObjects [entryKey usEast 2, entryKey usEast 1] [ordersAt1, billingAt2] := by
  have hencodes : ∀ (sequence : Int64) (jobID uri : String), 0 < sequence → lit uri ≠ [] →
      (lit jobID).length ≤ fieldLimit → (lit uri).length ≤ fieldLimit →
      marshalBinary (checkpointOf sequence jobID uri) =
        .ok (checkpointOf sequence jobID uri, encoded (checkpointOf sequence jobID uri)) :=
    fun sequence jobID uri hs hu hj hc =>
      marshalBinary_of_valid hs hu hj (show (lit "us-east").length ≤ fieldLimit by decide) hc
  refine ⟨?_, ?_, ?_, ?_⟩
  · intro k
    simp [ordersAt1, billingAt2, checkpointOf, shared, or_comm]
  · intro e he
    rcases List.mem_pair.mp he with rfl | rfl
    · exact ⟨_, hencodes 1 "orders" "manifest-1" (by decide) (by decide) (by decide) (by decide), rfl⟩
    · exact ⟨_, hencodes 2 "billing" "manifest-2" (by decide) (by decide) (by decide) (by decide), rfl⟩
  · intro e he
    rcases List.mem_pair.mp he with rfl | rfl <;> rfl
  · intro e he f hf
    rcases List.mem_pair.mp he with rfl | rfl <;> rcases List.mem_pair.mp hf with rfl | rfl <;>
      simp [ordersAt1, billingAt2, checkpointOf]

theorem valid_ordersAt1 : ValidCheckpoint shared (lit "orders") 4 ordersAt1 (manifestFor 1 "orders") :=
  ⟨rfl, by decide, ⟨_, rfl, by decide, rfl⟩, by decide, rfl, rfl⟩

theorem valid_billingAt2 : ValidCheckpoint shared (lit "billing") 4 billingAt2 (manifestFor 2 "billing") :=
  ⟨rfl, by decide, ⟨_, rfl, by decide, rfl⟩, by decide, rfl, rfl⟩

theorem other_job_hides_checkpoint :
    ∃ m keys log, Holds m.reader m.walObjects keys log ∧ ¬ PicksHighest m (some keys) log (lit "orders") 4 := by
  refine ⟨shared, _, _, shared_holds, fun hpicks => ?_⟩
  have hsome : ∃ e ∈ [ordersAt1, billingAt2], ∃ manifest, ValidCheckpoint shared (lit "orders") 4 e manifest :=
    ⟨ordersAt1, by simp, _, valid_ordersAt1⟩
  obtain ⟨-, e, he, hhigh, manifest, hvalid⟩ := latestValid_of_picksHighest shared_holds hsome hpicks
  rcases List.mem_pair.mp he with rfl | rfl
  · exact absurd (hhigh billingAt2 (by simp)) (by decide)
  · exact absurd hvalid.job (by decide)

theorem billing_picksHighest :
    Holds shared.reader shared.walObjects [entryKey usEast 2, entryKey usEast 1] [ordersAt1, billingAt2] ∧
      (∃ manifest, ValidCheckpoint shared (lit "billing") 4 billingAt2 manifest) ∧
      PicksHighest shared (some [entryKey usEast 2, entryKey usEast 1]) [ordersAt1, billingAt2] (lit "billing") 4 := by
  refine ⟨shared_holds, ⟨_, valid_billingAt2⟩, (picksHighest_iff shared_holds).mpr (.inr ⟨?_, ?_⟩)⟩
  · intro e he
    rcases List.mem_pair.mp he with rfl | rfl <;> decide
  · refine ⟨billingAt2, by simp, ?_, _, valid_billingAt2⟩
    intro f hf
    rcases List.mem_pair.mp hf with rfl | rfl <;> decide

end AstraSync.CheckpointRecovery
