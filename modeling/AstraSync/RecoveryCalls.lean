import AstraSync.CheckpointRecovery

namespace AstraSync.RecoveryCalls

open ByteStrings WalEntry Programs
open CheckpointRecovery

abbrev Event := Σ c : Call, Answer c

def written : Event → Option RecoveryState
  | ⟨.write r, _⟩ => some r.state
  | _ => none

def states (events : List Event) : List RecoveryState := .pending :: events.filterMap written

def Increasing (events : List Event) : Prop := (states events).Pairwise fun a b => a.rank < b.rank

def Restored (events : List Event) : Prop := ∃ manifest, (⟨.restore manifest, true⟩ : Event) ∈ events

def Fetched (events : List Event) (file : CheckpointFile) : Prop :=
  ∃ data, (⟨.getObject file.uri, some data⟩ : Event) ∈ events ∧ (0 ≤ file.size → (data.length : ℤ) = file.size.toInt) ∧
    (file.crc32c ≠ 0 → checksum data = file.crc32c)

structure Checked (jobID : Bytes) (newEpoch : Int64) (events : List Event) (manifest : CheckpointManifest) : Prop where
  job : manifest.jobID = jobID
  epoch : manifest.epoch ≤ newEpoch
  positive : 0 < manifest.sequence
  located : ∃ located, (⟨.getLatestCheckpoint, .ok (some located)⟩ : Event) ∈ events ∧
    manifest.sequence = located.sequence
  accepted : (⟨.validate manifest, .ok ()⟩ : Event) ∈ events
  files : ∀ file ∈ manifest.files, Fetched events file

def Gated (events : List Event) : Prop := Increasing events ∧ (.complete ∈ states events → Restored events)

structure Progress (events : List Event) (r : Recovery) : Prop where
  increasing : Increasing events
  current : (states events).getLast? = some r.state

structure StageAt (events : List Event) (r : Recovery) : Prop extends Progress events r where
  unrestored : ¬Restored events
  incomplete : .complete ∉ states events

def Quiet (event : Event) : Prop := written event = none ∧ ∀ manifest, event ≠ ⟨.restore manifest, true⟩

theorem StageAt.gated {events : List Event} {r : Recovery} (h : StageAt events r) : Gated events :=
  ⟨h.increasing, fun hmem => absurd hmem h.incomplete⟩

theorem states_write (events : List Event) (r : Recovery) : states (events ++ [⟨.write r, ()⟩]) = states events ++ [r.state] := by
  simp [states, written]

theorem Restored.append {events : List Event} (h : Restored events) (more : List Event) : Restored (events ++ more) := by
  obtain ⟨manifest, hmem⟩ := h
  exact ⟨manifest, List.mem_append_left _ hmem⟩

theorem states_append {events more : List Event} (hmore : more.filterMap written = []) :
    states (events ++ more) = states events := by
  simp [states, hmore]

variable {events more : List Event} {r : Recovery} {jobID : Bytes} {newEpoch : Int64} {state : RecoveryState}
  {file : CheckpointFile}

theorem Progress.write (h : Progress events r) (error : Option RecoveryError) (hrank : r.state.rank < state.rank) :
    Progress (events ++ [⟨.write { r with state := state, error := error.or r.error }, ()⟩])
      { r with state := state, error := error.or r.error } := by
  have hstates := states_write events { r with state := state, error := error.or r.error }
  obtain ⟨earlier, hearlier⟩ := List.getLast?_eq_some_iff.mp h.current
  refine ⟨?_, ?_⟩
  · have hincreasing : (states events).Pairwise fun a b => a.rank < b.rank := h.increasing
    unfold Increasing
    rw [hstates, List.pairwise_append]
    refine ⟨hincreasing, List.pairwise_singleton _ _, fun a ha b hb => ?_⟩
    obtain rfl := List.mem_singleton.mp hb
    rw [hearlier] at ha hincreasing
    rcases List.mem_append.mp ha with ha | ha
    · exact ((List.pairwise_append.mp hincreasing).2.2 a ha _ (List.mem_singleton_self _)).trans hrank
    · rwa [List.mem_singleton.mp ha]
  · rw [hstates, List.getLast?_append, List.getLast?_singleton, Option.some_or]

theorem Progress.append (h : Progress events r) (hmore : more.filterMap written = []) : Progress (events ++ more) r := by
  have hstates : states (events ++ more) = states events := states_append hmore
  refine ⟨?_, by rw [hstates, h.current]⟩
  unfold Increasing
  rw [hstates]
  exact h.increasing

theorem StageAt.write (h : StageAt events r) (error : Option RecoveryError) (hrank : r.state.rank < state.rank)
    (hstate : state ≠ .complete) :
    StageAt (events ++ [⟨.write { r with state := state, error := error.or r.error }, ()⟩])
      { r with state := state, error := error.or r.error } := by
  refine ⟨h.toProgress.write error hrank, ?_, ?_⟩
  · rintro ⟨manifest, hmem⟩
    rcases List.mem_append.mp hmem with hmem | hmem
    · exact h.unrestored ⟨manifest, hmem⟩
    · cases List.mem_singleton.mp hmem
  · rw [states_write, List.mem_append, List.mem_singleton]
    rintro (hmem | heq)
    · exact h.incomplete hmem
    · exact hstate heq.symm

theorem StageAt.quiet (h : StageAt events r) (hmore : ∀ event ∈ more, Quiet event) : StageAt (events ++ more) r := by
  have hsilent : more.filterMap written = [] := List.filterMap_eq_nil_iff.mpr fun event hevent => (hmore event hevent).1
  refine ⟨h.toProgress.append hsilent, ?_, by rw [states_append hsilent]; exact h.incomplete⟩
  rintro ⟨manifest, hmem⟩
  rcases List.mem_append.mp hmem with hmem | hmem
  · exact h.unrestored ⟨manifest, hmem⟩
  · exact (hmore _ hmem).2 manifest rfl

theorem StageAt.checkpoint (h : StageAt events r) (manifest : CheckpointManifest) :
    StageAt events { r with checkpoint := some manifest } := ⟨⟨h.increasing, h.current⟩, h.unrestored, h.incomplete⟩

def InOrder (jobID : Bytes) (newEpoch : Int64) (events : List Event) (c : Call) : Prop :=
  Gated events ∧ ∀ manifest, c = .restore manifest → Checked jobID newEpoch events manifest ∧ ¬Restored events

def Finished (outcome : Outcome) (events : List Event) : Prop :=
  Gated events ∧ match outcome with
    | .ok r => r.state = .complete ∧ Restored events
    | .error (r, _) => (∃ v, r = some v ∧ v.state = .failed) ∧ ¬Restored events

abbrev Safe (jobID : Bytes) (newEpoch : Int64) (p : Recovering Outcome) (events : List Event) : Prop :=
  Obeys (traced (InOrder jobID newEpoch)) Finished p events

variable {source : RecoveryState}

theorem safe_failed (h : StageAt events r) (hstate : r.state = source) (hrank : source.rank < RecoveryState.failed.rank)
    (e : RecoveryError) : Safe jobID newEpoch (failed r e) events := by
  subst hstate
  unfold failed
  rw [transitionTo_later hrank]
  refine traced_perform ⟨h.gated, fun _ => nofun⟩ fun u => ?_
  have hw := h.write (some e) hrank nofun
  exact ⟨hw.gated, ⟨_, rfl, rfl⟩, hw.unrestored⟩

theorem safe_enter {next : Recovery → Recovering Outcome} (h : StageAt events r)
    (hstate : r.state = source) (hrank : source.rank < state.rank ∧ state ≠ .complete)
    (hnext : ∀ r' events', r'.state = state → events <+: events' → StageAt events' r' →
      Safe jobID newEpoch (next r') events') :
    Safe jobID newEpoch (enter r state next) events := by
  subst hstate
  unfold enter
  rw [transitionTo_later hrank.1]
  refine traced_perform ⟨h.gated, fun _ => nofun⟩ fun u => ?_
  exact hnext _ _ rfl (List.prefix_append _ _) (h.write none hrank.1 hrank.2)

theorem safe_proceed {α : Type} {result : Except RecoveryError α} {next : α → Recovering Outcome} (h : StageAt events r)
    (hstate : r.state = source) (hrank : source.rank < RecoveryState.failed.rank)
    (hnext : ∀ a, result = .ok a → Safe jobID newEpoch (next a) events) :
    Safe jobID newEpoch (proceed r result next) events := by
  cases result with
  | error e => exact safe_failed h hstate hrank e
  | ok a => exact hnext a rfl

def Returns {α : Type} (events : List Event) (P : α → List Event → Prop) (result : α) (events' : List Event) : Prop :=
  ∃ more, events' = events ++ more ∧ (∀ event ∈ more, Quiet event) ∧ P result events'

theorem quiet_getObject (uri : Bytes) (data : Option Bytes) : Quiet ⟨.getObject uri, data⟩ := ⟨rfl, fun _ => nofun⟩

theorem safe_confirm (h : StageAt events r) {located : CheckpointManifest} (hjob : located.jobID = jobID) (parser : Bool) :
    Obeys (traced (InOrder jobID newEpoch)) (Returns events fun result _ => ∀ manifest, result = .ok manifest →
      manifest.jobID = jobID ∧ manifest.sequence = located.sequence ∧ manifest.epoch = located.epoch)
      (confirm parser jobID located) events := by
  unfold confirm
  cases parser with
  | false =>
    refine ⟨[], (List.append_nil _).symm, fun _ hmem => absurd hmem List.not_mem_nil, ?_⟩
    rintro manifest ⟨⟩
    exact ⟨hjob, rfl, rfl⟩
  | true =>
    refine traced_perform ⟨h.gated, fun _ => nofun⟩ fun fetched => ?_
    cases fetched with
    | none => exact ⟨_, rfl, List.forall_mem_singleton.mpr (quiet_getObject _ _), nofun⟩
    | some data =>
      have hquiet : ∀ event ∈ [(⟨.getObject located.checkpointURI, some data⟩ : Event)], Quiet event :=
        List.forall_mem_singleton.mpr (quiet_getObject _ _)
      refine traced_perform ⟨(h.quiet hquiet).gated, fun _ => nofun⟩ fun parsed => ?_
      refine ⟨[⟨.getObject located.checkpointURI, some data⟩, ⟨.parse data, parsed⟩], by simp, ?_, ?_⟩
      · intro event hevent
        rcases List.mem_cons.mp hevent with rfl | hevent
        · exact quiet_getObject _ _
        · rw [List.mem_singleton.mp hevent]
          exact ⟨rfl, fun _ => nofun⟩
      · intro manifest hmanifest
        exact parsedManifest_ok hmanifest

theorem fetched_of_downloaded {data : Option Bytes} (h : downloadedFile file data = .ok ())
    (hmem : (⟨.getObject file.uri, data⟩ : Event) ∈ events) : Fetched events file := by
  unfold downloadedFile at h
  split at h
  · cases h
  · next data =>
    split_ifs at h with hsize hchecksum
    refine ⟨data, hmem, fun hnonneg => ?_, fun hstated => ?_⟩
    · by_contra hne
      exact hsize ⟨hnonneg, hne⟩
    · by_contra hne
      exact hchecksum ⟨hstated, hne⟩

theorem Fetched.append (h : Fetched events file) : Fetched (events ++ more) file := by
  obtain ⟨data, hmem, hdata⟩ := h
  exact ⟨data, List.mem_append_left _ hmem, hdata⟩

theorem safe_downloadFiles (h : StageAt events r) (files : List CheckpointFile) :
    Obeys (traced (InOrder jobID newEpoch)) (Returns events fun result events' => result = .ok () →
      ∀ file ∈ files, Fetched events' file) (downloadFiles files) events := by
  induction files generalizing events with
  | nil => exact ⟨[], (List.append_nil _).symm, fun _ hmem => absurd hmem List.not_mem_nil,
      fun _ _ hfile => absurd hfile List.not_mem_nil⟩
  | cons file files ih =>
    unfold downloadFiles downloadFile
    by_cases hblank : blank file.uri = true
    · rw [if_pos hblank]
      exact ⟨[], (List.append_nil _).symm, fun _ hmem => absurd hmem List.not_mem_nil, nofun⟩
    · rw [if_neg hblank]
      refine traced_perform ⟨h.gated, fun _ => nofun⟩ fun data => ?_
      have hquiet : ∀ event ∈ [(⟨.getObject file.uri, data⟩ : Event)], Quiet event :=
        List.forall_mem_singleton.mpr (quiet_getObject _ _)
      cases hresult : downloadedFile file data with
      | error => exact ⟨_, rfl, hquiet, nofun⟩
      | ok =>
        refine obeys_weaken (ih (h.quiet hquiet)) ?_
        rintro result events' ⟨more, rfl, hmore, hfiles⟩
        refine ⟨[⟨.getObject file.uri, data⟩] ++ more, (List.append_assoc _ _ _), ?_, fun hok other hother => ?_⟩
        · exact List.forall_mem_append.mpr ⟨hquiet, hmore⟩
        · rcases List.mem_cons.mp hother with rfl | hother
          · exact (fetched_of_downloaded hresult (List.mem_append_right _ (List.mem_singleton_self _))).append
          · exact hfiles hok other hother

theorem Fetched.later {events' : List Event} (h : Fetched events file) (hle : events <+: events') :
    Fetched events' file := by
  obtain ⟨more, rfl⟩ := hle
  exact h.append

theorem safe_complete (h : StageAt events r) (hstate : r.state = .restoring) (manifest : CheckpointManifest) :
    Safe jobID newEpoch (enter r .complete fun r => return .ok r) (events ++ [⟨.restore manifest, true⟩]) := by
  have hprogress : Progress (events ++ [(⟨.restore manifest, true⟩ : Event)]) r := h.toProgress.append rfl
  have hrestored : Restored (events ++ [(⟨.restore manifest, true⟩ : Event)]) :=
    ⟨manifest, List.mem_append_right _ (List.mem_singleton_self _)⟩
  have hrank : r.state.rank < RecoveryState.complete.rank := by
    rw [hstate]
    decide
  unfold enter
  rw [transitionTo_later hrank]
  refine traced_perform ⟨⟨hprogress.increasing, fun _ => hrestored⟩, fun _ => nofun⟩ fun u => ?_
  have hdone := hrestored.append [⟨.write { r with state := .complete, error := none.or r.error }, ()⟩]
  exact ⟨⟨(hprogress.write none hrank).increasing, fun _ => hdone⟩, rfl, hdone⟩

theorem safe_recover (dependencies parser : Bool) (jobID : Bytes) (newEpoch : Int64) :
    Safe jobID newEpoch (recover dependencies parser jobID newEpoch) [] := by
  have hstart : StageAt [] (newRecovery jobID newEpoch) := by
    refine ⟨⟨List.pairwise_singleton _ _, rfl⟩, ?_, by decide⟩
    rintro ⟨manifest, hmem⟩
    exact absurd hmem List.not_mem_nil
  have hpending : (newRecovery jobID newEpoch).state = .pending := rfl
  unfold recover
  split_ifs
  · exact safe_failed hstart hpending (by decide) _
  · exact safe_failed hstart hpending (by decide) _
  refine safe_enter hstart hpending (by decide) fun r e₁ hs₁ _ h₁ => ?_
  refine traced_perform ⟨h₁.gated, fun _ => nofun⟩ fun latest => ?_
  have hquiet : ∀ event ∈ [(⟨.getLatestCheckpoint, latest⟩ : Event)], Quiet event := by
    intro event hevent
    rw [List.mem_singleton.mp hevent]
    exact ⟨rfl, fun _ => nofun⟩
  have h₂ := h₁.quiet hquiet
  refine safe_proceed h₂ hs₁ (by decide) fun located hlocated => ?_
  have hanswer : latest = .ok (some located) := by
    unfold locatedManifest at hlocated
    split at hlocated <;> cases hlocated
    rfl
  subst hanswer
  refine safe_proceed (h₂.checkpoint located) hs₁ (by decide) fun u hcheck => ?_
  obtain ⟨hepoch, hjob, -, hpositive⟩ := CheckpointRecovery.checkManifest_ok_iff.mp hcheck
  refine obeys_bind (obeys_weaken (safe_confirm h₂ hjob parser) ?_)
  rintro confirmed e₃ ⟨more, rfl, hmore, hconfirmed⟩
  have h₃ := h₂.quiet hmore
  refine safe_proceed (h₃.checkpoint located) hs₁ (by decide) fun manifest hmanifest => ?_
  obtain ⟨hname, hsequence, hsame⟩ := hconfirmed manifest hmanifest
  refine safe_enter (h₃.checkpoint manifest) hs₁ (by decide) fun r e₄ hs₄ hle₄ h₄ => ?_
  have hlatest : (⟨.getLatestCheckpoint, .ok (some located)⟩ : Event) ∈ e₄ :=
    hle₄.subset (List.mem_append_left _ (List.mem_append_right _ (List.mem_singleton_self _)))
  refine traced_perform ⟨h₄.gated, fun _ => nofun⟩ fun accepted => ?_
  have hquiet : ∀ event ∈ [(⟨.validate manifest, accepted⟩ : Event)], Quiet event := by
    intro event hevent
    rw [List.mem_singleton.mp hevent]
    exact ⟨rfl, fun _ => nofun⟩
  have h₅ := h₄.quiet hquiet
  refine safe_proceed h₅ hs₄ (by decide) fun u haccepted => ?_
  rw [CheckpointRecovery.wrap_ok] at haccepted
  subst haccepted
  refine safe_enter h₅ hs₄ (by decide) fun r e₆ hs₆ hle₆ h₆ => ?_
  refine obeys_bind (obeys_weaken (safe_downloadFiles h₆ manifest.files) ?_)
  rintro downloaded e₇ ⟨more, rfl, hmore, hfiles⟩
  have h₇ := h₆.quiet hmore
  refine safe_proceed h₇ hs₆ (by decide) fun u hdownloaded => ?_
  refine safe_enter h₇ hs₆ (by decide) fun r e₈ hs₈ hle₈ h₈ => ?_
  refine safe_enter h₈ hs₈ (by decide) fun r e₉ hs₉ hle₉ h₉ => ?_
  have hearly : e₄ ++ [⟨.validate manifest, .ok ()⟩] <+: e₉ :=
    hle₆.trans ((List.prefix_append _ _).trans (hle₈.trans hle₉))
  have hchecked : Checked jobID newEpoch e₉ manifest := by
    refine ⟨hname, hsame ▸ hepoch, hsequence ▸ hpositive, ⟨located, ?_, hsequence⟩, ?_, fun file hfile => ?_⟩
    · exact hearly.subset (List.mem_append_left _ hlatest)
    · exact hearly.subset (List.mem_append_right _ (List.mem_singleton_self _))
    · exact (hfiles hdownloaded file hfile).later (hle₈.trans hle₉)
  refine traced_perform ⟨h₉.gated, fun other heq => ?_⟩ fun restored => ?_
  · cases heq
    exact ⟨hchecked, h₉.unrestored⟩
  cases restored with
  | false =>
    refine safe_proceed (h₉.quiet fun event hevent => ?_) hs₉ (by decide) nofun
    rw [List.mem_singleton.mp hevent]
    exact ⟨rfl, fun _ => nofun⟩
  | true =>
    exact safe_complete h₉ hs₉ manifest

/-- Restored exactly where the recovery completes, and failed with every error; each restore comes after all checks,
and no recovery is recorded as complete before it. -/
theorem recover_gate {dependencies parser : Bool} {jobID : Bytes} {newEpoch : Int64} {events : List Event}
    {rest : Recovering Outcome} (h : Reaches (recover dependencies parser jobID newEpoch) events rest) :
    Increasing events ∧ (.complete ∈ states events → Restored events) ∧
      (∀ manifest next, rest = .call (.restore manifest) next → Checked jobID newEpoch events manifest) ∧
      ∀ outcome, rest = .done outcome →
        ((∃ r, outcome = .ok r) ↔ Restored events) ∧ (∀ r, outcome = .ok r → r.state = .complete) ∧
        ∀ r e, outcome = .error (r, e) → ∃ v, r = some v ∧ v.state = .failed := by
  have hsafe := obeys_reaches (safe_recover dependencies parser jobID newEpoch) h
  rw [List.nil_append] at hsafe
  cases rest with
  | call c next =>
    have hinhabited : Nonempty (Answer c) := by
      cases c
      exacts [⟨.ok none⟩, ⟨none⟩, ⟨.ok none⟩, ⟨.ok ()⟩, ⟨true⟩, ⟨()⟩]
    obtain ⟨a⟩ := hinhabited
    obtain ⟨⟨⟨hincreasing, hcomplete⟩, hchecked⟩, -⟩ := hsafe events rfl a _ rfl
    refine ⟨hincreasing, hcomplete, ?_, nofun⟩
    rintro manifest next' ⟨⟩
    exact (hchecked manifest rfl).1
  | done outcome =>
    obtain ⟨⟨hincreasing, hcomplete⟩, hresult⟩ := hsafe
    refine ⟨hincreasing, hcomplete, nofun, ?_⟩
    rintro _ ⟨⟩
    cases outcome with
    | ok r =>
      obtain ⟨hstate, hrestored⟩ := hresult
      refine ⟨⟨fun _ => hrestored, fun _ => ⟨r, rfl⟩⟩, ?_, nofun⟩
      rintro _ ⟨⟩
      exact hstate
    | error =>
      obtain ⟨hfailed, hrestored⟩ := hresult
      refine ⟨⟨nofun, fun hyes => absurd hyes hrestored⟩, nofun, ?_⟩
      rintro r e ⟨⟩
      exact hfailed

def sampleFile : CheckpointFile := ⟨lit "rows", lit "files/rows", 2, 0⟩

def sampleManifest : CheckpointManifest := ⟨lit "orders", 3, 7, lit "manifests/7", [sampleFile]⟩

def sampleAnswer : (c : Call) → Answer c
  | .getLatestCheckpoint => .ok (some sampleManifest)
  | .getObject _ => some [1, 2]
  | .parse _ => .ok (some sampleManifest)
  | .validate _ => .ok ()
  | .restore _ => true
  | .write _ => ()

theorem recover_gate_restored : Increasing ((recover true true (lit "orders") 4).answered sampleAnswer) ∧
      Restored ((recover true true (lit "orders") 4).answered sampleAnswer) := by
  obtain ⟨hincreasing, hcomplete, -⟩ := recover_gate (reaches_eval sampleAnswer (recover true true (lit "orders") 4))
  exact ⟨hincreasing, hcomplete (by decide)⟩

end AstraSync.RecoveryCalls
