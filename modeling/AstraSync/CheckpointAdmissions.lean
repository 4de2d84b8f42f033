import AstraSync.CheckpointDelivery

namespace AstraSync.CheckpointAdmissions

open ByteStrings Transitions CheckpointPush CheckpointDelivery
open RegionPromotion (Outcome)

def inProgress : PushError := .resourceExhausted "checkpoint sequence delivery is in progress"

section

variable (sha256 : Bytes → Bytes) (w : World) (i : ℕ) (c : Call)

inductive Advance : Input → World → Prop
  | claimRefused (hpc : c.pc = .claim) (o : Outcome) :
      Advance (.statement o) (w.put i (answer c (.error admissionFailed)))
  | claimFound (hpc : c.pc = .claim) (row : Admission) (hrow : w.admissions c.push.key = some row) :
      Advance (.statement .ok) (w.put i { c with pc := .find })
  | claimed (hpc : c.pc = .claim) (hrow : w.admissions c.push.key = none) :
      Advance (.statement .ok)
        ((w.setAdmission c.push.key (some ⟨checkpointFingerprint sha256 c.push, false, i⟩)).put i
          { c with pc := .snapshot, accepted := true })
  | claimLost (hpc : c.pc = .claim) (hrow : w.admissions c.push.key = none) :
      Advance (.statement .lost)
        ((w.setAdmission c.push.key (some ⟨checkpointFingerprint sha256 c.push, false, i⟩)).put i
          (answer c (.error admissionFailed)))
  | foundInProgress (hpc : c.pc = .find) (row : Admission) (hrow : w.admissions c.push.key = some row)
      (hcommitted : row.committed = false) : Advance (.statement .ok) (w.put i (answer c (.error inProgress)))
  | found (hpc : c.pc = .find) (o : Outcome) (r : Except PushError Int64) (hr : r ≠ .error inProgress) :
      Advance (.statement o) (w.put i (answer c r))
  | snapshot (hpc : c.pc = .snapshot) (subscribers : List ℕ)
      (horder : subscribers.Perm (subscribersOf w c.server c.push.targetRegion)) :
      Advance (.order subscribers) (w.put i { c with pc := .deliver subscribers })
  | acknowledged (hpc : c.pc = .deliver []) : Advance .go (acknowledge w i c)
  | skipped (s : ℕ) (rest : List ℕ) (hpc : c.pc = .deliver (s :: rest)) :
      Advance .go (w.put i { c with pc := .deliver rest })
  | looked (s : ℕ) (rest : List ℕ) (hpc : c.pc = .deliver (s :: rest)) :
      Advance .go (w.put i { c with pc := .send s rest })
  | panicked (s : ℕ) (rest : List ℕ) (hpc : c.pc = .send s rest) (sub : Subscriber) (hsub : w.subscribers[s]? = some sub)
      (hconnected : sub.connected = false) : Advance .go (crash w c.server)
  | sent (s : ℕ) (rest : List ℕ) (hpc : c.pc = .send s rest) (sub : Subscriber) (hsub : w.subscribers[s]? = some sub) :
      Advance .go
        ({ w with subscribers := w.subscribers.set s (enqueue sub ⟨c.push.event, some i⟩) }.put i
          { c with pc := .deliver rest })
  | full (s : ℕ) (rest : List ℕ) (hpc : c.pc = .send s rest) :
      Advance .go (w.put i { c with pc := .release (.resourceExhausted "replication subscriber queue is full") })
  | cancelled (s : ℕ) (rest : List ℕ) (hpc : c.pc = .send s rest) :
      Advance .cancelled (w.put i { c with pc := .release .canceled })
  | committed (hpc : c.pc = .commit) (row : Admission) (hrow : w.admissions c.push.key = some row) (o : Outcome)
      (pc : Pc) (hnext : pc = .release commitFailed ∨ pc = .done (some (.ok c.push.entry.sequence))) :
      Advance (.statement o) ((w.setAdmission c.push.key (some { row with committed := true })).put i { c with pc })
  | uncommitted (hpc : c.pc = .commit) (o : Outcome) :
      Advance (.statement o) (w.put i { c with pc := .release commitFailed })
  | releaseFailed (e : PushError) (hpc : c.pc = .release e) :
      Advance (.statement .failed) (w.put i (answer c (.error e)))
  | releaseKept (e : PushError) (hpc : c.pc = .release e) (o : Outcome)
      (hrow : ∀ row, w.admissions c.push.key = some row → row.committed = true) :
      Advance (.statement o) (w.put i (answer c (.error e)))
  | released (e : PushError) (hpc : c.pc = .release e) (o : Outcome) :
      Advance (.statement o) ((w.setAdmission c.push.key none).put i (answer { c with released := true } (.error e)))

variable {sha256 w i c} {w' : World}

theorem claimCheckpoint_advance (hpc : c.pc = .claim) (o : Outcome) :
    Advance sha256 w i c (.statement o) (claimCheckpoint sha256 w i c o) := by
  dsimp only [claimCheckpoint]
  split
  · exact .claimRefused hpc o
  · cases hrow : w.admissions c.push.key with
    | some row =>
      cases o with
      | ok => exact .claimFound hpc row hrow
      | failed | lost => exact .claimRefused hpc _
    | none =>
      cases o with
      | ok => exact .claimed hpc hrow
      | lost => exact .claimLost hpc hrow
      | failed => exact .claimRefused hpc _

theorem findAdmission_advance (hpc : c.pc = .find) (o : Outcome) :
    Advance sha256 w i c (.statement o) (w.put i (findAdmission sha256 w c o)) := by
  unfold findAdmission
  split
  · next row hrow =>
    split
    · exact .found hpc _ _ (by decide)
    · split
      · next hcommitted => exact .foundInProgress hpc row hrow (by simpa using hcommitted)
      · exact .found hpc _ _ nofun
  · exact .found hpc _ _ (by decide)

theorem commitCheckpoint_advance (hpc : c.pc = .commit) (o : Outcome) :
    Advance sha256 w i c (.statement o) (commitCheckpoint w i c o) := by
  unfold commitCheckpoint
  split
  · next row hrow => exact .committed hpc row hrow _ _ (.inr rfl)
  · next row hrow => exact .committed hpc row hrow _ _ (.inl rfl)
  · exact .uncommitted hpc _

theorem releaseCheckpoint_advance {e : PushError} (hpc : c.pc = .release e) (o : Outcome) :
    Advance sha256 w i c (.statement o) (releaseCheckpoint w i c e o) := by
  unfold releaseCheckpoint
  split
  · exact .releaseFailed e hpc
  · next row hrow =>
    split
    · next hcommitted =>
      refine .releaseKept e hpc _ fun r hr => ?_
      rw [hrow] at hr
      cases hr
      exact hcommitted
    · exact .released e hpc _
  · next hrow =>
    refine .releaseKept e hpc _ fun r hr => ?_
    rw [hrow] at hr
    cases hr

theorem sendTo_advance {s : ℕ} {rest : List ℕ} (hpc : c.pc = .send s rest) (h : sendTo w i c s rest = some w') :
    Advance sha256 w i c .go w' := by
  unfold sendTo at h
  split at h
  · cases h
  · next sub hsub =>
    split at h
    · next hconnected =>
      cases h
      exact .panicked s rest hpc sub hsub (by simpa using hconnected)
    · split at h
      · cases h
        exact .sent s rest hpc sub hsub
      · cases h
        exact .full s rest hpc

theorem pushCheckpoint_advance {input : Input} (h : pushCheckpoint sha256 w i c input = some w') :
    Advance sha256 w i c input w' := by
  cases input with
  | statement o =>
    dsimp only [pushCheckpoint] at h
    split at h <;> cases h
    case h_1 hpc => exact claimCheckpoint_advance hpc o
    case h_2 hpc => exact findAdmission_advance hpc o
    case h_3 hpc => exact commitCheckpoint_advance hpc o
    case h_4 e hpc => exact releaseCheckpoint_advance hpc o
  | order subscribers =>
    dsimp only [pushCheckpoint] at h
    split at h
    · next hpc =>
      split at h
      · next horder =>
        cases h
        exact .snapshot hpc subscribers horder
      · cases h
    · cases h
  | go =>
    dsimp only [pushCheckpoint] at h
    split at h
    · next hpc =>
      cases h
      exact .acknowledged hpc
    · next s rest hpc =>
      cases h
      split
      · exact .skipped s rest hpc
      · exact .looked s rest hpc
    · next hpc => exact sendTo_advance hpc h
    · cases h
  | cancelled =>
    dsimp only [pushCheckpoint] at h
    split at h
    · next s rest hpc =>
      cases h
      exact .cancelled s rest hpc
    · cases h

end

section

variable {sha256 : Bytes → Bytes} {w w' : World} {i : ℕ} {c c' : Call}

def Held (w : World) : Prop :=
  ∀ k row, w.admissions k = some row → row.committed = false →
    ∃ c, w.calls[row.holder]? = some c ∧ holding c.pc = true ∧ c.push.key = k

theorem Held.advance (h : Held w) (hc : w.calls[i]? = some c) (hcalls : w'.calls = w.calls.set i c')
    (hpush : c'.push = c.push) (hother : ∀ k, k ≠ c.push.key → w'.admissions k = w.admissions k)
    (hown : ∀ row, w'.admissions c.push.key = some row → row.committed = false →
      (row.holder = i ∧ holding c'.pc = true) ∨ (row.holder ≠ i ∧ w.admissions c.push.key = some row)) :
    Held w' := by
  have hlt : i < w.calls.length := (List.getElem?_eq_some_iff.mp hc).1
  have keep {k : AdmissionKey} {row : Admission} (hne : row.holder ≠ i) (hrow : w.admissions k = some row)
      (hcommitted : row.committed = false) :
      ∃ d, w'.calls[row.holder]? = some d ∧ holding d.pc = true ∧ d.push.key = k := by
    rw [hcalls, List.getElem?_set_ne hne.symm]
    exact h k row hrow hcommitted
  intro k row hrow hcommitted
  by_cases hk : k = c.push.key
  · grind
  · rw [hother k hk] at hrow
    refine keep (fun hholder => ?_) hrow hcommitted
    obtain ⟨d, hd, -, hkey⟩ := h k row hrow hcommitted
    rw [hholder, hc] at hd
    cases hd
    exact hk hkey.symm

theorem Held.put (h : Held w) (hc : w.calls[i]? = some c) (hpush : c'.push = c.push)
    (hkeep : holding c.pc = true → holding c'.pc = true ∨
      ∀ row, w.admissions c.push.key = some row → row.committed = true) : Held (w.put i c') := by
  refine h.advance hc rfl hpush (fun _ _ => rfl) fun row hrow hcommitted => ?_
  by_cases hholder : row.holder = i
  · obtain ⟨d, hd, hholding, -⟩ := h _ row hrow hcommitted
    rw [hholder, hc] at hd
    cases hd
    rcases hkeep hholding with hkeep | hkeep
    · exact .inl ⟨hholder, hkeep⟩
    · exact absurd (hkeep row hrow) (by rw [hcommitted]; decide)
  · exact .inr ⟨hholder, hrow⟩

theorem Held.set (h : Held w) (hc : w.calls[i]? = some c) (row : Option Admission) (c' : Call) (hpush : c'.push = c.push)
    (hrow : ∀ r, row = some r → r.committed = false → r.holder = i ∧ holding c'.pc = true) :
    Held ((w.setAdmission c.push.key row).put i c') := by
  refine h.advance hc rfl hpush (fun k hk => Function.update_of_ne hk _ _) fun r hr hcommitted => .inl ?_
  rw [setAdmission_key] at hr
  exact hrow r hr hcommitted

theorem Held.congr (h : Held w) (hadmissions : w'.admissions = w.admissions)
    (hcalls : ∀ (j : ℕ) d, w.calls[j]? = some d → w'.calls[j]? = some d) : Held w' := by
  intro k row hrow hcommitted
  obtain ⟨d, hd, hholding⟩ := h k row (hadmissions ▸ hrow) hcommitted
  exact ⟨d, hcalls _ d hd, hholding⟩

def uncommitted (w : World) (k : AdmissionKey) : Bool := (w.admissions k).any (!·.committed)

theorem committed_of_not (h : uncommitted w k = false) {row : Admission} (hrow : w.admissions k = some row) :
    row.committed = true := by
  simpa [uncommitted, hrow] using h

def tidy (w : World) (c : Call) : Input → Bool
  | .statement .lost =>
    match c.pc with
    | .claim => (w.admissions c.push.key).isSome
    | _ => true
  | .statement .failed =>
    match c.pc with
    | .release _ => !uncommitted w c.push.key
    | _ => true
  | .go =>
    match c.pc with
    | .send s _ => isConnected w s
    | _ => true
  | _ => true

def orderly (w : World) : Event → Bool
  | .advance i input => w.calls[i]?.all fun c => tidy w c input
  | .crash server => w.calls.all fun c => !(c.server = server && holding c.pc && uncommitted w c.push.key)
  | _ => true

theorem advance_held {input : Input} (h : Held w) (hc : w.calls[i]? = some c) (htidy : tidy w c input = true)
    (o : Advance sha256 w i c input w') : Held w' := by
  cases o with
  | claimRefused hpc | claimFound hpc | found hpc | foundInProgress hpc =>
    refine h.put hc rfl fun hholding => ?_
    rw [hpc] at hholding
    cases hholding
  | claimed =>
    refine h.set hc _ _ rfl fun r hr _ => ?_
    cases hr
    exact ⟨rfl, rfl⟩
  | claimLost hpc hrow => simp [tidy, hpc, hrow] at htidy
  | snapshot | skipped | looked | full | cancelled | uncommitted =>
    exact h.put hc rfl fun _ => .inl rfl
  | acknowledged =>
    have h : Held { w with acknowledged := _ } := h
    exact h.put hc rfl fun _ => .inl rfl
  | panicked s rest hpc sub hsub hconnected => simp [tidy, hpc, isConnected, hsub, hconnected] at htidy
  | sent =>
    have h : Held { w with subscribers := _ } := h
    exact h.put hc rfl fun _ => .inl rfl
  | committed =>
    refine h.set hc _ _ rfl fun r hr hcommitted => ?_
    cases hr
    cases hcommitted
  | releaseFailed e hpc =>
    refine h.put hc rfl fun _ => .inr fun row hrow => ?_
    simp only [tidy, hpc, Bool.not_eq_true'] at htidy
    exact committed_of_not htidy hrow
  | releaseKept e hpc o hrow => exact h.put hc rfl fun _ => .inr hrow
  | released => exact h.set hc none _ rfl (by rintro _ ⟨⟩)

theorem crash_held {server : ℕ} (h : Held w) (horderly : orderly w (.crash server) = true) : Held (crash w server) := by
  intro k row hrow hcommitted
  obtain ⟨c, hc, hholding, rfl⟩ := h k row hrow hcommitted
  have hcut : (crash w server).calls[row.holder]? = some (cut server c) := by
    change (w.calls.map (cut server))[row.holder]? = _
    rw [List.getElem?_map, hc, Option.map_some]
  have hcall := List.all_eq_true.mp horderly c (List.mem_of_getElem? hc)
  have huncommitted : uncommitted w c.push.key = true := by
    change w.admissions _ = _ at hrow
    simp [uncommitted, hrow, hcommitted]
  have hserver : ¬ c.server = server := by
    intro hserver
    simp [hserver, hholding, huncommitted] at hcall
  have hsame : cut server c = c := by
    unfold cut
    split
    · rfl
    · rw [if_neg hserver]
  exact ⟨c, hsame ▸ hcut, hholding, rfl⟩

theorem step_held {e : Event} (h : Held w) (horderly : orderly w e = true) (hstep : step sha256 w e = some w') :
    Held w' := by
  cases e with
  | push =>
    dsimp only [step] at hstep
    split at hstep
    · cases hstep
      exact h
    · cases hstep
      refine h.congr rfl fun j d hd => ?_
      exact (List.getElem?_append_left (List.getElem?_eq_some_iff.mp hd).1).trans hd
  | advance i input =>
    obtain ⟨c, hc, hpush⟩ := Option.bind_eq_some_iff.mp hstep
    have htidy : tidy w c input = true := by
      simpa [orderly, hc] using horderly
    exact advance_held h hc htidy (pushCheckpoint_advance hpush)
  | join | receive | leave | publish =>
    obtain ⟨sub, -, rfl⟩ := Option.map_eq_some_iff.mp hstep
    exact h
  | crash =>
    cases hstep
    exact crash_held h horderly

theorem held_initial : Held initial := by
  intro k row hrow
  cases hrow

theorem run_held {events : List Event} (horderly : meets (step sha256) orderly initial events = true)
    (hrun : run (step sha256) initial events = some w) : Held w :=
  run_invariant (fun _ _ _ h ho hs => step_held h ho hs) held_initial horderly hrun

end

variable {sha256 : Bytes → Bytes} {w w' : World} {i : ℕ} {c : Call}

def Proper (w : World) : Prop := ∀ d ∈ w.calls, d.pc ≠ .release inProgress

theorem Proper.set (h : Proper w) (c' : Call) (hcalls : w'.calls = w.calls.set i c') (hc' : c'.pc ≠ .release inProgress) :
    Proper w' := by
  intro d hd
  rw [hcalls] at hd
  rcases List.mem_or_eq_of_mem_set hd with hd | rfl
  · exact h d hd
  · exact hc'

theorem Proper.crash (h : Proper w) (server : ℕ) : Proper (crash w server) := by
  intro d hd
  obtain ⟨c, hc, rfl⟩ := List.mem_map.mp (show d ∈ w.calls.map (cut server) from hd)
  rcases cut_cases server c with heq | ⟨-, heq⟩
  · rw [heq]
    exact h c hc
  · rw [heq]
    nofun

theorem advance_proper {input : Input} (h : Proper w) (o : Advance sha256 w i c input w') : Proper w' := by
  cases o with
  | claimRefused | claimFound | claimed | claimLost | foundInProgress | found | snapshot | acknowledged | skipped | looked
  | sent | cancelled | releaseFailed | releaseKept | released =>
    refine h.set _ rfl ?_
    nofun
  | full | uncommitted =>
    refine h.set _ rfl ?_
    simp [inProgress, commitFailed]
  | committed hpc row hrow o pc hnext =>
    refine h.set _ rfl ?_
    rcases hnext with rfl | rfl
    · simp [inProgress, commitFailed]
    · nofun
  | panicked => exact h.crash _

theorem step_proper {e : Event} (h : Proper w) (hstep : step sha256 w e = some w') : Proper w' := by
  cases e with
  | push =>
    dsimp only [step] at hstep
    split at hstep
    · cases hstep
      exact h
    · cases hstep
      intro d hd
      rcases List.mem_append.mp hd with hd | hd
      · exact h d hd
      · cases List.mem_singleton.mp hd
        nofun
  | advance =>
    obtain ⟨c, -, hpush⟩ := Option.bind_eq_some_iff.mp hstep
    exact advance_proper h (pushCheckpoint_advance hpush)
  | join | receive | leave | publish =>
    obtain ⟨sub, -, rfl⟩ := Option.map_eq_some_iff.mp hstep
    exact h
  | crash server =>
    cases hstep
    exact h.crash server

theorem run_proper {events : List Event} (hrun : run (step sha256) initial events = some w) : Proper w :=
  run_preserves (fun _ _ _ h hs => step_proper h hs) (fun _ hd => absurd hd List.not_mem_nil) hrun

theorem refused_found {input : Input} {c' : Call} (h : Proper w) (hc : w.calls[i]? = some c)
    (o : Advance sha256 w i c input w') (hc' : w'.calls[i]? = some c')
    (hrefused : c'.pc = .done (some (.error inProgress))) :
    c.pc = .find ∧ ∃ row, w.admissions c.push.key = some row ∧ row.committed = false := by
  have hlt : i < w.calls.length := (List.getElem?_eq_some_iff.mp hc).1
  have hproper := h c (List.mem_of_getElem? hc)
  have known {d : Call} (hcalls : w'.calls = w.calls.set i d) : d.pc = .done (some (.error inProgress)) := by
    grind
  cases o with
  | foundInProgress hpc row hrow hcommitted => exact ⟨hpc, row, hrow, hcommitted⟩
  | found hpc o r hr =>
    have hpc' := known rfl
    cases hpc'
    exact absurd rfl hr
  | claimRefused | claimLost =>
    have hpc' := known rfl
    simp [answer, admissionFailed, inProgress] at hpc'
  | claimFound | claimed | snapshot | acknowledged | skipped | looked | sent | full | cancelled | uncommitted =>
    have hpc' := known rfl
    cases hpc'
  | committed hpc row hrow o pc hnext =>
    have hpc' := known rfl
    rcases hnext with rfl | rfl <;> cases hpc'
  | releaseFailed e hpc | releaseKept e hpc | released e hpc =>
    have hpc' := known rfl
    cases hpc'
    exact absurd hpc hproper
  | panicked =>
    change (w.calls.map (cut c.server))[i]? = some c' at hc'
    rw [List.getElem?_map, hc] at hc'
    cases hc'
    rcases cut_cases c.server c with heq | ⟨-, heq⟩
    · grind
    · rw [heq] at hrefused
      cases hrefused

/-- A push is refused as in progress only while another push of its event is running. -/
theorem run_not_stuck (sha256 : Bytes → Bytes) (events : List Event) (w w' : World)
    (horderly : meets (step sha256) orderly initial events = true) (hrun : run (step sha256) initial events = some w)
    (i : ℕ) (c c' : Call) (input : Input) (hc : w.calls[i]? = some c)
    (hstep : step sha256 w (.advance i input) = some w') (hc' : w'.calls[i]? = some c')
    (hrefused : c'.pc = .done (some (.error inProgress))) :
    ∃ (j : ℕ) (d : Call), j ≠ i ∧ w.calls[j]? = some d ∧ running d.pc = true ∧ d.push.key = c.push.key := by
  rw [step, hc] at hstep
  obtain ⟨hfind, row, hrow, hcommitted⟩ :=
    refused_found (run_proper hrun) hc (pushCheckpoint_advance hstep) hc' hrefused
  obtain ⟨d, hd, hholding, hkey⟩ := run_held horderly hrun _ row hrow hcommitted
  refine ⟨row.holder, d, fun hholder => ?_, hd, ?_, hkey⟩
  · rw [hholder, hc] at hd
    cases hd
    rw [hfind] at hholding
    cases hholding
  · cases hpc : d.pc with
    | done => rw [hpc] at hholding; cases hholding
    | _ => rfl

def crashedPush : List Event :=
  [pushSample, .advance 0 (.statement .ok), .crash 0, pushSample, .advance 1 (.statement .ok),
    .advance 1 (.statement .ok)]

theorem crashed_push_blocks : ∃ w, run (step id) initial crashedPush = some w ∧
      (w.calls.map fun c => (c.push.key, running c.pc)) =
        [(⟨[97], [98], [106], 7⟩, false), (⟨[97], [98], [106], 7⟩, false)] ∧
      ∃ c, w.calls[1]? = some c ∧ c.pc = .done (some (.error inProgress)) :=
  ⟨_, rfl, rfl, _, rfl, rfl⟩

def overlappingPush : List Event :=
  [pushSample, .advance 0 (.statement .ok), pushSample, .advance 1 (.statement .ok)]

theorem run_not_stuck_overlapping : meets (step id) orderly initial overlappingPush = true ∧
      ∃ w w' c', run (step id) initial overlappingPush = some w ∧
        step id w (.advance 1 (.statement .ok)) = some w' ∧ w'.calls[1]? = some c' ∧
        c'.pc = .done (some (.error inProgress)) ∧
        ∃ (j : ℕ) (d : Call), j ≠ 1 ∧ w.calls[j]? = some d ∧ running d.pc = true := by
  have hmeets : meets (step id) orderly initial overlappingPush = true := by decide +kernel
  have hrun : run (step id) initial overlappingPush = some _ := rfl
  refine ⟨hmeets, _, _, _, hrun, rfl, rfl, rfl, ?_⟩
  obtain ⟨j, d, hj, hd, hrunning, -⟩ :=
    run_not_stuck id overlappingPush _ _ hmeets hrun 1 _ _ (.statement .ok) rfl rfl rfl rfl
  exact ⟨j, d, hj, hd, hrunning⟩

end AstraSync.CheckpointAdmissions
