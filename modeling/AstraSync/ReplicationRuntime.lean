import AstraSync.Library.Transitions
import AstraSync.Library.Slots

namespace AstraSync.ReplicationRuntime

open Transitions

section

inductive State
  | created
  | starting
  | running
  | closed
  | failed
  deriving DecidableEq

inductive Failure
  | channel
  | progress
  deriving DecidableEq

inductive StartError
  | closed
  | context
  | connect (cause : Failure)
  deriving DecidableEq

inductive StartPc
  | enter
  | waiting (attempt : ℕ)
  | connecting
  | finish (err : Option Failure) (closed : Bool)
  | store (state : State) (answer : Option StartError)
  | done (answer : Option StartError)
  deriving DecidableEq

inductive ClosePc
  | enter
  | awaitWatcher
  | readStart
  | awaitReplication
  | done
  deriving DecidableEq

inductive ReplicatorPc
  | idle
  | running
  | failed
  | checked (closed : Bool)
  | reported
  | ended
  deriving DecidableEq

structure Config where
  (replicates progress : Bool)

structure Runtime where
  state : State
  (started starting closed : Bool)
  attempts : ℕ
  (watcherDone replicationStart : Bool)
  replicator : ReplicatorPc
  starts : List StartPc
  closes : List ClosePc

def initial : Runtime := ⟨.created, false, false, false, 0, false, false, .idle, [], []⟩

def ready (r : Runtime) : Bool := r.state = .running

variable (cfg : Config) (r : Runtime) (i : ℕ)

def put (pc : StartPc) : Runtime := { r with starts := r.starts.set i pc }

def enterStart : Runtime :=
  if r.closed then put r i (.done (some .closed))
  else if r.started then put r i (.done none)
  else if r.starting then put r i (.waiting r.attempts)
  else put { r with starting := true, state := .starting, attempts := r.attempts + 1 } i .connecting

def connected (err : Option Failure) (loaded : Bool) : Runtime :=
  let r := { r with starting := false }
  match err with
  | some e => put r i (.finish (some e) r.closed)
  | none =>
    if r.closed then put r i (.finish none true)
    else if !cfg.replicates then put { r with started := true, replicationStart := true } i (.finish none false)
    else if cfg.progress && !loaded then put { r with started := false } i (.finish (some .progress) false)
    else
      put { r with started := true, replicationStart := true, replicator := .running } i (.finish none false)

def finishStart (err : Option Failure) (closed : Bool) : StartPc :=
  match err with
  | some e => .store .failed (some (.connect e))
  | none =>
    if closed then .store .closed (some .closed)
    else if !r.started then .store .failed none
    else .store .running none

inductive Input
  | go
  | contextDone
  | connect (connected loaded : Bool)

def start (pc : StartPc) : Input → Option Runtime
  | .go =>
    match pc with
    | .enter => some (enterStart r i)
    | .waiting attempt => if attempt < r.attempts || !r.starting then some (put r i .enter) else none
    | .finish err closed => some (put r i (finishStart r err closed))
    | .store state answer => some (put { r with state } i (.done answer))
    | _ => none
  | .contextDone =>
    match pc with
    | .waiting _ => some (put r i (.done (some .context)))
    | _ => none
  | .connect success loaded =>
    match pc with
    | .connecting => some (connected cfg r i (if success then none else some .channel) loaded)
    | _ => none

def replicationDone : Bool :=
  match r.replicator with
  | .idle => !cfg.replicates
  | .reported | .ended => true
  | _ => false

def close (j : ℕ) : ClosePc → Option Runtime
  | .enter =>
    if r.closed then some { r with closes := r.closes.set j .done }
    else some { r with closed := true, state := .closed, closes := r.closes.set j .awaitWatcher }
  | .awaitWatcher => if r.watcherDone then some { r with closes := r.closes.set j .readStart } else none
  | .readStart =>
    some { r with closes := r.closes.set j (if r.replicationStart then .awaitReplication else .done) }
  | .awaitReplication => if replicationDone cfg r then some { r with closes := r.closes.set j .done } else none
  | .done => none

inductive RunEnd
  | stopped
  | failure

def runReplicator : Option Runtime :=
  match r.replicator with
  | .failed => some { r with replicator := .checked r.closed }
  | .checked true => some { r with replicator := .reported }
  | .checked false => some { r with replicator := .reported, state := .failed }
  | _ => none

inductive Event
  | start
  | startStep (i : ℕ) (input : Input)
  | close
  | closeStep (j : ℕ)
  | watchCancellation
  | replicatorEnds (e : RunEnd)
  | runReplicator

def step : Event → Option Runtime
  | .start => some { r with starts := r.starts ++ [.enter] }
  | .startStep i input => r.starts[i]?.bind fun pc => start cfg r i pc input
  | .close => some { r with closes := r.closes ++ [.enter] }
  | .closeStep j => r.closes[j]?.bind fun pc => close cfg r j pc
  | .watchCancellation => if r.closed && !r.watcherDone then some { r with watcherDone := true } else none
  | .replicatorEnds e =>
    match r.replicator, e with
    | .running, .stopped => some { r with replicator := .ended }
    | .running, .failure => some { r with replicator := .failed }
    | _, _ => none
  | .runReplicator => runReplicator r

end

variable {cfg : Config} {r r' : Runtime} {i : ℕ}

def succeeding : StartPc → Bool
  | .finish none false => true
  | .store .running _ => true
  | _ => false

/-- No `Close` takes the mutex and no failure of the replicator is stored before the running state of a successful
`Start` is. -/
def ordered (r : Runtime) : Event → Bool
  | .closeStep j =>
    match r.closes[j]? with
    | some .enter => r.closed || r.starts.all (!succeeding ·)
    | _ => true
  | .runReplicator =>
    match r.replicator with
    | .checked _ => r.starts.all (!succeeding ·)
    | _ => true
  | _ => true

structure Attempts (r : Runtime) : Prop where
  one : ∀ (i j : ℕ), r.starts[i]? = some .connecting → r.starts[j]? = some .connecting → i = j
  starting : ∀ (i : ℕ), r.starts[i]? = some .connecting → r.starting = true ∧ r.started = false
  replicator : r.replicator ≠ .idle → r.started = true

def isOver (r : Runtime) : Prop := r.closed = true ∨ r.replicator = .reported

structure Quiet (r : Runtime) : Prop where
  state : isOver r → r.state ≠ .running
  starts : isOver r → ∀ pc ∈ r.starts, succeeding pc = false
  closes : ∀ pc ∈ r.closes, pc ≠ .enter → r.closed = true
  checked : r.replicator = .checked true → r.closed = true

theorem Attempts.put (h : Attempts r) {old pc : StartPc} (hi : r.starts[i]? = some old) (hpc : pc ≠ .connecting) :
    Attempts (put r i pc) := by
  have back {j : ℕ} (hj : (r.starts.set i pc)[j]? = some .connecting) : r.starts[j]? = some .connecting := by
    grind
  exact ⟨fun j k hj hk => h.one j k (back hj) (back hk), fun j hj => h.starting j (back hj), h.replicator⟩

theorem Attempts.ended (h : Attempts r) (hi : r.starts[i]? = some .connecting) {pc : StartPc}
    (hstarts : r'.starts = r.starts.set i pc) (hpc : pc ≠ .connecting)
    (hreplicator : r'.replicator ≠ .idle → r'.started = true) : Attempts r' := by
  have none (j : ℕ) : r'.starts[j]? ≠ some .connecting := by
    intro hj
    rw [hstarts] at hj
    rcases (Slots.getElem?_set hi).mp hj with ⟨-, heq⟩ | ⟨hne, hj⟩
    · exact hpc heq
    · exact hne (h.one j i hj hi)
  exact ⟨fun j _ hj => absurd hj (none j), fun j hj => absurd hj (none j), hreplicator⟩

theorem Attempts.idle (h : Attempts r) (hi : r.starts[i]? = some .connecting) : r.replicator = .idle := by
  by_contra hidle
  have hstarted := (h.starting i hi).2
  rw [h.replicator hidle] at hstarted
  cases hstarted

theorem Quiet.put (h : Quiet r) (pc : StartPc) (hpc : isOver r → succeeding pc = false) : Quiet (put r i pc) := by
  refine ⟨h.state, fun hover d hd => ?_, h.closes, h.checked⟩
  rcases List.mem_or_eq_of_mem_set hd with hd | rfl
  · exact h.starts hover d hd
  · exact hpc hover

theorem quiet_of_not_over (h : Quiet r) (hclosed : r'.closed = r.closed) (hcloses : r'.closes = r.closes)
    (hover : ¬ isOver r') (hchecked : r'.replicator ≠ .checked true) : Quiet r' where
  state h := absurd h hover
  starts h := absurd h hover
  closes := by
    rw [hclosed, hcloses]
    exact h.closes
  checked h := absurd h hchecked

structure Inv (r : Runtime) : Prop where
  attempts : Attempts r
  quiet : Quiet r

theorem Inv.put (h : Inv r) {old pc : StartPc} (hi : r.starts[i]? = some old) (hpc : pc ≠ .connecting)
    (hover : isOver r → succeeding pc = false) : Inv (put r i pc) :=
  ⟨h.attempts.put hi hpc, h.quiet.put pc hover⟩

theorem enterStart_inv (h : Inv r) (hi : r.starts[i]? = some .enter) : Inv (enterStart r i) := by
  unfold enterStart
  split
  · exact h.put hi nofun fun _ => rfl
  · split
    · exact h.put hi nofun fun _ => rfl
    · next hclosed hstarted =>
      split
      · exact h.put hi nofun fun _ => rfl
      · next hstarting =>
        have none (j : ℕ) : r.starts[j]? ≠ some .connecting := fun hj => hstarting (h.attempts.starting j hj).1
        have only {j : ℕ} (hj : (r.starts.set i .connecting)[j]? = some .connecting) : j = i := by
          grind
        have hstarted : r.started = false := by simpa using hstarted
        refine ⟨⟨fun j k hj hk => (only hj).trans (only hk).symm, fun _ _ => ⟨rfl, hstarted⟩, h.attempts.replicator⟩, ?_⟩
        have hquiet : Quiet { r with starting := true, state := .starting, attempts := r.attempts + 1 } :=
          ⟨nofun, h.quiet.starts, h.quiet.closes, h.quiet.checked⟩
        exact hquiet.put _ fun _ => rfl

theorem connected_inv (h : Inv r) (hi : r.starts[i]? = some .connecting) (err : Option Failure) (loaded : Bool) :
    Inv (connected cfg r i err loaded) := by
  have hidle := h.attempts.idle hi
  have hquiet : Quiet { r with starting := false } :=
    ⟨h.quiet.state, h.quiet.starts, h.quiet.closes, h.quiet.checked⟩
  dsimp only [connected]
  split
  · exact ⟨h.attempts.ended hi rfl nofun h.attempts.replicator, hquiet.put _ fun _ => rfl⟩
  · split
    · exact ⟨h.attempts.ended hi rfl nofun h.attempts.replicator, hquiet.put _ fun _ => rfl⟩
    · next hclosed =>
      split
      · refine ⟨h.attempts.ended hi rfl nofun fun _ => rfl, quiet_of_not_over h.quiet rfl rfl ?_ ?_⟩
        · rintro (hover | hover)
          · exact hclosed hover
          · exact absurd (hidle.symm.trans hover) nofun
        · exact fun hchecked => absurd (hidle.symm.trans hchecked) nofun
      · split
        · refine ⟨h.attempts.ended hi rfl nofun fun hne => absurd hidle hne, ?_⟩
          have hquiet : Quiet { r with starting := false, started := false } :=
            ⟨h.quiet.state, h.quiet.starts, h.quiet.closes, h.quiet.checked⟩
          exact hquiet.put _ fun _ => rfl
        · refine ⟨h.attempts.ended hi rfl nofun fun _ => rfl, quiet_of_not_over h.quiet rfl rfl ?_ nofun⟩
          rintro (hover | hover)
          · exact hclosed hover
          · cases hover

theorem finishStart_succeeding {err : Option Failure} {closed : Bool}
    (h : succeeding (.finish err closed) = false) : succeeding (finishStart r err closed) = false := by
  unfold finishStart
  cases err with
  | some => rfl
  | none =>
    cases closed with
    | true => rfl
    | false => cases h

theorem start_inv {pc : StartPc} {input : Input} (h : Inv r) (hi : r.starts[i]? = some pc)
    (hstep : start cfg r i pc input = some r') : Inv r' := by
  unfold start at hstep
  split at hstep
  · split at hstep
    · cases hstep
      exact enterStart_inv h hi
    · split at hstep <;> cases hstep
      exact h.put hi nofun fun _ => rfl
    · cases hstep
      refine h.put hi ?_ fun hover => finishStart_succeeding (h.quiet.starts hover _ (List.mem_of_getElem? hi))
      unfold finishStart
      split
      · nofun
      · split_ifs <;> nofun
    · next state answer =>
      cases hstep
      refine ⟨Attempts.put (r := { r with state }) ⟨h.attempts.one, h.attempts.starting, h.attempts.replicator⟩ hi nofun, ?_⟩
      have hquiet : Quiet { r with state } := by
        refine ⟨fun hover => ?_, h.quiet.starts, h.quiet.closes, h.quiet.checked⟩
        rintro rfl
        exact absurd (h.quiet.starts hover _ (List.mem_of_getElem? hi)) nofun
      exact hquiet.put _ fun _ => rfl
    · cases hstep
  · split at hstep
    · cases hstep
      exact h.put hi nofun fun _ => rfl
    · cases hstep
  · grind [connected_inv]

theorem close_inv {j : ℕ} {pc : ClosePc} (h : Inv r) (hj : r.closes[j]? = some pc)
    (hordered : ordered r (.closeStep j) = true) (hstep : close cfg r j pc = some r') : Inv r' := by
  have keep {d : ClosePc} (hclosed : r.closed = true) : Inv { r with closes := r.closes.set j d } :=
    ⟨⟨h.attempts.one, h.attempts.starting, h.attempts.replicator⟩,
      h.quiet.state, h.quiet.starts, fun _ _ _ => hclosed, h.quiet.checked⟩
  have past (hpc : pc ≠ .enter) : r.closed = true := h.quiet.closes pc (List.mem_of_getElem? hj) hpc
  unfold close at hstep
  split at hstep
  · split at hstep
    · grind
    · next hclosed =>
      cases hstep
      have hnone : ∀ pc ∈ r.starts, succeeding pc = false := by
        simpa [ordered, hj, hclosed] using hordered
      exact ⟨⟨h.attempts.one, h.attempts.starting, h.attempts.replicator⟩,
        nofun, fun _ => hnone, fun _ _ _ => rfl, fun _ => rfl⟩
  · split at hstep <;> cases hstep
    exact keep (past nofun)
  · cases hstep
    exact keep (past nofun)
  · split at hstep <;> cases hstep
    exact keep (past nofun)
  · cases hstep

theorem runReplicator_inv (h : Inv r) (hordered : ordered r .runReplicator = true)
    (hstep : runReplicator r = some r') : Inv r' := by
  unfold runReplicator at hstep
  have none {closed : Bool} (hchecked : r.replicator = .checked closed) : ∀ pc ∈ r.starts, succeeding pc = false := by
    simpa [ordered, hchecked] using hordered
  have stored {closed : Bool} (hchecked : r.replicator = .checked closed) : r.started = true :=
    h.attempts.replicator (by rw [hchecked]; nofun)
  split at hstep
  · next hfailed =>
    cases hstep
    refine ⟨⟨h.attempts.one, h.attempts.starting, fun _ => h.attempts.replicator (by rw [hfailed]; nofun)⟩,
      fun hover => ?_, fun hover => ?_, h.quiet.closes, fun heq => ?_⟩
    · exact h.quiet.state (.inl (hover.resolve_right nofun))
    · exact h.quiet.starts (.inl (hover.resolve_right nofun))
    · exact ReplicatorPc.checked.inj heq
  · next hchecked =>
    cases hstep
    exact ⟨⟨h.attempts.one, h.attempts.starting, fun _ => stored hchecked⟩,
      fun _ => h.quiet.state (.inl (h.quiet.checked hchecked)), fun _ => none hchecked, h.quiet.closes, nofun⟩
  · next hchecked =>
    cases hstep
    exact ⟨⟨h.attempts.one, h.attempts.starting, fun _ => stored hchecked⟩,
      nofun, fun _ => none hchecked, h.quiet.closes, nofun⟩
  · cases hstep

theorem step_inv {e : Event} (h : Inv r) (hordered : ordered r e = true) (hstep : step cfg r e = some r') : Inv r' := by
  cases e with
  | start =>
    cases hstep
    have back {j : ℕ} (hj : (r.starts ++ [.enter])[j]? = some .connecting) : r.starts[j]? = some .connecting :=
      (Slots.getElem?_snoc.mp hj).resolve_right fun heq => absurd heq.2 nofun
    refine ⟨⟨fun j k hj hk => h.attempts.one j k (back hj) (back hk), fun j hj => h.attempts.starting j (back hj),
      h.attempts.replicator⟩, h.quiet.state, fun hover pc hpc => ?_, h.quiet.closes, h.quiet.checked⟩
    rcases List.mem_append.mp hpc with hpc | hpc
    · exact h.quiet.starts hover pc hpc
    · cases List.mem_singleton.mp hpc
      rfl
  | startStep =>
    obtain ⟨pc, hi, hstart⟩ := Option.bind_eq_some_iff.mp hstep
    exact start_inv h hi hstart
  | close =>
    cases hstep
    refine ⟨⟨h.attempts.one, h.attempts.starting, h.attempts.replicator⟩, h.quiet.state, h.quiet.starts,
      fun pc hpc hne => ?_, h.quiet.checked⟩
    rcases List.mem_append.mp hpc with hpc | hpc
    · exact h.quiet.closes pc hpc hne
    · exact absurd (List.mem_singleton.mp hpc) hne
  | closeStep =>
    obtain ⟨pc, hj, hclose⟩ := Option.bind_eq_some_iff.mp hstep
    exact close_inv h hj hordered hclose
  | watchCancellation =>
    dsimp only [step] at hstep
    split at hstep <;> cases hstep
    exact ⟨⟨h.attempts.one, h.attempts.starting, h.attempts.replicator⟩, h.quiet.state, h.quiet.starts, h.quiet.closes,
      h.quiet.checked⟩
  | replicatorEnds =>
    dsimp only [step] at hstep
    split at hstep <;> cases hstep
    case h_1 hrunning | h_2 hrunning =>
      exact ⟨⟨h.attempts.one, h.attempts.starting, fun _ => h.attempts.replicator (by rw [hrunning]; nofun)⟩,
        fun hover => h.quiet.state (.inl (hover.resolve_right nofun)),
        fun hover => h.quiet.starts (.inl (hover.resolve_right nofun)), h.quiet.closes, nofun⟩
  | runReplicator => exact runReplicator_inv h hordered hstep

theorem inv_initial : Inv initial :=
  ⟨⟨nofun, nofun, nofun⟩, nofun, nofun, nofun, nofun⟩

/-- Behind a `Close` that has returned, or a failure the replicator has reported, the runtime is not ready. -/
theorem run_not_ready (cfg : Config) (events : List Event) (r : Runtime)
    (hordered : meets (step cfg) ordered initial events = true) (hrun : run (step cfg) initial events = some r)
    (hover : .done ∈ r.closes ∨ r.replicator = .reported) : ready r = false := by
  have h : Inv r := run_invariant (fun _ _ _ h ho hs => step_inv h ho hs) inv_initial hordered hrun
  have hover : isOver r := by
    rcases hover with hclose | hreported
    · exact .inl (h.quiet.closes _ hclose nofun)
    · exact .inr hreported
  simpa [ready] using h.quiet.state hover

def lateStart : List Event :=
  [.start, .startStep 0 .go, .startStep 0 (.connect true true), .startStep 0 .go, .close, .closeStep 0,
    .watchCancellation, .replicatorEnds .stopped, .closeStep 0, .closeStep 0, .closeStep 0, .startStep 0 .go]

theorem late_start_ready :
    ∃ r, run (step ⟨true, false⟩) initial lateStart = some r ∧ r.closes = [.done] ∧ ready r = true :=
  ⟨_, rfl, rfl, rfl⟩

def failingReplicator : List Event :=
  [.start, .start, .startStep 0 .go, .startStep 1 .go, .startStep 0 (.connect true true), .startStep 1 .go,
    .startStep 1 .go, .startStep 0 .go, .startStep 0 .go, .replicatorEnds .failure, .runReplicator, .runReplicator,
    .close, .closeStep 0, .watchCancellation, .closeStep 0, .closeStep 0, .closeStep 0]

theorem run_not_ready_failing : meets (step ⟨true, true⟩) ordered initial failingReplicator = true ∧
      ∃ r, run (step ⟨true, true⟩) initial failingReplicator = some r ∧ r.replicator = .reported ∧ ready r = false := by
  have hmeets : meets (step ⟨true, true⟩) ordered initial failingReplicator = true := by decide
  have hrun : run (step ⟨true, true⟩) initial failingReplicator = some _ := rfl
  exact ⟨hmeets, _, hrun, rfl, run_not_ready ⟨true, true⟩ failingReplicator _ hmeets hrun (.inr rfl)⟩

end AstraSync.ReplicationRuntime
