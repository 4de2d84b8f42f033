import AstraSync.Library.Transitions
import Mathlib.Data.List.Basic

namespace AstraSync.DebeziumSource

variable {R E : Type}

section

structure PendingBatch (E : Type) where
  batch : ℕ
  events : List E
  offsetRevision : ℕ
  acknowledged : Option Bool
  position : Option (Option ℕ)
  deriving DecidableEq

inductive Engine (E : Type)
  | idle
  | converted (events : List E)
  | putting (p : ℕ)
  | waiting (p : ℕ)
  | marking (next : ℕ) (pending : Option ℕ)
  | awaiting (p : ℕ)
  | stopped
  deriving DecidableEq

inductive Consumer
  | idle
  | polling
  | holding (p : ℕ)
  | confirming (p : ℕ)
  | obtaining (p : ℕ)
  deriving DecidableEq

/-- An offset counts the records of the stream up to the last one it covers. `delivered` and `returned` list what `poll`
and `acknowledge` returned. -/
structure Source (R E : Type) where
  closed : Bool
  handed : List (List R)
  (marked offsets revision : ℕ)
  offsetsClosed : Bool
  pendings : List (PendingBatch E)
  queue : List ℕ
  outstanding : Option ℕ
  terminalFailure : Bool
  engine : Engine E
  consumer : Consumer
  delivered : List ℕ
  returned : List (ℕ × ℕ)

def initial : Source R E := ⟨false, [], 0, 0, 0, false, [], [], none, false, .idle, .idle, [], []⟩

inductive Event (R : Type)
  | handOver (records : List R)
  | create
  | put
  | wake
  | mark
  | finishMarking
  | complete
  | fail
  | interrupt
  | completed
  | save (offset : ℕ)
  | poll
  | take
  | elapse
  | deliver
  | acknowledge (p : ℕ)
  | confirm
  | obtain
  | close
  | closeOffsets

def convertAll (convert : R → Except Unit (Option E)) : List R → Except Unit (List E)
  | [] => .ok []
  | r :: rs =>
    match convert r, convertAll convert rs with
    | .ok e, .ok es => .ok (e.toList ++ es)
    | _, _ => .error ()

def recordCount (handed : List (List R)) : ℕ := handed.flatten.length

def PendingBatch.acknowledge (p : PendingBatch E) (value : Bool) : PendingBatch E :=
  { p with acknowledged := p.acknowledged.or (some value) }

def PendingBatch.complete (p : PendingBatch E) (value : Option ℕ) : PendingBatch E :=
  { p with position := p.position.or (some value) }

variable (s : Source R E)

def update (p : ℕ) (change : PendingBatch E → PendingBatch E) : Source R E :=
  { s with pendings := s.pendings.modify p change }

def handleBatch (convert : R → Except Unit (Option E)) (records : List R) : Source R E :=
  let handed := s.handed ++ [records]
  match convertAll convert records with
  | .error _ => { s with handed, engine := .stopped }
  | .ok [] => { s with handed, engine := .marking (recordCount s.handed) none }
  | .ok events => { s with handed, engine := .converted events }

def create (events : List E) : Source R E :=
  { s with
    pendings := s.pendings ++ [⟨s.handed.length - 1, events, s.revision, none, none⟩]
    engine := .putting s.pendings.length }

def abandon (p : PendingBatch E) : PendingBatch E := (p.acknowledge false).complete none

def closeSource : Source R E :=
  { s with
    closed := true
    pendings := s.pendings.mapIdx fun p pending =>
      if s.outstanding = some p ∨ p ∈ s.queue then abandon pending else pending
    outstanding := none
    queue := [] }

def batchStart (handed : List (List R)) (i : ℕ) : ℕ := recordCount (handed.take i)

def step (convert : R → Except Unit (Option E)) (queuedBatches : ℕ) : Event R → Option (Source R E)
  | .handOver records =>
    match s.engine with
    | .idle => some (handleBatch s convert records)
    | _ => none
  | .create =>
    match s.engine with
    | .converted events => some (create s events)
    | _ => none
  | .put =>
    match s.engine with
    | .putting p =>
      if s.queue.length < queuedBatches then some { s with queue := s.queue ++ [p], engine := .waiting p } else none
    | _ => none
  | .wake =>
    match s.engine with
    | .waiting p =>
      match s.pendings[p]?.bind (·.acknowledged) with
      | none => none
      | some false => some { s with engine := .idle }
      | some true => some { s with engine := .marking (batchStart s.handed (s.handed.length - 1)) (some p) }
    | _ => none
  | .mark =>
    match s.engine with
    | .marking next pending =>
      if next < recordCount s.handed then some { s with marked := next + 1, engine := .marking (next + 1) pending }
      else none
    | _ => none
  | .finishMarking =>
    match s.engine with
    | .marking next pending =>
      if next < recordCount s.handed then none
      else some { s with engine := pending.elim .idle .awaiting }
    | _ => none
  | .complete =>
    match s.engine with
    | .awaiting p =>
      match s.pendings[p]? with
      | none => none
      | some pending =>
        if s.offsetsClosed then some { update s p (·.complete none) with engine := .stopped }
        else if pending.offsetRevision < s.revision then
          some { update s p (·.complete (some s.offsets)) with engine := .idle }
        else none
    | _ => none
  | .fail =>
    match s.engine with
    | .marking _ (some p) | .awaiting p => some { update s p (·.complete none) with engine := .stopped }
    | _ => none
  | .interrupt => some { s with engine := .stopped }
  | .completed =>
    match s.engine with
    | .stopped =>
      if s.closed then some s
      else some { s.queue.head?.elim s fun p => update s p (·.complete none) with terminalFailure := true }
    | _ => none
  | .save offset =>
    if offset ≤ s.marked then
      if s.offsetsClosed then some s else some { s with offsets := offset, revision := s.revision + 1 }
    else none
  | .poll =>
    if s.consumer = .idle ∧ s.closed = false ∧ s.terminalFailure = false ∧ s.outstanding = none then
      some { s with consumer := .polling }
    else none
  | .take =>
    match s.consumer, s.queue with
    | .polling, p :: queue => some { s with queue, consumer := .holding p }
    | _, _ => none
  | .elapse =>
    match s.consumer with
    | .polling | .obtaining _ => some { s with consumer := .idle }
    | _ => none
  | .deliver =>
    match s.consumer with
    | .holding p =>
      if s.closed then some { s with consumer := .idle }
      else some { s with outstanding := some p, delivered := s.delivered ++ [p], consumer := .idle }
    | _ => none
  | .acknowledge p =>
    if s.consumer = .idle ∧ s.closed = false ∧ s.outstanding = some p then
      some { s with consumer := .confirming p }
    else none
  | .confirm =>
    match s.consumer with
    | .confirming p => some { update s p (·.acknowledge true) with consumer := .obtaining p }
    | _ => none
  | .obtain =>
    match s.consumer with
    | .obtaining p =>
      match s.pendings[p]?.bind (·.position) with
      | none => none
      | some none => some { s with consumer := .idle }
      | some (some offset) =>
        some { s with outstanding := none, returned := s.returned ++ [(p, offset)], consumer := .idle }
    | _ => none
  | .close => if s.closed then some s else some (closeSource s)
  | .closeOffsets => if s.closed then some { s with offsetsClosed := true } else none

end

inductive Outcome (convert : R → Except Unit (Option E)) (queuedBatches : ℕ) (s : Source R E) : Source R E → Prop
  | refused {records : List R} (hengine : s.engine = .idle) (hconvert : convertAll convert records = .error ()) :
    Outcome convert queuedBatches s { s with handed := s.handed ++ [records], engine := .stopped }
  | empty {records : List R} (hengine : s.engine = .idle) (hconvert : convertAll convert records = .ok []) :
    Outcome convert queuedBatches s
      { s with handed := s.handed ++ [records], engine := .marking (recordCount s.handed) none }
  | converted {records : List R} {events : List E} (hengine : s.engine = .idle)
    (hconvert : convertAll convert records = .ok events) (hevents : events ≠ []) :
    Outcome convert queuedBatches s { s with handed := s.handed ++ [records], engine := .converted events }
  | create {events : List E} (hengine : s.engine = .converted events) : Outcome convert queuedBatches s (create s events)
  | put {p : ℕ} (hengine : s.engine = .putting p) :
    Outcome convert queuedBatches s { s with queue := s.queue ++ [p], engine := .waiting p }
  | wakeRefused {p : ℕ} {b : PendingBatch E} (hengine : s.engine = .waiting p) (hp : s.pendings[p]? = some b)
    (hb : b.acknowledged = some false) : Outcome convert queuedBatches s { s with engine := .idle }
  | wake {p : ℕ} {b : PendingBatch E} (hengine : s.engine = .waiting p) (hp : s.pendings[p]? = some b)
    (hb : b.acknowledged = some true) :
    Outcome convert queuedBatches s
      { s with engine := .marking (batchStart s.handed (s.handed.length - 1)) (some p) }
  | mark {next : ℕ} {pending : Option ℕ} (hengine : s.engine = .marking next pending)
    (hnext : next < recordCount s.handed) :
    Outcome convert queuedBatches s { s with marked := next + 1, engine := .marking (next + 1) pending }
  | passed {next : ℕ} (hengine : s.engine = .marking next none) :
    Outcome convert queuedBatches s { s with engine := .idle }
  | finishMarking {next p : ℕ} (hengine : s.engine = .marking next (some p)) :
    Outcome convert queuedBatches s { s with engine := .awaiting p }
  | complete {p : ℕ} {b : PendingBatch E} (hengine : s.engine = .awaiting p) (hp : s.pendings[p]? = some b) :
    Outcome convert queuedBatches s { update s p (·.complete (some s.offsets)) with engine := .idle }
  | fail {p : ℕ} (hengine : (∃ next, s.engine = .marking next (some p)) ∨ s.engine = .awaiting p) :
    Outcome convert queuedBatches s { update s p (·.complete none) with engine := .stopped }
  | interrupt : Outcome convert queuedBatches s { s with engine := .stopped }
  | same : Outcome convert queuedBatches s s
  | terminated : Outcome convert queuedBatches s { s with terminalFailure := true }
  | completed {p : ℕ} : Outcome convert queuedBatches s { update s p (·.complete none) with terminalFailure := true }
  | save {offset : ℕ} (hoffset : offset ≤ s.marked) :
    Outcome convert queuedBatches s { s with offsets := offset, revision := s.revision + 1 }
  | poll (hconsumer : s.consumer = .idle) (hclosed : s.closed = false) (houtstanding : s.outstanding = none) :
    Outcome convert queuedBatches s { s with consumer := .polling }
  | take {p : ℕ} {queue : List ℕ} (hconsumer : s.consumer = .polling) (hqueue : s.queue = p :: queue) :
    Outcome convert queuedBatches s { s with queue, consumer := .holding p }
  | turn (hconsumer : ∀ p, s.consumer = .holding p → s.closed = true) :
    Outcome convert queuedBatches s { s with consumer := .idle }
  | deliver {p : ℕ} (hconsumer : s.consumer = .holding p) (hclosed : s.closed = false) :
    Outcome convert queuedBatches s
      { s with outstanding := some p, delivered := s.delivered ++ [p], consumer := .idle }
  | acknowledge {p : ℕ} (hconsumer : s.consumer = .idle) (hclosed : s.closed = false)
    (houtstanding : s.outstanding = some p) : Outcome convert queuedBatches s { s with consumer := .confirming p }
  | confirm {p : ℕ} (hconsumer : s.consumer = .confirming p) :
    Outcome convert queuedBatches s { update s p (·.acknowledge true) with consumer := .obtaining p }
  | obtain {p offset : ℕ} {b : PendingBatch E} (hconsumer : s.consumer = .obtaining p) (hp : s.pendings[p]? = some b)
    (hb : b.position = some (some offset)) :
    Outcome convert queuedBatches s
      { s with outstanding := none, returned := s.returned ++ [(p, offset)], consumer := .idle }
  | close : Outcome convert queuedBatches s (closeSource s)
  | closeOffsets : Outcome convert queuedBatches s { s with offsetsClosed := true }

variable {s t : Source R E} {convert : R → Except Unit (Option E)} {queuedBatches : ℕ} {event : Event R}

theorem handOver_outcome {records : List R} (hstep : step s convert queuedBatches (.handOver records) = some t) :
    Outcome convert queuedBatches s t := by
  dsimp only [step] at hstep
  split at hstep
  · next hengine =>
    cases hstep
    unfold handleBatch
    split
    · next hconvert => exact .refused hengine hconvert
    · next hconvert => exact .empty hengine hconvert
    · next events hne hconvert => exact .converted hengine hconvert fun h => hne (h ▸ rfl)
  · cases hstep

theorem put_outcome (hstep : step s convert queuedBatches .put = some t) : Outcome convert queuedBatches s t := by
  dsimp only [step] at hstep
  split at hstep
  · next hengine =>
    split at hstep
    · cases hstep
      exact .put hengine
    · cases hstep
  · cases hstep

theorem wake_outcome (hstep : step s convert queuedBatches .wake = some t) : Outcome convert queuedBatches s t := by
  dsimp only [step] at hstep
  split at hstep
  · next hengine =>
    split at hstep
    · cases hstep
    · next hb =>
      obtain ⟨b, hp, hb⟩ := Option.bind_eq_some_iff.mp hb
      cases hstep
      exact .wakeRefused hengine hp hb
    · next hb =>
      obtain ⟨b, hp, hb⟩ := Option.bind_eq_some_iff.mp hb
      cases hstep
      exact .wake hengine hp hb
  · cases hstep

theorem marking_outcome (hevent : event = .mark ∨ event = .finishMarking)
    (hstep : step s convert queuedBatches event = some t) : Outcome convert queuedBatches s t := by
  rcases hevent with rfl | rfl
  · dsimp only [step] at hstep
    split at hstep
    · next hengine =>
      split at hstep
      · next hnext =>
        cases hstep
        exact .mark hengine hnext
      · cases hstep
    · cases hstep
  · dsimp only [step] at hstep
    split at hstep
    · next next pending hengine =>
      split at hstep
      · cases hstep
      · cases hstep
        cases pending with
        | none => exact .passed hengine
        | some => exact .finishMarking hengine
    · cases hstep

theorem complete_outcome (hstep : step s convert queuedBatches .complete = some t) :
    Outcome convert queuedBatches s t := by
  dsimp only [step] at hstep
  split at hstep
  · next p hengine =>
    split at hstep
    · cases hstep
    · next b hp =>
      split at hstep
      · cases hstep
        exact .fail (.inr hengine)
      · split at hstep
        · cases hstep
          exact .complete hengine hp
        · cases hstep
  · cases hstep

theorem completed_outcome (hstep : step s convert queuedBatches .completed = some t) :
    Outcome convert queuedBatches s t := by
  dsimp only [step] at hstep
  split at hstep
  · split at hstep
    · cases hstep
      exact .same
    · cases hstep
      cases s.queue.head? with
      | none => exact .terminated
      | some => exact .completed
  · cases hstep

theorem save_outcome {offset : ℕ} (hstep : step s convert queuedBatches (.save offset) = some t) :
    Outcome convert queuedBatches s t := by
  dsimp only [step] at hstep
  split at hstep
  · next hoffset =>
    split at hstep
    · cases hstep
      exact .same
    · cases hstep
      exact .save hoffset
  · cases hstep

theorem deliver_outcome (hstep : step s convert queuedBatches .deliver = some t) :
    Outcome convert queuedBatches s t := by
  dsimp only [step] at hstep
  split at hstep
  · next hconsumer =>
    split at hstep
    · next hclosed =>
      cases hstep
      exact .turn fun _ _ => hclosed
    · next hclosed =>
      cases hstep
      exact .deliver hconsumer (Bool.eq_false_iff.mpr hclosed)
  · cases hstep

theorem obtain_outcome (hstep : step s convert queuedBatches .obtain = some t) :
    Outcome convert queuedBatches s t := by
  dsimp only [step] at hstep
  split at hstep
  · next p hconsumer =>
    split at hstep
    · cases hstep
    · cases hstep
      exact .turn (by simp [hconsumer])
    · next hb =>
      obtain ⟨b, hp, hb⟩ := Option.bind_eq_some_iff.mp hb
      cases hstep
      exact .obtain hconsumer hp hb
  · cases hstep

theorem step_outcome (hstep : step s convert queuedBatches event = some t) : Outcome convert queuedBatches s t := by
  cases event with
  | handOver => exact handOver_outcome hstep
  | put => exact put_outcome hstep
  | wake => exact wake_outcome hstep
  | mark => exact marking_outcome (.inl rfl) hstep
  | finishMarking => exact marking_outcome (.inr rfl) hstep
  | complete => exact complete_outcome hstep
  | completed => exact completed_outcome hstep
  | save => exact save_outcome hstep
  | deliver => exact deliver_outcome hstep
  | obtain => exact obtain_outcome hstep
  | interrupt =>
    cases hstep
    exact .interrupt
  | create =>
    dsimp only [step] at hstep
    split at hstep <;> cases hstep
    exact .create ‹_›
  | fail =>
    dsimp only [step] at hstep
    split at hstep <;> cases hstep
    · exact .fail (.inl ⟨_, ‹_›⟩)
    · exact .fail (.inr ‹_›)
  | poll =>
    dsimp only [step] at hstep
    split at hstep <;> cases hstep
    next h => exact .poll h.1 h.2.1 h.2.2.2
  | take =>
    dsimp only [step] at hstep
    split at hstep <;> cases hstep
    exact .take ‹_› ‹_›
  | elapse =>
    dsimp only [step] at hstep
    split at hstep <;> cases hstep
    all_goals next hconsumer => exact .turn (by simp [hconsumer])
  | acknowledge =>
    dsimp only [step] at hstep
    split at hstep <;> cases hstep
    next h => exact .acknowledge h.1 h.2.1 h.2.2
  | confirm =>
    dsimp only [step] at hstep
    split at hstep <;> cases hstep
    exact .confirm ‹_›
  | close =>
    dsimp only [step] at hstep
    split at hstep <;> cases hstep
    · exact .same
    · exact .close
  | closeOffsets =>
    dsimp only [step] at hstep
    split at hstep <;> cases hstep
    exact .closeOffsets

end AstraSync.DebeziumSource
