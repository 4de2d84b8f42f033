import AstraSync.Library.Transitions
import Mathlib.Algebra.GroupWithZero.Nat
import Mathlib.Algebra.Order.BigOperators.Group.List
import Mathlib.Algebra.Order.Group.Nat

namespace AstraSync.SpillAccounting

open Transitions

/-- `written` counts the bytes of the file so far; `deleted` keeps the size that the call is about to release. -/
inductive Stage
  | encoded
  | written (bytes : ℕ)
  | queued
  | taken
  | deleted (held : ℕ)
  | drained
  | discharged
  | gone
  deriving DecidableEq

structure Frame where
  size : ℕ
  stage : Stage
  deriving DecidableEq

structure State where
  reservedBytes : ℕ
  frames : List Frame
  closed : Bool
  orphans : ℕ
  deriving DecidableEq

/-- `delete` and `release` end a publish that failed as well as a receive; `removed` and `sized` tell whether the file
could be deleted and its size be read. -/
inductive Action
  | reserve
  | abandon
  | write (bytes : ℕ)
  | enqueue
  | take
  | delete (removed sized : Bool)
  | release
  | drain
  | discharge (sized : Bool)
  | remove (removed : Bool)

def act (maxBytes : ℕ) (s : State) (f : Frame) (a : Action) : Option (ℕ × Stage × ℕ) :=
  match a, f.stage with
  | .reserve, .encoded =>
    if s.closed = false ∧ s.reservedBytes + f.size ≤ maxBytes then some (s.reservedBytes + f.size, .written 0, 0) else none
  -- the finally block releases the size of the payload, whether it was reserved or not
  | .abandon, .encoded => some (s.reservedBytes - f.size, .gone, 0)
  | .write bytes, .written _ => if bytes ≤ f.size then some (s.reservedBytes, .written bytes, 0) else none
  | .enqueue, .written bytes =>
    if s.closed = false ∧ bytes = f.size then some (s.reservedBytes, .queued, 0) else none
  | .delete removed _, .written bytes => some (s.reservedBytes, .deleted f.size, if removed then 0 else bytes)
  | .take, .queued => some (s.reservedBytes, .taken, 0)
  | .delete removed sized, .taken =>
    some (s.reservedBytes, .deleted (if sized then f.size else 0), if removed then 0 else f.size)
  | .release, .deleted held => some (s.reservedBytes - held, .gone, 0)
  | .drain, .queued => if s.closed then some (s.reservedBytes, .drained, 0) else none
  | .discharge sized, .drained => some (s.reservedBytes - (if sized then f.size else 0), .discharged, 0)
  | .remove removed, .discharged => some (s.reservedBytes, .gone, if removed then 0 else f.size)
  | _, _ => none

inductive Event
  | publish (size : ℕ)
  | close
  | act (i : ℕ) (a : Action)

def step (maxBytes : ℕ) (s : State) : Event → Option State
  | .publish size => if size ≤ maxBytes then some { s with frames := s.frames ++ [⟨size, .encoded⟩] } else none
  | .close => some { s with closed := true }
  | .act i a => do
    let f ← s.frames[i]?
    let (reservedBytes, stage, left) ← act maxBytes s f a
    return { s with reservedBytes, frames := s.frames.set i { f with stage }, orphans := s.orphans + left }

def start : State := ⟨0, [], false, 0⟩

def Frame.reserved (f : Frame) : ℕ :=
  match f.stage with
  | .written _ | .queued | .taken | .drained => f.size
  | .deleted held => held
  | .encoded | .discharged | .gone => 0

def Frame.lingering (f : Frame) : ℕ := if f.stage = .discharged then f.size else 0

def Frame.disk (f : Frame) : ℕ :=
  match f.stage with
  | .written bytes => bytes
  | .queued | .taken | .drained | .discharged => f.size
  | .encoded | .deleted _ | .gone => 0

def total (F : Frame → ℕ) (frames : List Frame) : ℕ := (frames.map F).sum

def State.disk (s : State) : ℕ := s.orphans + total Frame.disk s.frames

def orderly (_ : State) : Event → Bool
  | .act _ .abandon => false
  | .act _ (.delete removed sized) => removed && sized
  | .act _ (.discharge sized) => sized
  | .act _ (.remove removed) => removed
  | _ => true

structure Inv (maxBytes : ℕ) (s : State) : Prop where
  orphans : s.orphans = 0
  reserved : s.reservedBytes = total Frame.reserved s.frames
  bounded : s.reservedBytes + total Frame.lingering s.frames ≤ maxBytes
  calm : s.closed = false → ∀ f ∈ s.frames, f.stage ≠ .drained ∧ f.stage ≠ .discharged
  files : ∀ f ∈ s.frames, f.disk ≤ f.reserved + f.lingering

variable {maxBytes : ℕ} {s t : State} {f : Frame} {i : ℕ}

theorem total_set (F : Frame → ℕ) {frames : List Frame} (h : frames[i]? = some f) (g : Frame) :
    total F (frames.set i g) + F f = total F frames + F g := by
  induction frames generalizing i with
  | nil => cases h
  | cons f' frames ih =>
    cases i with
    | zero =>
      cases h
      simp only [total, List.set_cons_zero, List.map_cons, List.sum_cons]
      omega
    | succ i =>
      have hrest := ih (i := i) (by simpa using h)
      simp only [total, List.set_cons_succ, List.map_cons, List.sum_cons] at hrest ⊢
      omega

theorem le_total {F : Frame → ℕ} {frames : List Frame} (h : f ∈ frames) : F f ≤ total F frames :=
  List.single_le_sum (fun _ _ => Nat.zero_le _) _ (List.mem_map_of_mem h)

theorem lingering_zero {frames : List Frame} (h : ∀ f ∈ frames, f.stage ≠ .drained ∧ f.stage ≠ .discharged) :
    total Frame.lingering frames = 0 := by
  refine List.sum_eq_zero fun n hn => ?_
  obtain ⟨f, hf, rfl⟩ := List.mem_map.mp hn
  exact if_neg (h f hf).2

theorem act_orderly {a : Action} {reservedBytes left : ℕ} {stage : Stage} (ha : orderly s (.act i a) = true)
    (h : act maxBytes s f a = some (reservedBytes, stage, left)) (hheld : f.reserved ≤ s.reservedBytes) :
    left = 0 ∧ reservedBytes + f.reserved = s.reservedBytes + Frame.reserved { f with stage } ∧
      Frame.disk { f with stage } ≤ Frame.reserved { f with stage } + Frame.lingering { f with stage } ∧
      (s.closed = false → f.stage ≠ .drained → stage ≠ .drained ∧ stage ≠ .discharged) ∧
      (s.closed = false ∧ reservedBytes ≤ maxBytes ∨
        reservedBytes + Frame.lingering { f with stage } ≤ s.reservedBytes + f.lingering) := by
  unfold act at h
  split at h
  all_goals
    rename_i hstage
    try split_ifs at h
    all_goals cases h
    all_goals simp_all [orderly, Frame.reserved, Frame.lingering, Frame.disk]

theorem step_inv {e : Event} (hinv : Inv maxBytes s) (he : orderly s e = true) (h : step maxBytes s e = some t) :
    Inv maxBytes t := by
  cases e with
  | publish size =>
    simp only [step] at h
    split_ifs at h
    cases h
    have hkeeps : ∀ F : Frame → ℕ, F ⟨size, .encoded⟩ = 0 → total F (s.frames ++ [⟨size, .encoded⟩]) = total F s.frames := by
      intro F hF
      simp [total, hF]
    refine ⟨hinv.orphans, ?_, ?_, fun hopen => ?_, ?_⟩
    · rw [hkeeps _ rfl]
      exact hinv.reserved
    · rw [hkeeps _ rfl]
      exact hinv.bounded
    · rw [List.forall_mem_append]
      exact ⟨hinv.calm hopen, by simp⟩
    · rw [List.forall_mem_append]
      exact ⟨hinv.files, by simp [Frame.disk]⟩
  | close =>
    cases h
    exact ⟨hinv.orphans, hinv.reserved, hinv.bounded, by rintro ⟨⟩, hinv.files⟩
  | act i a =>
    obtain ⟨f, hf, h⟩ := Option.bind_eq_some_iff.mp h
    obtain ⟨⟨reservedBytes, stage, left⟩, hact, h⟩ := Option.bind_eq_some_iff.mp h
    cases h
    have hmem := List.mem_of_getElem? hf
    have hheld : f.reserved ≤ s.reservedBytes := hinv.reserved ▸ le_total hmem
    obtain ⟨rfl, hmoved, hfile, hcalm, hbound⟩ := act_orderly he hact hheld
    have hset := total_set Frame.reserved hf { f with stage }
    have hlinger := total_set Frame.lingering hf { f with stage }
    have hframes : s.closed = false → ∀ g ∈ s.frames.set i { f with stage }, g.stage ≠ .drained ∧ g.stage ≠ .discharged := by
      intro hopen g hg
      rcases List.mem_or_eq_of_mem_set hg with hg | rfl
      · exact hinv.calm hopen g hg
      · exact hcalm hopen (hinv.calm hopen f hmem).1
    have hreserved := hinv.reserved
    have hbounded := hinv.bounded
    refine ⟨hinv.orphans, ?_, ?_, hframes, fun g hg => ?_⟩
    · dsimp only
      omega
    · rcases hbound with ⟨hopen, hle⟩ | hle
      · rw [lingering_zero (hframes hopen)]
        exact hle
      · dsimp only
        omega
    · rcases List.mem_or_eq_of_mem_set hg with hg | rfl
      · exact hinv.files g hg
      · exact hfile

theorem Inv.disk_le (h : Inv maxBytes s) : s.disk ≤ maxBytes := by
  have hfiles : total Frame.disk s.frames ≤ total (fun f => f.reserved + f.lingering) s.frames := List.sum_le_sum h.files
  have hsum : total (fun f => f.reserved + f.lingering) s.frames =
      total Frame.reserved s.frames + total Frame.lingering s.frames := List.sum_map_add
  have := h.bounded
  have := h.reserved
  rw [State.disk, h.orphans]
  omega

/-- In orderly runs the files never take more than the limit, and the count is that of the frames being written,
queued, read, or taken away. -/
theorem run_accounts {events : List Event} (hmeets : meets (step maxBytes) orderly start events = true)
    (hrun : run (step maxBytes) start events = some s) :
    s.disk ≤ maxBytes ∧ s.reservedBytes = total Frame.reserved s.frames := by
  have hstart : Inv maxBytes start := ⟨rfl, rfl, Nat.zero_le _, by simp [start], by simp [start]⟩
  have hinv : Inv maxBytes s := run_invariant (fun s e t hs he ht => step_inv hs he ht) hstart hmeets hrun
  exact ⟨hinv.disk_le, hinv.reserved⟩

def spilled (i : ℕ) : List Event := [.publish 60, .act i .reserve, .act i (.write 60)]

theorem run_accounts_received :
    ∃ s, run (step 100) start (spilled 0 ++ [.act 0 .enqueue, .act 0 .take, .act 0 (.delete true true), .act 0 .release] ++
        spilled 1) = some s ∧ s.disk ≤ 100 ∧ s.reservedBytes = total Frame.reserved s.frames := by
  obtain ⟨s, hs⟩ := Option.isSome_iff_exists.mp (show (run (step 100) start (spilled 0 ++ [.act 0 .enqueue, .act 0 .take,
    .act 0 (.delete true true), .act 0 .release] ++ spilled 1)).isSome = true by decide)
  exact ⟨s, hs, run_accounts (by decide) hs⟩

/-- A publish that is interrupted while it waits for bytes takes 60 bytes off the count that another frame holds. -/
theorem interrupted_publish_releases :
    (run (step 100) start (spilled 0 ++ [.act 0 .enqueue, .publish 60, .act 1 .abandon] ++ spilled 2)).map
      (fun s => (s.disk, s.reservedBytes)) = some (120, 60) := by
  decide

end AstraSync.SpillAccounting
