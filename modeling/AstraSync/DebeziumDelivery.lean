import AstraSync.DebeziumSource
import AstraSync.Library.Slots
import Mathlib.Data.List.Perm.Subperm
import Mathlib.Data.List.Range

/-!
How batches pass from the engine to the consumer: their futures, their order, and that one is on its way at a time.
-/

namespace AstraSync.DebeziumSource

variable {R E : Type}

section

variable {s t : Source R E} {p q : ℕ} {b b' : PendingBatch E} {convert : R → Except Unit (Option E)} {queuedBatches : ℕ}
  {event : Event R}

theorem getElem?_update (change : PendingBatch E → PendingBatch E) :
    (update s p change).pendings[q]? = some b' ↔ ∃ b, s.pendings[q]? = some b ∧ (if q = p then change b else b) = b' := by
  by_cases hq : p = q
  · subst hq
    simp [update]
  · simp [update, hq, Ne.symm hq]

theorem getElem?_closeSource : (closeSource s).pendings[q]? = some b' ↔
    ∃ b, s.pendings[q]? = some b ∧ (if s.outstanding = some q ∨ q ∈ s.queue then abandon b else b) = b' := by
  simp [closeSource]

structure Futures (s : Source R E) : Prop where
  acked : ∀ (p : ℕ) b, s.pendings[p]? = some b → b.acknowledged = some true → p ∈ s.delivered
  refused : ∀ (p : ℕ) b, s.pendings[p]? = some b → b.acknowledged = some false → s.closed = true
  awaited : ∀ p, s.outstanding = some p ∨ s.consumer = .confirming p ∨ s.consumer = .obtaining p → p ∈ s.delivered
  confirmed : ∀ p, (∃ next, s.engine = .marking next (some p)) ∨ s.engine = .awaiting p →
    ∃ b, s.pendings[p]? = some b ∧ b.acknowledged = some true

theorem futures_initial : Futures (initial : Source R E) where
  acked := by simp [initial]
  refused := by simp [initial]
  awaited := by simp [initial]
  confirmed := by simp [initial]

namespace Futures

variable (f : Futures s)

include f

theorem complete (p : ℕ) (value : Option ℕ) {engine : Engine E}
    (hengine : ∀ q, (∃ next, engine = .marking next (some q)) ∨ engine = .awaiting q →
      (∃ next, s.engine = .marking next (some q)) ∨ s.engine = .awaiting q) (terminalFailure : Bool) :
    Futures { update s p (·.complete value) with engine, terminalFailure } where
  acked q b' hq hb' := by
    obtain ⟨b, hb, rfl⟩ := (getElem?_update _).mp hq
    exact f.acked q b hb (by split at hb' <;> exact hb')
  refused q b' hq hb' := by
    obtain ⟨b, hb, rfl⟩ := (getElem?_update _).mp hq
    exact f.refused q b hb (by split at hb' <;> exact hb')
  awaited := f.awaited
  confirmed q hq := by
    obtain ⟨b, hb, hacked⟩ := f.confirmed q (hengine q hq)
    refine ⟨_, (getElem?_update _).mpr ⟨b, hb, rfl⟩, ?_⟩
    split <;> exact hacked

theorem confirm {p : ℕ} (hconsumer : s.consumer = .confirming p) :
    Futures { update s p (·.acknowledge true) with consumer := .obtaining p } where
  acked q b' hq hb' := by
    obtain ⟨b, hb, rfl⟩ := (getElem?_update _).mp hq
    split at hb'
    · next heq => exact f.awaited q (by simp [hconsumer, heq])
    · exact f.acked q b hb hb'
  refused q b' hq hb' := by
    obtain ⟨b, hb, rfl⟩ := (getElem?_update _).mp hq
    apply f.refused q b hb
    split at hb'
    · cases hack : b.acknowledged with
      | none => simp [PendingBatch.acknowledge, hack] at hb'
      | some => simpa [PendingBatch.acknowledge, hack] using hb'
    · exact hb'
  awaited q hq := by
    apply f.awaited q
    rcases hq with hq | hq | hq
    · exact .inl hq
    · cases hq
    · cases hq; exact .inr (.inl hconsumer)
  confirmed q hq := by
    obtain ⟨b, hb, hacked⟩ := f.confirmed q hq
    refine ⟨_, (getElem?_update _).mpr ⟨b, hb, rfl⟩, ?_⟩
    split
    · simp [PendingBatch.acknowledge, hacked]
    · exact hacked

theorem close : Futures (closeSource s) where
  acked q b' hq hb' := by
    obtain ⟨b, hb, rfl⟩ := getElem?_closeSource.mp hq
    apply f.acked q b hb
    split at hb'
    · cases hack : b.acknowledged with
      | none => simp [abandon, PendingBatch.acknowledge, PendingBatch.complete, hack] at hb'
      | some => simpa [abandon, PendingBatch.acknowledge, PendingBatch.complete, hack] using hb'
    · exact hb'
  refused _ _ _ _ := rfl
  awaited q hq := f.awaited q (hq.imp_left (by simp [closeSource]))
  confirmed q hq := by
    obtain ⟨b, hb, hacked⟩ := f.confirmed q hq
    refine ⟨_, getElem?_closeSource.mpr ⟨b, hb, rfl⟩, ?_⟩
    split
    · simp [abandon, PendingBatch.acknowledge, PendingBatch.complete, hacked]
    · exact hacked

theorem create (events : List E) : Futures (create s events) where
  acked q b hq hb := by
    rcases Slots.getElem?_snoc.mp hq with hq | ⟨-, rfl⟩
    · exact f.acked q b hq hb
    · cases hb
  refused q b hq hb := by
    rcases Slots.getElem?_snoc.mp hq with hq | ⟨-, rfl⟩
    · exact f.refused q b hq hb
    · cases hb
  awaited := f.awaited
  confirmed q hq := by simp [DebeziumSource.create] at hq

theorem engine {handed : List (List R)} {queue : List ℕ} {engine : Engine E}
    (hengine : ∀ p, (∃ next, engine = .marking next (some p)) ∨ engine = .awaiting p →
      ∃ b, s.pendings[p]? = some b ∧ b.acknowledged = some true) : Futures { s with handed, queue, engine } :=
  ⟨f.acked, f.refused, f.awaited, hengine⟩

theorem consumer {queue : List ℕ} {outstanding : Option ℕ} {returned : List (ℕ × ℕ)} {consumer : Consumer}
    (hconsumer : ∀ p, outstanding = some p ∨ consumer = .confirming p ∨ consumer = .obtaining p → p ∈ s.delivered) :
    Futures { s with queue, outstanding, returned, consumer } :=
  ⟨f.acked, f.refused, hconsumer, f.confirmed⟩

theorem step (o : Outcome convert queuedBatches s t) : Futures t := by
  cases o with
  | refused | empty | converted | put | wakeRefused | passed | interrupt => exact f.engine (by simp)
  | create => exact f.create _
  | wake hengine hp hb => exact f.engine (by simpa using ⟨_, hp, hb⟩)
  | mark hengine hnext =>
    refine ⟨f.acked, f.refused, f.awaited, ?_⟩
    rintro p (⟨next, heq⟩ | heq)
    · cases heq; exact f.confirmed p (.inl ⟨_, hengine⟩)
    · cases heq
  | finishMarking => grind [Futures]
  | complete | fail => exact f.complete _ _ (by simp) s.terminalFailure
  | completed => exact f.complete _ _ (fun _ h => h) true
  | same => exact f
  | terminated | save | closeOffsets => exact ⟨f.acked, f.refused, f.awaited, f.confirmed⟩
  | poll hconsumer hclosed houtstanding => exact f.consumer (by simp [houtstanding])
  | take | turn => exact f.consumer fun p hp => f.awaited p (.inl (by simpa using hp))
  | deliver => grind [Futures, List.mem_append_left]
  | acknowledge => grind [Futures]
  | confirm hconsumer => exact f.confirm hconsumer
  | obtain => exact f.consumer (by simp)
  | close => exact f.close

end Futures

end

section

variable {s t : Source R E} {convert : R → Except Unit (Option E)} {queuedBatches : ℕ}

def Engine.putting? : Engine E → List ℕ
  | .putting p => [p]
  | _ => []

def Consumer.holding? : Consumer → List ℕ
  | .holding p => [p]
  | _ => []

def places (s : Source R E) : List ℕ := s.engine.putting? ++ s.queue ++ s.consumer.holding?

def Engine.pending : Engine E → Option ℕ
  | .putting p | .waiting p | .marking _ (some p) | .awaiting p => some p
  | _ => none

def Engine.resting : Engine E → Bool
  | .idle | .converted _ | .marking _ none => true
  | _ => false

structure Counts (s : Source R E) : Prop where
  delivered : s.delivered = List.range s.delivered.length
  returned : s.returned.map Prod.fst = List.range s.returned.length
  behind : s.delivered.length = s.returned.length ∨ s.delivered.length = s.returned.length + 1
  bounded : s.delivered.length ≤ s.pendings.length
  awaited : ∀ p, s.outstanding = some p ∨ s.consumer = .confirming p ∨ s.consumer = .obtaining p →
    p = s.returned.length ∧ s.delivered.length = s.returned.length + 1
  free : s.closed = false → s.outstanding = none → s.delivered.length = s.returned.length
  polling : s.closed = false → s.consumer = .polling ∨ s.consumer.holding? ≠ [] → s.outstanding = none

structure Placement (s : Source R E) : Prop where
  alone : s.closed = false → (places s).length ≤ 1
  next : s.closed = false → ∀ p ∈ places s, p = s.delivered.length ∧ p < s.pendings.length
  resting : s.closed = false → s.engine.resting = true → s.pendings.length = s.delivered.length
  engaged : ∀ p, s.engine.pending = some p → p + 1 = s.pendings.length

theorem counts_initial : Counts (initial : Source R E) where
  delivered := rfl
  returned := rfl
  behind := .inl rfl
  bounded := Nat.le_refl _
  awaited := by simp [initial]
  free _ _ := rfl
  polling := by simp [initial, Consumer.holding?]

theorem placement_initial : Placement (initial : Source R E) where
  alone _ := Nat.zero_le _
  next _ := by simp [places, initial, Engine.putting?, Consumer.holding?]
  resting _ _ := rfl
  engaged := by simp [initial, Engine.pending]

@[simp] theorem length_update (p : ℕ) (change : PendingBatch E → PendingBatch E) :
    (update s p change).pendings.length = s.pendings.length := by simp [update]

@[simp] theorem length_closeSource : (closeSource s).pendings.length = s.pendings.length := by simp [closeSource]

namespace Placement

variable (l : Placement s)

include l

theorem acked_delivered (k : Counts s) (f : Futures s) {p : ℕ} (hengine : s.engine = .awaiting p) :
    s.pendings.length = s.delivered.length := by
  obtain ⟨b, hb, hacked⟩ := f.confirmed p (.inr hengine)
  have hmem := f.acked p b hb hacked
  rw [k.delivered, List.mem_range] at hmem
  have hlast := l.engaged p (by rw [hengine]; rfl)
  have hbound := k.bounded
  omega

section

variable (hclosed : t.closed = s.closed)

include hclosed

section

variable (hdelivered : t.delivered = s.delivered)

include hdelivered

section

variable (hlength : t.pendings.length = s.pendings.length)

include hlength

theorem moved (hplaces : s.closed = false → (places t).Subperm (places s))
    (hresting : s.closed = false → t.engine.resting = true → s.pendings.length = s.delivered.length)
    (hengaged : ∀ p, t.engine.pending = some p → p + 1 = s.pendings.length) : Placement t where
  alone h := (hplaces (hclosed ▸ h)).length_le.trans (l.alone (hclosed ▸ h))
  next h p hp := by
    rw [hdelivered, hlength]
    exact l.next (hclosed ▸ h) p ((hplaces (hclosed ▸ h)).subset hp)
  resting h hrest := by
    rw [hdelivered, hlength]
    exact hresting (hclosed ▸ h) hrest
  engaged p hp := hlength ▸ hengaged p hp

theorem engine (hqueue : t.queue = s.queue) (hconsumer : t.consumer = s.consumer) (hengine : t.engine.putting? = [])
    (hresting : s.closed = false → t.engine.resting = true → s.pendings.length = s.delivered.length)
    (hengaged : ∀ p, t.engine.pending = some p → s.engine.pending = some p) : Placement t := by
  refine l.moved hclosed hdelivered hlength (fun _ => ?_) hresting fun p hp => l.engaged p (hengaged p hp)
  unfold places
  rw [hqueue, hconsumer, hengine]
  exact ((List.nil_sublist _).append_right _ |>.append_right _).subperm

theorem consumer (hqueue : t.queue = s.queue) (hengine : t.engine = s.engine)
    (hconsumer : t.consumer.holding? = []) : Placement t := by
  refine l.moved hclosed hdelivered hlength (fun _ => ?_) ?_ ?_
  · unfold places
    rw [hqueue, hengine, hconsumer]
    exact ((List.nil_sublist _).append_left _).subperm
  · rw [hengine]; exact l.resting
  · rw [hengine]; exact l.engaged

end

end

end

theorem create {events : List E} (hengine : s.engine = .converted events) : Placement (create s events) := by
  have hempty (hclosed : s.closed = false) : places s = [] := by
    apply List.eq_nil_iff_forall_not_mem.mpr
    intro p hp
    have hnext := l.next hclosed p hp
    have hrest := l.resting hclosed (by rw [hengine]; rfl)
    omega
  have hplaces (hclosed : s.closed = false) : places (DebeziumSource.create s events) = [s.pendings.length] := by
    have := hempty hclosed
    simp only [places, List.append_eq_nil_iff] at this
    simp [places, DebeziumSource.create, Engine.putting?, this]
  refine ⟨fun hclosed => ?_, fun hclosed p hp => ?_, fun _ => nofun, ?_⟩
  · rw [hplaces hclosed]; exact Nat.le_refl 1
  · rw [hplaces hclosed, List.mem_singleton] at hp
    subst hp
    exact ⟨l.resting hclosed (by rw [hengine]; rfl), by simp [DebeziumSource.create]⟩
  · simp [DebeziumSource.create, Engine.pending]

theorem deliver {p : ℕ} (hconsumer : s.consumer = .holding p) (hclosed : s.closed = false) :
    Placement { s with outstanding := some p, delivered := s.delivered ++ [p], consumer := .idle } := by
  have halone := l.alone hclosed
  have hp : p ∈ places s := by simp [places, hconsumer, Consumer.holding?]
  obtain ⟨hnext, hlt⟩ := l.next hclosed p hp
  have hrest : s.engine.putting? = [] ∧ s.queue = [] := by
    simp only [places, hconsumer, Consumer.holding?, List.length_append, List.length_singleton] at halone
    exact ⟨List.length_eq_zero_iff.mp (by omega), List.length_eq_zero_iff.mp (by omega)⟩
  have hplaces : places { s with outstanding := some p, delivered := s.delivered ++ [p], consumer := .idle } = [] := by
    simp [places, hrest, Consumer.holding?]
  refine ⟨fun _ => ?_, fun _ => ?_, fun _ hresting => ?_, l.engaged⟩
  · rw [hplaces]; exact Nat.zero_le _
  · rw [hplaces]; nofun
  · have := l.resting hclosed hresting
    omega

theorem step (f : Futures s) (k : Counts s) (o : Outcome convert queuedBatches s t) : Placement t := by
  cases o with
  | refused hengine | empty hengine | converted hengine =>
    exact l.engine rfl rfl rfl rfl rfl rfl (fun hclosed _ => l.resting hclosed (by rw [hengine]; rfl)) nofun
  | create hengine => exact l.create hengine
  | put hengine =>
    refine l.moved rfl rfl rfl (fun _ => ?_) (fun _ => nofun) fun q hq => l.engaged q (by rw [hengine]; exact hq)
    simp only [places, hengine, Engine.putting?, List.nil_append]
    exact ((List.perm_append_comm).append_right _).subperm
  | wakeRefused hengine hp hb =>
    refine l.engine rfl rfl rfl rfl rfl rfl (fun hclosed _ => ?_) nofun
    have := f.refused _ _ hp hb
    simp [hclosed] at this
  | wake hengine | finishMarking hengine =>
    exact l.engine rfl rfl rfl rfl rfl rfl (fun _ => nofun) fun q hq => by rw [hengine]; exact hq
  | @mark next pending hengine hnext =>
    refine l.engine rfl rfl rfl rfl rfl rfl (fun hclosed hrest => l.resting hclosed ?_) fun q hq => ?_
    · rw [hengine]; cases pending <;> exact hrest
    · rw [hengine]; cases pending <;> exact hq
  | passed hengine =>
    exact l.engine rfl rfl rfl rfl rfl rfl (fun hclosed _ => l.resting hclosed (by rw [hengine]; rfl)) nofun
  | complete hengine hp =>
    exact l.engine rfl rfl (length_update _ _) rfl rfl rfl (fun _ _ => l.acked_delivered k f hengine) nofun
  | fail => exact l.engine rfl rfl (length_update _ _) rfl rfl rfl (fun _ => nofun) nofun
  | interrupt => exact l.engine rfl rfl rfl rfl rfl rfl (fun _ => nofun) nofun
  | completed => exact l.moved rfl rfl (length_update _ _) (fun _ => List.Subperm.refl _) l.resting l.engaged
  | same => exact l
  | terminated | save | closeOffsets => exact ⟨l.alone, l.next, l.resting, l.engaged⟩
  | poll | turn | acknowledge | obtain => exact l.consumer rfl rfl rfl rfl rfl rfl
  | confirm => exact l.consumer rfl rfl (length_update _ _) rfl rfl rfl
  | take hconsumer hqueue =>
    refine l.moved rfl rfl rfl (fun _ => ?_) l.resting l.engaged
    simp only [places, hconsumer, hqueue, Consumer.holding?, List.append_nil, List.append_assoc]
    exact ((List.perm_append_singleton _ _).append_left _).subperm
  | deliver hconsumer hclosed => exact l.deliver hconsumer hclosed
  | close => exact ⟨nofun, nofun, nofun, fun p hp => (l.engaged p hp).trans length_closeSource.symm⟩

end Placement

namespace Counts

variable (k : Counts s)

include k

theorem same (hclosed : s.closed = t.closed) (hdelivered : t.delivered = s.delivered)
    (hreturned : t.returned = s.returned) (hlength : s.pendings.length ≤ t.pendings.length)
    (houtstanding : t.outstanding = s.outstanding) (hconsumer : t.consumer = s.consumer) : Counts t := by
  obtain ⟨delivered, returned, behind, bounded, awaited, free, polling⟩ := k
  refine ⟨?_, ?_, ?_, ?_, ?_, ?_, ?_⟩ <;> simp only [← hclosed, hdelivered, hreturned, houtstanding, hconsumer]
  all_goals first | assumption | omega

theorem consumer {queue : List ℕ} {consumer : Consumer}
    (hawaited : ∀ p, consumer = .confirming p ∨ consumer = .obtaining p →
      s.outstanding = some p ∨ s.consumer = .confirming p ∨ s.consumer = .obtaining p)
    (hpolling : s.closed = false → consumer = .polling ∨ consumer.holding? ≠ [] → s.outstanding = none) :
    Counts { s with queue, consumer } :=
  ⟨k.delivered, k.returned, k.behind, k.bounded, fun p hp => k.awaited p (hp.elim .inl (hawaited p)), k.free, hpolling⟩

theorem deliver (l : Placement s) {p : ℕ} (hconsumer : s.consumer = .holding p) (hclosed : s.closed = false) :
    Counts { s with outstanding := some p, delivered := s.delivered ++ [p], consumer := .idle } := by
  obtain ⟨hnext, hlt⟩ := l.next hclosed p (by simp [places, hconsumer, Consumer.holding?])
  have hnone := k.polling hclosed (.inr (by simp [hconsumer, Consumer.holding?]))
  have hequal := k.free hclosed hnone
  refine ⟨?_, k.returned, ?_, ?_, ?_, nofun, ?_⟩
  · simp only [List.length_append, List.length_singleton, List.range_succ]
    rw [← k.delivered, hnext]
  · simp; omega
  · simp; omega
  · rintro q (hq | hq | hq) <;> cases hq
    simp; omega
  · simp [Consumer.holding?]

theorem obtain {p offset : ℕ} (hconsumer : s.consumer = .obtaining p) :
    Counts { s with outstanding := none, returned := s.returned ++ [(p, offset)], consumer := .idle } := by
  obtain ⟨hp, hone⟩ := k.awaited p (.inr (.inr hconsumer))
  refine ⟨k.delivered, ?_, ?_, k.bounded, by simp, ?_, by simp [Consumer.holding?]⟩
  · simp [List.range_succ, k.returned, hp]
  · simp; omega
  · simp; omega

theorem step (l : Placement s) (o : Outcome convert queuedBatches s t) : Counts t := by
  cases o with
  | refused | empty | converted | put | wakeRefused | wake | mark | passed | finishMarking | interrupt | same | terminated
    | save | closeOffsets => exact k.same rfl rfl rfl (Nat.le_refl _) rfl rfl
  | create => exact k.same rfl rfl rfl (by simp [DebeziumSource.create]) rfl rfl
  | complete | fail | completed => exact k.same rfl rfl rfl (length_update _ _).ge rfl rfl
  | poll hconsumer hclosed houtstanding => exact k.consumer (by simp) fun _ _ => houtstanding
  | take hconsumer hqueue => exact k.consumer (by simp) fun hclosed _ => k.polling hclosed (.inl hconsumer)
  | turn => exact k.consumer (by simp) (by simp [Consumer.holding?])
  | deliver hconsumer hclosed => exact k.deliver l hconsumer hclosed
  | acknowledge hconsumer hclosed houtstanding =>
    refine k.consumer ?_ (by simp [Consumer.holding?])
    rintro q (hq | hq) <;> cases hq
    exact .inl houtstanding
  | @confirm p hconsumer =>
    have hobtaining : Counts { s with consumer := .obtaining p } := by
      refine k.consumer ?_ (by simp [Consumer.holding?])
      rintro q (hq | hq) <;> cases hq
      exact .inr (.inl hconsumer)
    exact hobtaining.same rfl rfl rfl (length_update _ _).ge rfl rfl
  | obtain hconsumer => exact k.obtain hconsumer
  | close =>
    refine ⟨k.delivered, k.returned, k.behind, k.bounded.trans length_closeSource.ge, ?_, nofun, nofun⟩
    rintro q (hq | hq)
    · cases hq
    · exact k.awaited q (.inr hq)

end Counts

end

variable {s t : Source R E} {convert : R → Except Unit (Option E)} {queuedBatches : ℕ}

def eventsOf (convert : R → Except Unit (Option E)) (records : List R) : Option (List E) :=
  match convertAll convert records with
  | .ok (e :: es) => some (e :: es)
  | _ => none

def eventBatches (convert : R → Except Unit (Option E)) (handed : List (List R)) : List (List E) :=
  handed.filterMap (eventsOf convert)

def deliveredEvents (s : Source R E) : List (List E) :=
  s.delivered.filterMap fun p => s.pendings[p]?.map (·.events)

def Engine.converted? : Engine E → List (List E)
  | .converted events => [events]
  | _ => []

structure Contents (convert : R → Except Unit (Option E)) (s : Source R E) : Prop where
  created : s.pendings.map (·.events) <+: eventBatches convert s.handed
  all : s.engine ≠ .stopped → eventBatches convert s.handed = s.pendings.map (·.events) ++ s.engine.converted?

theorem contents_initial : Contents convert (initial : Source R E) where
  created := List.prefix_refl _
  all _ := rfl

theorem eventBatches_snoc (handed : List (List R)) (records : List R) :
    eventBatches convert (handed ++ [records]) = eventBatches convert handed ++ (eventsOf convert records).toList := by
  cases h : eventsOf convert records <;> simp [eventBatches, h]

theorem map_events {ps qs : List (PendingBatch E)} (h : ∀ (p : ℕ), (qs[p]?).map (·.events) = (ps[p]?).map (·.events)) :
    qs.map (·.events) = ps.map (·.events) := by
  apply List.ext_getElem?
  intro p
  simpa using h p

theorem events_update (p : ℕ) {change : PendingBatch E → PendingBatch E} (hchange : ∀ b, (change b).events = b.events) :
    (update s p change).pendings.map (·.events) = s.pendings.map (·.events) := by
  apply map_events
  intro q
  simp only [update, List.getElem?_modify]
  cases s.pendings[q]? with
  | none => simp
  | some =>
    by_cases hq : p = q <;> simp [hq, hchange]

theorem events_closeSource : (closeSource s).pendings.map (·.events) = s.pendings.map (·.events) := by
  apply map_events
  intro q
  simp only [closeSource, List.getElem?_mapIdx]
  cases s.pendings[q]? with
  | none => rfl
  | some =>
    simp only [Option.map_some]
    split <;> rfl

namespace Contents

theorem handOver (c : Contents convert s) {records : List R} {engine : Engine E} (hidle : s.engine = .idle)
    (hengine : engine ≠ .stopped → engine.converted? = (eventsOf convert records).toList) :
    Contents convert { s with handed := s.handed ++ [records], engine } := by
  have hall : eventBatches convert s.handed = s.pendings.map (·.events) := by
    simpa [hidle, Engine.converted?] using c.all (by simp [hidle])
  constructor
  · rw [eventBatches_snoc, hall]
    exact List.prefix_append _ _
  · intro hne
    rw [eventBatches_snoc, hall, hengine hne]

theorem same (c : Contents convert s) (hhanded : t.handed = s.handed)
    (hpendings : t.pendings.map (·.events) = s.pendings.map (·.events))
    (hengine : t.engine ≠ .stopped → s.engine ≠ .stopped ∧ t.engine.converted? = s.engine.converted?) :
    Contents convert t where
  created := by rw [hpendings, hhanded]; exact c.created
  all hne := by rw [hpendings, hhanded, (hengine hne).2]; exact c.all (hengine hne).1

theorem step (c : Contents convert s) (o : Outcome convert queuedBatches s t) : Contents convert t := by
  cases o with
  | refused hidle hconvert => exact c.handOver hidle fun h => absurd rfl h
  | empty hidle hconvert =>
    refine c.handOver hidle fun _ => ?_
    rw [eventsOf, hconvert]
    rfl
  | @converted records events hidle hconvert hevents =>
    refine c.handOver hidle fun _ => ?_
    cases events with
    | nil => exact absurd rfl hevents
    | cons =>
      rw [eventsOf, hconvert]
      rfl
  | @create events hengine =>
    have hall := c.all (by rw [hengine]; nofun)
    rw [hengine] at hall
    constructor
    · rw [show (create s events).handed = s.handed from rfl, hall]
      simp [create, Engine.converted?]
    · intro _
      rw [show (create s events).handed = s.handed from rfl, hall]
      simp [create, Engine.converted?]
  | put hengine | wakeRefused hengine | wake hengine | mark hengine | passed hengine | finishMarking hengine =>
    exact c.same rfl rfl fun _ => by rw [hengine]; exact ⟨nofun, rfl⟩
  | complete hengine =>
    exact c.same rfl (events_update _ fun _ => rfl) fun _ => by rw [hengine]; exact ⟨nofun, rfl⟩
  | fail => exact c.same rfl (events_update _ fun _ => rfl) fun h => absurd rfl h
  | interrupt => exact c.same rfl rfl fun h => absurd rfl h
  | same | terminated | save | closeOffsets | poll | take | turn | acknowledge | deliver | obtain =>
    exact c.same rfl rfl fun h => ⟨h, rfl⟩
  | completed | confirm => exact c.same rfl (events_update _ fun _ => rfl) fun h => ⟨h, rfl⟩
  | close => exact c.same rfl events_closeSource fun h => ⟨h, rfl⟩

end Contents

end AstraSync.DebeziumSource
