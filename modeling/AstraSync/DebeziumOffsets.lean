import AstraSync.DebeziumDelivery
import Mathlib.Data.List.Infix

namespace AstraSync.DebeziumSource

open Transitions

variable {R E : Type}

section

variable {s t : Source R E} {convert : R → Except Unit (Option E)} {queuedBatches : ℕ}

def Settled (convert : R → Except Unit (Option E)) (s : Source R E) (i : ℕ) : Prop :=
  (∃ records, s.handed[i]? = some records ∧ convertAll convert records = .ok []) ∨
    ∃ (p : ℕ) (b : PendingBatch E), s.pendings[p]? = some b ∧ b.batch = i ∧ b.acknowledged = some true

def Covered (convert : R → Except Unit (Option E)) (s : Source R E) (n : ℕ) : Prop :=
  ∃ m ≤ s.handed.length, n ≤ batchStart s.handed m ∧ ∀ i < m, Settled convert s i

structure Grows (s t : Source R E) : Prop where
  handed : s.handed <+: t.handed
  acked : ∀ (p : ℕ) b, s.pendings[p]? = some b → b.acknowledged = some true →
    ∃ b', t.pendings[p]? = some b' ∧ b'.batch = b.batch ∧ b'.acknowledged = some true

theorem Grows.settled (g : Grows s t) {i : ℕ} (h : Settled convert s i) : Settled convert t i := by
  rcases h with ⟨records, hi, hempty⟩ | ⟨p, b, hb, rfl, hacked⟩
  · refine .inl ⟨records, ?_, hempty⟩
    obtain ⟨more, hmore⟩ := g.handed
    rw [← hmore, List.getElem?_append_left (List.getElem?_eq_some_iff.mp hi).1, hi]
  · obtain ⟨b', hb', hbatch, hacked'⟩ := g.acked p b hb hacked
    exact .inr ⟨p, b', hb', hbatch, hacked'⟩

theorem Grows.covered (g : Grows s t) {n : ℕ} (h : Covered convert s n) : Covered convert t n := by
  obtain ⟨m, hm, hn, hall⟩ := h
  refine ⟨m, hm.trans g.handed.length_le, ?_, fun i hi => g.settled (hall i hi)⟩
  obtain ⟨more, hmore⟩ := g.handed
  rwa [batchStart, ← hmore, List.take_append_of_le_length hm]

theorem grows_of_same (hhanded : s.handed <+: t.handed) (hpendings : t.pendings = s.pendings) : Grows s t :=
  ⟨hhanded, fun _ b hb hacked => ⟨b, hpendings ▸ hb, rfl, hacked⟩⟩

theorem grows_update {p : ℕ} {change : PendingBatch E → PendingBatch E} (hhanded : t.handed = s.handed)
    (hpendings : t.pendings = (update s p change).pendings)
    (hchange : ∀ b, (change b).batch = b.batch ∧ (b.acknowledged = some true → (change b).acknowledged = some true)) :
    Grows s t := by
  refine ⟨hhanded ▸ List.prefix_refl _, fun q b hb hacked => ?_⟩
  refine ⟨_, hpendings ▸ (getElem?_update _).mpr ⟨b, hb, rfl⟩, ?_⟩
  split
  · exact ⟨(hchange b).1, (hchange b).2 hacked⟩
  · exact ⟨rfl, hacked⟩

theorem Outcome.grows (o : Outcome convert queuedBatches s t) : Grows s t := by
  cases o with
  | refused | empty | converted => exact grows_of_same (List.prefix_append _ _) rfl
  | create =>
    refine ⟨List.prefix_refl _, fun p b hb hacked => ⟨b, ?_, rfl, hacked⟩⟩
    exact Slots.getElem?_snoc.mpr (.inl hb)
  | complete | fail | completed => exact grows_update rfl rfl fun b => ⟨rfl, id⟩
  | confirm => exact grows_update rfl rfl fun b => ⟨rfl, fun h => by simp [PendingBatch.acknowledge, h]⟩
  | close =>
    refine ⟨List.prefix_refl _, fun p b hb hacked => ⟨_, getElem?_closeSource.mpr ⟨b, hb, rfl⟩, ?_⟩⟩
    split
    · exact ⟨rfl, by simp [abandon, PendingBatch.acknowledge, PendingBatch.complete, hacked]⟩
    · exact ⟨rfl, hacked⟩
  | _ => exact grows_of_same (List.prefix_refl _) rfl

def Engine.isIdle : Engine E → Bool
  | .idle => true
  | _ => false

def past (s : Source R E) : ℕ := if s.engine.isIdle then s.handed.length else s.handed.length - 1

structure Safety (convert : R → Except Unit (Option E)) (s : Source R E) : Prop where
  saved : s.offsets ≤ recordCount s.handed ∧ s.marked ≤ recordCount s.handed
  current : ∀ (p : ℕ) b, s.engine.pending = some p → s.pendings[p]? = some b → b.batch = s.handed.length - 1
  emptied : ∀ next, s.engine = .marking next none → Settled convert s (s.handed.length - 1)
  clean : (∀ i < past s, Settled convert s i) ∨
    s.closed = true ∧ ∀ p, s.engine.pending = some p → p ∉ s.delivered
  covered : ∀ (p : ℕ) b n, s.pendings[p]? = some b → b.position = some (some n) → Covered convert s n
  returned : ∀ p n, (p, n) ∈ s.returned → Covered convert s n

theorem safety_initial : Safety convert (initial : Source R E) where
  saved := ⟨Nat.le_refl _, Nat.le_refl _⟩
  current := by simp [initial]
  emptied := by simp [initial]
  clean := .inl (by simp [past, initial])
  covered := by simp [initial]
  returned := by simp [initial]

namespace Safety

theorem recordCount_append (handed : List (List R)) (records : List R) :
    recordCount handed ≤ recordCount (handed ++ [records]) := by simp [recordCount]

theorem past_busy (hbusy : s.engine.isIdle = false) : past s = s.handed.length - 1 := by
  rw [past, hbusy]
  rfl

theorem le_past : s.handed.length - 1 ≤ past s := by
  unfold past
  split <;> omega

theorem clean_all (hcurrent : Settled convert s (s.handed.length - 1))
    (hopen : (∀ i < past s, Settled convert s i)) : ∀ i < s.handed.length, Settled convert s i := by
  grind [le_past]

section

variable (y : Safety convert s)

include y

theorem clean_of_grows (g : Grows s t) (hpast : past t ≤ past s) (hclosed : t.closed = s.closed)
    (hdelivered : t.delivered = s.delivered) (hpending : ∀ p, t.engine.pending = some p → s.engine.pending = some p) :
    (∀ i < past t, Settled convert t i) ∨ t.closed = true ∧ ∀ p, t.engine.pending = some p → p ∉ t.delivered := by
  rcases y.clean with hall | ⟨hs, hnone⟩
  · exact .inl fun i hi => g.settled (hall i (hi.trans_le hpast))
  · exact .inr ⟨hclosed ▸ hs, fun p hp => hdelivered ▸ hnone p (hpending p hp)⟩

theorem engine (g : Grows s t) (hsaved : t.offsets ≤ recordCount t.handed ∧ t.marked ≤ recordCount t.handed)
    (hpendings : t.pendings = s.pendings) (hreturned : t.returned = s.returned)
    (hcurrent : ∀ p, t.engine.pending = some p → s.engine.pending = some p ∧ t.handed = s.handed)
    (hemptied : ∀ next, t.engine = .marking next none → Settled convert t (t.handed.length - 1))
    (hclean : (∀ i < past t, Settled convert t i) ∨
      t.closed = true ∧ ∀ p, t.engine.pending = some p → p ∉ t.delivered) : Safety convert t where
  saved := hsaved
  current p b hp hb := by
    obtain ⟨hs, hhanded⟩ := hcurrent p hp
    exact hhanded ▸ y.current p b hs (hpendings ▸ hb)
  emptied := hemptied
  clean := hclean
  covered p b n hb hn := g.covered (y.covered p b n (hpendings ▸ hb) hn)
  returned p n hp := g.covered (y.returned p n (hreturned ▸ hp))

theorem handOver {records : List R} {engine : Engine E} (hidle : s.engine = .idle)
    (hengine : engine.isIdle = false) (hpending : engine.pending = none)
    (hemptied : ∀ next, engine = .marking next none → convertAll convert records = .ok []) :
    Safety convert { s with handed := s.handed ++ [records], engine } := by
  have g : Grows s { s with handed := s.handed ++ [records], engine } := grows_of_same (List.prefix_append _ _) rfl
  refine y.engine g (y.saved.imp (·.trans (recordCount_append _ _)) (·.trans (recordCount_append _ _))) rfl rfl
    (by simp [hpending]) ?_ ?_
  · intro next hnext
    exact .inl ⟨records, by simp, hemptied next hnext⟩
  · refine y.clean_of_grows g ?_ rfl rfl (by simp [hpending])
    rw [past_busy hengine]
    simp [past, hidle, Engine.isIdle]

theorem busy {marked : ℕ} {queue : List ℕ} {engine : Engine E}
    (hmarked : marked ≤ recordCount s.handed) (hbusy : engine.isIdle = false)
    (hpending : ∀ p, engine.pending = some p → s.engine.pending = some p)
    (hemptied : ∀ next, engine = .marking next none → ∃ before, s.engine = .marking before none) :
    Safety convert { s with marked, queue, engine } := by
  have g : Grows s { s with marked, queue, engine } := grows_of_same (List.prefix_refl _) rfl
  refine y.engine g ⟨y.saved.1, hmarked⟩ rfl rfl (fun p hp => ⟨hpending p hp, rfl⟩) ?_ ?_
  · intro next hnext
    obtain ⟨before, hbefore⟩ := hemptied next hnext
    exact g.settled (y.emptied before hbefore)
  · refine y.clean_of_grows g ?_ rfl rfl hpending
    rw [past_busy hbusy]
    exact le_past (s := s)

theorem others (g : Grows s t) (hengine : t.engine = s.engine) (hhanded : t.handed = s.handed)
    (hmarked : t.marked = s.marked) (hoffsets : t.offsets ≤ recordCount s.handed) (hpendings : t.pendings = s.pendings)
    (hreturned : t.returned = s.returned) (hclosed : t.closed = s.closed) (hdelivered : t.delivered = s.delivered) :
    Safety convert t := by
  refine y.engine g (by rw [hmarked, hhanded]; exact ⟨hoffsets, y.saved.2⟩) hpendings hreturned ?_ ?_ ?_
  · exact fun p hp => ⟨hengine ▸ hp, hhanded⟩
  · rw [hengine, hhanded]
    exact fun next hnext => g.settled (y.emptied next hnext)
  · refine y.clean_of_grows g (by simp [past, hengine, hhanded]) hclosed hdelivered ?_
    rw [hengine]
    exact fun p hp => hp

theorem create (k : Counts s) {events : List E} (hengine : s.engine = .converted events) :
    Safety convert (create s events) := by
  have g : Grows s (DebeziumSource.create s events) :=
    Outcome.grows (.create hengine : Outcome convert 0 s _)
  refine ⟨y.saved, ?_, by simp [DebeziumSource.create], ?_, ?_, fun p n hp => g.covered (y.returned p n hp)⟩
  · intro p b hp hb
    rcases Slots.getElem?_snoc.mp hb with hb | ⟨-, rfl⟩
    · obtain rfl : s.pendings.length = p := by simpa [DebeziumSource.create, Engine.pending] using hp
      simp at hb
    · rfl
  · rcases y.clean with hall | ⟨hclosed, -⟩
    · refine .inl fun i hi => g.settled (hall i ?_)
      simpa [past, DebeziumSource.create, hengine, Engine.isIdle] using hi
    · refine .inr ⟨hclosed, fun p hp hmem => ?_⟩
      obtain rfl : s.pendings.length = p := by simpa [DebeziumSource.create, Engine.pending] using hp
      have : s.pendings.length ∈ s.delivered := hmem
      rw [k.delivered, List.mem_range] at this
      have := k.bounded
      omega
  · intro p b n hb hn
    rcases Slots.getElem?_snoc.mp hb with hb | ⟨-, rfl⟩
    · exact g.covered (y.covered p b n hb hn)
    · cases hn

theorem complete (f : Futures s) {p : ℕ} {b : PendingBatch E} (hengine : s.engine = .awaiting p)
    (hp : s.pendings[p]? = some b) : Safety convert { update s p (·.complete (some s.offsets)) with engine := .idle } := by
  have g : Grows s { update s p (·.complete (some s.offsets)) with engine := .idle } :=
    Outcome.grows (.complete hengine hp : Outcome convert 0 s _)
  obtain ⟨b', hb', hacked⟩ := f.confirmed p (.inr hengine)
  obtain rfl : b' = b := Option.some.inj (hb'.symm.trans hp)
  have hpending : s.engine.pending = some p := by rw [hengine]; rfl
  have hall : ∀ i < s.handed.length, Settled convert s i := by
    apply clean_all
    · exact .inr ⟨p, b', hp, y.current p b' hpending hp, hacked⟩
    · rcases y.clean with hall | ⟨-, hnone⟩
      · exact hall
      · exact absurd (f.acked p b' hp hacked) (hnone p hpending)
  have hcovered : Covered convert s s.offsets := by
    refine ⟨s.handed.length, Nat.le_refl _, ?_, hall⟩
    rw [batchStart, List.take_length]
    exact y.saved.1
  refine ⟨y.saved, nofun, nofun, .inl fun i hi => g.settled (hall i hi), ?_, fun q n hq => g.covered (y.returned q n hq)⟩
  intro q c n hc hn
  apply g.covered
  obtain ⟨c', hc', rfl⟩ := (getElem?_update _).mp hc
  split at hn
  · cases hposition : c'.position with
    | none => grind [PendingBatch.complete, Option.some.injEq]
    | some => exact y.covered q c' n hc' (by simpa [PendingBatch.complete, hposition] using hn)
  · exact y.covered q c' n hc' hn

theorem futures (g : Grows s t) (hsaved : t.offsets = s.offsets ∧ t.marked = s.marked)
    (hhanded : t.handed = s.handed) (hreturned : t.returned = s.returned) (hclosed : s.closed = true → t.closed = true)
    (hdelivered : t.delivered = s.delivered) (hengine : t.engine = s.engine ∨ t.engine = .stopped)
    (hpendings : ∀ (p : ℕ) b', t.pendings[p]? = some b' → ∃ b, s.pendings[p]? = some b ∧ b'.batch = b.batch ∧
      ∀ n, b'.position = some (some n) → b.position = some (some n)) : Safety convert t := by
  refine ⟨by rw [hsaved.1, hsaved.2, hhanded]; exact y.saved, ?_, ?_, ?_, ?_, ?_⟩
  · intro p b' hp hb'
    obtain ⟨b, hb, hbatch, -⟩ := hpendings p b' hb'
    rcases hengine with heq | heq
    · rw [hbatch, hhanded]; exact y.current p b (heq ▸ hp) hb
    · rw [heq] at hp; cases hp
  · intro next hnext
    rcases hengine with heq | heq
    · rw [hhanded]; exact g.settled (y.emptied next (heq ▸ hnext))
    · rw [heq] at hnext; cases hnext
  · have hpast : past t ≤ past s := by
      rcases hengine with heq | heq
      · simp [past, heq, hhanded]
      · rw [past_busy (by rw [heq]; rfl), hhanded]
        exact le_past
    rcases y.clean with hall | ⟨hs, hnone⟩
    · exact .inl fun i hi => g.settled (hall i (hi.trans_le hpast))
    · refine .inr ⟨hclosed hs, fun p hp => ?_⟩
      rcases hengine with heq | heq
      · rw [hdelivered]; exact hnone p (heq ▸ hp)
      · rw [heq] at hp; cases hp
  · intro p b' n hb' hn
    obtain ⟨b, hb, -, hposition⟩ := hpendings p b' hb'
    exact g.covered (y.covered p b n hb (hposition n hn))
  · exact fun p n hp => g.covered (y.returned p n (hreturned ▸ hp))

end

theorem complete_none {b : PendingBatch E} {n : ℕ} (hn : (b.complete none).position = some (some n)) :
    b.position = some (some n) := by
  cases hposition : b.position with
  | none => simp [PendingBatch.complete, hposition] at hn
  | some => simpa [PendingBatch.complete, hposition] using hn

theorem step (y : Safety convert s) (f : Futures s) (k : Counts s) (o : Outcome convert queuedBatches s t) :
    Safety convert t := by
  have g := o.grows
  cases o with
  | refused hidle => exact y.handOver hidle rfl rfl nofun
  | empty hidle hconvert => exact y.handOver hidle rfl rfl fun _ _ => hconvert
  | converted hidle => exact y.handOver hidle rfl rfl nofun
  | create hengine => exact y.create k hengine
  | put hengine | wake hengine | finishMarking hengine =>
    exact y.busy y.saved.2 rfl (fun q hq => by rw [hengine]; exact hq) nofun
  | wakeRefused hengine hp hb =>
    refine y.engine g y.saved rfl rfl nofun nofun ?_
    exact .inr ⟨f.refused _ _ hp hb, nofun⟩
  | @mark next pending hengine hnext =>
    refine y.busy hnext rfl (fun q hq => ?_) fun before hbefore => ?_
    · rw [hengine]; cases pending <;> exact hq
    · cases hbefore; exact ⟨next, hengine⟩
  | passed hengine =>
    refine y.engine g y.saved rfl rfl nofun nofun ?_
    rcases y.clean with hall | ⟨hs, -⟩
    · exact .inl fun i hi => g.settled (clean_all (y.emptied _ hengine) hall i hi)
    · exact .inr ⟨hs, nofun⟩
  | complete hengine hp => exact y.complete f hengine hp
  | fail =>
    refine y.futures g ⟨rfl, rfl⟩ rfl rfl id rfl (.inr rfl) fun q b' hq => ?_
    obtain ⟨b, hb, rfl⟩ := (getElem?_update _).mp hq
    refine ⟨b, hb, ?_⟩
    split
    · exact ⟨rfl, fun n hn => complete_none hn⟩
    · exact ⟨rfl, fun n hn => hn⟩
  | interrupt => exact y.busy y.saved.2 rfl nofun nofun
  | completed =>
    refine y.futures g ⟨rfl, rfl⟩ rfl rfl id rfl (.inl rfl) fun q b' hq => ?_
    obtain ⟨b, hb, rfl⟩ := (getElem?_update _).mp hq
    refine ⟨b, hb, ?_⟩
    split
    · exact ⟨rfl, fun n hn => complete_none hn⟩
    · exact ⟨rfl, fun n hn => hn⟩
  | same => exact y
  | terminated | closeOffsets | poll | take | turn | acknowledge =>
    exact y.others g rfl rfl rfl y.saved.1 rfl rfl rfl rfl
  | save hoffset => exact y.others g rfl rfl rfl (hoffset.trans y.saved.2) rfl rfl rfl rfl
  | deliver hconsumer hclosed =>
    refine ⟨y.saved, y.current, y.emptied, ?_, y.covered, y.returned⟩
    rcases y.clean with hall | ⟨hs, -⟩
    · exact .inl hall
    · simp [hclosed] at hs
  | confirm =>
    refine y.futures g ⟨rfl, rfl⟩ rfl rfl id rfl (.inl rfl) fun q b' hq => ?_
    obtain ⟨b, hb, rfl⟩ := (getElem?_update _).mp hq
    refine ⟨b, hb, ?_⟩
    split <;> exact ⟨rfl, fun n hn => hn⟩
  | obtain hconsumer hp hb =>
    refine ⟨y.saved, y.current, y.emptied, y.clean, y.covered, fun q n hq => ?_⟩
    rcases List.mem_append.mp hq with hq | hq
    · exact y.returned q n hq
    · obtain ⟨rfl, rfl⟩ : q = _ ∧ n = _ := by simpa using hq
      exact y.covered _ _ _ hp hb
  | close =>
    refine y.futures g ⟨rfl, rfl⟩ rfl rfl (fun _ => rfl) rfl (.inl rfl) fun q b' hq => ?_
    obtain ⟨b, hb, rfl⟩ := getElem?_closeSource.mp hq
    refine ⟨b, hb, ?_⟩
    split
    · exact ⟨rfl, fun n hn => complete_none hn⟩
    · exact ⟨rfl, fun n hn => hn⟩

end Safety

end

variable {s t : Source R E} {convert : R → Except Unit (Option E)} {queuedBatches : ℕ}

structure Inv (convert : R → Except Unit (Option E)) (s : Source R E) : Prop where
  futures : Futures s
  counts : Counts s
  placement : Placement s
  safety : Safety convert s
  contents : Contents convert s

theorem inv_initial : Inv convert (initial : Source R E) :=
  ⟨futures_initial, counts_initial, placement_initial, safety_initial, contents_initial⟩

theorem inv_step (s : Source R E) (event : Event R) (t : Source R E) (i : Inv convert s)
    (hstep : step s convert queuedBatches event = some t) : Inv convert t := by
  have o := step_outcome hstep
  exact ⟨i.futures.step o, i.counts.step i.placement o, i.placement.step i.futures i.counts o,
    i.safety.step i.futures i.counts o, i.contents.step o⟩

theorem batchStart_mono (handed : List (List R)) {i j : ℕ} (h : i ≤ j) : batchStart handed i ≤ batchStart handed j := by
  unfold batchStart recordCount
  exact ((List.take_prefix_take_left h).flatten).length_le

theorem Covered.settled {n i j : ℕ} (h : Covered convert s n) (hcovers : batchStart s.handed i + j < n) :
    Settled convert s i := by
  obtain ⟨m, -, hn, hall⟩ := h
  apply hall
  by_contra hlt
  have := batchStart_mono s.handed (Nat.le_of_not_lt hlt)
  omega

theorem deliveredEvents_eq (k : Counts s) (c : Contents convert s) :
    deliveredEvents s = (eventBatches convert s.handed).take s.delivered.length := by
  obtain ⟨rest, hrest⟩ := c.created
  have hdelivered := Slots.filterMap_range (s.pendings.map (·.events)) s.delivered.length
  simp only [List.getElem?_map, ← k.delivered] at hdelivered
  rw [← hrest, List.take_append_of_le_length (by simpa using k.bounded)]
  exact hdelivered

/-- The position an acknowledgement returns covers no record of a batch with events that has not been acknowledged; the
batches with events are delivered in order; at most the last of them has no position returned yet. -/
theorem run_covers_acknowledged {events : List (Event R)}
    (hrun : run (fun s => step s convert queuedBatches) initial events = some s) :
    (∀ p n, (p, n) ∈ s.returned → ∀ (i j : ℕ) records, s.handed[i]? = some records → j < records.length →
      batchStart s.handed i + j < n → convertAll convert records = .ok [] ∨
        ∃ (q : ℕ) (b : PendingBatch E), s.pendings[q]? = some b ∧ b.batch = i ∧ b.acknowledged = some true) ∧
    deliveredEvents s = (eventBatches convert s.handed).take s.delivered.length ∧
    s.returned.map Prod.fst <+: s.delivered ∧ s.delivered.length ≤ s.returned.length + 1 := by
  have i : Inv convert s := run_preserves inv_step inv_initial hrun
  refine ⟨?_, deliveredEvents_eq i.counts i.contents, ?_, ?_⟩
  · intro p n hp i' j records hrecords _ hcovers
    rcases (i.safety.returned p n hp).settled hcovers with ⟨records', hi, hempty⟩ | hacked
    · obtain rfl := Option.some.inj (hi.symm.trans hrecords)
      exact .inl hempty
    · exact .inr hacked
  · have hbehind := i.counts.behind
    have hprefix := List.take_prefix s.returned.length (List.range s.delivered.length)
    rw [List.take_range, Nat.min_eq_left (by omega), ← i.counts.delivered] at hprefix
    rwa [i.counts.returned]
  · have hbehind := i.counts.behind
    omega

theorem marking_settled (i : Inv convert s) (hopen : s.closed = false) {next : ℕ} {pending : Option ℕ}
    (hengine : s.engine = .marking next pending) : ∀ j < s.handed.length, Settled convert s j := by
  refine Safety.clean_all ?_ (i.safety.clean.resolve_right (by simp [hopen]))
  cases pending with
  | none => exact i.safety.emptied next hengine
  | some p =>
    obtain ⟨b, hb, hacked⟩ := i.futures.confirmed p (.inl ⟨next, hengine⟩)
    exact .inr ⟨p, b, hb, i.safety.current p b (by rw [hengine]; rfl) hb, hacked⟩

structure Durable (convert : R → Except Unit (Option E)) (s : Source R E) : Prop where
  inv : Inv convert s
  covered : s.closed = false → Covered convert s s.marked ∧ Covered convert s s.offsets

theorem Durable.step (s : Source R E) (event : Event R) (t : Source R E) (d : Durable convert s)
    (hstep : step s convert queuedBatches event = some t) : Durable convert t := by
  have o := step_outcome hstep
  have g := o.grows
  refine ⟨inv_step s event t d.inv hstep, fun hopen => ?_⟩
  cases o with
  | close => cases hopen
  | mark hengine hnext =>
    refine ⟨⟨s.handed.length, Nat.le_refl _, ?_, marking_settled d.inv hopen hengine⟩, g.covered (d.covered hopen).2⟩
    rw [batchStart, List.take_length]
    exact hnext
  | save hoffset =>
    obtain ⟨m, hm, hn, hall⟩ := g.covered (d.covered hopen).1
    exact ⟨⟨m, hm, hn, hall⟩, ⟨m, hm, hoffset.trans hn, hall⟩⟩
  | _ => exact (d.covered hopen).imp g.covered g.covered

/-- As long as the source is open, a restart from the saved offsets skips no batch with events that was not acknowledged.
After a close the engine may still mark a batch without events behind one that was refused. -/
theorem run_saved_covered {events : List (Event R)}
    (hrun : run (fun s => step s convert queuedBatches) initial events = some s) (hopen : s.closed = false) :
    Covered convert s s.offsets := by
  have d : Durable convert s :=
    run_preserves Durable.step ⟨inv_initial, fun _ => ⟨⟨0, le_rfl, le_rfl, nofun⟩, ⟨0, le_rfl, le_rfl, nofun⟩⟩⟩ hrun
  exact (d.covered hopen).2

def convertNat (n : ℕ) : Except Unit (Option ℕ) := .ok (if n = 0 then none else some n)

def skippedThenDelivered : List (Event ℕ) :=
  [.handOver [0], .mark, .finishMarking, .save 1,
    .handOver [7], .create, .put, .poll, .take, .deliver, .acknowledge 0, .confirm,
    .wake, .mark, .finishMarking, .save 2, .complete, .obtain]

theorem run_covers_acknowledged_skipped :
    ∃ s : Source ℕ ℕ, run (fun s => step s convertNat 1) initial skippedThenDelivered = some s ∧
      s.returned = [(0, 2)] ∧ deliveredEvents s = [[7]] ∧
      (∀ p n, (p, n) ∈ s.returned → ∀ (i j : ℕ) records, s.handed[i]? = some records → j < records.length →
        batchStart s.handed i + j < n → convertAll convertNat records = .ok [] ∨
          ∃ (q : ℕ) (b : PendingBatch ℕ), s.pendings[q]? = some b ∧ b.batch = i ∧ b.acknowledged = some true) ∧
      deliveredEvents s = (eventBatches convertNat s.handed).take s.delivered.length ∧
      s.returned.map Prod.fst <+: s.delivered ∧ s.delivered.length ≤ s.returned.length + 1 := by
  have hrun : run (fun s => step s convertNat 1) initial skippedThenDelivered = some _ := rfl
  exact ⟨_, hrun, rfl, rfl, run_covers_acknowledged hrun⟩

theorem run_saved_covered_skipped :
    ∃ s : Source ℕ ℕ, run (fun s => step s convertNat 1) initial skippedThenDelivered = some s ∧ s.offsets = 2 ∧
      Covered convertNat s s.offsets := by
  have hrun : run (fun s => step s convertNat 1) initial skippedThenDelivered = some _ := rfl
  exact ⟨_, hrun, rfl, run_saved_covered hrun rfl⟩

/-- The position returned for the second batch covers the record of the first, which nobody acknowledged. -/
theorem skipped_batch_covered :
    ∃ s : Source ℕ ℕ, run (fun s => step s convertNat 1) initial skippedThenDelivered = some s ∧
      (0, 2) ∈ s.returned ∧ s.handed[0]? = some [0] ∧ batchStart s.handed 0 + 0 < 2 ∧
      ¬ ∃ (q : ℕ) (b : PendingBatch ℕ), s.pendings[q]? = some b ∧ b.batch = 0 ∧ b.acknowledged = some true := by
  refine ⟨_, rfl, by decide, rfl, by decide, ?_⟩
  rintro ⟨q, b, hb, hbatch, -⟩
  have hone : [(⟨1, [7], 1, some true, some (some 2)⟩ : PendingBatch ℕ)][q]? = some b := hb
  obtain rfl := List.mem_singleton.mp (List.mem_of_getElem? hone)
  cases hbatch

end AstraSync.DebeziumSource
