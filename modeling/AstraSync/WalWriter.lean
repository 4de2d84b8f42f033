import AstraSync.Library.SignedNumerals
import AstraSync.Library.Transitions
import AstraSync.WalEntry
import Mathlib.Data.Set.Basic

namespace AstraSync.WalWriter

open ByteStrings SignedNumerals WalEntry

structure Config where
  (region walPrefix : Bytes)
  (flushInterval batchSize : ℤ)

def entryKey (cfg : Config) (sequence : Int64) : Bytes :=
  cfg.walPrefix ++ lit "/" ++ cfg.region ++ lit "/" ++ paddedInt 16 sequence ++ lit ".wal"

inductive PutOutcome
  | stored
  | refused
  | lost
  deriving DecidableEq

inductive Flusher
  | running
  | canceled
  | done
  deriving DecidableEq

structure Writer where
  (closed closing : Bool)
  sequence : Int64
  pending : List ℕ
  flusher : Flusher

structure World where
  heap : ℕ → Entry
  objects : Bytes → Option Bytes
  writer : Writer

def setEntry (w : World) (p : ℕ) (e : Entry) : World := { w with heap := Function.update w.heap p e }

def putObject (w : World) (key data : Bytes) : World :=
  { w with objects := Function.update w.objects key (some data) }

variable (cfg : Config)

def flushEach (puts : ℕ → PutOutcome) : ℕ → World → List ℕ → World × Except WalError Unit
  | _, w, [] => (w, .ok ())
  | i, w, p :: ps =>
    match marshalBinary (w.heap p) with
    | .error e => (w, .error (.wrapped "marshal entry" e))
    | .ok (e, data) =>
      let key := entryKey cfg e.sequence
      match puts i with
      | .stored => flushEach puts (i + 1) (putObject (setEntry w p e) key data) ps
      | .lost => (putObject (setEntry w p e) key data, .error (.storage "put object" key))
      | .refused => (setEntry w p e, .error (.storage "put object" key))

def setPending (w : World) (pending : List ℕ) : World :=
  { w with writer := { w.writer with pending := pending } }

def flushLocked (puts : ℕ → PutOutcome) (w : World) : World × Except WalError Unit :=
  match flushEach cfg puts 0 w w.writer.pending with
  | (w, .ok ()) => (setPending w [], .ok ())
  | (w, .error e) => (w, .error e)

def numbered (w : World) (p : ℕ) (now : Int64) : Entry :=
  { w.heap p with sequence := w.writer.sequence + 1, region := cfg.region, timestamp := now }

def enqueue (w : World) (p : ℕ) (now : Int64) : World :=
  { setEntry w p (sealed (numbered cfg w p now)) with
    writer := { w.writer with
      sequence := w.writer.sequence + 1, pending := w.writer.pending ++ [p] } }

def append (entry : Option ℕ) (durable : Bool) (now : Int64) (puts : ℕ → PutOutcome) (w : World) :
    World × Except WalError Unit :=
  if w.writer.closed || w.writer.closing then (w, .error .closed)
  else match entry with
  | none => (w, .error (.invalidEntry "entry is nil"))
  | some p =>
    if (w.heap p).region ≠ [] ∧ (w.heap p).region ≠ cfg.region then
      (w, .error (.mismatchedRegion (w.heap p).region cfg.region))
    else match marshalBinary (numbered cfg w p now) with
    | .error e =>
      (setEntry w p { numbered cfg w p now with sequence := 0 }, .error (.wrapped "marshal entry" e))
    | .ok _ =>
      let w := enqueue cfg w p now
      if durable || cfg.batchSize ≤ 0 || cfg.batchSize ≤ w.writer.pending.length then
        match flushLocked cfg puts w with
        | (w, .ok ()) => (w, .ok ())
        | (w, .error e) => (w, .error (.wrapped "flush WAL" e))
      else (w, .ok ())

inductive Event
  | append (entry : Option ℕ) (durable : Bool) (now : Int64) (puts : ℕ → PutOutcome)
  | tick (puts : ℕ → PutOutcome)
  | close
  | flusherExit
  | closeFlush (puts : ℕ → PutOutcome)

def tick (puts : ℕ → PutOutcome) (w : World) : World :=
  if !w.writer.closed && !w.writer.pending.isEmpty then (flushLocked cfg puts w).1 else w

def close (w : World) : World :=
  if w.writer.closed || w.writer.closing then w
  else { w with writer := { w.writer with
    closing := true, flusher := if w.writer.flusher = .done then .done else .canceled } }

def closeFlush (puts : ℕ → PutOutcome) (w : World) : World × Except WalError Unit :=
  match (if w.writer.pending.isEmpty then (w, .ok ()) else flushLocked cfg puts w) with
  | (w, .ok ()) => ({ w with writer := { w.writer with closed := true, closing := false } }, .ok ())
  | (w, .error e) => ({ w with writer := { w.writer with closing := false } }, .error e)

def step (w : World) : Event → Option World
  | .append entry durable now puts => some (append cfg entry durable now puts w).1
  | .tick puts => if w.writer.flusher = .done then none else some (tick cfg puts w)
  | .close => some (close w)
  | .flusherExit =>
    if w.writer.flusher = .canceled then some { w with writer := { w.writer with flusher := .done } }
    else none
  | .closeFlush puts =>
    if w.writer.closing ∧ w.writer.flusher = .done then some (closeFlush cfg puts w).1 else none

def opened (heap : ℕ → Entry) (objects : Bytes → Option Bytes) (start : Int64) : World :=
  ⟨heap, objects, ⟨false, false, start, [], .running⟩⟩

def sequences (w : World) : List Int64 := w.writer.pending.map fun p => (w.heap p).sequence

/-- The stored and the pending sequences above `start` are those up to the writer's counter; no two
pending entries share one, and an object stored at a pending entry's key is that entry. -/
structure NoGapNoLoss (start : Int64) (w : World) : Prop where
  covered : ∀ n, (start < n ∧ (w.objects (entryKey cfg n)).isSome) ∨ n ∈ sequences w ↔
    start < n ∧ n ≤ w.writer.sequence
  once : (sequences w).Nodup
  own : ∀ p ∈ w.writer.pending, ∀ data, w.objects (entryKey cfg (w.heap p).sequence) = some data →
    unmarshalBinary data = .ok (sealed (w.heap p))
  decodes : ∀ n data, start < n → w.objects (entryKey cfg n) = some data →
    ∃ e, unmarshalBinary data = .ok e ∧ e.sequence = n

def accepts (w : World) (p : ℕ) : Bool :=
  !(w.writer.closed || w.writer.closing) &&
    !decide ((w.heap p).region ≠ [] ∧ (w.heap p).region ≠ cfg.region)

/-- An append that numbers its entry is given one that is not pending and, where it encodes, one
whose strings have four bytes between them. -/
def admissible (w : World) : Event → Bool
  | .append (some p) _ now _ =>
    let e := numbered cfg w p now
    !accepts cfg w p ||
      (!w.writer.pending.contains p && (!(marshalBinary e).isOk || decide (4 ≤ stringBytes e)))
  | _ => true

theorem entryKey_inj {m n : Int64} (hm : 0 ≤ m) (hn : 0 ≤ n) (h : entryKey cfg m = entryKey cfg n) : m = n := by
  simp only [entryKey, List.append_assoc, List.append_cancel_left_eq, List.append_cancel_right_eq] at h
  exact paddedInt_inj hm hn h

theorem marshalBinary_of_sealed_eq {e f : Entry} (h : sealed e = sealed f) : marshalBinary e = marshalBinary f := by
  rw [← marshalBinary_sealed, h, marshalBinary_sealed]

theorem sequence_of_sealed_eq {e f : Entry} (h : sealed e = sealed f) : e.sequence = f.sequence := by
  rw [← sealed_sequence e, h, sealed_sequence]

structure Flushed (ps : List ℕ) (w w' : World) : Prop where
  writer : w'.writer = w.writer
  heap : ∀ p, sealed (w'.heap p) = sealed (w.heap p)
  kept : ∀ k, (w.objects k).isSome → (w'.objects k).isSome
  objects : ∀ k, w'.objects k = w.objects k ∨ ∃ p ∈ ps, ∃ data,
    k = entryKey cfg (w.heap p).sequence ∧ w'.objects k = some data ∧
      marshalBinary (w.heap p) = .ok (sealed (w.heap p), data)

variable {w : World} {p : ℕ}

theorem flushed_setEntry {e : Entry} (he : e = sealed (w.heap p)) : Flushed cfg [] w (setEntry w p e) := by
  refine ⟨rfl, ?_, fun _ h => h, fun _ => .inl rfl⟩
  intro q
  by_cases hq : q = p
  · subst hq he
    simp only [setEntry, Function.update_self]
    rfl
  · simp [setEntry, hq]

theorem flushed_put {e : Entry} {data : Bytes} (h : marshalBinary (w.heap p) = .ok (e, data)) :
    Flushed cfg [p] w (putObject (setEntry w p e) (entryKey cfg e.sequence) data) := by
  obtain ⟨-, -, -, -, -, rfl, -⟩ := marshalBinary_ok h
  have hset : Flushed cfg [] w (setEntry w p (sealed (w.heap p))) := flushed_setEntry cfg rfl
  refine ⟨rfl, hset.heap, ?_, ?_⟩
  · intro k hk
    by_cases heq : k = entryKey cfg (w.heap p).sequence
    · subst heq; simp [putObject]
    · simpa [putObject, heq, setEntry] using hk
  · intro k
    by_cases heq : k = entryKey cfg (w.heap p).sequence
    · exact .inr ⟨p, by simp, data, heq, by simp [putObject, heq], h⟩
    · exact .inl (by simp [putObject, heq, setEntry])

theorem flushed_trans {ps qs : List ℕ} {w u v : World} (h : Flushed cfg ps w u)
    (h' : Flushed cfg qs u v) : Flushed cfg (ps ++ qs) w v := by
  refine ⟨h'.writer.trans h.writer, fun p => (h'.heap p).trans (h.heap p),
    fun k hk => h'.kept k (h.kept k hk), ?_⟩
  intro k
  rcases h'.objects k with heq | ⟨p, hp, data, hk, hd, hm⟩
  · grind [Flushed]
  · grind [Flushed, sequence_of_sealed_eq, marshalBinary_of_sealed_eq]

theorem flushed_mono {ps qs : List ℕ} {w u : World} (h : Flushed cfg ps w u) (hsub : ps ⊆ qs) : Flushed cfg qs w u := by
  grind [Flushed]

theorem flushEach_flushed (puts : ℕ → PutOutcome) (i : ℕ) (w : World) (ps : List ℕ) :
    Flushed cfg ps w (flushEach cfg puts i w ps).1 := by
  induction ps generalizing i w with
  | nil => exact ⟨rfl, fun _ => rfl, fun _ h => h, fun _ => .inl rfl⟩
  | cons p ps ih =>
    rw [flushEach]
    cases hm : marshalBinary (w.heap p) with
    | error => exact ⟨rfl, fun _ => rfl, fun _ h => h, fun _ => .inl rfl⟩
    | ok r =>
      obtain ⟨e, data⟩ := r
      have hput := flushed_put cfg hm
      cases hp : puts i with
      | stored => exact flushed_trans cfg hput (ih (i + 1) _)
      | lost => exact flushed_mono cfg hput (by simp)
      | refused =>
        exact flushed_mono cfg (flushed_setEntry cfg (marshalBinary_ok hm).2.2.2.2.2.1) (by simp)

theorem flushEach_stores {puts : ℕ → PutOutcome} {i : ℕ} {ps : List ℕ} (h : (flushEach cfg puts i w ps).2 = .ok ()) :
    ∀ p ∈ ps, ((flushEach cfg puts i w ps).1.objects (entryKey cfg (w.heap p).sequence)).isSome := by
  induction ps generalizing i w with
  | nil => simp
  | cons p ps ih =>
    rw [flushEach] at h ⊢
    cases hm : marshalBinary (w.heap p) with
    | error => simp [hm] at h
    | ok r =>
      obtain ⟨e, data⟩ := r
      have hput := flushed_put cfg hm
      have he : e = sealed (w.heap p) := (marshalBinary_ok hm).2.2.2.2.2.1
      cases hp : puts i with
      | stored =>
        simp only [hm, hp] at h ⊢
        intro q hq
        rcases List.mem_cons.mp hq with rfl | hq
        · exact (flushEach_flushed cfg puts (i + 1) _ ps).kept _ (by simp [putObject, he])
        · rw [← sequence_of_sealed_eq (hput.heap q)]
          exact ih h q hq
      | lost => simp [hm, hp] at h
      | refused => simp [hm, hp] at h

structure Inv (start : Int64) (w : World) : Prop extends NoGapNoLoss cfg start w where
  start_nonneg : 0 ≤ start
  start_le : start ≤ w.writer.sequence
  long : ∀ p ∈ w.writer.pending, 4 ≤ stringBytes (w.heap p)

theorem sequences_eq {w w' : World} (hp : w'.writer.pending = w.writer.pending)
    (h : ∀ p ∈ w.writer.pending, (w'.heap p).sequence = (w.heap p).sequence) :
    sequences w' = sequences w := by
  rw [sequences, sequences, hp]
  exact List.map_congr_left h

variable {start : Int64}

theorem inv_above (h : Inv cfg start w) {n : Int64} (hn : n ∈ sequences w) : start < n :=
  ((h.covered n).mp (.inr hn)).1

theorem inv_nonneg (h : Inv cfg start w) {n : Int64} (hn : start < n) : 0 ≤ n := by
  have hs := h.start_nonneg
  rw [Int64.lt_iff_toInt_lt] at hn
  rw [Int64.le_iff_toInt_le] at hs ⊢
  omega

theorem mem_sequences (hp : p ∈ w.writer.pending) : (w.heap p).sequence ∈ sequences w := List.mem_map_of_mem hp

theorem flushed_object {start n : Int64} {w w' : World} (h : Inv cfg start w)
    (hf : Flushed cfg w.writer.pending w w') (hn : start < n) :
    w'.objects (entryKey cfg n) = w.objects (entryKey cfg n) ∨
      ∃ p ∈ w.writer.pending, ∃ data, n = (w.heap p).sequence ∧
        w'.objects (entryKey cfg n) = some data ∧ unmarshalBinary data = .ok (sealed (w.heap p)) := by
  rcases hf.objects (entryKey cfg n) with heq | ⟨p, hp, data, hk, hd, hm⟩
  · exact .inl heq
  · have hpos := inv_nonneg cfg h (inv_above cfg h (mem_sequences hp))
    exact .inr ⟨p, hp, data, entryKey_inj cfg (inv_nonneg cfg h hn) hpos hk, hd,
      unmarshalBinary_marshalBinary hm (h.long p hp)⟩

theorem inv_flushed {w w' : World} (h : Inv cfg start w)
    (hf : Flushed cfg w.writer.pending w w') : Inv cfg start w' := by
  have hseq : sequences w' = sequences w :=
    sequences_eq (by rw [hf.writer]) (fun p _ => sequence_of_sealed_eq (hf.heap p))
  refine ⟨⟨?_, hseq ▸ h.once, ?_, ?_⟩, h.start_nonneg, hf.writer ▸ h.start_le, ?_⟩
  · intro n
    rw [hseq, hf.writer, ← h.covered n]
    constructor
    · grind [flushed_object, mem_sequences]
    · grind [Flushed]
  · intro p hp data hd
    rw [hf.writer] at hp
    rw [sequence_of_sealed_eq (hf.heap p)] at hd
    rw [hf.heap p]
    rcases flushed_object cfg h hf (inv_above cfg h (mem_sequences hp)) with heq | ⟨q, hq, d, hpq, hq', hu⟩
    · exact h.own p hp data (heq ▸ hd)
    · have hsame : p = q := List.inj_on_of_nodup_map h.once hp hq hpq
      rw [hd] at hq'
      cases hq'
      rw [hsame, hu]
  · intro n data hn hd
    rcases flushed_object cfg h hf hn with heq | ⟨q, hq, d, rfl, hq', hu⟩
    · exact h.decodes n data hn (heq ▸ hd)
    · rw [hd] at hq'
      cases hq'
      exact ⟨_, hu, rfl⟩
  · intro p hp
    rw [hf.writer] at hp
    have hlen : stringBytes (sealed (w'.heap p)) = stringBytes (sealed (w.heap p)) := by rw [hf.heap p]
    exact hlen ▸ h.long p hp

theorem inv_flushLocked (puts : ℕ → PutOutcome) (h : Inv cfg start w) : Inv cfg start (flushLocked cfg puts w).1 := by
  have hf := flushEach_flushed cfg puts 0 w w.writer.pending
  have hstores := @flushEach_stores cfg w puts 0 w.writer.pending
  unfold flushLocked
  generalize flushEach cfg puts 0 w w.writer.pending = r at hf hstores
  obtain ⟨u, r⟩ := r
  have hu := inv_flushed cfg h hf
  cases r with
  | error => exact hu
  | ok =>
    refine ⟨⟨?_, List.nodup_nil, by simp [setPending], hu.decodes⟩, hu.start_nonneg, hu.start_le,
      by simp [setPending]⟩
    intro n
    rw [show (setPending u []).writer.sequence = u.writer.sequence from rfl, ← hu.covered n]
    refine ⟨fun hn => hn.elim .inl (by simp [sequences, setPending]), ?_⟩
    rintro (hn | hn)
    · exact .inl hn
    · obtain ⟨p, hp, rfl⟩ := List.mem_map.mp hn
      refine .inl ⟨inv_above cfg hu hn, ?_⟩
      rw [sequence_of_sealed_eq (hf.heap p)]
      exact hstores rfl p (hf.writer ▸ hp)

theorem inv_setEntry (e : Entry) (hp : p ∉ w.writer.pending)
    (h : Inv cfg start w) : Inv cfg start (setEntry w p e) := by
  have hother : ∀ q ∈ w.writer.pending, (setEntry w p e).heap q = w.heap q := by
    intro q hq
    have hne : q ≠ p := by rintro rfl; exact hp hq
    simp [setEntry, hne]
  have hseq : sequences (setEntry w p e) = sequences w :=
    sequences_eq rfl (fun q hq => by rw [hother q hq])
  refine ⟨⟨hseq ▸ h.covered, hseq ▸ h.once, ?_, h.decodes⟩, h.start_nonneg, h.start_le, ?_⟩
  · intro q hq data
    rw [hother q hq]
    exact h.own q hq data
  · intro q hq
    rw [hother q hq]
    exact h.long q hq

theorem sequences_enqueue (now : Int64) (hp : p ∉ w.writer.pending) :
    sequences (enqueue cfg w p now) = sequences w ++ [w.writer.sequence + 1] := by
  have hother : ∀ q ∈ w.writer.pending, ((enqueue cfg w p now).heap q).sequence = (w.heap q).sequence := by
    intro q hq
    have hne : q ≠ p := by rintro rfl; exact hp hq
    simp [enqueue, setEntry, hne]
  rw [sequences, enqueue, List.map_append, sequences]
  congr 1
  · exact List.map_congr_left hother
  · simp [setEntry, numbered]

theorem inv_enqueue {now : Int64} (hp : p ∉ w.writer.pending)
    (hpos : 0 < w.writer.sequence + 1) (hlong : 4 ≤ stringBytes (numbered cfg w p now))
    (h : Inv cfg start w) : Inv cfg start (enqueue cfg w p now) := by
  have hset := inv_setEntry cfg (sealed (numbered cfg w p now)) hp h
  have hlt := lt_succ_self hpos
  have hstart : start < w.writer.sequence + 1 := Int64.lt_of_le_of_lt h.start_le hlt
  have hseq := sequences_enqueue cfg now hp
  have hheap : (enqueue cfg w p now).heap p = sealed (numbered cfg w p now) := by
    simp [enqueue, setEntry]
  refine ⟨⟨?_, ?_, ?_, h.decodes⟩, h.start_nonneg, Int64.le_of_lt hstart, ?_⟩
  · intro n
    change (start < n ∧ (w.objects (entryKey cfg n)).isSome) ∨ n ∈ sequences (enqueue cfg w p now) ↔
      start < n ∧ n ≤ w.writer.sequence + 1
    rw [hseq, List.mem_append, List.mem_singleton, ← or_assoc, h.covered n, le_succ_iff hpos,
      and_or_left]
    refine or_congr_right ⟨fun hn => ⟨hn ▸ hstart, hn⟩, And.right⟩
  · rw [hseq, List.nodup_append]
    refine ⟨h.once, by simp, ?_⟩
    intro m hm n hn
    rw [List.mem_singleton.mp hn]
    rintro rfl
    exact Int64.not_le.mpr hlt ((h.covered _).mp (.inr hm)).2
  · intro q hq data hd
    rcases List.mem_append.mp hq with hq | hq
    · exact hset.own q hq data hd
    · rw [List.mem_singleton.mp hq, hheap] at hd
      have hold : (w.objects (entryKey cfg (w.writer.sequence + 1))).isSome := Option.isSome_of_eq_some hd
      exact absurd ((h.covered _).mp (.inl ⟨hstart, hold⟩)).2 (Int64.not_le.mpr hlt)
  · intro q hq
    rcases List.mem_append.mp hq with hq | hq
    · exact hset.long q hq
    · rw [List.mem_singleton.mp hq, hheap]
      exact hlong

theorem append_cases (entry : Option ℕ) (durable : Bool) (now : Int64) (puts : ℕ → PutOutcome) (w : World) :
    (append cfg entry durable now puts w).1 = w ∨
    ∃ p, entry = some p ∧ accepts cfg w p = true ∧
      ((∃ e, marshalBinary (numbered cfg w p now) = .error e ∧
        (append cfg entry durable now puts w).1 =
          setEntry w p { numbered cfg w p now with sequence := 0 }) ∨
      ∃ r, marshalBinary (numbered cfg w p now) = .ok r ∧
        ((append cfg entry durable now puts w).1 = enqueue cfg w p now ∨
          (append cfg entry durable now puts w).1 = (flushLocked cfg puts (enqueue cfg w p now)).1)) := by
  unfold append
  by_cases hclosed : (w.writer.closed || w.writer.closing) = true
  · exact .inl (by rw [if_pos hclosed])
  rw [if_neg hclosed]
  cases entry with
  | none => exact .inl rfl
  | some p =>
    by_cases hregion : (w.heap p).region ≠ [] ∧ (w.heap p).region ≠ cfg.region
    · exact .inl (by simp only [if_pos hregion])
    · refine .inr ⟨p, rfl, by simp [accepts, hclosed, hregion], ?_⟩
      simp only [if_neg hregion]
      cases hm : marshalBinary (numbered cfg w p now) with
      | error e => exact .inl ⟨e, rfl, rfl⟩
      | ok => grind

theorem inv_append {entry : Option ℕ} {durable : Bool} {now : Int64} {puts : ℕ → PutOutcome} (h : Inv cfg start w)
    (hok : admissible cfg w (.append entry durable now puts) = true) :
    Inv cfg start (append cfg entry durable now puts w).1 := by
  rcases append_cases cfg entry durable now puts w with heq | ⟨p, rfl, hacc, hcase⟩
  · rw [heq]; exact h
  simp only [admissible, hacc, Bool.not_true, Bool.false_or, Bool.and_eq_true, Bool.not_eq_true',
    List.contains_eq_mem, decide_eq_false_iff_not] at hok
  obtain ⟨hp, hok⟩ := hok
  rcases hcase with ⟨e, hm, heq⟩ | ⟨r, hm, hcase⟩
  · rw [heq]; exact inv_setEntry cfg _ hp h
  · have hlong : 4 ≤ stringBytes (numbered cfg w p now) := by
      simpa [hm, Except.isOk, Except.toBool] using hok
    have hq := inv_enqueue cfg hp (marshalBinary_ok hm).1 hlong h
    rcases hcase with heq | heq
    · rw [heq]; exact hq
    · rw [heq]; exact inv_flushLocked cfg puts hq

theorem inv_of_writer (v : Writer) (hs : v.sequence = w.writer.sequence)
    (hp : v.pending = w.writer.pending) (h : Inv cfg start w) : Inv cfg start { w with writer := v } := by
  have hseq : sequences { w with writer := v } = sequences w := sequences_eq hp (fun _ _ => rfl)
  refine ⟨⟨?_, hseq ▸ h.once, hp ▸ h.own, h.decodes⟩, h.start_nonneg, hs ▸ h.start_le, hp ▸ h.long⟩
  rw [hseq]
  exact hs ▸ h.covered

theorem step_cases {w w' : World} {e : Event} (hs : step cfg w e = some w') :
    ∃ u v, w' = { u with writer := v } ∧ v.sequence = u.writer.sequence ∧ v.pending = u.writer.pending ∧
      (u = w ∨ (∃ puts, u = (flushLocked cfg puts w).1) ∨
        ∃ entry durable now puts, e = .append entry durable now puts ∧
          u = (append cfg entry durable now puts w).1) := by
  cases e with
  | append entry durable now puts =>
    cases hs
    exact ⟨_, _, rfl, rfl, rfl, .inr (.inr ⟨entry, durable, now, puts, rfl, rfl⟩)⟩
  | tick puts =>
    simp only [step, Option.ite_none_left_eq_some] at hs
    cases hs.2
    refine ⟨tick cfg puts w, (tick cfg puts w).writer, rfl, rfl, rfl, ?_⟩
    unfold tick
    split_ifs
    · exact .inr (.inl ⟨puts, rfl⟩)
    · exact .inl rfl
  | close =>
    cases hs
    by_cases hc : (w.writer.closed || w.writer.closing) = true
    · rw [close, if_pos hc]; exact ⟨w, w.writer, rfl, rfl, rfl, .inl rfl⟩
    · rw [close, if_neg hc]; exact ⟨w, _, rfl, rfl, rfl, .inl rfl⟩
  | flusherExit =>
    simp only [step, Option.ite_none_right_eq_some] at hs
    cases hs.2
    exact ⟨w, _, rfl, rfl, rfl, .inl rfl⟩
  | closeFlush =>
    simp only [step, Option.ite_none_right_eq_some] at hs
    cases hs.2
    unfold closeFlush
    by_cases hp : w.writer.pending.isEmpty = true
    · rw [if_pos hp]; exact ⟨w, _, rfl, rfl, rfl, .inl rfl⟩
    · grind

theorem step_inv {w w' : World} {e : Event} (h : Inv cfg start w)
    (hok : admissible cfg w e = true) (hs : step cfg w e = some w') : Inv cfg start w' := by
  grind [step_cases, inv_of_writer, inv_flushLocked, inv_append]

theorem opened_inv {heap : ℕ → Entry} {objects : Bytes → Option Bytes}
    (hstart : 0 ≤ start) (hfresh : ∀ n, start < n → objects (entryKey cfg n) = none) :
    Inv cfg start (opened heap objects start) := by
  refine ⟨⟨?_, List.nodup_nil, by simp [opened], ?_⟩, hstart, Int64.le_refl _, by simp [opened]⟩
  · intro n
    simp only [opened, sequences, List.map_nil, List.not_mem_nil, or_false]
    constructor
    · rintro ⟨hn, hs⟩
      simp [hfresh n hn] at hs
    · rintro ⟨hn, hle⟩
      exact absurd hle (Int64.not_le.mpr hn)
  · intro n data hn hd
    simp [opened, hfresh n hn] at hd

theorem run_noGapNoLoss {heap : ℕ → Entry} {objects : Bytes → Option Bytes} {start : Int64}
    {events : List Event} {w : World} (hstart : 0 ≤ start)
    (hfresh : ∀ n, start < n → objects (entryKey cfg n) = none)
    (hok : Transitions.meets (step cfg) (admissible cfg) (opened heap objects start) events = true)
    (hrun : Transitions.run (step cfg) (opened heap objects start) events = some w) :
    NoGapNoLoss cfg start w :=
  (Transitions.run_invariant (fun _ _ _ => step_inv cfg) (opened_inv cfg hstart hfresh) hok hrun).toNoGapNoLoss

def euWest : Config := ⟨lit "eu-west", lit "wal", 1000000000, 100⟩

def ordersEntry : Entry := ⟨0, [], 7, lit "s3://checkpoints/7", lit "orders", 0, 0⟩

def retried : List Event :=
  [.append (some 0) true 1 (fun _ => .refused), .append (some 0) true 2 (fun _ => .stored)]

theorem retried_leaves_gap :
    ∃ w, Transitions.run (step euWest) (opened (fun _ => ordersEntry) (fun _ => none) 0) retried = some w ∧
      ¬ NoGapNoLoss euWest 0 w :=
  ⟨_, rfl, fun h => absurd (h.covered 1) (by decide)⟩

def closedAfterRefusal : List Event :=
  [.append (some 0) true 1 (fun _ => .refused), .append (some 1) false 2 (fun _ => .stored),
    .tick (fun i => if i = 0 then .lost else .refused), .close, .flusherExit, .closeFlush (fun _ => .stored)]

theorem closedAfterRefusal_noGapNoLoss :
    ∃ w, Transitions.run (step euWest) (opened (fun _ => ordersEntry) (fun _ => none) 0)
        closedAfterRefusal = some w ∧ NoGapNoLoss euWest 0 w :=
  ⟨_, rfl, @run_noGapNoLoss euWest (fun _ => ordersEntry) (fun _ => none) 0 closedAfterRefusal _
    (by decide) (fun _ _ => rfl) (by decide) rfl⟩

end AstraSync.WalWriter
