import AstraSync.WalWriter

namespace AstraSync.WalResume

open ByteStrings SignedNumerals WalEntry WalWriter

def keySequence (cfg : Config) (key : Bytes) : Option Int64 :=
  let parts := split slash (trimSuffix key (lit ".wal"))
  let prefixParts := split slash (trimSuffix cfg.walPrefix (lit "/"))
  if parts.length ≠ prefixParts.length + 2 ∨
      join slash (parts.take prefixParts.length) ≠ join slash prefixParts ∨
      parts[prefixParts.length]? ≠ some cfg.region then none
  else parseInt (parts.getLastD [])

def raised (cfg : Config) (maxSeq : Int64) (key : Bytes) : Int64 :=
  match keySequence cfg key with
  | some seq => if maxSeq < seq then seq else maxSeq
  | none => maxSeq

def resumeSequence (cfg : Config) (keys : List Bytes) : Int64 := keys.foldl (raised cfg) 0

def newWriter (cfg : Config) (listed : Option (List Bytes)) (heap : ℕ → Entry)
    (objects : Bytes → Option Bytes) : Except WalError World :=
  if cfg.region = [] ∨ cfg.walPrefix = [] then
    .error (.invalidEntry "region and WAL prefix are required")
  else if cfg.flushInterval ≤ 0 ∨ cfg.batchSize ≤ 0 then
    .error (.invalidEntry "flush interval and batch size must be positive")
  else match listed with
  | none => .error (.wrapped "resume WAL sequence" (.storage "list objects" (cfg.walPrefix ++ lit "/")))
  | some keys => .ok (opened heap objects (resumeSequence cfg keys))

def Lists (objects : Bytes → Option Bytes) (keyPrefix : Bytes) (keys : List Bytes) : Prop :=
  ∀ k, k ∈ keys ↔ (objects k).isSome ∧ keyPrefix <+: k

inductive Written : (Bytes → Option Bytes) → Prop
  | empty : Written (fun _ => none)
  | generation {cfg : Config} {objects : Bytes → Option Bytes} {keys : List Bytes} {heap : ℕ → Entry}
      {w w' : World} {events : List Event} (earlier : Written objects)
      (listed : Lists objects (cfg.walPrefix ++ lit "/") keys)
      (opens : newWriter cfg (some keys) heap objects = .ok w)
      (runs : Transitions.run (step cfg) w events = some w') : Written w'.objects

def IsHighest (cfg : Config) (objects : Bytes → Option Bytes) (m : Int64) : Prop :=
  (∀ n, 0 < n → (objects (entryKey cfg n)).isSome → n ≤ m) ∧
    (m = 0 ∨ 0 < m ∧ (objects (entryKey cfg m)).isSome)

def RestartSafe (cfg : Config) (objects : Bytes → Option Bytes) (w : World) : Prop :=
  IsHighest cfg objects w.writer.sequence ∧
    ∀ events w', Transitions.run (step cfg) w events = some w' →
      ∀ k, (objects k).isSome → w'.objects k = objects k

def cleanKeys (cfg : Config) : Prop := ¬ lit "/" <:+ cfg.walPrefix ∧ slash ∉ cfg.region

section

variable (cfg : Config)

structure Above (start : Int64) (objects : Bytes → Option Bytes) (w : World) : Prop where
  start_nonneg : 0 ≤ start
  start_le : start ≤ w.writer.sequence
  pending : ∀ p ∈ w.writer.pending, 0 < (w.heap p).sequence → start < (w.heap p).sequence
  objects : ∀ k, w.objects k = objects k ∨ ∃ n, start < n ∧ k = entryKey cfg n

variable {cfg} {start : Int64} {objects : Bytes → Option Bytes} {w w' : World}

theorem above_flushed (h : Above cfg start objects w) (hf : Flushed cfg w.writer.pending w w') :
    Above cfg start objects w' := by
  refine ⟨h.start_nonneg, hf.writer ▸ h.start_le, ?_, ?_⟩
  · intro p hp hpos
    rw [sequence_of_sealed_eq (hf.heap p)] at hpos ⊢
    exact h.pending p (hf.writer ▸ hp) hpos
  · intro k
    rcases hf.objects k with heq | ⟨p, hp, data, hk, -, hm⟩
    · rw [heq]; exact h.objects k
    · exact .inr ⟨_, h.pending p hp (marshalBinary_ok hm).1, hk⟩

theorem above_flushLocked (puts : ℕ → PutOutcome) (h : Above cfg start objects w) :
    Above cfg start objects (flushLocked cfg puts w).1 := by
  have hf := above_flushed h (flushEach_flushed cfg puts 0 w w.writer.pending)
  unfold flushLocked
  generalize flushEach cfg puts 0 w w.writer.pending = r at hf
  obtain ⟨u, _ | _⟩ := r
  · exact hf
  · exact ⟨hf.start_nonneg, hf.start_le, by simp [setPending], hf.objects⟩

theorem above_setEntry (p : ℕ) {e : Entry} (he : 0 < e.sequence → start < e.sequence)
    (h : Above cfg start objects w) : Above cfg start objects (setEntry w p e) := by
  refine ⟨h.start_nonneg, h.start_le, ?_, h.objects⟩
  intro q hq
  by_cases hqp : q = p
  · subst hqp; simpa [setEntry] using he
  · simpa [setEntry, hqp] using h.pending q hq

theorem above_enqueue {p : ℕ} {now : Int64} (hpos : 0 < w.writer.sequence + 1)
    (h : Above cfg start objects w) : Above cfg start objects (enqueue cfg w p now) := by
  have hlt := lt_succ_self hpos
  have hstart : start < w.writer.sequence + 1 := Int64.lt_of_le_of_lt h.start_le hlt
  have hset := @above_setEntry cfg start objects w p (sealed (numbered cfg w p now)) (fun _ => hstart) h
  refine ⟨h.start_nonneg, Int64.le_of_lt hstart, ?_, h.objects⟩
  intro q hq
  rcases List.mem_append.mp hq with hq | hq
  · exact hset.pending q hq
  · intro _
    rw [List.mem_singleton.mp hq]
    simpa [enqueue, setEntry, numbered] using hstart

theorem step_above {e : Event} (h : Above cfg start objects w) (hs : step cfg w e = some w') :
    Above cfg start objects w' := by
  obtain ⟨u, v, rfl, hseq, hpending, hcase⟩ := step_cases cfg hs
  suffices hu : Above cfg start objects u from
    ⟨hu.start_nonneg, hseq ▸ hu.start_le, hpending ▸ hu.pending, hu.objects⟩
  rcases hcase with rfl | ⟨puts, rfl⟩ | ⟨entry, durable, now, puts, rfl, rfl⟩
  · exact h
  · exact above_flushLocked puts h
  · rcases append_cases cfg entry durable now puts w with heq | ⟨p, rfl, -, ⟨-, -, heq⟩ | ⟨r, hm, heq | heq⟩⟩
    · rw [heq]; exact h
    · rw [heq]; exact above_setEntry p (fun h0 => absurd h0 (fun h1 => Int64.lt_irrefl h1)) h
    · rw [heq]; exact above_enqueue (marshalBinary_ok hm).1 h
    · rw [heq]; exact above_flushLocked puts (above_enqueue (marshalBinary_ok hm).1 h)

theorem run_above {heap : ℕ → Entry} {events : List Event} (hstart : 0 ≤ start)
    (hrun : Transitions.run (step cfg) (opened heap objects start) events = some w) :
    Above cfg start objects w := by
  have hopened : Above cfg start objects (opened heap objects start) :=
    ⟨hstart, Int64.le_refl _, by simp [opened], fun _ => .inl rfl⟩
  exact Transitions.run_preserves (fun _ _ _ h hs => step_above h hs) hopened hrun

end

theorem raised_spec (cfg : Config) (maxSeq : Int64) (key : Bytes) : maxSeq ≤ raised cfg maxSeq key ∧
    (∀ seq, keySequence cfg key = some seq → seq ≤ raised cfg maxSeq key) ∧
    (raised cfg maxSeq key = maxSeq ∨
      maxSeq < raised cfg maxSeq key ∧ keySequence cfg key = some (raised cfg maxSeq key)) := by
  unfold raised
  cases hk : keySequence cfg key with
  | none => exact ⟨Int64.le_refl _, by simp, .inl rfl⟩
  | some => grind

theorem resumeSequence_spec (cfg : Config) (keys : List Bytes) : 0 ≤ resumeSequence cfg keys ∧
    (∀ key ∈ keys, ∀ seq, keySequence cfg key = some seq → seq ≤ resumeSequence cfg keys) ∧
    (resumeSequence cfg keys = 0 ∨
      0 < resumeSequence cfg keys ∧ ∃ key ∈ keys, keySequence cfg key = some (resumeSequence cfg keys)) := by
  induction keys using List.reverseRecOn with
  | nil => exact ⟨Int64.le_refl 0, by simp, .inl rfl⟩
  | append_singleton keys key ih =>
    obtain ⟨hpos, hle, htop⟩ := ih
    obtain ⟨hgrow, hkey, hnew⟩ := raised_spec cfg (resumeSequence cfg keys) key
    have hcons : resumeSequence cfg (keys ++ [key]) = raised cfg (resumeSequence cfg keys) key := by
      simp [resumeSequence]
    rw [hcons]
    refine ⟨Int64.le_trans hpos hgrow, ?_, ?_⟩
    · grind
    · grind

def location (cfg : Config) : Bytes := cfg.walPrefix ++ slash :: cfg.region

theorem entryKey_eq (cfg : Config) (n : Int64) :
    entryKey cfg n = location cfg ++ slash :: paddedInt 16 n ++ lit ".wal" := by
  have hslash : lit "/" = [slash] := by decide
  simp [entryKey, location, hslash]

variable {n seq : Int64} {cfg c : Config} {keys : List Bytes} {objects : Bytes → Option Bytes}

theorem slash_not_mem_paddedInt {width : ℕ} (h : 0 ≤ n) : slash ∉ paddedInt width n := by
  rw [paddedInt_of_nonneg h]
  intro hmem
  exact absurd (padded_digits _ _ _ hmem) (by decide)

theorem keySequence_some {key : Bytes} (h : keySequence cfg key = some seq) : ∃ last, trimSuffix key (lit ".wal") =
        (trimSuffix cfg.walPrefix (lit "/") ++ slash :: cfg.region) ++ slash :: last ∧
      slash ∉ cfg.region ∧ slash ∉ last ∧ parseInt last = some seq := by
  simp only [keySequence, Option.ite_none_left_eq_some, not_or, not_not] at h
  obtain ⟨⟨hlen, hjoin, hregion⟩, hparse⟩ := h
  have hwhole := join_split slash (trimSuffix key (lit ".wal"))
  have hfree := @not_mem_of_mem_split slash (trimSuffix key (lit ".wal"))
  generalize split slash (trimSuffix key (lit ".wal")) = parts at *
  rw [join_split] at hjoin
  have hne : split slash (trimSuffix cfg.walPrefix (lit "/")) ≠ [] := List.splitOn_ne_nil _ _
  generalize hk : (split slash (trimSuffix cfg.walPrefix (lit "/"))).length = k at *
  have hk0 : 0 < k := by rw [← hk]; exact List.length_pos_of_ne_nil hne
  have hlast : parts[k + 1]? = some (parts.getLastD []) := by
    rw [List.getLastD_eq_getLast?, List.getLast?_eq_getElem?, hlen]
    simp [hlen]
  have hparts : parts = (parts.take k ++ [cfg.region]) ++ [parts.getLastD []] := by
    have hall : parts.take (k + 1 + 1) = parts := List.take_of_length_le (by omega)
    rw [List.take_add_one, hlast, List.take_add_one, hregion] at hall
    exact hall.symm
  have htake : parts.take k ≠ [] := by
    grind
  refine ⟨parts.getLastD [], ?_, hfree (List.mem_of_getElem? hregion), hfree (List.mem_of_getElem? hlast),
    hparse⟩
  rw [← hwhole, ← hjoin, ← join_concat slash cfg.region htake, ← join_concat slash _ (by simp), ← hparts]

theorem keySequence_entryKey (hclean : cleanKeys cfg) (hn : 0 ≤ n) : keySequence cfg (entryKey cfg n) = some n := by
  have hparts : split slash (trimSuffix (entryKey cfg n) (lit ".wal")) =
      split slash cfg.walPrefix ++ [cfg.region, paddedInt 16 n] := by
    rw [entryKey_eq, trimSuffix_append, split_append, location, split_append,
      split_single hclean.2, split_single (slash_not_mem_paddedInt hn)]
    simp
  rw [keySequence, hparts, trimSuffix_of_not hclean.1]
  simp [parseInt_paddedInt 16 hn]

theorem location_of_keySequence (hn : 0 ≤ n) (h : keySequence cfg (entryKey c n) = some seq) :
    location c = trimSuffix cfg.walPrefix (lit "/") ++ slash :: cfg.region ∧ slash ∉ cfg.region ∧ seq = n := by
  grind [keySequence_some, entryKey_eq, trimSuffix_append, sep_cancel, slash_not_mem_paddedInt, parseInt_paddedInt]

theorem entryKey_of_keySequence (hclean : cleanKeys cfg) (hn : 0 ≤ n)
    (h : keySequence cfg (entryKey c n) = some seq) : entryKey c n = entryKey cfg seq := by
  obtain ⟨hloc, -, rfl⟩ := location_of_keySequence hn h
  rw [trimSuffix_of_not hclean.1] at hloc
  rw [entryKey_eq, entryKey_eq, hloc, location]

theorem keySequence_of_not_clean (hclean : ¬ cleanKeys cfg)
    (hne : cfg.region ≠ []) (hn : 0 ≤ n) (hlisted : cfg.walPrefix ++ lit "/" <+: entryKey c n) :
    keySequence cfg (entryKey c n) = none := by
  by_contra hsome
  obtain ⟨seq, hseq⟩ := Option.ne_none_iff_exists'.mp hsome
  obtain ⟨hloc, hregion, -⟩ := location_of_keySequence hn hseq
  have hends : lit "/" <:+ cfg.walPrefix := by
    by_contra hends
    exact hclean ⟨hends, hregion⟩
  obtain ⟨front, hfront⟩ := hends
  rw [← hfront, trimSuffix_append] at hloc
  rw [entryKey_eq, hloc, ← hfront] at hlisted
  obtain ⟨b, region, hcons⟩ := List.exists_cons_of_ne_nil hne
  have hslash : lit "/" = [slash] := by decide
  rw [hslash, hcons] at hlisted
  simp only [List.append_assoc, List.cons_append, List.nil_append, List.prefix_append_right_inj,
    List.cons_prefix_cons, true_and] at hlisted
  exact hregion (by simp [hcons, hlisted])

theorem newWriter_ok {heap : ℕ → Entry} {w : World} (h : newWriter cfg (some keys) heap objects = .ok w) :
    cfg.region ≠ [] ∧ w = opened heap objects (resumeSequence cfg keys) := by
  unfold newWriter at h
  split_ifs at h with hname hlimit
  cases h
  push Not at hname
  exact ⟨hname.1, rfl⟩

theorem written_keys (h : Written objects) {k : Bytes} (hk : (objects k).isSome) : ∃ c n, 0 < n ∧ k = entryKey c n := by
  induction h with
  | empty => simp at hk
  | @generation cfg objects keys heap w w' events _ _ opens runs ih =>
    obtain ⟨-, rfl⟩ := newWriter_ok opens
    have hstart := (resumeSequence_spec cfg keys).1
    rcases (run_above hstart runs).objects k with heq | ⟨n, hn, hkey⟩
    · exact ih (heq ▸ hk)
    · exact ⟨cfg, n, Int64.lt_of_le_of_lt hstart hn, hkey⟩

theorem listed_iff (hlists : Lists objects (cfg.walPrefix ++ lit "/") keys) (n : Int64) :
    entryKey cfg n ∈ keys ↔ (objects (entryKey cfg n)).isSome := by
  rw [hlists]
  simp [entryKey]

theorem resumeSequence_isHighest
    (hclean : cleanKeys cfg) (hw : Written objects) (hlists : Lists objects (cfg.walPrefix ++ lit "/") keys) :
    IsHighest cfg objects (resumeSequence cfg keys) := by
  obtain ⟨-, hle, htop⟩ := resumeSequence_spec cfg keys
  refine ⟨?_, ?_⟩
  · grind [listed_iff, keySequence_entryKey, Int64.le_of_lt]
  · rcases htop with h0 | ⟨h0, key, hmem, hseq⟩
    · exact .inl h0
    · have hstored := ((hlists key).mp hmem).1
      obtain ⟨c, n, hn, rfl⟩ := written_keys hw hstored
      rw [entryKey_of_keySequence hclean (Int64.le_of_lt hn) hseq] at hstored
      exact .inr ⟨h0, hstored⟩

theorem resumeSequence_of_not_clean (hclean : ¬ cleanKeys cfg) (hne : cfg.region ≠ []) (hw : Written objects)
    (hlists : Lists objects (cfg.walPrefix ++ lit "/") keys) : resumeSequence cfg keys = 0 := by
  obtain ⟨-, -, htop⟩ := resumeSequence_spec cfg keys
  rcases htop with h0 | ⟨-, key, hmem, hseq⟩
  · exact h0
  · obtain ⟨hstored, hlisted⟩ := (hlists key).mp hmem
    obtain ⟨c, n, hn, rfl⟩ := written_keys hw hstored
    rw [keySequence_of_not_clean hclean hne (Int64.le_of_lt hn) hlisted] at hseq
    cases hseq

theorem run_keeps_objects {heap : ℕ → Entry} {start : Int64}
    {events : List Event} {w : World} (hstart : 0 ≤ start) (hhigh : IsHighest cfg objects start)
    (hrun : Transitions.run (step cfg) (opened heap objects start) events = some w) {k : Bytes}
    (hk : (objects k).isSome) : w.objects k = objects k := by
  rcases (run_above hstart hrun).objects k with heq | ⟨n, hn, rfl⟩
  · exact heq
  · have hle := hhigh.1 n (Int64.lt_of_le_of_lt hstart hn) hk
    exact absurd hle (Int64.not_le.mpr hn)

theorem restartSafe_iff {cfg : Config} {objects : Bytes → Option Bytes} {keys : List Bytes}
    {heap : ℕ → Entry} {w : World} (hw : Written objects)
    (hlists : Lists objects (cfg.walPrefix ++ lit "/") keys)
    (hopen : newWriter cfg (some keys) heap objects = .ok w) :
    RestartSafe cfg objects w ↔ cleanKeys cfg ∨ ∀ n, 0 < n → objects (entryKey cfg n) = none := by
  obtain ⟨hne, rfl⟩ := newWriter_ok hopen
  have hstart := (resumeSequence_spec cfg keys).1
  have hsafe (hhigh : IsHighest cfg objects (resumeSequence cfg keys)) :
      RestartSafe cfg objects (opened heap objects (resumeSequence cfg keys)) :=
    ⟨hhigh, fun _ _ hrun _ => run_keeps_objects hstart hhigh hrun⟩
  by_cases hclean : cleanKeys cfg
  · exact ⟨fun _ => .inl hclean, fun _ => hsafe (resumeSequence_isHighest hclean hw hlists)⟩
  · have hzero := resumeSequence_of_not_clean hclean hne hw hlists
    constructor
    · rintro ⟨hhigh, -⟩
      refine .inr fun n hn => ?_
      by_contra hstored
      have hle := hhigh.1 n hn (Option.isSome_iff_ne_none.mpr hstored)
      exact absurd (hzero ▸ hle) (Int64.not_le.mpr hn)
    · rintro (h | hnone)
      · exact absurd h hclean
      · exact hsafe ⟨fun n hn hs => by simp [hnone n hn] at hs, .inl hzero⟩

def trailingSlash : Config := { euWest with walPrefix := lit "wal/" }

def firstAppend (cfg : Config) : World :=
  (append cfg (some 0) true 1 (fun _ => .stored) (opened (fun _ => ordersEntry) (fun _ => none) 0)).1

theorem firstAppend_written (hopen : newWriter cfg (some []) (fun _ => ordersEntry) (fun _ => none) =
      .ok (opened (fun _ => ordersEntry) (fun _ => none) 0)) : Written (firstAppend cfg).objects :=
  @Written.generation cfg _ [] _ _ _ [.append (some 0) true 1 (fun _ => .stored)] .empty
    (by simp [Lists]) hopen rfl

theorem lists_update (key data keyPrefix : Bytes) (h : keyPrefix <+: key) :
    Lists (Function.update (fun _ => none) key (some data)) keyPrefix [key] := by
  intro k
  by_cases hk : k = key
  · subst hk; simpa using h
  · simp [hk]

theorem trailingSlash_restarts_at_zero :
    ∃ objects keys w, Written objects ∧ Lists objects (trailingSlash.walPrefix ++ lit "/") keys ∧
      newWriter trailingSlash (some keys) (fun _ => ordersEntry) objects = .ok w ∧
      ¬ RestartSafe trailingSlash objects w := by
  refine ⟨(firstAppend trailingSlash).objects, [entryKey trailingSlash 1], _,
    firstAppend_written rfl, lists_update _ _ _ (by decide), rfl, ?_⟩
  rintro ⟨hhigh, -⟩
  exact absurd (hhigh.1 1 (by decide) (by decide)) (by decide)

theorem euWest_restarts_safely : ∃ objects keys w, Written objects ∧ Lists objects (euWest.walPrefix ++ lit "/") keys ∧
      newWriter euWest (some keys) (fun _ => ordersEntry) objects = .ok w ∧
      (objects (entryKey euWest 1)).isSome ∧ RestartSafe euWest objects w := by
  have hw := @firstAppend_written euWest rfl
  have hlists : Lists (firstAppend euWest).objects (euWest.walPrefix ++ lit "/") [entryKey euWest 1] :=
    lists_update _ _ _ (by decide)
  exact ⟨_, _, _, hw, hlists, rfl, by decide, (restartSafe_iff hw hlists rfl).mpr (.inl (by
    unfold cleanKeys; decide))⟩

end AstraSync.WalResume
