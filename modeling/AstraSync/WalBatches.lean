import AstraSync.Library.SignedNumerals
import AstraSync.WalEntry
import Mathlib.Data.List.Sort

namespace AstraSync.WalBatches

open ByteStrings SignedNumerals WalEntry

structure Store where
  objects : Bytes → Option Bytes
  list : Bytes → Option (List Bytes)

structure Reader where
  (walPrefix region : Bytes)
  lastReadSeq : Int64

inductive ReadError
  | get (key : Bytes)
  | unmarshal (failure : Failure)
  | gap (expectedSequence : Int64) (gotSequence : Int64)
  | mismatch (expectedSequence : Int64) (expectedRegion : Bytes) (gotSequence : Int64) (gotRegion : Bytes)
  | list
  | read (sequence : Int64) (cause : ReadError)

section

variable (store : Store) (r : Reader)

def regionPrefix : Bytes := r.walPrefix ++ slash :: (r.region ++ [slash])

def entryKey (sequence : Int64) : Bytes := regionPrefix r ++ (paddedInt 16 sequence ++ lit ".wal")

def readEntry (sequence : Int64) : Except ReadError Entry :=
  match store.objects (entryKey r sequence) with
  | none => .error (.get (entryKey r sequence))
  | some data =>
    match unmarshalBinary data with
    | .error failure => .error (.unmarshal failure)
    | .ok entry => .ok entry

def readNext : Except ReadError Entry × Reader :=
  let startSeq := r.lastReadSeq + 1
  match readEntry store r startSeq with
  | .error e => (.error e, r)
  | .ok entry =>
    if entry.sequence ≠ startSeq ∨ entry.region ≠ r.region then
      (.error (.mismatch startSeq r.region entry.sequence entry.region), r)
    else (.ok entry, { r with lastReadSeq := entry.sequence })

def parseSequenceFromKey (key : Bytes) : Int64 :=
  if lit ".wal" <:+ key then
    let seqPart := trimSuffix key (lit ".wal")
    if slash ∈ seqPart then (scanInt ((split slash seqPart).getLastD [])).getD 0 else 0
  else 0

def entrySeqs (startSeq : Int64) (keys : List Bytes) : List Int64 :=
  ((keys.map parseSequenceFromKey).filter fun seq => startSeq ≤ seq).insertionSort (· ≤ ·)

def readEach (startSeq : Int64) (entries : List Entry) : List Int64 → Except ReadError (List Entry)
  | [] => .ok entries
  | seq :: rest =>
    let expected := startSeq + Int64.ofNat entries.length
    if seq ≠ expected then .error (.gap expected seq)
    else
      match readEntry store r seq with
      | .error e => .error (.read seq e)
      | .ok entry =>
        if entry.sequence ≠ seq ∨ entry.region ≠ r.region then
          .error (.mismatch seq r.region entry.sequence entry.region)
        else readEach startSeq (entries ++ [entry]) rest

def Reader.advance (entries : List Entry) : Reader :=
  match entries.getLast? with
  | none => r
  | some entry => { r with lastReadSeq := entry.sequence }

def readBatch (maxCount : ℤ) : Except ReadError (List Entry) × Reader :=
  if maxCount ≤ 0 then (.ok [], r)
  else
    match store.list (regionPrefix r) with
    | none => (.error .list, r)
    | some keys =>
      let startSeq := r.lastReadSeq + 1
      match readEach store r startSeq [] ((entrySeqs startSeq keys).take maxCount.toNat) with
      | .error e => (.error e, r)
      | .ok entries => (.ok entries, r.advance entries)

def readNexts : ℕ → Reader → Except ReadError (List Entry) × Reader
  | 0, r => (.ok [], r)
  | n + 1, r =>
    match readNext store r with
    | (.error e, r) => (.error e, r)
    | (.ok entry, r) =>
      match readNexts n r with
      | (.error e, r) => (.error e, r)
      | (.ok entries, r) => (.ok (entry :: entries), r)

structure Holds : Prop where
  spelled : ∀ k, regionPrefix r <+: k → (store.objects k).isSome → ∃ n, 0 ≤ n ∧ k = entryKey r n
  listed : ∀ keys, store.list (regionPrefix r) = some keys →
    ∀ k, k ∈ keys ↔ regionPrefix r <+: k ∧ (store.objects k).isSome

end

section

variable {store : Store} {r : Reader} {keys : List Bytes} {n : Int64}

theorem parseSequenceFromKey_entryKey (h : 0 ≤ n) : parseSequenceFromKey (entryKey r n) = n := by
  have hfree : slash ∉ paddedInt 16 n := by
    rw [paddedInt_of_nonneg h]
    exact fun hmem => absurd (padded_digits _ _ _ hmem) (by decide)
  have hkey : entryKey r n = (r.walPrefix ++ slash :: r.region ++ slash :: paddedInt 16 n) ++ lit ".wal" := by
    simp [entryKey, regionPrefix]
  unfold parseSequenceFromKey
  rw [hkey, if_pos (List.suffix_append _ _)]
  dsimp only
  rw [trimSuffix_append, if_pos (by simp), split_append, split_single hfree]
  simp [scanInt_paddedInt h]

variable {startSeq : Int64}

theorem mem_entrySeqs (hstore : Holds store r) (hlist : store.list (regionPrefix r) = some keys)
    (hn : 0 ≤ n) (hstart : startSeq ≤ n) (hobject : (store.objects (entryKey r n)).isSome) :
    n ∈ entrySeqs startSeq keys := by
  have hmem : entryKey r n ∈ keys := (hstore.listed keys hlist _).mpr ⟨List.prefix_append _ _, hobject⟩
  rw [entrySeqs, List.mem_insertionSort, List.mem_filter]
  exact ⟨List.mem_map.mpr ⟨_, hmem, parseSequenceFromKey_entryKey hn⟩, by simpa using hstart⟩

theorem le_of_mem_entrySeqs (h : n ∈ entrySeqs startSeq keys) : startSeq ≤ n := by
  rw [entrySeqs, List.mem_insertionSort, List.mem_filter] at h
  simpa using h.2

theorem entrySeqs_sorted (startSeq : Int64) (keys : List Bytes) : (entrySeqs startSeq keys).Pairwise (· ≤ ·) :=
  List.pairwise_insertionSort _ _

end

section

variable {store : Store} {r r' : Reader} {n : Int64}

theorem readNext_ok {entry : Entry} (hread : readEntry store r (r.lastReadSeq + 1) = .ok entry)
    (hsequence : entry.sequence = r.lastReadSeq + 1) (hregion : entry.region = r.region) :
    readNext store r = (.ok entry, { r with lastReadSeq := entry.sequence }) := by
  simp [readNext, hread, hsequence, hregion]

def Reader.at (r : Reader) (position : Int64) : Reader := { r with lastReadSeq := position }

theorem advance_cons (entry : Entry) (entries : List Entry) :
    r.advance (entry :: entries) = (r.at entry.sequence).advance entries := by
  unfold Reader.advance
  cases entries with
  | nil => rfl
  | cons next rest =>
    rw [List.getLast?_cons_cons, List.getLast?_eq_some_getLast (List.cons_ne_nil next rest)]
    rfl

theorem readEach_ok {startSeq position : Int64} {seqs : List Int64} {acc entries : List Entry}
    (hposition : position + 1 = startSeq + Int64.ofNat acc.length)
    (h : readEach store r startSeq acc seqs = .ok entries) :
    ∃ more, entries = acc ++ more ∧ more.map (·.sequence) = seqs ∧
      readNexts store more.length (r.at position) = (.ok more, (r.at position).advance more) := by
  induction seqs generalizing acc position with
  | nil =>
    cases h
    exact ⟨[], by simp, rfl, rfl⟩
  | cons seq rest ih =>
    rw [readEach] at h
    split at h
    · cases h
    · next hseq =>
      have hnext : seq = position + 1 := (not_not.mp hseq).trans hposition.symm
      split at h
      · cases h
      · next entry hread =>
        split at h
        · cases h
        · next hmatch =>
          obtain ⟨hsequence, hregion⟩ := not_or.mp hmatch
          have hsequence := not_not.mp hsequence
          have hsingle : readNext store (r.at position) = (.ok entry, r.at entry.sequence) :=
            readNext_ok (hnext ▸ hread) (hsequence.trans hnext) (not_not.mp hregion)
          have hfollows : entry.sequence + 1 = startSeq + Int64.ofNat (acc ++ [entry]).length := by
            rw [hsequence, hnext, hposition, List.length_append, List.length_singleton, Int64.add_assoc, Int64.ofNat_add]
            rfl
          obtain ⟨more, rfl, hmap, hmore⟩ := ih hfollows h
          refine ⟨entry :: more, by simp, by rw [List.map_cons, hmap, hsequence], ?_⟩
          rw [List.length_cons, readNexts, hsingle]
          dsimp only
          rw [hmore, advance_cons]
          rfl

theorem toInt_succ_of_lt (h : r.lastReadSeq < n) : r.lastReadSeq + 1 ≤ n := by
  grind

variable {maxCount : ℤ} {entries : List Entry}

theorem readBatch_ok (h : readBatch store r maxCount = (.ok entries, r')) (hpos : 0 < maxCount) :
    ∃ keys, store.list (regionPrefix r) = some keys ∧ r' = r.advance entries ∧
      entries.map (·.sequence) = (entrySeqs (r.lastReadSeq + 1) keys).take maxCount.toNat ∧
      readNexts store entries.length r = (.ok entries, r') := by
  rw [readBatch, if_neg (not_le.mpr hpos)] at h
  split at h
  · cases h
  · next keys hlist =>
    dsimp only at h
    split at h
    · cases h
    · next hread =>
      cases h
      have hposition : r.lastReadSeq + 1 = r.lastReadSeq + 1 + Int64.ofNat ([] : List Entry).length := by simp
      obtain ⟨more, hmore, hmap, hnexts⟩ := readEach_ok hposition hread
      rw [List.nil_append] at hmore
      subst hmore
      exact ⟨keys, hlist, rfl, hmap, hnexts⟩

theorem take_eq_self_of_length_lt {α β : Type} {f : α → β} {as : List α} {bs : List β} {k : ℕ}
    (h : as.map f = bs.take k) (hlt : as.length < k) : as.map f = bs := by
  grind [List.length, List.length_map, List.length_take, List.take_of_length_le]

theorem readBatch_last (hstore : Holds store r)
    (h : readBatch store r maxCount = (.ok entries, r')) (hfew : (entries.length : ℤ) < maxCount) (hn : 0 ≤ n)
    (hobject : (store.objects (entryKey r n)).isSome) : n ≤ r'.lastReadSeq := by
  obtain ⟨keys, hlist, rfl, hmap, -⟩ := readBatch_ok h (by omega)
  have hall := take_eq_self_of_length_lt hmap (by omega)
  by_contra hnot
  have hhigher := Int64.not_le.mp hnot
  clear hnot
  unfold Reader.advance at hhigher
  cases hlast : entries.getLast? with
  | none =>
    rw [hlast] at hhigher
    rw [List.getLast?_eq_none_iff.mp hlast] at hall
    have hmem := mem_entrySeqs hstore hlist hn (toInt_succ_of_lt hhigher) hobject
    rw [← hall] at hmem
    cases hmem
  | some last =>
    rw [hlast] at hhigher
    obtain ⟨front, rfl⟩ := List.getLast?_eq_some_iff.mp hlast
    rw [List.map_append, List.map_singleton] at hall
    have hstart := le_of_mem_entrySeqs (hall ▸ List.mem_append_right _ (List.mem_singleton_self last.sequence))
    have hmem := mem_entrySeqs hstore hlist hn (Int64.le_trans hstart (Int64.le_of_lt hhigher)) hobject
    have hsorted := entrySeqs_sorted (r.lastReadSeq + 1) keys
    rw [← hall] at hmem hsorted
    rcases List.mem_append.mp hmem with hmem | hmem
    · grind
    · rw [List.mem_singleton.mp hmem] at hhigher
      exact Int64.lt_irrefl hhigher

theorem readBatch_error {e : ReadError} (h : readBatch store r maxCount = (.error e, r')) : r' = r := by
  unfold readBatch at h
  split at h
  · cases h
  · grind

theorem readBatch_refines_readNext (store : Store) (r : Reader) (maxCount : ℤ) (hstore : Holds store r) :
    (∀ entries r', readBatch store r maxCount = (.ok entries, r') →
      readNexts store entries.length r = (.ok entries, r') ∧
      ((entries.length : ℤ) < maxCount →
        ∀ k, regionPrefix r <+: k → (store.objects k).isSome → ∃ n, k = entryKey r n ∧ n ≤ r'.lastReadSeq)) ∧
    ∀ e r', readBatch store r maxCount = (.error e, r') → r' = r := by
  refine ⟨fun entries r' h => ⟨?_, fun hfew k hk hobject => ?_⟩, fun e r' => readBatch_error⟩
  · by_cases hpos : 0 < maxCount
    · obtain ⟨-, -, -, -, hnexts⟩ := readBatch_ok h hpos
      exact hnexts
    · rw [readBatch, if_pos (not_lt.mp hpos)] at h
      cases h
      rfl
  · obtain ⟨n, hn, rfl⟩ := hstore.spelled k hk hobject
    exact ⟨n, rfl, readBatch_last hstore h hfew hn hobject⟩

end

def sampleReader : Reader := ⟨lit "wal", lit "west", 0⟩

def sampleEntry (n : Int64) : Entry := ⟨n, lit "west", 1, lit "uri", lit "job", 0, 0⟩

def sampleData (n : Int64) : Bytes := body (sampleEntry n) ++ LittleEndian.put 4 (checksum (body (sampleEntry n))).toNat

/-- The third entry is missing. -/
def sampleSequences : List Int64 := [1, 2, 4]

def sampleStore : Store where
  objects k := (sampleSequences.find? fun n => k = entryKey sampleReader n).map sampleData
  list _ := some (sampleSequences.map (entryKey sampleReader))

theorem mem_sampleSequences {n : Int64} : n ∈ sampleSequences ↔ n = 1 ∨ n = 2 ∨ n = 4 := by
  simp [sampleSequences]

theorem sampleStore_holds : Holds sampleStore sampleReader := by
  have hkey (k : Bytes) : (sampleStore.objects k).isSome ↔ k ∈ sampleSequences.map (entryKey sampleReader) := by
    rw [sampleStore, Option.isSome_map, List.find?_isSome, List.mem_map]
    exact exists_congr fun n => and_congr_right fun _ => by rw [decide_eq_true_eq, eq_comm]
  refine ⟨fun k _ hk => ?_, fun keys hkeys k => ?_⟩
  · obtain ⟨n, hn, rfl⟩ := List.mem_map.mp ((hkey k).mp hk)
    refine ⟨n, ?_, rfl⟩
    rcases mem_sampleSequences.mp hn with rfl | rfl | rfl <;> decide
  · cases hkeys
    rw [hkey]
    refine ⟨fun h => ⟨?_, h⟩, fun h => h.2⟩
    obtain ⟨n, -, rfl⟩ := List.mem_map.mp h
    exact List.prefix_append _ _

theorem readEntry_sample {n : Int64} (hn : n ∈ sampleSequences) :
    readEntry sampleStore sampleReader n = .ok (sealed (sampleEntry n)) := by
  have hfind : (sampleSequences.find? fun m => entryKey sampleReader n = entryKey sampleReader m) = some n := by
    rcases mem_sampleSequences.mp hn with rfl | rfl | rfl <;> decide +kernel
  have hdata : unmarshalBinary (sampleData n) = .ok (sealed (sampleEntry n)) := by
    rcases mem_sampleSequences.mp hn with rfl | rfl | rfl
    · exact unmarshalBinary_marshalBinary (e := sampleEntry 1) rfl (by decide)
    · exact unmarshalBinary_marshalBinary (e := sampleEntry 2) rfl (by decide)
    · exact unmarshalBinary_marshalBinary (e := sampleEntry 4) rfl (by decide)
  simp [readEntry, sampleStore, hfind, hdata]

theorem readBatch_refines_readNext_sample :
    (∃ r', readBatch sampleStore sampleReader 2 = (.ok [sealed (sampleEntry 1), sealed (sampleEntry 2)], r') ∧
      readNexts sampleStore 2 sampleReader = (.ok [sealed (sampleEntry 1), sealed (sampleEntry 2)], r')) ∧
    ∃ r', readBatch sampleStore sampleReader 3 = (.error (.gap 3 4), r') ∧ r' = sampleReader := by
  have hlist : sampleStore.list (regionPrefix sampleReader) = some (sampleSequences.map (entryKey sampleReader)) := rfl
  have hstart : sampleReader.lastReadSeq + 1 = 1 := rfl
  have hseqs : entrySeqs 1 (sampleSequences.map (entryKey sampleReader)) = [1, 2, 4] := by decide +kernel
  have hread₁ := readEntry_sample (n := 1) (by decide)
  have hread₂ := readEntry_sample (n := 2) (by decide)
  have hregion (n : Int64) : (sealed (sampleEntry n)).region = sampleReader.region := rfl
  have hsequence (n : Int64) : (sampleEntry n).sequence = n := rfl
  have hbatch : readBatch sampleStore sampleReader 2 = (.ok [sealed (sampleEntry 1), sealed (sampleEntry 2)],
      sampleReader.advance [sealed (sampleEntry 1), sealed (sampleEntry 2)]) := by
    simp [readBatch, hlist, hstart, hseqs, readEach, hread₁, hread₂, hregion, hsequence]
  have hgap : readBatch sampleStore sampleReader 3 = (.error (.gap 3 4), sampleReader) := by
    simp [readBatch, hlist, hstart, hseqs, readEach, hread₁, hread₂, hregion, hsequence]
  exact ⟨⟨_, hbatch, ((readBatch_refines_readNext sampleStore sampleReader 2 sampleStore_holds).1 _ _ hbatch).1⟩, _, hgap,
    (readBatch_refines_readNext sampleStore sampleReader 3 sampleStore_holds).2 _ _ hgap⟩

end AstraSync.WalBatches
