import AstraSync.Library.SignedNumerals
import AstraSync.WalEntry
import Mathlib.Data.List.Sort

namespace AstraSync.WalReader

open ByteStrings SignedNumerals WalEntry

structure Reader where
  (keyPrefix region : Bytes)

inductive ReadError
  | negativeSince
  | list
  | read (sequence : Int64)
  | decode (sequence : Int64) (failure : Failure)
  | gap (expectedSequence : Int64) (expectedRegion : Bytes) (gotSequence : Int64) (gotRegion : Bytes)
  deriving DecidableEq

def entryKey (r : Reader) (sequence : Int64) : Bytes :=
  r.keyPrefix ++ lit "/" ++ r.region ++ lit "/" ++ paddedInt 16 sequence ++ lit ".wal"

def sequenceFromKey (key : Bytes) : Option Int64 :=
  let name := trimSuffix ((split slash key).getLastD []) (lit ".wal")
  (scanInt name).filter fun sequence => 0 < sequence

def noted (since : Int64) (sequences : List Int64) (key : Bytes) : List Int64 :=
  match sequenceFromKey key with
  | some sequence =>
    if sequence ≤ since ∨ sequence ∈ sequences then sequences else sequences ++ [sequence]
  | none => sequences

def sequencesAfter (since : Int64) (keys : List Bytes) : List Int64 :=
  (keys.foldl (noted since) []).insertionSort (· ≤ ·)

def readEntry (r : Reader) (objects : Bytes → Option Bytes) (sequence : Int64) : Except ReadError Entry :=
  match objects (entryKey r sequence) with
  | none => .error (.read sequence)
  | some data =>
    match unmarshalBinary data with
    | .error failure => .error (.decode sequence failure)
    | .ok entry =>
      if entry.sequence ≠ sequence ∨ entry.region ≠ r.region then
        .error (.gap sequence r.region entry.sequence entry.region)
      else .ok entry

def readEach (r : Reader) (objects : Bytes → Option Bytes) : List Int64 → Except ReadError (List Entry)
  | [] => .ok []
  | sequence :: rest =>
    match readEntry r objects sequence with
    | .error e => .error e
    | .ok entry =>
      match readEach r objects rest with
      | .error e => .error e
      | .ok entries => .ok (entry :: entries)

def readEntries (r : Reader) (listed : Option (List Bytes)) (objects : Bytes → Option Bytes)
    (since : Int64) : Except ReadError (List Entry) :=
  if since < 0 then .error .negativeSince
  else match listed with
  | none => .error .list
  | some keys => readEach r objects (sequencesAfter since keys)

structure Holds (r : Reader) (objects : Bytes → Option Bytes) (keys : List Bytes) (log : List Entry) :
    Prop where
  listed : ∀ k, k ∈ keys ↔ ∃ e ∈ log, k = entryKey r e.sequence
  stored : ∀ e ∈ log, ∃ data, marshalBinary e = .ok (e, data) ∧ objects (entryKey r e.sequence) = some data
  region : ∀ e ∈ log, e.region = r.region
  distinct : ∀ e ∈ log, ∀ f ∈ log, e.sequence = f.sequence → e = f

theorem sequenceFromKey_entryKey (r : Reader) {sequence : Int64} (h : 0 < sequence) :
    sequenceFromKey (entryKey r sequence) = some sequence := by
  have hnonneg := Int64.le_of_lt h
  have hfree : slash ∉ paddedInt 16 sequence ++ lit ".wal" := by
    rw [paddedInt_of_nonneg hnonneg, List.mem_append, not_or]
    exact ⟨fun hmem => absurd (padded_digits _ _ _ hmem) (by decide), by decide⟩
  have hkey : entryKey r sequence =
      (r.keyPrefix ++ lit "/" ++ r.region) ++ slash :: (paddedInt 16 sequence ++ lit ".wal") := by
    have hslash : lit "/" = [slash] := by decide
    simp [entryKey, hslash]
  rw [sequenceFromKey, hkey, split_append, split_single hfree]
  simp [scanInt_paddedInt hnonneg, h]

variable {r : Reader} {objects : Bytes → Option Bytes} {keys : List Bytes} {log : List Entry}

theorem mem_noted (since : Int64) (sequences : List Int64) (key : Bytes) (n : Int64) :
    n ∈ noted since sequences key ↔ n ∈ sequences ∨ (since < n ∧ sequenceFromKey key = some n) := by
  unfold noted
  cases hk : sequenceFromKey key with
  | none => simp
  | some sequence =>
    by_cases hskip : sequence ≤ since ∨ sequence ∈ sequences
    · grind
    · grind

theorem mem_sequencesAfter (since : Int64) (keys : List Bytes) (n : Int64) :
    n ∈ sequencesAfter since keys ↔ since < n ∧ ∃ k ∈ keys, sequenceFromKey k = some n := by
  rw [sequencesAfter, List.mem_insertionSort]
  induction keys using List.reverseRecOn with
  | nil => simp
  | append_singleton keys key ih =>
    rw [List.foldl_append, List.foldl_cons, List.foldl_nil, mem_noted, ih, ← and_or_left]
    simp [or_and_right, exists_or]

variable {sequences : List Int64} {e : Entry}

theorem noted_nodup {since : Int64} (key : Bytes) (h : sequences.Nodup) : (noted since sequences key).Nodup := by
  unfold noted
  cases sequenceFromKey key with
  | none => exact h
  | some => grind

theorem sequencesAfter_sorted (since : Int64) (keys : List Bytes) : (sequencesAfter since keys).Pairwise (· < ·) := by
  have hle : (sequencesAfter since keys).Pairwise (· ≤ ·) := List.pairwise_insertionSort _ _
  have hnodup : (sequencesAfter since keys).Nodup := by
    refine (List.perm_insertionSort _ _).nodup_iff.mpr ?_
    exact List.foldlRecOn keys (noted since) List.nodup_nil (fun _ h key _ => noted_nodup key h)
  refine (hle.and hnodup).imp ?_
  rintro a b ⟨hab, hne⟩
  exact Int64.lt_iff_le_and_ne.mpr ⟨hab, hne⟩

theorem readEntry_sequence {sequence : Int64} (h : readEntry r objects sequence = .ok e) : e.sequence = sequence := by
  unfold readEntry at h
  split at h
  · cases h
  · grind

theorem readEach_ok (h : ∀ n ∈ sequences, ∃ e, readEntry r objects n = .ok e) :
    ∃ entries, readEach r objects sequences = .ok entries ∧ entries.map (·.sequence) = sequences ∧
      ∀ e ∈ entries, readEntry r objects e.sequence = .ok e := by
  induction sequences with
  | nil => exact ⟨[], rfl, rfl, by simp⟩
  | cons n rest ih =>
    obtain ⟨e, he⟩ := h n (by simp)
    obtain ⟨entries, hread, hmap, hall⟩ := ih (fun m hm => h m (by simp [hm]))
    have hn := readEntry_sequence he
    refine ⟨e :: entries, by simp [readEach, he, hread], by simp [hn, hmap], ?_⟩
    intro f hf
    rcases List.mem_cons.mp hf with rfl | hf
    · rw [hn, he]
    · exact hall f hf

theorem readEach_error {n : Int64} {err : ReadError} (hn : n ∈ sequences)
    (h : readEntry r objects n = .error err) : ∃ err', readEach r objects sequences = .error err' := by
  induction sequences with
  | nil => simp at hn
  | cons m rest ih =>
    rw [readEach]
    cases hm : readEntry r objects m with
    | error e => exact ⟨e, rfl⟩
    | ok => grind

variable (h : Holds r objects keys log)

include h

theorem sequencesAfter_zero (n : Int64) : n ∈ sequencesAfter 0 keys ↔ ∃ e ∈ log, e.sequence = n := by
  have hpos : ∀ e ∈ log, 0 < e.sequence := by
    intro e he
    obtain ⟨data, hm, -⟩ := h.stored e he
    exact (marshalBinary_ok hm).1
  rw [mem_sequencesAfter]
  constructor
  · rintro ⟨-, k, hk, hseq⟩
    obtain ⟨e, he, rfl⟩ := (h.listed k).mp hk
    rw [sequenceFromKey_entryKey r (hpos e he)] at hseq
    exact ⟨e, he, Option.some.inj hseq⟩
  · rintro ⟨e, he, rfl⟩
    exact ⟨hpos e he, _, (h.listed _).mpr ⟨e, he, rfl⟩, sequenceFromKey_entryKey r (hpos e he)⟩

theorem readEntry_holds (he : e ∈ log) (hlong : 4 ≤ stringBytes e) : readEntry r objects e.sequence = .ok e := by
  obtain ⟨data, hm, hdata⟩ := h.stored e he
  simp [readEntry, hdata, unmarshalBinary_marshalBinary hm hlong, h.region e he]

theorem readEntries_ok (hlong : ∀ e ∈ log, 4 ≤ stringBytes e) :
    ∃ entries, readEntries r (some keys) objects 0 = .ok entries ∧
      entries.Pairwise (·.sequence < ·.sequence) ∧ ∀ e, e ∈ entries ↔ e ∈ log := by
  have hread : ∀ n ∈ sequencesAfter 0 keys, ∃ e, readEntry r objects n = .ok e := by
    intro n hn
    obtain ⟨e, he, rfl⟩ := (sequencesAfter_zero h n).mp hn
    exact ⟨e, readEntry_holds h he (hlong e he)⟩
  obtain ⟨entries, hok, hmap, hall⟩ := readEach_ok hread
  refine ⟨entries, by simpa [readEntries] using hok, ?_, ?_⟩
  · rw [← List.pairwise_map, hmap]
    exact sequencesAfter_sorted 0 keys
  · intro e
    constructor
    · grind [List.mem_map_of_mem, sequencesAfter_zero, readEntry_holds]
    · intro he
      have hmem : e.sequence ∈ entries.map (·.sequence) := hmap ▸ (sequencesAfter_zero h _).mpr ⟨e, he, rfl⟩
      obtain ⟨f, hf, hseq⟩ := List.mem_map.mp hmem
      have hsame := hall f hf
      rw [hseq, readEntry_holds h he (hlong e he)] at hsame
      cases hsame
      exact hf

theorem readEntries_short (he : e ∈ log) (hshort : stringBytes e < 4) :
    ∃ err, readEntries r (some keys) objects 0 = .error err := by
  obtain ⟨data, hm, hdata⟩ := h.stored e he
  have hfail : readEntry r objects e.sequence =
      .error (.decode e.sequence (.error (.invalidEntry "data too short"))) := by
    simp [readEntry, hdata, unmarshalBinary_of_short hm hshort]
  obtain ⟨err, herr⟩ := readEach_error ((sequencesAfter_zero h _).mpr ⟨e, he, rfl⟩) hfail
  exact ⟨err, by simpa [readEntries] using herr⟩

end AstraSync.WalReader
