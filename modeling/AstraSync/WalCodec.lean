import AstraSync.WalEntry
import AstraSync.Library.Results

namespace AstraSync.WalCodec

open ByteStrings LittleEndian Results WalEntry

structure Fields where
  (sequence epoch : Int64)
  (jobID region checkpointURI : Bytes)
  timestamp : Int64
  rest : Bytes

def Fields.entry (f : Fields) (crc32c : UInt32) : Entry :=
  ⟨f.sequence, f.region, f.epoch, f.checkpointURI, f.jobID, f.timestamp, crc32c⟩

def readFields (data : Bytes) : Except Failure Fields := do
  let (sequence, rest) ← readWord64 data
  let (epoch, rest) ← readWord64 rest
  let (jobID, rest) ← readField "truncated job_id" rest
  let (region, rest) ← readField "truncated region" rest
  let (checkpointURI, rest) ← readField "truncated checkpoint_uri" rest
  let (timestamp, rest) ← readWord64 rest
  return ⟨sequence, epoch, jobID, region, checkpointURI, timestamp, rest⟩

def checkFields (data : Bytes) (f : Fields) : Except Failure Entry :=
  if f.rest.length ≠ 4 then .error (.error (.invalidEntry "unexpected trailing data"))
  else if value f.rest ≠ (checksum (data.take (data.length - 4))).toNat then
    .error (.error (.crcMismatch (checksum (data.take (data.length - 4))).toNat (value f.rest)))
  else if f.sequence ≤ 0 then .error (.error .emptySequence)
  else if f.checkpointURI = [] then .error (.error .invalidCheckpoint)
  else .ok (f.entry (UInt32.ofNat (value f.rest)))

theorem readWord_all {width : ℕ} {data : Bytes} (h : data.length = width) : readWord width data = .ok (value data, []) := by
  simp [readWord, LittleEndian.read, ← h]

theorem unmarshalBinary_eq (data : Bytes) : unmarshalBinary data =
      if data.length < 44 then .error (.error (.invalidEntry "data too short"))
      else readFields data >>= checkFields data := by
  unfold unmarshalBinary readFields
  split
  · rfl
  · simp only [bind_assoc, pure_bind]
    refine bind_congr fun r1 => ?_
    refine bind_congr fun r2 => ?_
    refine bind_congr fun r3 => ?_
    refine bind_congr fun r4 => ?_
    refine bind_congr fun r5 => ?_
    refine bind_congr fun r6 => ?_
    unfold checkFields
    split
    · rfl
    · next hfour =>
      rw [readWord_all (not_not.mp hfour)]
      simp only [bind, Except.bind]
      split
      · rfl
      · split
        · rfl
        · split
          · rfl
          · rfl

section

variable {data rest : Bytes}

theorem readWord_ok {width n : ℕ} (h : readWord width data = .ok (n, rest)) :
    data = put width n ++ rest ∧ n < 256 ^ width := by
  unfold readWord at h
  split at h
  · next hread =>
    cases h
    exact read_eq_some hread
  · cases h

theorem readWord64_ok {x : Int64} (h : readWord64 data = .ok (x, rest)) : data = word64 x ++ rest := by
  obtain ⟨⟨n, tail⟩, hread, h⟩ := bind_eq_ok.mp h
  cases h
  obtain ⟨hdata, hn⟩ := readWord_ok hread
  have hword : (UInt64.ofNat n).toNat = n := by
    rw [UInt64.toNat_ofNat']
    exact Nat.mod_eq_of_lt hn
  rw [hdata, word64, UInt64.toUInt64_toInt64, hword]

theorem readField_ok {detail : String} {s : Bytes} (h : readField detail data = .ok (s, rest)) :
    data = field s ++ rest ∧ s.length ≤ fieldLimit := by
  obtain ⟨⟨size, tail⟩, hread, h⟩ := bind_eq_ok.mp h
  obtain ⟨hdata, hsize⟩ := readWord_ok hread
  dsimp only at h
  split at h
  · cases h
  · next hfits =>
    cases h
    have hlen : (tail.take size).length = size := by
      rw [List.length_take]
      omega
    refine ⟨?_, ?_⟩
    · rw [hdata, field, hlen, List.append_assoc, List.take_append_drop]
    · unfold fieldLimit
      omega

theorem readFields_ok {f : Fields} (h : readFields data = .ok f) (crc32c : UInt32) :
    data = body (f.entry crc32c) ++ f.rest ∧ f.jobID.length ≤ fieldLimit ∧ f.region.length ≤ fieldLimit ∧
      f.checkpointURI.length ≤ fieldLimit := by
  obtain ⟨⟨sequence, r1⟩, hsequence, h⟩ := bind_eq_ok.mp h
  obtain ⟨⟨epoch, r2⟩, hepoch, h⟩ := bind_eq_ok.mp h
  obtain ⟨⟨jobID, r3⟩, hjobID, h⟩ := bind_eq_ok.mp h
  obtain ⟨⟨region, r4⟩, hregion, h⟩ := bind_eq_ok.mp h
  obtain ⟨⟨checkpointURI, r5⟩, huri, h⟩ := bind_eq_ok.mp h
  obtain ⟨⟨timestamp, r6⟩, htimestamp, h⟩ := bind_eq_ok.mp h
  cases h
  obtain ⟨hr2, hj⟩ := readField_ok hjobID
  obtain ⟨hr3, hr⟩ := readField_ok hregion
  obtain ⟨hr4, hc⟩ := readField_ok huri
  refine ⟨?_, hj, hr, hc⟩
  rw [readWord64_ok hsequence, readWord64_ok hepoch, hr2, hr3, hr4, readWord64_ok htimestamp]
  simp [body, Fields.entry]

theorem checkFields_ok {f : Fields} {e : Entry} (h : checkFields data f = .ok e) :
    f.rest.length = 4 ∧ value f.rest = (checksum (data.take (data.length - 4))).toNat ∧ 0 < f.sequence ∧
      f.checkpointURI ≠ [] ∧ e = f.entry (UInt32.ofNat (value f.rest)) := by
  unfold checkFields at h
  split_ifs at h with hfour hcrc hsequence huri
  cases h
  exact ⟨not_not.mp hfour, not_not.mp hcrc, Int64.not_le.mp hsequence, huri, rfl⟩

theorem unmarshalBinary_ok {e : Entry} (h : unmarshalBinary data = .ok e) : marshalBinary e = .ok (e, data) := by
  rw [unmarshalBinary_eq] at h
  split_ifs at h with hshort
  obtain ⟨f, hfields, hcheck⟩ := bind_eq_ok.mp h
  obtain ⟨hfour, hcrc, hsequence, huri, rfl⟩ := checkFields_ok hcheck
  obtain ⟨hdata, hj, hr, hc⟩ := readFields_ok hfields 0
  -- the checksum was taken of everything before the last four bytes
  have htake : data.take (data.length - 4) = body (f.entry 0) := by
    rw [hdata, List.length_append, hfour, Nat.add_sub_cancel, List.take_left]
  rw [htake] at hcrc
  have hword : UInt32.ofNat (value f.rest) = checksum (body (f.entry 0)) := by
    rw [hcrc, UInt32.ofNat_toNat]
  have hput := put_value f.rest
  rw [hfour, hcrc] at hput
  rw [hword, marshalBinary_of_valid (e := f.entry (checksum (body (f.entry 0)))) hsequence huri hj hr hc]
  change Except.ok (f.entry _, body (f.entry 0) ++ put 4 (checksum (body (f.entry 0))).toNat) = _
  rw [hput, ← hdata]
  rfl

/-- An encoded entry is decoded exactly where its strings have four bytes between them; what is decoded is always
what its entry is encoded into. -/
theorem codec_round_trip (e e' : Entry) (data : Bytes) :
    (marshalBinary e = .ok (e', data) →
      e' = { e with crc32c := checksum (body e) } ∧ (unmarshalBinary data = .ok e' ↔ 4 ≤ stringBytes e)) ∧
      (unmarshalBinary data = .ok e → marshalBinary e = .ok (e, data)) := by
  refine ⟨fun h => ?_, fun h => unmarshalBinary_ok h⟩
  obtain ⟨-, -, -, -, -, he', -⟩ := marshalBinary_ok h
  refine ⟨he', fun hdecoded => ?_, unmarshalBinary_marshalBinary h⟩
  by_contra hshort
  rw [unmarshalBinary_of_short h (not_le.mp hshort)] at hdecoded
  cases hdecoded

def sample : Entry := ⟨1, lit "a", 1, lit "uri", lit "j", 0, 0⟩

theorem codec_round_trip_sample :
    4 ≤ stringBytes sample ∧ ∃ e data, marshalBinary sample = .ok (e, data) ∧ unmarshalBinary data = .ok e := by
  have hmarshal : marshalBinary sample = .ok (sealed sample, body sample ++ put 4 (checksum (body sample)).toNat) := rfl
  refine ⟨by decide, _, _, hmarshal, ?_⟩
  exact ((codec_round_trip sample _ _).1 hmarshal).2.mpr (by decide)

/-- An entry with one byte of strings is encoded into 41 bytes. -/
theorem short_entry_not_decoded : ∃ e data, marshalBinary ⟨1, [], 1, lit "u", [], 0, 0⟩ = .ok (e, data) ∧
      unmarshalBinary data = .error (.error (.invalidEntry "data too short")) := by
  have hmarshal : marshalBinary ⟨1, [], 1, lit "u", [], 0, 0⟩ = .ok _ := rfl
  exact ⟨_, _, hmarshal, unmarshalBinary_of_short hmarshal (by decide)⟩

end

variable {data : Bytes} {offset : ℕ}

def wordAt (data : Bytes) (offset : ℕ) : ℕ := value ((data.drop offset).take 4)

def roomy (data : Bytes) : Bool :=
  let jobEnd := 20 + wordAt data 16
  let regionEnd := jobEnd + 4 + wordAt data jobEnd
  let uriEnd := regionEnd + 4 + wordAt data regionEnd
  data.length < 44 || data.length < jobEnd || (jobEnd + 4 ≤ data.length &&
    (data.length < regionEnd || (regionEnd + 4 ≤ data.length && (data.length < uriEnd || uriEnd + 8 ≤ data.length))))

theorem readWord_drop {width : ℕ} (hwidth : 0 < width) (data : Bytes) (offset : ℕ) :
    readWord width (data.drop offset) = if data.length < offset + width then .error .panic
      else .ok (value ((data.drop offset).take width), data.drop (offset + width)) := by
  by_cases hcut : data.length < offset + width
  · have hlen : ¬ width ≤ data.length - offset := by omega
    simp [readWord, LittleEndian.read, hcut, hlen]
  · have hlen : width ≤ data.length - offset := by omega
    simp [readWord, LittleEndian.read, hcut, hlen]

section

variable {α : Type}

theorem readWord64_panics {next : Int64 × Bytes → Except Failure α} :
    readWord64 (data.drop offset) >>= next = .error .panic ↔ data.length < offset + 8 ∨
      next ((UInt64.ofNat (value ((data.drop offset).take 8))).toInt64, data.drop (offset + 8)) = .error .panic := by
  rw [readWord64, readWord_drop (by decide)]
  by_cases hcut : data.length < offset + 8 <;> simp [hcut, bind, Except.bind, pure, Except.pure]

theorem readField_panics {detail : String} {next : Bytes × Bytes → Except Failure α} :
    readField detail (data.drop offset) >>= next = .error .panic ↔ data.length < offset + 4 ∨
      (offset + 4 + wordAt data offset ≤ data.length ∧
        next ((data.drop (offset + 4)).take (wordAt data offset), data.drop (offset + 4 + wordAt data offset)) =
          .error .panic) := by
  rw [readField, readWord_drop (by decide)]
  by_cases hcut : data.length < offset + 4
  · simp [hcut, bind, Except.bind]
  · rw [if_neg hcut]
    change (if (data.drop (offset + 4)).length < wordAt data offset then _ else _) >>= next = _ ↔ _
    rw [List.length_drop]
    by_cases hlong : data.length - (offset + 4) < wordAt data offset
    · have hbeyond : ¬ offset + 4 + wordAt data offset ≤ data.length := by omega
      simp [hlong, hcut, hbeyond, bind, Except.bind, throw, throwThe, MonadExceptOf.throw]
    · have hwithin : offset + 4 + wordAt data offset ≤ data.length := by omega
      have hrest : (data.drop (offset + 4)).drop (wordAt data offset) = data.drop (offset + 4 + wordAt data offset) :=
        List.drop_drop
      rw [if_neg hlong, or_iff_right hcut, and_iff_right hwithin, ← hrest]
      rfl

end

theorem checkFields_total (data : Bytes) (f : Fields) : checkFields data f ≠ .error .panic := by
  unfold checkFields
  split_ifs <;> nofun

theorem readFields_panics (hlen : 44 ≤ data.length) : readFields data = .error .panic ↔ roomy data = false := by
  have hread := @readWord64_panics data 0
  rw [List.drop_zero] at hread
  simp only [readFields, hread, readWord64_panics, readField_panics, pure, Except.pure, reduceCtorEq, roomy]
  simp only [Bool.or_eq_false_iff, Bool.and_eq_false_iff, decide_eq_false_iff_not, Nat.reduceAdd, or_false]
  omega

theorem unmarshalBinary_panics : unmarshalBinary data = .error .panic ↔ roomy data = false := by
  rw [unmarshalBinary_eq]
  split_ifs with hshort
  · simp [roomy, hshort]
  · rw [← readFields_panics (not_lt.mp hshort)]
    cases hfields : readFields data with
    | error failure => simp [bind, Except.bind]
    | ok f => exact ⟨fun h => absurd h (checkFields_total data f), nofun⟩

structure Valid (e : Entry) : Prop where
  sequence : 0 < e.sequence
  checkpointURI : e.checkpointURI ≠ []
  crc32c : e.crc32c = checksum (body e)

theorem unmarshalBinary_valid {e : Entry} (h : unmarshalBinary data = .ok e) : Valid e := by
  obtain ⟨hsequence, huri, -, -, -, hsealed, -⟩ := marshalBinary_ok (unmarshalBinary_ok h)
  exact ⟨hsequence, huri, congrArg Entry.crc32c hsealed⟩

/-- The bytes that leave room are exactly those no read of which runs out of them. -/
theorem unmarshalBinary_robust (data : Bytes) :
    ((∃ e, unmarshalBinary data = .ok e ∧ Valid e) ∨ ∃ e, unmarshalBinary data = .error (.error e)) ↔
      roomy data = true := by
  rw [← Bool.not_eq_false, ← unmarshalBinary_panics]
  cases hresult : unmarshalBinary data with
  | ok e => exact ⟨fun _ => nofun, fun _ => .inl ⟨e, rfl, unmarshalBinary_valid hresult⟩⟩
  | error failure =>
    cases failure with
    | error e => exact ⟨fun _ => nofun, fun _ => .inr ⟨e, rfl⟩⟩
    | panic => exact ⟨nofun, fun h => absurd rfl h⟩

def overlongJob : Bytes := List.replicate 16 0 ++ put 4 24 ++ List.replicate 24 0

theorem overlong_job_panics : unmarshalBinary overlongJob = .error .panic := by decide

end AstraSync.WalCodec
