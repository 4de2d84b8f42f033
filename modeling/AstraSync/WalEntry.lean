import AstraSync.Library.LittleEndian

namespace AstraSync.WalEntry

open ByteStrings LittleEndian

structure Entry where
  sequence : Int64
  region : Bytes
  epoch : Int64
  (checkpointURI jobID : Bytes)
  timestamp : Int64
  crc32c : UInt32
  deriving DecidableEq

inductive WalError
  | closed
  | emptySequence
  | invalidCheckpoint
  | mismatchedRegion (got want : Bytes)
  | gap (detail : String)
  | invalidEntry (detail : String)
  | crcMismatch (computed stored : ℕ)
  | storage (operation : String) (key : Bytes)
  | wrapped (context : String) (cause : WalError)
  deriving DecidableEq

inductive Failure
  | error (e : WalError)
  | panic
  deriving DecidableEq

def crcBit (crc : UInt32) : UInt32 :=
  if crc &&& 1 = 1 then (crc >>> 1) ^^^ 0x82F63B78 else crc >>> 1

def crcByte (crc : UInt32) (b : UInt8) : UInt32 := crcBit^[8] (crc ^^^ b.toUInt32)

def checksum (data : Bytes) : UInt32 := data.foldl crcByte 0xFFFFFFFF ^^^ 0xFFFFFFFF

def word64 (x : Int64) : Bytes := put 8 x.toUInt64.toNat

def field (s : Bytes) : Bytes := put 4 s.length ++ s

def body (e : Entry) : Bytes :=
  word64 e.sequence ++ (word64 e.epoch ++ (field e.jobID ++ (field e.region ++
    (field e.checkpointURI ++ word64 e.timestamp))))

def stringBytes (e : Entry) : ℕ := e.jobID.length + e.region.length + e.checkpointURI.length

def fieldLimit : ℕ := 2 ^ 32 - 1

def sealed (e : Entry) : Entry := { e with crc32c := checksum (body e) }

def marshalBinary (e : Entry) : Except WalError (Entry × Bytes) :=
  if e.sequence ≤ 0 then .error .emptySequence
  else if e.checkpointURI = [] then .error .invalidCheckpoint
  else if fieldLimit < e.jobID.length ∨ fieldLimit < e.region.length ∨
      fieldLimit < e.checkpointURI.length then .error (.invalidEntry "field exceeds uint32 length")
  else .ok (sealed e, body e ++ put 4 (checksum (body e)).toNat)

def readWord (width : ℕ) (data : Bytes) : Except Failure (ℕ × Bytes) :=
  match read width data with
  | some r => .ok r
  | none => .error .panic

def readWord64 (data : Bytes) : Except Failure (Int64 × Bytes) := do
  let (n, rest) ← readWord 8 data
  return ((UInt64.ofNat n).toInt64, rest)

def readField (detail : String) (data : Bytes) : Except Failure (Bytes × Bytes) := do
  let (size, rest) ← readWord 4 data
  if rest.length < size then throw (.error (.invalidEntry detail))
  return (rest.take size, rest.drop size)

def unmarshalBinary (data : Bytes) : Except Failure Entry := do
  -- The fixed fields take 40 bytes; the source tests against 44.
  if data.length < 44 then throw (.error (.invalidEntry "data too short"))
  let (sequence, rest) ← readWord64 data
  let (epoch, rest) ← readWord64 rest
  let (jobID, rest) ← readField "truncated job_id" rest
  let (region, rest) ← readField "truncated region" rest
  let (checkpointURI, rest) ← readField "truncated checkpoint_uri" rest
  let (timestamp, rest) ← readWord64 rest
  if rest.length ≠ 4 then throw (.error (.invalidEntry "unexpected trailing data"))
  let (storedCRC, _) ← readWord 4 rest
  let computedCRC := (checksum (data.take (data.length - 4))).toNat
  if storedCRC ≠ computedCRC then throw (.error (.crcMismatch computedCRC storedCRC))
  if sequence ≤ 0 then throw (.error .emptySequence)
  if checkpointURI = [] then throw (.error .invalidCheckpoint)
  return ⟨sequence, region, epoch, checkpointURI, jobID, timestamp, UInt32.ofNat storedCRC⟩

theorem readWord_put {width n : ℕ} (back : Bytes) (h : n < 256 ^ width) :
    readWord width (put width n ++ back) = .ok (n, back) := by
  rw [readWord, read_put back h]

theorem readWord64_word64 (x : Int64) (back : Bytes) : readWord64 (word64 x ++ back) = .ok (x, back) := by
  have hx : x.toUInt64.toNat < 256 ^ 8 := x.toUInt64.toNat_lt
  simp [readWord64, word64, readWord_put back hx, bind, Except.bind, pure, Except.pure]

theorem readField_field (detail : String) (s back : Bytes) (h : s.length ≤ fieldLimit) :
    readField detail (field s ++ back) = .ok (s, back) := by
  have hs : s.length < 256 ^ 4 := by unfold fieldLimit at h; omega
  simp [readField, field, readWord_put _ hs, bind, Except.bind, pure, Except.pure]

theorem body_length (e : Entry) : (body e).length = 36 + stringBytes e := by
  simp only [body, field, word64, stringBytes, List.length_append, put_length]
  omega

variable {e e' : Entry} {data : Bytes}

theorem marshalBinary_ok (h : marshalBinary e = .ok (e', data)) :
    0 < e.sequence ∧ e.checkpointURI ≠ [] ∧ e.jobID.length ≤ fieldLimit ∧
      e.region.length ≤ fieldLimit ∧ e.checkpointURI.length ≤ fieldLimit ∧
      e' = sealed e ∧
      data = body e ++ put 4 (checksum (body e)).toNat := by
  unfold marshalBinary at h
  split_ifs at h with hs hu hl
  cases h
  push Not at hl
  exact ⟨Int64.not_le.mp hs, hu, hl.1, hl.2.1, hl.2.2, rfl, rfl⟩

theorem marshalBinary_of_valid (hs : 0 < e.sequence) (hu : e.checkpointURI ≠ [])
    (hj : e.jobID.length ≤ fieldLimit) (hr : e.region.length ≤ fieldLimit)
    (hc : e.checkpointURI.length ≤ fieldLimit) :
    marshalBinary e = .ok (sealed e, body e ++ put 4 (checksum (body e)).toNat) := by
  simp [marshalBinary, hu, Int64.not_le.mpr hs, not_lt.mpr hj, not_lt.mpr hr, not_lt.mpr hc]

@[simp] theorem marshalBinary_sealed (e : Entry) : marshalBinary (sealed e) = marshalBinary e := rfl

@[simp] theorem sealed_sequence (e : Entry) : (sealed e).sequence = e.sequence := rfl

theorem unmarshalBinary_marshalBinary (h : marshalBinary e = .ok (e', data)) (hlen : 4 ≤ stringBytes e) :
    unmarshalBinary data = .ok e' := by
  obtain ⟨hs, hu, hj, hr, hc, rfl, rfl⟩ := marshalBinary_ok h
  have hcrc : (checksum (body e)).toNat < 256 ^ 4 := (checksum (body e)).toNat_lt
  have hsize : ¬ (body e ++ put 4 (checksum (body e)).toNat).length < 44 := by
    rw [List.length_append, body_length, put_length]; omega
  have htake : (body e ++ put 4 (checksum (body e)).toNat).take
      ((body e ++ put 4 (checksum (body e)).toNat).length - 4) = body e := by
    rw [List.length_append, put_length, Nat.add_sub_cancel, List.take_left]
  have hword : readWord 4 (put 4 (checksum (body e)).toNat) = .ok ((checksum (body e)).toNat, []) := by
    simpa using readWord_put [] hcrc
  have hseq : ¬ e.sequence ≤ 0 := Int64.not_le.mpr hs
  unfold unmarshalBinary
  rw [htake]
  simp only [body, List.append_assoc] at hsize ⊢
  simp only [hsize, ↓reduceIte, readWord64_word64, readField_field _ _ _ hj,
    readField_field _ _ _ hr, readField_field _ _ _ hc, bind, Except.bind, pure, Except.pure,
    put_length, ne_eq, not_true_eq_false]
  simp only [body] at hword
  simp [hword, hseq, hu, sealed, body]

theorem unmarshalBinary_of_short (h : marshalBinary e = .ok (e', data)) (hlen : stringBytes e < 4) :
    unmarshalBinary data = .error (.error (.invalidEntry "data too short")) := by
  obtain ⟨-, -, -, -, -, -, rfl⟩ := marshalBinary_ok h
  have hsize : (body e ++ put 4 (checksum (body e)).toNat).length < 44 := by
    rw [List.length_append, body_length, put_length]; omega
  unfold unmarshalBinary
  rw [if_pos hsize]
  rfl

end AstraSync.WalEntry
