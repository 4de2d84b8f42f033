import AstraSync.JobLifecycle

namespace AstraSync.JobLifecycle

open ByteStrings

def zeroTime : Time := 0

def labelByte (b : UInt8) : Bool := (97 ≤ b && b ≤ 122) || (48 ≤ b && b ≤ 57)

def dnsLabel (s : Bytes) : Bool :=
  s.head?.any labelByte && s.getLast?.any labelByte && s.all fun b => labelByte b || b = 45

def validateDNSLabel (field : String) (value : Bytes) : Option String :=
  if value.length = 0 ∨ 63 < value.length ∨ dnsLabel value = false then
    some (field ++ " must be a lowercase DNS label")
  else none

def Key.validate (k : Key) : Option String :=
  (validateDNSLabel "namespace" k.ns).or (validateDNSLabel "name" k.name)

def isSpace (c : Char) : Bool :=
  (9 ≤ c.toNat && c.toNat ≤ 13) || (0x2000 ≤ c.toNat && c.toNat ≤ 0x200a) ||
    [0x20, 0x85, 0xa0, 0x1680, 0x2028, 0x2029, 0x202f, 0x205f, 0x3000].contains c.toNat

def blank (s : String) : Bool := s.toList.all isSpace

def runs (state : State) : Bool := state = .initializing || state = .running

def Status.validate (s : Status) : Option String :=
  if s.epoch < 0 ∨ s.restartCount < 0 then some "epoch and restartCount must not be negative"
  else if s.state = .created ∧ s.epoch ≠ 0 then some "created job must have epoch zero"
  else if s.state ≠ .created ∧ s.epoch = 0 then some "non-created job must have a positive epoch"
  else if runs s.state ≠ decide (s.desired = .running) then
    some "desired state must be RUNNING exactly for initializing or running jobs"
  else if (s.epoch = 0 ∧ s.startTime.isSome) ∨ (0 < s.epoch ∧ s.startTime.isNone) then
    some "startTime must be present exactly when an execution epoch exists"
  else if terminal s.state ≠ s.endTime.isSome then some "endTime must be present exactly for terminal states"
  else if decide (s.state = .failed) ≠ s.failure.isSome then
    some "failure details must be present exactly for FAILED state"
  else if s.failure.any fun f => blank f.reason || f.timestamp = zeroTime then
    some "failure reason and timestamp must be set"
  else if s.lastCheckpoint.any fun k => k.id < 0 || k.timestamp = zeroTime || k.stateSize < 0 || k.durationMS < 0 then
    some "checkpoint values must not be negative and timestamp must be set"
  else none

variable {S : Type}

def Job.validateTimes (j : Job S) : Option String :=
  if j.createdAt = zeroTime ∨ j.updatedAt = zeroTime then some "job timestamps must be set"
  else if j.updatedAt < j.createdAt then some "updatedAt must not precede createdAt"
  else none

def Job.validate (c : Context S) (j : Job S) : Option String :=
  j.key.validate.or <|
  if c.parseUUID j.uid = false then some "uid must be a UUID"
  else if j.version ≤ 0 then some "version must be positive"
  else (c.validate j.spec).or (j.status.validate.or j.validateTimes)

structure Status.Sound (s : Status) : Prop where
  epoch : 0 ≤ s.epoch
  created : s.state = .created ↔ s.epoch = 0
  desired : runs s.state = true ↔ s.desired = .running

theorem check_passed {p : Prop} [Decidable p] {message : String} {rest : Option String}
    (h : (if p then some message else rest) = none) : ¬ p ∧ rest = none := by
  grind

theorem Status.sound_of_validate {s : Status} (h : s.validate = none) : s.Sound := by
  unfold Status.validate at h
  obtain ⟨hneg, h⟩ := check_passed h
  obtain ⟨hcreated, h⟩ := check_passed h
  obtain ⟨hepoch, h⟩ := check_passed h
  obtain ⟨hdesired, -⟩ := check_passed h
  constructor
  · apply Int64.not_lt.mp
    exact fun hlt => hneg (.inl hlt)
  · grind
  · rw [not_not] at hdesired
    rw [hdesired, decide_eq_true_iff]

variable {c : Context S} {j : Job S}

theorem Job.validate_eq_none : j.validate c = none ↔ j.key.validate = none ∧ c.parseUUID j.uid = true ∧ 0 < j.version ∧
      c.validate j.spec = none ∧ j.status.validate = none ∧ j.validateTimes = none := by
  grind [Job.validate, Option.or_eq_none_iff, Int64.not_lt, Int64.not_le]

theorem Job.version_pos (h : j.validate c = none) : 0 < j.version :=
  (Job.validate_eq_none.mp h).2.2.1

theorem Job.sound_of_validate (h : j.validate c = none) : j.status.Sound :=
  Status.sound_of_validate (Job.validate_eq_none.mp h).2.2.2.2.1

theorem Job.validate_version {version : Int64} (h : j.validate c = none)
    (hversion : 0 < version) : ({ j with version } : Job S).validate c = none := by
  obtain ⟨hkey, huid, -, hrest⟩ := Job.validate_eq_none.mp h
  exact Job.validate_eq_none.mpr ⟨hkey, huid, hversion, hrest⟩

end AstraSync.JobLifecycle
