import AstraSync.RegionPromotion
import AstraSync.WalEntry
import AstraSync.Library.SignedNumerals

namespace AstraSync.CheckpointPush

open ByteStrings SignedNumerals
open RegionPromotion (Outcome)
open WalEntry (Entry)

structure CheckpointEvent where
  eventType : Int32
  walEntry : Option Entry
  isGapMarker : Bool
  deriving DecidableEq

structure PushCheckpointRequest where
  event : Option CheckpointEvent
  (sourceRegion targetRegion : Bytes)

inductive PushError
  | invalidArgument (text : String)
  | alreadyExists (text : String)
  | resourceExhausted (text : String)
  | internal (text : String)
  | canceled
  deriving DecidableEq

structure Push where
  (sourceRegion targetRegion : Bytes)
  event : CheckpointEvent
  entry : Entry
  carried : event.walEntry = some entry
  originated : entry.region = sourceRegion
  sequence_nonneg : 0 ≤ entry.sequence
  epoch_nonneg : 0 ≤ entry.epoch

def missing : PushError := .invalidArgument "event, source region, and target region are required"

def validate (request : PushCheckpointRequest) : Except PushError Push :=
  match request.event with
  | none => .error missing
  | some event =>
    match hentry : event.walEntry with
    | none => .error missing
    | some entry =>
      if request.sourceRegion = [] ∨ request.targetRegion = [] then .error missing
      else if horigin : entry.region = request.sourceRegion then
        if hsign : entry.sequence < 0 ∨ entry.epoch < 0 then
          .error (.invalidArgument "checkpoint sequence and epoch must not be negative")
        else .ok ⟨request.sourceRegion, request.targetRegion, event, entry, hentry, horigin,
          Int64.not_lt.mp (not_or.mp hsign).1, Int64.not_lt.mp (not_or.mp hsign).2⟩
      else .error (.invalidArgument "WAL entry region must match source region")

structure AdmissionKey where
  (sourceRegion targetRegion jobID : Bytes)
  sequence : Int64
  deriving DecidableEq

def Push.key (p : Push) : AdmissionKey := ⟨p.sourceRegion, p.targetRegion, p.entry.jobID, p.entry.sequence⟩

def Push.content (p : Push) : Int64 × Bytes × UInt32 := (p.entry.epoch, p.entry.checkpointURI, p.entry.crc32c)

def Push.text (p : Push) : Bytes :=
  p.sourceRegion ++ 0 :: (p.targetRegion ++ 0 :: (p.entry.jobID ++ 0 :: (paddedInt 0 p.entry.sequence ++
    0 :: (paddedInt 0 p.entry.epoch ++ 0 :: (p.entry.checkpointURI ++ 0 :: decimal p.entry.crc32c.toNat)))))

def checkpointFingerprint (sha256 : Bytes → Bytes) (p : Push) : Bytes := sha256 p.text

theorem zero_not_digit {s : Bytes} (h : ∀ b ∈ s, isDigit b = true) : (0 : UInt8) ∉ s := by
  intro hmem
  exact absurd (h 0 hmem) (by decide)

theorem content_of_text {p q : Push} (hkey : p.key = q.key) (htext : p.text = q.text) : p.content = q.content := by
  simp only [Push.key, AdmissionKey.mk.injEq] at hkey
  obtain ⟨hsource, htarget, hjob, hsequence⟩ := hkey
  rw [Push.text, Push.text, hsource, htarget, hjob, hsequence] at htext
  have hrest := List.cons.inj (List.append_cancel_left htext) |>.2
  have hrest := List.cons.inj (List.append_cancel_left hrest) |>.2
  have hrest := List.cons.inj (List.append_cancel_left hrest) |>.2
  have hrest := List.cons.inj (List.append_cancel_left hrest) |>.2
  -- the epoch ends at the first zero byte, the checksum starts behind the last one
  have hepoch (r : Push) : (0 : UInt8) ∉ paddedInt 0 r.entry.epoch := by
    rw [paddedInt_of_nonneg r.epoch_nonneg]
    exact zero_not_digit (padded_digits _ _)
  have hcrc (r : Push) : (0 : UInt8) ∉ decimal r.entry.crc32c.toNat := zero_not_digit (decimal_digits _)
  obtain ⟨he, hrest⟩ := sep_cancel_first (hepoch p) (hepoch q) hrest
  obtain ⟨huri, hc⟩ := sep_cancel (hcrc p) (hcrc q) hrest
  rw [Push.content, Push.content, paddedInt_inj p.epoch_nonneg q.epoch_nonneg he, huri]
  congr 2
  rw [← UInt32.toNat_inj, ← numeral_decimal p.entry.crc32c.toNat, hc, numeral_decimal]

structure Admission where
  fingerprint : Bytes
  committed : Bool
  holder : ℕ

structure CheckpointSubscription where
  jobID : Bytes
  resumeFrom : Int64
  filterBySequence : Bool
  deriving DecidableEq

structure Message where
  event : CheckpointEvent
  push : Option ℕ
  deriving DecidableEq

structure Subscriber where
  server : ℕ
  region : Bytes
  subscription : CheckpointSubscription
  connected : Bool
  (received queue : List Message)

def Subscriber.history (sub : Subscriber) : List Message := sub.received ++ sub.queue

inductive Pc
  | claim
  | find
  | snapshot
  | deliver (rest : List ℕ)
  | send (s : ℕ) (rest : List ℕ)
  | commit
  | release (e : PushError)
  | done (answer : Option (Except PushError Int64))

/-- A push in progress. Beside the variables of the call stand the subscribers that were connected when it began, those
of them still connected behind its last send, and whether its claim was given up. -/
structure Call where
  server : ℕ
  push : Push
  pc : Pc
  accepted : Bool
  present : List ℕ
  reached : Option (List ℕ)
  released : Bool

structure World where
  admissions : AdmissionKey → Option Admission
  subscribers : List Subscriber
  calls : List Call
  acknowledged : ℕ → Bytes → Int64

def initial : World := ⟨fun _ => none, [], [], fun _ _ => 0⟩

def queueCapacity : ℕ := 128

def isConnected (w : World) (s : ℕ) : Bool := w.subscribers[s]?.any (·.connected)

def connectedTo (w : World) (server : ℕ) : List ℕ :=
  (List.range w.subscribers.length).filter fun s => w.subscribers[s]?.any fun sub => sub.connected && sub.server = server

def subscribersOf (w : World) (server : ℕ) (region : Bytes) : List ℕ :=
  (List.range w.subscribers.length).filter fun s =>
    w.subscribers[s]?.any fun sub => sub.connected && sub.server = server && sub.region = region

def subscriptionOf (w : World) (s : ℕ) : CheckpointSubscription :=
  match w.subscribers[s]? with
  | some sub => if sub.connected then sub.subscription else ⟨[], 0, false⟩
  | none => ⟨[], 0, false⟩

def skips (subscription : CheckpointSubscription) (p : Push) : Bool :=
  (subscription.jobID ≠ [] && subscription.jobID ≠ p.entry.jobID) ||
    (subscription.filterBySequence && p.entry.sequence ≤ subscription.resumeFrom)

def matching (sub : Subscriber) (server : ℕ) (p : Push) : Bool :=
  sub.server = server && sub.region = p.targetRegion && !skips sub.subscription p

def World.put (w : World) (i : ℕ) (c : Call) : World := { w with calls := w.calls.set i c }

def World.setAdmission (w : World) (k : AdmissionKey) (row : Option Admission) : World :=
  { w with admissions := Function.update w.admissions k row }

def answer (c : Call) (r : Except PushError Int64) : Call := { c with pc := .done (some r) }

def crash (w : World) (server : ℕ) : World :=
  { w with
    subscribers := w.subscribers.map fun sub => if sub.server = server then { sub with connected := false } else sub
    calls := w.calls.map fun c =>
      match c.pc with
      | .done _ => c
      | _ => if c.server = server then { c with pc := .done none } else c
    acknowledged := Function.update w.acknowledged server fun _ => 0 }

variable (sha256 : Bytes → Bytes) (w : World) (i : ℕ) (c : Call)

def admissionFailed : PushError := .internal "checkpoint admission failed"

def claimCheckpoint (o : Outcome) : World :=
  let p := c.push
  if p.sourceRegion = [] ∨ p.targetRegion = [] ∨ p.entry.jobID = [] ∨ p.entry.sequence < 0 ∨ p.entry.epoch < 0 then
    w.put i (answer c (.error admissionFailed))
  else
    match o, w.admissions p.key with
    | .failed, _ => w.put i (answer c (.error admissionFailed))
    | .ok, some _ => w.put i { c with pc := .find }
    | .lost, some _ => w.put i (answer c (.error admissionFailed))
    | .ok, none =>
      (w.setAdmission p.key (some ⟨checkpointFingerprint sha256 p, false, i⟩)).put i { c with pc := .snapshot, accepted := true }
    | .lost, none =>
      (w.setAdmission p.key (some ⟨checkpointFingerprint sha256 p, false, i⟩)).put i (answer c (.error admissionFailed))

def findAdmission (o : Outcome) : Call :=
  match o, w.admissions c.push.key with
  | .ok, some row =>
    if row.fingerprint ≠ checkpointFingerprint sha256 c.push then
      answer c (.error (.alreadyExists "checkpoint sequence was already admitted with different content"))
    else if !row.committed then answer c (.error (.resourceExhausted "checkpoint sequence delivery is in progress"))
    else answer c (.ok c.push.entry.sequence)
  | _, _ => answer c (.error admissionFailed)

def enqueue (sub : Subscriber) (m : Message) : Subscriber := { sub with queue := sub.queue ++ [m] }

def sendTo (s : ℕ) (rest : List ℕ) : Option World :=
  match w.subscribers[s]? with
  | none => none
  | some sub =>
    if !sub.connected then some (crash w c.server)
    else if sub.queue.length < queueCapacity then
      some ({ w with
        subscribers := w.subscribers.set s (enqueue sub ⟨c.push.event, some i⟩) }.put i { c with pc := .deliver rest })
    else some (w.put i { c with pc := .release (.resourceExhausted "replication subscriber queue is full") })

def acknowledge : World :=
  let region := c.push.targetRegion
  let sequence := c.push.entry.sequence
  let acknowledged :=
    if w.acknowledged c.server region < sequence then
      Function.update w.acknowledged c.server (Function.update (w.acknowledged c.server) region sequence)
    else w.acknowledged
  { w with acknowledged }.put i { c with pc := .commit, reached := some (c.present.filter (isConnected w)) }

def commitFailed : PushError := .internal "checkpoint admission commit failed"

def commitCheckpoint (o : Outcome) : World :=
  match o, w.admissions c.push.key with
  | .ok, some row =>
    (w.setAdmission c.push.key (some { row with committed := true })).put i (answer c (.ok c.push.entry.sequence))
  | .lost, some row =>
    (w.setAdmission c.push.key (some { row with committed := true })).put i { c with pc := .release commitFailed }
  | _, _ => w.put i { c with pc := .release commitFailed }

def releaseCheckpoint (e : PushError) (o : Outcome) : World :=
  match o, w.admissions c.push.key with
  | .failed, _ => w.put i (answer c (.error e))
  | _, some row =>
    if row.committed then w.put i (answer c (.error e))
    else (w.setAdmission c.push.key none).put i (answer { c with released := true } (.error e))
  | _, none => w.put i (answer c (.error e))

inductive Input
  | statement (o : Outcome)
  | order (subscribers : List ℕ)
  | go
  | cancelled

def pushCheckpoint : Input → Option World
  | .statement o =>
    match c.pc with
    | .claim => some (claimCheckpoint sha256 w i c o)
    | .find => some (w.put i (findAdmission sha256 w c o))
    | .commit => some (commitCheckpoint w i c o)
    | .release e => some (releaseCheckpoint w i c e o)
    | _ => none
  | .order subscribers =>
    match c.pc with
    | .snapshot =>
      if subscribers.Perm (subscribersOf w c.server c.push.targetRegion) then
        some (w.put i { c with pc := .deliver subscribers })
      else none
    | _ => none
  | .go =>
    match c.pc with
    | .deliver [] => some (acknowledge w i c)
    | .deliver (s :: rest) =>
      some (w.put i { c with pc := if skips (subscriptionOf w s) c.push then .deliver rest else .send s rest })
    | .send s rest => sendTo w i c s rest
    | _ => none
  | .cancelled =>
    match c.pc with
    | .send _ _ => some (w.put i { c with pc := .release .canceled })
    | _ => none

inductive Event
  | push (server : ℕ) (request : PushCheckpointRequest)
  | advance (i : ℕ) (input : Input)
  | join (server : ℕ) (region jobID : Bytes) (resumeFrom : Int64)
  | receive (s : ℕ)
  | leave (s : ℕ)
  | publish (s : ℕ) (event : CheckpointEvent)
  | crash (server : ℕ)

def streamCheckpoints (server : ℕ) (region jobID : Bytes) (resumeFrom : Int64) : Option Subscriber :=
  if region = [] ∨ resumeFrom < 0 then none
  else some ⟨server, region, ⟨jobID, resumeFrom, 0 < resumeFrom⟩, true, [], []⟩

def receive (sub : Subscriber) : Option Subscriber :=
  match sub.queue with
  | [] => none
  | m :: rest => if sub.connected then some { sub with received := sub.received ++ [m], queue := rest } else none

def publish (event : CheckpointEvent) (sub : Subscriber) : Option Subscriber :=
  if sub.connected && sub.queue.length < queueCapacity then some (enqueue sub ⟨event, none⟩) else none

def leave (sub : Subscriber) : Option Subscriber := if sub.connected then some { sub with connected := false } else none

def changeSubscriber (s : ℕ) (change : Subscriber → Option Subscriber) : Option World :=
  (w.subscribers[s]?.bind change).map fun sub => { w with subscribers := w.subscribers.set s sub }

def step : Event → Option World
  | .push server request =>
    match validate request with
    | .error _ => some w
    | .ok p => some { w with calls := w.calls ++ [⟨server, p, .claim, false, connectedTo w server, none, false⟩] }
  | .advance i input => w.calls[i]?.bind fun c => pushCheckpoint sha256 w i c input
  | .join server region jobID resumeFrom =>
    (streamCheckpoints server region jobID resumeFrom).map fun sub => { w with subscribers := w.subscribers ++ [sub] }
  | .receive s => changeSubscriber w s receive
  | .leave s => changeSubscriber w s leave
  | .publish s event => changeSubscriber w s (publish event)
  | .crash server => some (crash w server)

end AstraSync.CheckpointPush
