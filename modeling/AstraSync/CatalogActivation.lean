import AstraSync.CatalogInventories
import AstraSync.Library.Registries
import Mathlib.Data.List.Sort

namespace AstraSync.CatalogActivation

open ByteStrings Results Registries CatalogInventories
open JobLifecycle (Time zeroTime blank)

inductive CatalogError
  | notFound
  | revisionCollision
  | invalid (text : String)
  | failed (text : String)
  deriving DecidableEq

structure AuditEvent where
  (eventID actorID requestID oldRevision newRevision : String)
  descriptorCount : ℤ
  outcome : String
  occurredAt : Time
  deriving DecidableEq

def AuditEvent.validate (e : AuditEvent) : Except String Unit := do
  check (!blank e.eventID && !blank e.actorID && !blank e.requestID && revisionPattern e.newRevision &&
    0 < e.descriptorCount && (e.outcome = "CHANGED" || e.outcome = "NO_CHANGE") && e.occurredAt ≠ zeroTime)
    "catalog activation audit event is invalid"
  check (e.oldRevision = "" || revisionPattern e.oldRevision) "catalog activation old revision is invalid"

structure Call where
  candidate : Snapshot
  event : AuditEvent

def Call.validate (call : Call) : Except CatalogError Unit := do
  call.candidate.validate.mapError .invalid
  call.event.validate.mapError .invalid

structure Repository (σ : Type) where
  empty : σ
  activate : σ → Call → Except CatalogError (σ × Bool)
  current : σ → String → Except CatalogError Snapshot

structure Memory where
  snapshots : List Snapshot
  /-- The inventory revision of each profile. -/
  active : List (String × String)
  auditEvents : List AuditEvent
  deriving DecidableEq

def collides (stored d : DescriptorSnapshot) : Bool :=
  (stored.revision = d.revision && stored.payload ≠ d.payload) ||
    (stored.name = d.name && stored.artifactVersion = d.artifactVersion && stored.revision ≠ d.revision)

def activateMemory (m : Memory) (call : Call) : Except CatalogError (Memory × Bool) := do
  call.validate
  let candidate := call.candidate
  check ((find (·.inventoryRevision) candidate.inventoryRevision m.snapshots).all (·.payload = candidate.payload))
    .revisionCollision
  check (!candidate.descriptors.any fun d => m.snapshots.any fun s => s.descriptors.any fun stored => collides stored d)
    .revisionCollision
  let old := (find Prod.fst candidate.executionProfile m.active).map Prod.snd
  return (⟨put (·.inventoryRevision) candidate m.snapshots,
    put Prod.fst (candidate.executionProfile, candidate.inventoryRevision) m.active,
    m.auditEvents ++ [call.event]⟩, old.getD "" ≠ candidate.inventoryRevision)

def currentMemory (m : Memory) (profile : String) : Except CatalogError Snapshot :=
  match find Prod.fst profile m.active with
  | none => .error .notFound
  | some (_, revision) =>
    match find (·.inventoryRevision) revision m.snapshots with
    | none => .error (.failed "empty snapshot")
    | some s => .ok s

def memory : Repository Memory := ⟨⟨[], [], []⟩, activateMemory, currentMemory⟩

structure InventoryRow where
  (inventoryRevision compilerRevision executionProfile : String)
  payload : Bytes
  deriving DecidableEq

structure LinkRow where
  inventoryRevision : String
  position : ℕ
  descriptorRevision : String
  deriving DecidableEq

structure ActivationRow where
  (executionProfile inventoryRevision : String)
  activatedAt : Time
  deriving DecidableEq

structure Database where
  descriptors : List DescriptorSnapshot
  inventories : List InventoryRow
  links : List LinkRow
  activations : List ActivationRow
  audits : List AuditEvent
  deriving DecidableEq

def textual (s : String) : Bool := !s.toList.contains '\x00'

def insertDescriptor (rows : List DescriptorSnapshot) (d : DescriptorSnapshot) :
    Except CatalogError (List DescriptorSnapshot) := do
  check (textual d.name && textual d.artifactVersion) (.failed "insert connector descriptor snapshot")
  match find (·.revision) d.revision rows with
  | some stored =>
    check (stored.payload = d.payload) .revisionCollision
    return rows
  | none =>
    check (!rows.any fun stored => stored.name = d.name && stored.artifactVersion = d.artifactVersion)
      .revisionCollision
    return rows ++ [d]

def inventoryRow (s : Snapshot) : InventoryRow :=
  ⟨s.inventoryRevision, s.compilerRevision, s.executionProfile, s.payload⟩

def insertInventory (rows : List InventoryRow) (s : Snapshot) : Except CatalogError (List InventoryRow) := do
  check (textual s.executionProfile) (.failed "insert connector inventory")
  match find (·.inventoryRevision) s.inventoryRevision rows with
  | some stored =>
    check (stored.payload = s.payload) .revisionCollision
    return rows
  | none => return rows ++ [inventoryRow s]

def insertLinks (revision : String) (position : ℕ) :
    List DescriptorSnapshot → List LinkRow → Except CatalogError (List LinkRow)
  | [], rows => return rows
  | d :: rest, rows =>
    if rows.any fun row => row.inventoryRevision = revision && row.position = position then
      insertLinks revision (position + 1) rest rows
    else do
      check (!rows.any fun row => row.inventoryRevision = revision && row.descriptorRevision = d.revision)
        (.failed "link connector descriptor snapshot")
      insertLinks revision (position + 1) rest (rows ++ [⟨revision, position, d.revision⟩])

def auditFits (e : AuditEvent) : Bool :=
  textual e.eventID && e.eventID.length ≤ 128 && textual e.actorID && e.actorID.length ≤ 256 &&
    textual e.requestID && e.requestID.length ≤ 128

def insertAudit (rows : List AuditEvent) (e : AuditEvent) : Except CatalogError (List AuditEvent) := do
  check (auditFits e && !rows.any (·.eventID = e.eventID)) (.failed "write catalog activation audit")
  return rows ++ [e]

def activateDatabase (timestamptz : Time → Time) (db : Database) (call : Call) :
    Except CatalogError (Database × Bool) := do
  call.validate
  let candidate := call.candidate
  let descriptors ← candidate.descriptors.foldlM insertDescriptor db.descriptors
  let inventories ← insertInventory db.inventories candidate
  let links ← insertLinks candidate.inventoryRevision 0 candidate.descriptors db.links
  let old := (find (·.executionProfile) candidate.executionProfile db.activations).map (·.inventoryRevision)
  let activations := put (·.executionProfile)
    ⟨candidate.executionProfile, candidate.inventoryRevision, timestamptz candidate.activatedAt⟩ db.activations
  let audits ← insertAudit db.audits call.event
  return (⟨descriptors, inventories, links, activations, audits⟩, old.getD "" ≠ candidate.inventoryRevision)

def linkedDescriptors (db : Database) (revision : String) : List DescriptorSnapshot :=
  (((db.links.filter (·.inventoryRevision = revision)).insertionSort fun a b => a.position ≤ b.position).filterMap
    fun row => find (·.revision) row.descriptorRevision db.descriptors)

def currentDatabase (db : Database) (profile : String) : Except CatalogError Snapshot :=
  match find (·.executionProfile) profile db.activations with
  | none => .error .notFound
  | some a =>
    match find (·.inventoryRevision) a.inventoryRevision db.inventories with
    | none => .error .notFound
    | some i => do
      let s : Snapshot := ⟨i.inventoryRevision, i.compilerRevision, i.executionProfile, i.payload,
        linkedDescriptors db i.inventoryRevision, a.activatedAt⟩
      s.validate.mapError .failed
      return s

def database (timestamptz : Time → Time) : Repository Database :=
  ⟨⟨[], [], [], [], []⟩, activateDatabase timestamptz, currentDatabase⟩

section

variable {σ : Type}

def Repository.activateAll (r : Repository σ) (calls : List Call) : Except CatalogError σ :=
  calls.foldlM (fun s call => (r.activate s call).map Prod.fst) r.empty

/-- Each call of the sequence succeeds, makes its snapshot the current one of its profile and leaves every other profile
as it was. -/
def Activates (r : Repository σ) (calls : List Call) : Prop :=
  ∀ before call after, calls = before ++ call :: after →
    ∃ s t changed, r.activateAll before = .ok s ∧ r.activate s call = .ok (t, changed) ∧
      r.current t call.candidate.executionProfile = .ok call.candidate ∧
      ∀ profile, profile ≠ call.candidate.executionProfile → r.current t profile = r.current s profile

def catalog (history : List Snapshot) (profile : String) : Except CatalogError Snapshot :=
  match latest (·.executionProfile) profile history with
  | some s => .ok s
  | none => .error .notFound

theorem catalog_snoc (history : List Snapshot) (s : Snapshot) (profile : String) :
    catalog (history ++ [s]) profile = if s.executionProfile = profile then .ok s else catalog history profile := by
  unfold catalog
  rw [latest_snoc]
  split_ifs <;> rfl

structure Keeps (r : Repository σ) (good : List Call → Prop) (Rep : List Call → σ → Prop) : Prop where
  start : Rep [] r.empty
  current : ∀ calls s profile, good calls → Rep calls s → r.current s profile = catalog (calls.map (·.candidate)) profile
  step : ∀ calls call s, good (calls ++ [call]) → Rep calls s →
    ∃ t changed, r.activate s call = .ok (t, changed) ∧ Rep (calls ++ [call]) t

variable {good : List Call → Prop} {Rep : List Call → σ → Prop}

theorem Keeps.activateAll {r : Repository σ}
    (hkeeps : Keeps r good Rep) (hmono : ∀ before after, good (before ++ after) → good before) {calls : List Call}
    (hgood : good calls) : ∃ s, r.activateAll calls = .ok s ∧ Rep calls s := by
  induction calls using List.reverseRecOn with
  | nil => exact ⟨r.empty, rfl, hkeeps.start⟩
  | append_singleton calls call ih =>
    obtain ⟨s, hs, hrep⟩ := ih (hmono _ _ hgood)
    obtain ⟨t, changed, ht, hrep'⟩ := hkeeps.step calls call s hgood hrep
    refine ⟨t, ?_, hrep'⟩
    unfold Repository.activateAll at hs ⊢
    rw [List.foldlM_append, hs]
    simp [bind, Except.bind, ht, Except.map, pure, Except.pure]

theorem Keeps.activates {r : Repository σ}
    (hkeeps : Keeps r good Rep) (hmono : ∀ before after, good (before ++ after) → good before) {calls : List Call}
    (hgood : good calls) : Activates r calls := by
  intro before call after hcalls
  rw [hcalls, ← List.singleton_append, ← List.append_assoc] at hgood
  have hnow := hmono _ _ hgood
  obtain ⟨s, hs, hrep⟩ := hkeeps.activateAll hmono (hmono _ _ hnow)
  obtain ⟨t, changed, ht, hrep'⟩ := hkeeps.step before call s hnow hrep
  have hcurrent (profile : String) := hkeeps.current _ t profile hnow hrep'
  simp only [List.map_append, List.map_cons, List.map_nil, catalog_snoc] at hcurrent
  refine ⟨s, t, changed, hs, ht, ?_, fun profile hprofile => ?_⟩
  · rw [hcurrent, if_pos rfl]
  · rw [hcurrent, if_neg (Ne.symm hprofile), hkeeps.current before s profile (hmono _ _ hnow) hrep]

end

section

variable (enc : Encoding) (calls : List Call)

def Validated : Prop :=
  ∀ call ∈ calls, validate enc call.candidate.payload call.candidate.activatedAt = .ok call.candidate

def OneRevision : Prop :=
  ∀ a ∈ calls, ∀ b ∈ calls, ∀ d ∈ a.candidate.descriptors, ∀ e ∈ b.candidate.descriptors,
    d.name = e.name → d.artifactVersion = e.artifactVersion → d.revision = e.revision

def CollisionFree : Prop :=
  ∀ a ∈ calls, ∀ b ∈ calls, ∀ i j, enc.unmarshal a.candidate.payload = some i →
    enc.unmarshal b.candidate.payload = some j → ∀ d ∈ i.descriptors, ∀ e ∈ j.descriptors,
      descriptorDigest enc d = descriptorDigest enc e → canonicalDescriptor d = canonicalDescriptor e

/-- An inventory revision stands for one inventory: the same descriptors are always activated with the same compiler
build, job schema and profile. -/
def OnePayload : Prop :=
  ∀ a ∈ calls, ∀ b ∈ calls, a.candidate.inventoryRevision = b.candidate.inventoryRevision →
    a.candidate.payload = b.candidate.payload

def Audited : Prop := ∀ call ∈ calls, call.event.validate = .ok ()

structure Storable (timestamptz : Time → Time) : Prop where
  profiles : ∀ call ∈ calls, textual call.candidate.executionProfile = true
  versions : ∀ call ∈ calls, ∀ d ∈ call.candidate.descriptors, textual d.artifactVersion = true
  times : ∀ call ∈ calls, timestamptz call.candidate.activatedAt = call.candidate.activatedAt
  audits : ∀ call ∈ calls, auditFits call.event = true
  events : (calls.map (·.event.eventID)).Nodup

structure Consistent : Prop where
  validated : Validated enc calls
  oneRevision : OneRevision calls
  collisionFree : CollisionFree enc calls
  onePayload : OnePayload calls
  audited : Audited calls

end

section

variable {enc : Encoding} {calls before after : List Call} {a b call : Call} {d e : DescriptorSnapshot}

theorem Consistent.of_append (h : Consistent enc (before ++ after)) : Consistent enc before := by
  have hsub : ∀ call ∈ before, call ∈ before ++ after := fun call hcall => List.mem_append_left _ hcall
  refine ⟨fun a ha => h.validated a (hsub a ha), fun a ha b hb => h.oneRevision a (hsub a ha) b (hsub b hb),
    fun a ha b hb => h.collisionFree a (hsub a ha) b (hsub b hb),
    fun a ha b hb => h.onePayload a (hsub a ha) b (hsub b hb), fun a ha => h.audited a (hsub a ha)⟩

theorem Storable.of_append {timestamptz : Time → Time} (h : Storable (before ++ after) timestamptz) :
    Storable before timestamptz := by
  have hsub : ∀ call ∈ before, call ∈ before ++ after := fun call hcall => List.mem_append_left _ hcall
  refine ⟨fun a ha => h.profiles a (hsub a ha), fun a ha => h.versions a (hsub a ha), fun a ha => h.times a (hsub a ha),
    fun a ha => h.audits a (hsub a ha), ?_⟩
  have hevents := h.events
  rw [List.map_append] at hevents
  exact hevents.of_append_left

section

variable (h : Consistent enc calls)

include h

theorem Consistent.call_validate (hcall : call ∈ calls) : call.validate = .ok () := by
  obtain ⟨-, -, -, -, hsnapshot⟩ := validate_ok (h.validated call hcall)
  have haudit := h.audited call hcall
  unfold Call.validate
  rw [hsnapshot, haudit]
  rfl

theorem Consistent.descriptor_eq (ha : a ∈ calls) (hb : b ∈ calls)
    (hd : d ∈ a.candidate.descriptors) (he : e ∈ b.candidate.descriptors) (hrevision : d.revision = e.revision) :
    d = e := by
  obtain ⟨i, hi, hia, hivalid, -⟩ := validate_ok (h.validated a ha)
  obtain ⟨j, hj, hjb, hjvalid, -⟩ := validate_ok (h.validated b hb)
  rw [hia] at hd
  rw [hjb] at he
  obtain ⟨m, hm, rfl⟩ := List.mem_map.mp hd
  obtain ⟨n, hn, rfl⟩ := List.mem_map.mp he
  have hrevision : m.descriptorRevision = n.descriptorRevision := hrevision
  have hdigest : descriptorDigest enc m = descriptorDigest enc n := by
    rw [validateDescriptor_digest (hivalid m hm), validateDescriptor_digest (hjvalid n hn), hrevision]
  have hcanonical := h.collisionFree a ha b hb i j hi hj m hm n hn hdigest
  have hmn : m = n := by
    obtain ⟨⟩ := m
    obtain ⟨⟩ := n
    simp only [canonicalDescriptor, ConnectorDescriptor.mk.injEq] at hcanonical ⊢
    grind
  rw [hmn]

theorem Consistent.inventory_eq (ha : a ∈ calls) (hb : b ∈ calls)
    (hrevision : a.candidate.inventoryRevision = b.candidate.inventoryRevision) :
    inventoryRow a.candidate = inventoryRow b.candidate ∧ a.candidate.descriptors = b.candidate.descriptors := by
  have hpayload := h.onePayload a ha b hb hrevision
  obtain ⟨i, hi, hia, -⟩ := validate_ok (h.validated a ha)
  obtain ⟨j, hj, hjb, -⟩ := validate_ok (h.validated b hb)
  obtain rfl : i = j := by
    rw [hpayload, hj] at hi
    exact (Option.some.inj hi).symm
  rw [hia, hjb, hpayload]
  exact ⟨rfl, rfl⟩

theorem Consistent.not_collides (ha : a ∈ calls) (hb : b ∈ calls)
    (hd : d ∈ a.candidate.descriptors) (he : e ∈ b.candidate.descriptors) : collides d e = false := by
  unfold collides
  by_cases hrevision : d.revision = e.revision
  · rw [h.descriptor_eq ha hb hd he hrevision]
    simp
  · have hartifact : ¬(d.name = e.name ∧ d.artifactVersion = e.artifactVersion) := by
      rintro ⟨hname, hversion⟩
      exact hrevision (h.oneRevision a ha b hb d hd e he hname hversion)
    simp only [hrevision, decide_false, Bool.false_and, Bool.false_or, ne_eq, not_false_eq_true, decide_true,
      Bool.and_true]
    simpa using hartifact

end

end

section

variable {enc : Encoding} {calls : List Call} {call : Call} {m : Memory}

structure MemoryKeeps (calls : List Call) (m : Memory) : Prop where
  stored : ∀ s ∈ m.snapshots, ∃ call ∈ calls, s = call.candidate
  snapshots : ∀ revision, find (·.inventoryRevision) revision m.snapshots =
    latest (·.inventoryRevision) revision (calls.map (·.candidate))
  active : ∀ profile, find Prod.fst profile m.active =
    (latest (·.executionProfile) profile (calls.map (·.candidate))).map fun s =>
      (s.executionProfile, s.inventoryRevision)

theorem currentMemory_eq (h : Consistent enc calls) (hm : MemoryKeeps calls m) (profile : String) :
    currentMemory m profile = catalog (calls.map (·.candidate)) profile := by
  unfold currentMemory catalog
  rw [hm.active]
  cases hlatest : latest (·.executionProfile) profile (calls.map (·.candidate)) with
  | none => rfl
  | some s =>
    have hsame : ∀ s ∈ calls.map (·.candidate), ∀ t ∈ calls.map (·.candidate),
        s.inventoryRevision = t.inventoryRevision → s.executionProfile = t.executionProfile := by
      intro s hs t ht hrevision
      obtain ⟨a, ha, rfl⟩ := List.mem_map.mp hs
      obtain ⟨b, hb, rfl⟩ := List.mem_map.mp ht
      exact congrArg InventoryRow.executionProfile (h.inventory_eq ha hb hrevision).1
    dsimp only [Option.map_some]
    rw [hm.snapshots, latest_finer hsame hlatest]

theorem activateMemory_keeps (h : Consistent enc (calls ++ [call])) (hm : MemoryKeeps calls m) :
    ∃ t changed, activateMemory m call = .ok (t, changed) ∧ MemoryKeeps (calls ++ [call]) t := by
  have hcall : call ∈ calls ++ [call] := List.mem_append_right _ (List.mem_singleton_self call)
  have hpayload : (find (·.inventoryRevision) call.candidate.inventoryRevision m.snapshots).all
      (·.payload = call.candidate.payload) = true := by
    cases hfind : find (·.inventoryRevision) call.candidate.inventoryRevision m.snapshots with
    | none => rfl
    | some s =>
      obtain ⟨hmem, hrevision⟩ := find_some hfind
      obtain ⟨a, ha, rfl⟩ := hm.stored s hmem
      exact decide_eq_true (h.onePayload a (List.mem_append_left _ ha) call hcall hrevision)
  have hdescriptors : (call.candidate.descriptors.any fun d => m.snapshots.any fun s =>
      s.descriptors.any fun stored => collides stored d) = false := by
    simp only [List.any_eq_false, Bool.not_eq_true]
    intro d hd s hs stored hstored
    obtain ⟨a, ha, rfl⟩ := hm.stored s hs
    exact h.not_collides (List.mem_append_left _ ha) hcall hstored hd
  have hactivate : ∃ changed, activateMemory m call = .ok (⟨put (·.inventoryRevision) call.candidate m.snapshots,
      put Prod.fst (call.candidate.executionProfile, call.candidate.inventoryRevision) m.active,
      m.auditEvents ++ [call.event]⟩, changed) := by
    unfold activateMemory
    simp only [h.call_validate hcall, hpayload, hdescriptors, check, bind, Except.bind, Bool.not_false, if_true, pure,
      Except.pure]
    exact ⟨_, rfl⟩
  obtain ⟨changed, hactivate⟩ := hactivate
  refine ⟨_, changed, hactivate, ?_, fun revision => ?_, fun profile => ?_⟩
  · intro s hs
    rcases mem_put hs with hs | rfl
    · obtain ⟨a, ha, rfl⟩ := hm.stored s hs
      exact ⟨a, List.mem_append_left _ ha, rfl⟩
    · exact ⟨call, hcall, rfl⟩
  · rw [find_put, hm.snapshots, List.map_append, List.map_cons, List.map_nil, latest_snoc]
  · rw [find_put, hm.active, List.map_append, List.map_cons, List.map_nil, latest_snoc]
    split_ifs <;> rfl

theorem memory_keeps : Keeps memory (Consistent enc) MemoryKeeps where
  start := ⟨fun _ hs => absurd hs List.not_mem_nil, fun _ => rfl, fun _ => rfl⟩
  current := fun _ _ profile h hm => currentMemory_eq h hm profile
  step := fun _ _ _ h hm => activateMemory_keeps h hm

variable {db : Database} {timestamptz : Time → Time}

structure Pool (P : DescriptorSnapshot → Prop) : Prop where
  text : ∀ d, P d → textual d.name = true ∧ textual d.artifactVersion = true
  content : ∀ d e, P d → P e → d.revision = e.revision → d = e
  artifact : ∀ d e, P d → P e → d.name = e.name → d.artifactVersion = e.artifactVersion → d.revision = e.revision

variable {rows ds : List DescriptorSnapshot} {revision : String} {position : ℕ} {P : DescriptorSnapshot → Prop}

theorem insertDescriptor_ok (hP : Pool P) (hrows : ∀ e ∈ rows, P e) {d : DescriptorSnapshot} (hd : P d) :
    insertDescriptor rows d = .ok (insertNew (·.revision) d rows) := by
  obtain ⟨hname, hversion⟩ := hP.text d hd
  unfold insertDescriptor insertNew
  rw [hname, hversion]
  cases hfind : find (·.revision) d.revision rows with
  | some stored =>
    obtain ⟨hmem, hrevision⟩ := find_some hfind
    rw [hP.content stored d (hrows stored hmem) hd hrevision]
    simp [check, bind, Except.bind, pure, Except.pure]
  | none =>
    have hartifact : (rows.any fun stored => stored.name = d.name && stored.artifactVersion = d.artifactVersion) =
        false := by
      simp only [List.any_eq_false, Bool.and_eq_true, decide_eq_true_eq]
      rintro stored hmem ⟨hname, hversion⟩
      exact find_none hfind stored hmem (hP.artifact stored d (hrows stored hmem) hd hname hversion)
    simp [check, bind, Except.bind, pure, Except.pure, hartifact]

theorem insertDescriptors_ok (hP : Pool P) (hrows : ∀ e ∈ rows, P e) (hds : ∀ d ∈ ds, P d) :
    ∃ rows', ds.foldlM insertDescriptor rows = .ok rows' ∧ (∀ e ∈ rows', e ∈ rows ∨ e ∈ ds) ∧
      ∀ e, (e ∈ ds ∨ find (·.revision) e.revision rows = some e) → find (·.revision) e.revision rows' = some e := by
  induction ds generalizing rows with
  | nil => exact ⟨rows, rfl, fun e he => .inl he, fun e he => he.resolve_left List.not_mem_nil⟩
  | cons d ds ih =>
    have hd : P d := hds d List.mem_cons_self
    have hagree : ∀ e ∈ rows, e.revision = d.revision → e = d := fun e he => hP.content e d (hrows e he) hd
    have hrows' : ∀ e ∈ insertNew (·.revision) d rows, P e := by
      grind [mem_insertNew]
    obtain ⟨rows', hinsert, hmem, hfind⟩ := ih hrows' fun e he => hds e (List.mem_cons_of_mem d he)
    refine ⟨rows', ?_, fun e he => ?_, fun e he => ?_⟩
    · rw [List.foldlM_cons, insertDescriptor_ok hP hrows hd]
      exact hinsert
    · grind [mem_insertNew, List.mem_cons_self, List.mem_cons_of_mem]
    · -- a descriptor found before is the one just inserted, where the two have one revision
      have hnew := find_insertNew (k := e.revision) hagree
      rcases he with he | he
      · grind
      · grind [find_some]

theorem insertInventory_ok {rows : List InventoryRow} {s : Snapshot} (htext : textual s.executionProfile = true)
    (hagree : ∀ row ∈ rows, row.inventoryRevision = s.inventoryRevision → row = inventoryRow s) :
    insertInventory rows s = .ok (insertNew (·.inventoryRevision) (inventoryRow s) rows) := by
  have hnew : insertNew (·.inventoryRevision) (inventoryRow s) rows =
      if (find (·.inventoryRevision) s.inventoryRevision rows).isSome then rows else rows ++ [inventoryRow s] := rfl
  rw [hnew]
  unfold insertInventory
  rw [htext]
  cases hfind : find (·.inventoryRevision) s.inventoryRevision rows with
  | some stored =>
    obtain ⟨hmem, hrevision⟩ := find_some hfind
    rw [hagree stored hmem hrevision]
    simp [check, bind, Except.bind, pure, Except.pure, inventoryRow]
  | none => simp [check, bind, Except.bind, pure, Except.pure]

def linkRows (revision : String) (position : ℕ) : List DescriptorSnapshot → List LinkRow
  | [] => []
  | d :: rest => ⟨revision, position, d.revision⟩ :: linkRows revision (position + 1) rest

theorem mem_linkRows {row : LinkRow}
    (h : row ∈ linkRows revision position ds) : row.inventoryRevision = revision ∧ position ≤ row.position := by
  induction ds generalizing position with
  | nil => cases h
  | cons d ds ih =>
    rcases List.mem_cons.mp h with rfl | h
    · exact ⟨rfl, le_rfl⟩
    · obtain ⟨hrevision, hposition⟩ := ih h
      exact ⟨hrevision, by omega⟩

theorem linkRows_sorted (revision : String) (position : ℕ) (ds : List DescriptorSnapshot) :
    (linkRows revision position ds).Pairwise fun a b => a.position ≤ b.position := by
  induction ds generalizing position with
  | nil => exact List.Pairwise.nil
  | cons d ds ih =>
    refine List.Pairwise.cons (fun row hrow => ?_) (ih (position + 1))
    have hposition := (mem_linkRows hrow).2
    dsimp only
    omega

theorem insertLinks_fresh {rows : List LinkRow} (hnodup : (ds.map (·.revision)).Nodup)
    (hrows : ∀ row ∈ rows, row.inventoryRevision = revision →
      row.position < position ∧ row.descriptorRevision ∉ ds.map (·.revision)) :
    insertLinks revision position ds rows = .ok (rows ++ linkRows revision position ds) := by
  induction ds generalizing position rows with
  | nil =>
    rw [linkRows, List.append_nil]
    rfl
  | cons d ds ih =>
    obtain ⟨hd, hnodup⟩ := List.nodup_cons.mp hnodup
    have hposition : (rows.any fun row => row.inventoryRevision = revision && row.position = position) = false := by
      grind
    have hunique : (rows.any fun row => row.inventoryRevision = revision && row.descriptorRevision = d.revision) =
        false := by
      grind
    unfold insertLinks
    rw [hposition, if_neg Bool.false_ne_true, hunique]
    show insertLinks revision (position + 1) ds (rows ++ [⟨revision, position, d.revision⟩]) = _
    rw [ih hnodup]
    · rw [linkRows, List.append_assoc, List.singleton_append]
    · grind

theorem insertLinks_present {rows : List LinkRow} (hrows : ∀ row ∈ linkRows revision position ds, row ∈ rows) :
    insertLinks revision position ds rows = .ok rows := by
  induction ds generalizing position with
  | nil => rfl
  | cons d ds ih =>
    have hposition : (rows.any fun row => row.inventoryRevision = revision && row.position = position) = true := by
      refine List.any_eq_true.mpr ⟨_, hrows _ List.mem_cons_self, ?_⟩
      simp
    unfold insertLinks
    rw [hposition, if_pos rfl]
    exact ih fun row hrow => hrows row (List.mem_cons_of_mem _ hrow)

theorem filterMap_linkRows (h : ∀ d ∈ ds, find (·.revision) d.revision rows = some d) :
    (linkRows revision position ds).filterMap (fun row => find (·.revision) row.descriptorRevision rows) = ds := by
  induction ds generalizing position with
  | nil => rfl
  | cons d ds ih =>
    rw [linkRows, List.filterMap_cons, h d List.mem_cons_self]
    dsimp only
    rw [ih fun e he => h e (List.mem_cons_of_mem d he)]

def activationRow (timestamptz : Time → Time) (s : Snapshot) : ActivationRow :=
  ⟨s.executionProfile, s.inventoryRevision, timestamptz s.activatedAt⟩

structure DatabaseKeeps (timestamptz : Time → Time) (calls : List Call) (db : Database) : Prop where
  storedDescriptors : ∀ d ∈ db.descriptors, ∃ call ∈ calls, d ∈ call.candidate.descriptors
  descriptors : ∀ call ∈ calls, ∀ d ∈ call.candidate.descriptors,
    find (·.revision) d.revision db.descriptors = some d
  storedInventories : ∀ row ∈ db.inventories, ∃ call ∈ calls, row = inventoryRow call.candidate
  inventories : ∀ call ∈ calls,
    find (·.inventoryRevision) call.candidate.inventoryRevision db.inventories = some (inventoryRow call.candidate)
  storedLinks : ∀ row ∈ db.links, ∃ call ∈ calls, row.inventoryRevision = call.candidate.inventoryRevision
  links : ∀ call ∈ calls, db.links.filter (·.inventoryRevision = call.candidate.inventoryRevision) =
    linkRows call.candidate.inventoryRevision 0 call.candidate.descriptors
  activations : ∀ profile, find (·.executionProfile) profile db.activations =
    (latest (·.executionProfile) profile (calls.map (·.candidate))).map (activationRow timestamptz)
  audits : db.audits = calls.map (·.event)

theorem linkedDescriptors_eq (hdb : DatabaseKeeps timestamptz calls db) (hcall : call ∈ calls) :
    linkedDescriptors db call.candidate.inventoryRevision = call.candidate.descriptors := by
  unfold linkedDescriptors
  rw [hdb.links call hcall, (linkRows_sorted _ _ _).insertionSort_eq]
  exact filterMap_linkRows (hdb.descriptors call hcall)

theorem currentDatabase_eq (h : Consistent enc calls) (hstorable : Storable calls timestamptz)
    (hdb : DatabaseKeeps timestamptz calls db) (profile : String) :
    currentDatabase db profile = catalog (calls.map (·.candidate)) profile := by
  unfold currentDatabase catalog
  rw [hdb.activations]
  cases hlatest : latest (·.executionProfile) profile (calls.map (·.candidate)) with
  | none => rfl
  | some =>
    obtain ⟨call, hcall, rfl⟩ := List.mem_map.mp (latest_some hlatest).1
    obtain ⟨-, -, -, -, hvalid⟩ := validate_ok (h.validated call hcall)
    have hsnapshot : (⟨call.candidate.inventoryRevision, call.candidate.compilerRevision,
        call.candidate.executionProfile, call.candidate.payload,
        linkedDescriptors db call.candidate.inventoryRevision,
        timestamptz call.candidate.activatedAt⟩ : Snapshot) = call.candidate := by
      rw [linkedDescriptors_eq hdb hcall, hstorable.times call hcall]
    dsimp only [Option.map_some, activationRow]
    rw [hdb.inventories call hcall]
    dsimp only [inventoryRow]
    rw [hsnapshot, hvalid]
    rfl

theorem namePattern_textual {s : String} (h : namePattern s = true) : textual s = true := by
  unfold namePattern at h
  rw [Bool.and_eq_true, List.all_eq_true] at h
  unfold textual
  rw [Bool.not_eq_true', ← Bool.not_eq_true, List.contains_iff_mem]
  intro hmem
  exact absurd (h.2 _ hmem) (by decide)

theorem Consistent.pool (h : Consistent enc calls) (hstorable : Storable calls timestamptz) :
    Pool fun d => ∃ call ∈ calls, d ∈ call.candidate.descriptors := by
  constructor
  · rintro d ⟨call, hcall, hd⟩
    refine ⟨?_, hstorable.versions call hcall d hd⟩
    obtain ⟨i, -, hi, hvalid, -⟩ := validate_ok (h.validated call hcall)
    rw [hi] at hd
    obtain ⟨m, hm, rfl⟩ := List.mem_map.mp hd
    exact namePattern_textual (validateDescriptor_name (hvalid m hm))
  · rintro d e ⟨a, ha, hd⟩ ⟨b, hb, he⟩
    exact h.descriptor_eq ha hb hd he
  · rintro d e ⟨a, ha, hd⟩ ⟨b, hb, he⟩
    exact h.oneRevision a ha b hb d hd e he

theorem insertLinks_ok (h : Consistent enc (calls ++ [call])) (hdb : DatabaseKeeps timestamptz calls db) :
    ∃ links, insertLinks call.candidate.inventoryRevision 0 call.candidate.descriptors db.links = .ok links ∧
      (∀ row ∈ links, ∃ a ∈ calls ++ [call], row.inventoryRevision = a.candidate.inventoryRevision) ∧
      ∀ a ∈ calls ++ [call], links.filter (·.inventoryRevision = a.candidate.inventoryRevision) =
        linkRows a.candidate.inventoryRevision 0 a.candidate.descriptors := by
  have hcall : call ∈ calls ++ [call] := List.mem_append_right _ (List.mem_singleton_self call)
  obtain ⟨-, -, -, -, hvalid⟩ := validate_ok (h.validated call hcall)
  by_cases hknown : ∃ a ∈ calls, a.candidate.inventoryRevision = call.candidate.inventoryRevision
  · obtain ⟨a, ha, hrevision⟩ := hknown
    have hdescriptors := (h.inventory_eq (List.mem_append_left _ ha) hcall hrevision).2
    have hlinks := hdb.links a ha
    rw [hrevision, hdescriptors] at hlinks
    refine ⟨db.links, insertLinks_present fun row hrow => ?_, fun row hrow => ?_, fun b hb => ?_⟩
    · rw [← hlinks] at hrow
      exact (List.mem_filter.mp hrow).1
    · grind [Consistent, DatabaseKeeps, List.mem_append_left]
    · grind [Consistent, DatabaseKeeps, List.mem_singleton]
  · have hnone : ∀ row ∈ db.links, row.inventoryRevision ≠ call.candidate.inventoryRevision := by
      grind [Consistent, DatabaseKeeps]
    refine ⟨_, insertLinks_fresh (Snapshot.validate_nodup hvalid) fun row hrow hrevision => ?_, fun row hrow => ?_,
      fun b hb => ?_⟩
    · exact absurd hrevision (hnone row hrow)
    · rcases List.mem_append.mp hrow with hrow | hrow
      · grind [Consistent, DatabaseKeeps, List.mem_append_left]
      · exact ⟨call, hcall, (mem_linkRows hrow).1⟩
    · rw [List.filter_append]
      rcases List.mem_append.mp hb with hb | hb
      · have hother : (linkRows call.candidate.inventoryRevision 0 call.candidate.descriptors).filter
            (·.inventoryRevision = b.candidate.inventoryRevision) = [] := by
          refine List.filter_eq_nil_iff.mpr fun row hrow hrevision => hknown ⟨b, hb, ?_⟩
          rw [← (mem_linkRows hrow).1]
          exact (of_decide_eq_true hrevision).symm
        rw [hdb.links b hb, hother, List.append_nil]
      · rw [List.mem_singleton.mp hb]
        have hold : db.links.filter (·.inventoryRevision = call.candidate.inventoryRevision) = [] := by
          refine List.filter_eq_nil_iff.mpr fun row hrow hrevision => ?_
          exact hnone row hrow (of_decide_eq_true hrevision)
        have hnew : (linkRows call.candidate.inventoryRevision 0 call.candidate.descriptors).filter
            (·.inventoryRevision = call.candidate.inventoryRevision) =
              linkRows call.candidate.inventoryRevision 0 call.candidate.descriptors := by
          refine List.filter_eq_self.mpr fun row hrow => decide_eq_true (mem_linkRows hrow).1
        rw [hold, hnew, List.nil_append]

theorem insertAudit_ok (hstorable : Storable (calls ++ [call]) timestamptz) (hdb : DatabaseKeeps timestamptz calls db) :
    insertAudit db.audits call.event = .ok (db.audits ++ [call.event]) := by
  have hfits := hstorable.audits call (List.mem_append_right _ (List.mem_singleton_self call))
  have hfresh : (db.audits.any (·.eventID = call.event.eventID)) = false := by
    grind [Storable, DatabaseKeeps, List.any_eq_false, List.nodup_append, List.mem_map_of_mem, List.mem_singleton_self]
  unfold insertAudit
  rw [hfits, hfresh]
  rfl

theorem activateDatabase_keeps (h : Consistent enc (calls ++ [call])) (hstorable : Storable (calls ++ [call]) timestamptz)
    (hdb : DatabaseKeeps timestamptz calls db) :
    ∃ t changed, activateDatabase timestamptz db call = .ok (t, changed) ∧
      DatabaseKeeps timestamptz (calls ++ [call]) t := by
  have hold : ∀ a ∈ calls, a ∈ calls ++ [call] := fun a ha => List.mem_append_left _ ha
  have hcall : call ∈ calls ++ [call] := List.mem_append_right _ (List.mem_singleton_self call)
  have hstored : ∀ d ∈ db.descriptors, ∃ a ∈ calls ++ [call], d ∈ a.candidate.descriptors := by
    grind [Storable, Consistent, DatabaseKeeps]
  have hnew : ∀ d ∈ call.candidate.descriptors, ∃ a ∈ calls ++ [call], d ∈ a.candidate.descriptors :=
    fun d hd => ⟨call, hcall, hd⟩
  obtain ⟨descriptors, hdescriptors, hdmem, hdfind⟩ := insertDescriptors_ok (h.pool hstorable) hstored hnew
  have hagree : ∀ row ∈ db.inventories, row.inventoryRevision = call.candidate.inventoryRevision →
      row = inventoryRow call.candidate := by
    intro row hrow hrevision
    obtain ⟨a, ha, rfl⟩ := hdb.storedInventories row hrow
    exact (h.inventory_eq (hold a ha) hcall hrevision).1
  have hinventories := insertInventory_ok (hstorable.profiles call hcall) hagree
  obtain ⟨links, hlinks, hlmem, hlfilter⟩ := insertLinks_ok h hdb
  have haudit := insertAudit_ok hstorable hdb
  have hactivate : ∃ changed, activateDatabase timestamptz db call = .ok (⟨descriptors,
      insertNew (·.inventoryRevision) (inventoryRow call.candidate) db.inventories, links,
      put (·.executionProfile) (activationRow timestamptz call.candidate) db.activations,
      db.audits ++ [call.event]⟩, changed) := by
    unfold activateDatabase
    simp only [h.call_validate hcall, hdescriptors, hinventories, hlinks, haudit, bind, Except.bind, pure, Except.pure]
    exact ⟨_, rfl⟩
  obtain ⟨changed, hactivate⟩ := hactivate
  refine ⟨_, changed, hactivate, ?_, ?_, ?_, ?_, hlmem, hlfilter, fun profile => ?_, ?_⟩
  · grind
  · grind [Storable, Consistent, DatabaseKeeps, List.mem_singleton]
  · intro row hrow
    rcases mem_insertNew hrow with hrow | rfl
    · grind [Storable, Consistent, DatabaseKeeps]
    · exact ⟨call, hcall, rfl⟩
  · intro a ha
    rw [find_insertNew hagree]
    split_ifs with hrevision
    · rw [(h.inventory_eq hcall ha hrevision).1]
    · rcases List.mem_append.mp ha with ha | ha
      · exact hdb.inventories a ha
      · rw [List.mem_singleton.mp ha] at hrevision
        exact absurd rfl hrevision
  · rw [find_put, hdb.activations, List.map_append, List.map_cons, List.map_nil, latest_snoc]
    by_cases hprofile : call.candidate.executionProfile = profile <;> simp [hprofile, activationRow]
  · rw [hdb.audits, List.map_append, List.map_cons, List.map_nil]

theorem database_keeps : Keeps (database timestamptz)
    (fun calls => Consistent enc calls ∧ Storable calls timestamptz) (DatabaseKeeps timestamptz) where
  start := by
    refine ⟨?_, ?_, ?_, ?_, ?_, ?_, fun _ => rfl, rfl⟩ <;> exact fun _ hmem => absurd hmem List.not_mem_nil
  current := fun _ _ profile h hdb => currentDatabase_eq h.1 h.2 hdb profile
  step := fun _ _ _ h hdb => activateDatabase_keeps h.1 h.2 hdb

end

/-- In every sequence of validated inventories in which an inventory revision is always that of the same payload, both
repositories activate each of them; the database as far as its columns take them. -/
theorem activations_succeed (enc : Encoding) (timestamptz : Time → Time) (calls : List Call)
    (hvalidated : Validated enc calls) (hartifacts : OneRevision calls) (hsha : CollisionFree enc calls)
    (haudited : Audited calls) (hpayload : OnePayload calls) :
    Activates memory calls ∧ (Storable calls timestamptz → Activates (database timestamptz) calls) := by
  have h : Consistent enc calls := ⟨hvalidated, hartifacts, hsha, hpayload, haudited⟩
  constructor
  · exact memory_keeps.activates (fun _ _ h => h.of_append) h
  · intro hstorable
    exact database_keeps.activates (fun _ _ h => ⟨h.1.of_append, h.2.of_append⟩) ⟨h, hstorable⟩

def padded (b : Bytes) : String :=
  String.ofList (b.map (fun x => Char.ofNat x.toNat) ++ List.replicate (64 - b.length) '0')

def revisionOf (b : Bytes) : String := "sha256:" ++ padded b

def sampleDescriptor (version revision : String) : ConnectorDescriptor where
  descriptorSchemaVersion := 1
  name := "files"
  artifactVersion := version
  displayName := "Files"
  descriptionKey := "connector.files.description"
  descriptorRevision := revision
  connectionSchemaRevision := revisionOf [99]
  roles := [1]
  capabilities := [1]
  executionModes := [1]
  deliveryConstraints := [1]
  options := []
  optionPrefixes := []
  connectionRequirements := [⟨1, 1, []⟩, ⟨2, 1, []⟩]
  acceptedConnectionSchemaRevisions := [revisionOf [99]]
  unknown := []

def firstDescriptor : ConnectorDescriptor := sampleDescriptor "1" (revisionOf [97])
def secondDescriptor : ConnectorDescriptor := sampleDescriptor "2" (revisionOf [98])

def sampleInventory (d : ConnectorDescriptor) (revision build compiler : Bytes) : ConnectorInventory where
  inventorySchemaVersion := 1
  inventoryRevision := revisionOf revision
  compilerRevision := revisionOf compiler
  jobSpecSchemaRevision := "v1"
  compilerBuild := padded build
  executionProfile := "production"
  descriptors := [d]
  unknown := []

def builtInventory : ConnectorInventory := sampleInventory firstDescriptor [100] [49] [49]
def rebuiltInventory : ConnectorInventory := sampleInventory firstDescriptor [100] [50] [50]
def nextInventory : ConnectorInventory := sampleInventory secondDescriptor [101] [50] [50]

def sampleEncoding : Encoding where
  unmarshal
    | [1] => some builtInventory
    | [2] => some rebuiltInventory
    | [3] => some nextInventory
    | _ => none
  marshalInventory i := if i = builtInventory then [1] else if i = rebuiltInventory then [2] else [3]
  marshalDescriptor d := if d.artifactVersion = "1" then [97] else [98]
  marshalConnectionSchema _ := [99]
  marshalInventoryIdentity entries := if entries.any (·.artifactVersion = "1") then [100] else [101]
  marshalCompilerIdentity identity := if identity.compilerBuild = padded [49] then [49] else [50]
  sha256 := padded

def sampleCall (eventID : String) (payload : Bytes) (i : ConnectorInventory) : Call where
  candidate := inventorySnapshot sampleEncoding i payload 5
  event := ⟨eventID, "publisher", "request", "", i.inventoryRevision, 1, "CHANGED", 5⟩

def sampleCalls : List Call :=
  [sampleCall "a" [1] builtInventory, sampleCall "b" [3] nextInventory, sampleCall "c" [1] builtInventory]

def rebuiltCalls : List Call := [sampleCall "a" [1] builtInventory, sampleCall "b" [2] rebuiltInventory]

theorem sampleEncoding_descriptors {payload : Bytes} {i : ConnectorInventory}
    (h : sampleEncoding.unmarshal payload = some i) :
    i.descriptors = [firstDescriptor] ∨ i.descriptors = [secondDescriptor] := by
  dsimp only [sampleEncoding] at h
  split at h <;> cases h
  · exact .inl rfl
  · exact .inl rfl
  · exact .inr rfl

theorem sampleEncoding_collisionFree (calls : List Call) : CollisionFree sampleEncoding calls := by
  have hapart : descriptorDigest sampleEncoding firstDescriptor ≠ descriptorDigest sampleEncoding secondDescriptor := by
    decide +kernel
  intro a _ b _ i j hi hj d hd e he hdigest
  rcases sampleEncoding_descriptors hi with h | h <;> rw [h] at hd <;>
    rcases sampleEncoding_descriptors hj with h' | h' <;> rw [h'] at he <;>
    rw [List.mem_singleton] at hd he <;> subst hd he
  · rfl
  · exact absurd hdigest hapart
  · exact absurd hdigest.symm hapart
  · rfl

theorem builtInventory_valid :
    validate sampleEncoding [1] 5 = .ok (inventorySnapshot sampleEncoding builtInventory [1] 5) := by
  decide +kernel

theorem activations_succeed_repeated : Activates memory sampleCalls ∧ Activates (database id) sampleCalls := by
  have hnext : validate sampleEncoding [3] 5 = .ok (inventorySnapshot sampleEncoding nextInventory [3] 5) := by
    decide +kernel
  have hvalidated : Validated sampleEncoding sampleCalls := by
    intro call hcall
    simp only [sampleCalls, List.mem_cons, List.not_mem_nil, or_false] at hcall
    rcases hcall with rfl | rfl | rfl
    · exact builtInventory_valid
    · exact hnext
    · exact builtInventory_valid
  have hartifacts : OneRevision sampleCalls := by
    unfold OneRevision
    decide +kernel
  have haudited : Audited sampleCalls := by
    unfold Audited
    decide +kernel
  have hpayload : OnePayload sampleCalls := by
    unfold OnePayload
    decide +kernel
  have hstorable : Storable sampleCalls id := by
    constructor <;> decide +kernel
  obtain ⟨hmemory, hdatabase⟩ := activations_succeed sampleEncoding id sampleCalls hvalidated hartifacts
    (sampleEncoding_collisionFree sampleCalls) haudited hpayload
  exact ⟨hmemory, hdatabase hstorable⟩

/-- Identical descriptors cannot be published by another build of the compiler. -/
theorem rebuilt_inventory_refused :
    Validated sampleEncoding rebuiltCalls ∧ OneRevision rebuiltCalls ∧ CollisionFree sampleEncoding rebuiltCalls ∧
      Audited rebuiltCalls ∧ Storable rebuiltCalls id ∧
      memory.activateAll rebuiltCalls = .error .revisionCollision ∧
      (database id).activateAll rebuiltCalls = .error .revisionCollision := by
  have hrebuilt : validate sampleEncoding [2] 5 = .ok (inventorySnapshot sampleEncoding rebuiltInventory [2] 5) := by
    decide +kernel
  refine ⟨?_, ?_, sampleEncoding_collisionFree rebuiltCalls, ?_, ⟨?_, ?_, ?_, ?_, ?_⟩, ?_, ?_⟩
  · intro call hcall
    simp only [rebuiltCalls, List.mem_cons, List.not_mem_nil, or_false] at hcall
    rcases hcall with rfl | rfl
    · exact builtInventory_valid
    · exact hrebuilt
  · unfold OneRevision
    decide +kernel
  · unfold Audited
    decide +kernel
  all_goals decide +kernel

end AstraSync.CatalogActivation
