import AstraSync.DispatchDatabase
import AstraSync.Library.Transitions

namespace AstraSync.OrphanSweep

open ByteStrings JobLifecycle DispatchStore ExecutionResources DispatchDatabase

variable {S : Type}

structure Settings (S : Type) extends Context S where
  materializes : Bool

/-- A sweep in progress: its view of the rows, the kinds still to list, the deletions decided, and the
credential Secrets to clean up with the resources that have to be gone first. -/
structure Sweep where
  (active known : List Identity)
  todo : List Kind
  queue : List (Kind × Bytes)
  checks : List (Identity × List Part)
  cleaning : Option Identity
  deriving DecidableEq

structure World (S : Type) where
  db : Database S
  resources : List Resource
  sweeps : List Sweep
  wrongful : List Resource

def initial : World S := ⟨empty, [], [], []⟩

def begin (rows : Table) : Sweep where
  active := (rows.filter (·.phase.active)).map (·.identity)
  known := rows.map (·.identity)
  todo := [.secret, .service, .statefulSet, .job]
  queue := []
  checks := []
  cleaning := none

def selected (kind : Kind) (r : Resource) : Bool :=
  r.kind = kind && r.labels.managedBy = scheduler &&
    (if kind = .job then r.labels.component = Part.coordinator.component
      else r.labels.component ≠ Part.coordinator.component)

def keepers (s : Sweep) (kind : Kind) : List Identity := if kind = .job then s.known else s.active

def orphans (c : Settings S) (resources : List Resource) (s : Sweep) (kind : Kind) : List (Resource × Identity) :=
  (resources.filter (selected kind)).filterMap fun r =>
    (orphanResource c.parseUUID r.labels (keepers s kind)).map fun i => (r, i)

def isCredential (c : Settings S) (r : Resource) : Bool :=
  r.kind = .secret && r.labels.component = Part.credentials.component && c.materializes

def listed (c : Settings S) (resources : List Resource) (s : Sweep) (kind : Kind) (rest : List Kind) : Sweep :=
  let found := orphans c resources s kind
  { s with
    todo := rest
    queue := (found.filter fun o => !isCredential c o.1).map fun o => (kind, o.1.name)
    checks := s.checks ++
      (found.filter fun o => isCredential c o.1).map fun o => (o.2, [.worker, .workerService, .jobSpec]) }

def present (resources : List Resource) (kind : Kind) (name : Bytes) : Bool :=
  resources.any fun r => r.kind = kind && r.name = name

def nextCall (c : Settings S) (resources : List Resource) (s : Sweep) (ok : Bool) : Sweep × Option (Kind × Bytes) :=
  match s.queue, s.todo, s.cleaning, s.checks with
  | (kind, name) :: rest, _, _, _ => ({ s with queue := rest }, if ok then some (kind, name) else none)
  | [], kind :: rest, _, _ => (if ok then listed c resources s kind rest else { s with todo := rest }, none)
  | [], [], some i, _ => ({ s with cleaning := none }, if ok then some (.secret, partName i .credentials) else none)
  | [], [], none, (i, part :: parts) :: rest =>
    if ok && !present resources part.kind (partName i part) then ({ s with checks := (i, parts) :: rest }, none)
    else ({ s with checks := rest }, none)
  | [], [], none, (i, []) :: rest =>
    if ok && resources.any (fun r => r.kind = .secret && r.name = partName i .credentials &&
        r.labels = labels i Part.credentials.component) then
      ({ s with checks := rest, cleaning := some i }, none)
    else ({ s with checks := rest }, none)
  | [], [], none, [] => (s, none)

def named (target : Kind × Bytes) (r : Resource) : Bool := r.kind = target.1 && r.name = target.2

def inUse (rows : Table) (r : Resource) : Bool :=
  match identityOf r.labels with
  | some i => activeRow rows i
  | none => false

def delete (w : World S) : Option (Kind × Bytes) → World S
  | none => w
  | some target =>
    { w with
      resources := w.resources.filter (fun r => !named target r)
      wrongful := w.wrongful ++ (w.resources.filter (named target)).filter (inUse w.db.rows) }

inductive Event (S : Type)
  | transaction (t : Transaction S)
  | create (i : Identity) (part : Part)
  | remove (kind : Kind) (name : Bytes)
  | begin
  | sweep (n : ℕ) (ok : Bool)

def step (c : Settings S) (w : World S) : Event S → Option (World S)
  | .transaction t => (transact c.toContext w.db t).map fun db => { w with db }
  | .create i part =>
    if i ∈ w.db.claimed then
      if present w.resources part.kind (partName i part) then some w
      else some { w with resources := w.resources ++ [resourceOf i part] }
    else none
  | .remove kind name => some { w with resources := w.resources.filter fun r => !named (kind, name) r }
  | .begin => some { w with sweeps := w.sweeps ++ [begin w.db.rows] }
  | .sweep n ok =>
    match w.sweeps[n]? with
    | none => none
    | some s =>
      let call := nextCall c w.resources s ok
      some (delete { w with sweeps := w.sweeps.set n call.1 } call.2)

/-- No resource is created for an active execution while a sweep that began before the execution was
claimed has still to list that kind of resource; and no job is created under a UID used before. -/
def unraced (w : World S) : Event S → Bool
  | .transaction t => unused w.db t
  | .create i part =>
    w.sweeps.all fun s => !s.todo.contains part.kind || s.known.contains i || !activeRow w.db.rows i
  | _ => true

def Safe (w : World S) : Prop := w.wrongful = []

structure SweepInv (db : Database S) (resources : List Resource) (s : Sweep) : Prop where
  seen : ∀ i ∈ s.known, i ∉ s.active → Dead db i
  unlisted : ∀ r ∈ resources, r.kind ∈ s.todo → ∀ i, identityOf r.labels = some i → i ∈ s.known ∨ Dead db i
  queued : ∀ target ∈ s.queue, ∃ i part, Dead db i ∧ target.2 = partName i part
  checked : ∀ check ∈ s.checks, Dead db check.1
  cleaned : ∀ i, s.cleaning = some i → Dead db i

structure Inv (w : World S) : Prop where
  database : DispatchDatabase.Inv w.db
  made : ∀ r ∈ w.resources, ∃ i ∈ w.db.claimed, ∃ part, r = resourceOf i part
  sweeps : ∀ s ∈ w.sweeps, SweepInv w.db w.resources s
  safe : Safe w

variable {s : Sweep} {w : World S} {c : Settings S}

theorem SweepInv.mono {db next : Database S} {resources fewer : List Resource}
    (h : SweepInv db resources s) (hdead : ∀ i, Dead db i → Dead next i) (hsub : fewer ⊆ resources) :
    SweepInv next fewer s where
  seen i hi ha := hdead i (h.seen i hi ha)
  unlisted r hr hk i hi := (h.unlisted r (hsub hr) hk i hi).imp_right (hdead i)
  queued target ht :=
    let ⟨i, part, hd, hn⟩ := h.queued target ht
    ⟨i, part, hdead i hd, hn⟩
  checked check hc := hdead _ (h.checked check hc)
  cleaned i hi := hdead i (h.cleaned i hi)

section

variable (h : Inv w)

include h

theorem identityOf_resourceOf {r : Resource} (hr : r ∈ w.resources) :
    ∃ i ∈ w.db.claimed, ∃ part, r = resourceOf i part ∧ identityOf r.labels = some i := by
  obtain ⟨i, hi, part, rfl⟩ := h.made r hr
  exact ⟨i, hi, part, rfl, identityOf_labels (h.database.wellFormed i hi).1.epoch _⟩

theorem not_inUse_of_dead {i : Identity} {part : Part} (hd : Dead w.db i) {r : Resource}
    (hr : r ∈ w.resources) (hname : r.name = partName i part) : inUse w.db.rows r = false := by
  obtain ⟨j, hj, q, rfl, hid⟩ := identityOf_resourceOf h hr
  have hji : j = i := partName_inj (h.database.wellFormed j hj).1 (h.database.wellFormed i hd.1).1 hname
  rw [inUse, hid, hji]
  exact hd.2

theorem transaction_inv {t : Transaction S} {db : Database S} (hunused : unused w.db t = true)
    (ht : transact c.toContext w.db t = some db) : Inv { w with db } := by
  obtain ⟨hdb, hclaimed, hdead⟩ := transact_inv h.database hunused ht
  refine ⟨hdb, fun r hr => ?_, fun s hs => ?_, h.safe⟩
  · grind [Inv]
  · exact (h.sweeps s hs).mono hdead (List.Subset.refl _)

theorem create_inv {i : Identity} {part : Part} (hi : i ∈ w.db.claimed)
    (hok : unraced w (.create i part) = true) : Inv { w with resources := w.resources ++ [resourceOf i part] } := by
  refine ⟨h.database, fun r hr => ?_, fun s hs => ?_, h.safe⟩
  · grind [Inv, List.mem_singleton]
  · have hinv := h.sweeps s hs
    refine ⟨hinv.seen, fun r hr hk j hj => ?_, hinv.queued, hinv.checked, hinv.cleaned⟩
    rcases List.mem_append.mp hr with hr | hr
    · exact hinv.unlisted r hr hk j hj
    · rw [List.mem_singleton.mp hr] at hk hj
      have hij : i = j := by
        have hlabels := identityOf_labels (h.database.wellFormed i hi).1.epoch part.component
        exact Option.some.inj (hlabels.symm.trans hj)
      subst hij
      simp only [unraced, List.all_eq_true, Bool.or_eq_true, Bool.not_eq_true', List.contains_iff_mem] at hok
      rcases hok s hs with (hlisted | hknown) | hinactive
      · exact absurd hk (show part.kind ∉ s.todo by simpa using hlisted)
      · exact .inl hknown
      · exact .inr ⟨hi, hinactive⟩

theorem remove_inv (keep : Resource → Bool) : Inv { w with resources := w.resources.filter keep } where
  database := h.database
  made r hr := h.made r (List.mem_of_mem_filter hr)
  sweeps s hs := (h.sweeps s hs).mono (fun _ hd => hd) (List.filter_subset_self _)
  safe := h.safe

theorem begin_inv : Inv { w with sweeps := w.sweeps ++ [begin w.db.rows] } := by
  refine ⟨h.database, h.made, fun s hs => ?_, h.safe⟩
  rcases List.mem_append.mp hs with hs | hs
  · exact h.sweeps s hs
  · rw [List.mem_singleton.mp hs]
    refine ⟨fun i hi ha => ?_, fun r hr _ i hi => ?_, fun _ hq => ?_, fun _ hc => ?_, fun _ hc => ?_⟩
    · obtain ⟨row, hrow, rfl⟩ := List.mem_map.mp hi
      refine ⟨h.database.rows_claimed row hrow, activeRow_eq_false.mpr fun q hq hid => ?_⟩
      by_contra hactive
      exact ha (List.mem_map.mpr ⟨q, List.mem_filter.mpr ⟨hq, by simpa using hactive⟩, hid⟩)
    · obtain ⟨j, hj, -, -, hid⟩ := identityOf_resourceOf h hr
      cases hid.symm.trans hi
      by_cases hrow : i ∈ w.db.rows.map (·.identity)
      · exact .inl hrow
      · refine .inr ⟨hj, activeRow_eq_false.mpr fun q hq hid => ?_⟩
        exact absurd (List.mem_map.mpr ⟨q, hq, hid⟩) hrow
    · cases hq
    · cases hc
    · cases hc

section

variable (hs : SweepInv w.db w.resources s)

include hs

theorem orphans_dead
    {kind : Kind} (hkind : kind ∈ s.todo) {o : Resource × Identity} (ho : o ∈ orphans c w.resources s kind) :
    Dead w.db o.2 ∧ ∃ part, o.1.name = partName o.2 part := by
  obtain ⟨r, hr, ho⟩ := List.mem_filterMap.mp ho
  obtain ⟨i, hi, rfl⟩ := Option.map_eq_some_iff.mp ho
  obtain ⟨hr, hsel⟩ := List.mem_filter.mp hr
  obtain ⟨hid, hkeep⟩ := orphanResource_some hi
  obtain ⟨j, -, part, rfl, hj⟩ := identityOf_resourceOf h hr
  cases hj.symm.trans hid
  simp only [selected, Bool.and_eq_true, decide_eq_true_eq] at hsel
  have hseen := hs.unlisted _ hr (hsel.1.1 ▸ hkind) i hid
  refine ⟨?_, part, rfl⟩
  rcases hseen with hknown | hdead
  · by_cases hjob : kind = .job
    · rw [keepers, if_pos hjob] at hkeep
      exact absurd hknown hkeep
    · rw [keepers, if_neg hjob] at hkeep
      exact hs.seen i hknown hkeep
  · exact hdead

theorem listed_inv {kind : Kind} {rest : List Kind} (htodo : s.todo = kind :: rest) :
    SweepInv w.db w.resources (listed c w.resources s kind rest) := by
  have hkind : kind ∈ s.todo := by rw [htodo]; exact List.mem_cons_self
  refine ⟨hs.seen, fun r hr hk => ?_, fun target ht => ?_, fun check hc => ?_, hs.cleaned⟩
  · exact hs.unlisted r hr (by rw [htodo]; exact List.mem_cons_of_mem _ hk)
  · obtain ⟨o, ho, rfl⟩ := List.mem_map.mp ht
    obtain ⟨hdead, part, hname⟩ := orphans_dead h hs hkind (List.mem_of_mem_filter ho)
    exact ⟨o.2, part, hdead, hname⟩
  · rcases List.mem_append.mp hc with hc | hc
    · exact hs.checked check hc
    · obtain ⟨o, ho, rfl⟩ := List.mem_map.mp hc
      exact (orphans_dead h hs hkind (List.mem_of_mem_filter ho)).1

theorem nextCall_inv (ok : Bool) : SweepInv w.db w.resources (nextCall c w.resources s ok).1 ∧
      ∀ target, (nextCall c w.resources s ok).2 = some target → ∃ i part, Dead w.db i ∧ target.2 = partName i part := by
  obtain ⟨active, known, todo, queue, checks, cleaning⟩ := s
  cases queue with
  | cons target rest =>
    refine ⟨{ hs with queued := fun t ht => hs.queued t (List.mem_cons_of_mem _ ht) }, fun t ht => ?_⟩
    simp only [nextCall] at ht
    split_ifs at ht
    cases ht
    exact hs.queued target List.mem_cons_self
  | nil =>
    cases todo with
    | cons =>
      simp only [nextCall]
      refine ⟨?_, by simp⟩
      split_ifs
      · exact listed_inv h hs rfl
      · exact { hs with unlisted := fun r hr hk => hs.unlisted r hr (List.mem_cons_of_mem _ hk) }
    | nil =>
      cases cleaning with
      | some i =>
        refine ⟨{ hs with cleaned := fun _ hj => by cases hj }, fun t ht => ?_⟩
        simp only [nextCall] at ht
        split_ifs at ht
        cases ht
        exact ⟨i, .credentials, hs.cleaned i rfl, rfl⟩
      | none =>
        cases checks with
        | nil => exact ⟨hs, by simp [nextCall]⟩
        | cons check rest =>
          have hrest : ∀ other ∈ rest, Dead w.db other.1 :=
            fun other ho => hs.checked other (List.mem_cons_of_mem _ ho)
          obtain ⟨i, _ | ⟨part, parts⟩⟩ := check
          · have hdead : Dead w.db i := hs.checked (i, []) List.mem_cons_self
            simp only [nextCall]
            split_ifs
            · exact ⟨{ hs with checked := hrest, cleaned := fun j hj => Option.some.inj hj ▸ hdead }, by simp⟩
            · exact ⟨{ hs with checked := hrest }, by simp⟩
          · have hdead : Dead w.db i := hs.checked (i, part :: parts) List.mem_cons_self
            simp only [nextCall]
            split_ifs
            · exact ⟨{ hs with checked := List.forall_mem_cons.mpr ⟨hdead, hrest⟩ }, by simp⟩
            · exact ⟨{ hs with checked := hrest }, by simp⟩

end

theorem delete_inv {target : Option (Kind × Bytes)}
    (ht : ∀ t, target = some t → ∃ i part, Dead w.db i ∧ t.2 = partName i part) : Inv (delete w target) := by
  cases target with
  | none => exact h
  | some t =>
    obtain ⟨i, part, hdead, hname⟩ := ht t rfl
    have hnone : (w.resources.filter (named t)).filter (inUse w.db.rows) = [] := by
      rw [List.filter_eq_nil_iff]
      intro r hr
      obtain ⟨hr, hnamed⟩ := List.mem_filter.mp hr
      simp only [named, Bool.and_eq_true, decide_eq_true_eq] at hnamed
      rw [not_inUse_of_dead h hdead hr (hnamed.2.trans hname)]
      simp
    have hremoved := remove_inv h (fun r => !named t r)
    refine ⟨hremoved.database, hremoved.made, hremoved.sweeps, ?_⟩
    change w.wrongful ++ _ = []
    rw [hnone, h.safe, List.append_nil]

theorem sweep_inv {n : ℕ} (hs : w.sweeps[n]? = some s)
    (ok : Bool) : Inv (delete { w with sweeps := w.sweeps.set n (nextCall c w.resources s ok).1 }
      (nextCall c w.resources s ok).2) := by
  obtain ⟨hnext, htarget⟩ := nextCall_inv (c := c) h (h.sweeps s (List.mem_of_getElem? hs)) ok
  have hset : Inv { w with sweeps := w.sweeps.set n (nextCall c w.resources s ok).1 } := by
    refine ⟨h.database, h.made, fun t ht => ?_, h.safe⟩
    rcases List.mem_or_eq_of_mem_set ht with ht | rfl
    · exact h.sweeps t ht
    · exact hnext
  exact delete_inv hset htarget

theorem step_inv {t : World S} {e : Event S} (hok : unraced w e = true) (hs : step c w e = some t) : Inv t := by
  cases e with
  | transaction =>
    obtain ⟨db, hdb, rfl⟩ := Option.map_eq_some_iff.mp hs
    exact transaction_inv h hok hdb
  | create =>
    simp only [step] at hs
    split_ifs at hs with hclaimed hpresent
    · cases hs; exact h
    · cases hs; exact create_inv h hclaimed hok
  | remove => cases hs; exact remove_inv h _
  | begin => cases hs; exact begin_inv h
  | sweep n ok =>
    simp only [step] at hs
    cases hn : w.sweeps[n]? with
    | none => rw [hn] at hs; cases hs
    | some => rw [hn] at hs; cases hs; exact sweep_inv h hn ok

end

theorem initial_inv : Inv (initial : World S) := by
  refine ⟨empty_inv, ?_, ?_, rfl⟩
  · intro r hr; cases hr
  · intro s hs; cases hs

/-- In every run whose creations are unraced, no sweep deletes a resource of an active execution. -/
theorem run_safe (c : Settings S) (events : List (Event S)) (w : World S)
    (hok : Transitions.meets (step c) unraced initial events = true)
    (hrun : Transitions.run (step c) initial events = some w) : Safe w := by
  have hinit : Inv (initial : World S) := initial_inv
  exact (Transitions.run_invariant (fun _ _ _ h hok hs => step_inv h hok hs) hinit hok hrun).safe

def settings : Settings Unit := ⟨⟨canonicalUUID, fun _ => none⟩, true⟩

def ordersUID : Bytes := lit "6f9619ff-8b86-d011-b42d-00c04fc964ff"

def ordersIdentity : Identity := ⟨ordersUID, 1⟩

def ordersStarted : List (Event Unit) :=
  [.transaction (.createJob ⟨lit "default", lit "orders"⟩ ordersUID () 0),
    .transaction (.request ordersUID .start 1),
    .transaction (.claim (lit "replica-b") 4 60 30 2 fun _ => ordersUID),
    .transaction (.update ordersIdentity (lit "replica-b") .starting "" 60 3),
    .create ordersIdentity .jobSpec]

def ordersSwept : List (Event Unit) := [.sweep 0 true, .sweep 0 true]

/-- A sweep that listed the rows before the claim finds the new Secret and deletes it. -/
theorem stale_snapshot_deletes_secret :
    (Transitions.run (step settings) initial (.begin :: ordersStarted ++ ordersSwept)).map
      (fun w => (w.wrongful, activeRow w.db.rows ordersIdentity)) =
        some ([resourceOf ordersIdentity .jobSpec], true) := by
  decide +kernel

/-- Once the execution is canceled, a sweep removes the Secret. -/
theorem canceled_swept_safe : ∃ w, Transitions.run (step settings) initial
    (ordersStarted ++ [.transaction (.complete ordersIdentity (lit "replica-b") .canceled "" 4), .begin] ++
      ordersSwept) = some w ∧ w.resources = [] ∧ Safe w := by
  have hrun : (Transitions.run (step settings) initial
      (ordersStarted ++ [.transaction (.complete ordersIdentity (lit "replica-b") .canceled "" 4), .begin] ++
        ordersSwept)).map (·.resources) = some [] := by decide +kernel
  obtain ⟨w, hw, hout⟩ := Option.map_eq_some_iff.mp hrun
  exact ⟨w, hw, hout, run_safe settings _ w (by decide +kernel) hw⟩

end AstraSync.OrphanSweep
