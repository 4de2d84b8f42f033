import AstraSync.Library.ByteStrings
import AstraSync.Library.KeyedTable
import AstraSync.Library.Results

namespace AstraSync.CdcSink

open ByteStrings KeyedTable Replay Results

inductive Operation
  | insert
  | update
  | delete
  | snapshot
  | truncate
  | schemaChange
  deriving DecidableEq

structure Image (C V : Type) where
  values : List (C × Option V)
  nodup : (values.map Prod.fst).Nodup

structure DataEvent (C V : Type) where
  (eventId positionId : Bytes)
  operation : Operation
  key : C → Option V
  (before after : Option (Image C V))

structure SinkOptions (C : Type) where
  keyColumns : List C
  allowTruncate : Bool
  keyColumns_ne : keyColumns ≠ []
  keyColumns_nodup : keyColumns.Nodup

structure Target (C V : Type) extends SinkOptions C where
  supported : V → Bool
  columnDefault : C → Option V

inductive SinkError (C : Type)
  | noAfterImage
  | missingKey (column : C)
  | unsupported (column : C)
  | truncateDisabled
  deriving DecidableEq

abbrev Row (C V : Type) := C → Option V

abbrev Table (C V : Type) := Multiset (Row C V)

variable {C V : Type} [DecidableEq C] [DecidableEq V]

def Image.get (image : Image C V) (column : C) : Option V := (image.values.lookup column).join

variable (t : Target C V)

def keyValue (image : Option (Image C V)) (key : C → Option V) (column : C) : Except (SinkError C) V :=
  match (key column).or (image.bind (·.get column)) with
  | none => .error (.missingKey column)
  | some v => if t.supported v then .ok v else .error (.unsupported column)

def keyValues (image : Option (Image C V)) (key : C → Option V) : Except (SinkError C) (List V) :=
  t.keyColumns.mapM (keyValue t image key)

def unbindable (p : C × Option V) : Bool := p.2.any fun v => !t.supported v

def bindColumns (columns : List (C × Option V)) : Except (SinkError C) Unit :=
  match columns.find? (unbindable t) with
  | some p => .error (.unsupported p.1)
  | none => .ok ()

def rowKey (r : Row C V) : List (Option V) := t.keyColumns.map r

def assign (columns : List (C × Option V)) (r : Row C V) : Row C V :=
  fun c => (columns.lookup c).getD (r c)

def mutableColumns (image : Image C V) : List (C × Option V) :=
  image.values.filter fun p => p.1 ∉ t.keyColumns

def inserted (image : Image C V) : Row C V := assign image.values t.columnDefault

def updated (image : Image C V) : Row C V → Row C V := assign (mutableColumns t image)

def upsert (after : Option (Image C V)) (key : C → Option V) (table : Table C V) : Except (SinkError C) (Table C V) :=
  match after with
  | none => .error .noAfterImage
  | some image =>
    if image.values = [] then .error .noAfterImage
    else do
      let values ← keyValues t (some image) key
      if (slice (rowKey t) (values.map some) table).card = 0 then
        bindColumns t image.values
        return inserted t image ::ₘ table
      else if mutableColumns t image = [] then return table
      else
        bindColumns t (mutableColumns t image)
        return table.map fun r => if rowKey t r = values.map some then updated t image r else r

def delete (before : Option (Image C V)) (key : C → Option V) (table : Table C V) :
    Except (SinkError C) (Table C V) := do
  let values ← keyValues t before key
  return table.filter (rowKey t · ≠ values.map some)

def applyEvent (e : DataEvent C V) (table : Table C V) : Except (SinkError C) (Table C V) :=
  match e.operation with
  | .insert | .snapshot | .update => upsert t e.after e.key table
  | .delete => delete t e.before e.key table
  | .truncate => if t.allowTruncate then .ok 0 else .error .truncateDisabled
  | .schemaChange => .ok table

def applyEvents (events : List (DataEvent C V)) (table : Table C V) : Except (SinkError C) (Table C V) :=
  events.foldlM (fun table e => applyEvent t e table) table

def Keyed (e : DataEvent C V) : Prop :=
  ∀ image, e.after = some image → ∀ c ∈ t.keyColumns, ∀ v, e.key c = some v → image.get c = some v

section

omit [DecidableEq V] in
theorem lookup_mutable (image : Image C V) (c : C) :
    (mutableColumns t image).lookup c = if c ∈ t.keyColumns then none else image.values.lookup c := by
  unfold mutableColumns
  induction image.values with
  | nil => simp
  | cons p columns ih =>
    obtain ⟨c', v⟩ := p
    by_cases hkey : c' ∈ t.keyColumns
    · grind
    · grind

omit [DecidableEq V] in
theorem updated_of_key {image : Image C V} {r : Row C V} {c : C} (hc : c ∈ t.keyColumns) :
    updated t image r c = r c := by
  simp [updated, assign, lookup_mutable, hc]

omit [DecidableEq V] in
theorem updated_of_not_key {image : Image C V} {r : Row C V} {c : C} (hc : c ∉ t.keyColumns) :
    updated t image r c = assign image.values r c := by
  simp [updated, assign, lookup_mutable, hc]

omit [DecidableEq V] in
theorem rowKey_updated (image : Image C V) (r : Row C V) : rowKey t (updated t image r) = rowKey t r :=
  List.map_congr_left fun _ hc => updated_of_key t hc

omit [DecidableEq V] in
theorem assign_assign (columns : List (C × Option V)) (r : Row C V) :
    assign columns (assign columns r) = assign columns r := by
  funext c
  cases h : columns.lookup c <;> simp [assign, h]

omit [DecidableEq V] in
theorem assign_behind (columns others : List (C × Option V)) (r : Row C V) :
    assign columns (assign others (assign columns r)) = assign columns (assign others r) := by
  funext c
  cases h : columns.lookup c <;> simp [assign, h]

omit [DecidableEq V] in
theorem updated_inserted (image : Image C V) : updated t image (inserted t image) = inserted t image := by
  funext c
  by_cases hc : c ∈ t.keyColumns
  · exact updated_of_key t hc
  · rw [updated_of_not_key t hc]
    exact congrFun (assign_assign image.values t.columnDefault) c

omit [DecidableEq V] in
theorem updated_cross {p q : Image C V} (h : rowKey t (inserted t p) = rowKey t (inserted t q)) :
    updated t p (updated t q (inserted t p)) = updated t p (inserted t q) := by
  funext c
  by_cases hc : c ∈ t.keyColumns
  · simp only [updated_of_key t hc]
    exact List.map_inj_left.mp h c hc
  · have hbehind := congrFun (assign_behind p.values q.values t.columnDefault) c
    rw [updated_of_not_key t hc, updated_of_not_key t hc, inserted]
    simp only [assign] at hbehind ⊢
    rwa [updated_of_not_key t hc]

omit [DecidableEq V] in
theorem patching : Patching (rowKey t) (updated t) (inserted t) fun k image => rowKey t (inserted t image) = k where
  merge_key := rowKey_updated t
  fresh_key _ _ hfits := hfits
  merge_idle p r := assign_assign (mutableColumns t p) r
  merge_hides p q r := assign_behind (mutableColumns t p) (mutableColumns t q) r
  merge_fresh := updated_inserted t
  merge_cross _ _ _ hp hq := updated_cross t (hp.trans hq.symm)

end

def upsertChange (after : Option (Image C V)) (key : C → Option V) :
    Except (SinkError C) (Change (List (Option V)) (Image C V)) :=
  match after with
  | none => .error .noAfterImage
  | some image =>
    if image.values = [] then .error .noAfterImage
    else do
      let values ← keyValues t (some image) key
      bindColumns t image.values
      return .put (values.map some) image

def changeOf (e : DataEvent C V) : Except (SinkError C) (Change (List (Option V)) (Image C V)) :=
  match e.operation with
  | .insert | .snapshot | .update => upsertChange t e.after e.key
  | .delete => do
    let values ← keyValues t e.before e.key
    return .remove (values.map some)
  | .truncate => if t.allowTruncate then .ok .clear else .error .truncateDisabled
  | .schemaChange => .ok .keep

def applyChange : Change (List (Option V)) (Image C V) → Table C V → Table C V :=
  apply (rowKey t) (updated t) (inserted t)

def FitsKey : Change (List (Option V)) (Image C V) → Prop :=
  Fits fun k image => rowKey t (inserted t image) = k

theorem applyChange_overwrites : Overwrites (FitsKey t) (applyChange t) := apply_overwrites (patching t)

section

variable {t} {image : Image C V} {key : C → Option V} {values : List V}

omit [DecidableEq V] in
theorem keyValue_ok {image : Option (Image C V)} {c : C} {v : V} (h : keyValue t image key c = .ok v) :
    (key c).or (image.bind (·.get c)) = some v ∧ t.supported v = true := by
  unfold keyValue at h
  cases hv : (key c).or (image.bind (·.get c)) with
  | none => simp [hv] at h
  | some => grind

omit [DecidableEq V] in
theorem get_of_keyValues (hkeyed : ∀ c ∈ t.keyColumns, ∀ v, key c = some v → image.get c = some v)
    (h : keyValues t (some image) key = .ok values) :
    t.keyColumns.map image.get = values.map some ∧
      ∀ c ∈ t.keyColumns, ∀ v, image.get c = some v → t.supported v = true := by
  have hmap := mapM_ok h
  have hget : ∀ c v, c ∈ t.keyColumns → keyValue t (some image) key c = .ok v →
      image.get c = some v ∧ t.supported v = true := by
    intro c v hc hv
    obtain ⟨hor, hs⟩ := keyValue_ok hv
    refine ⟨?_, hs⟩
    cases hk : key c with
    | none => simpa [hk] using hor
    | some => rw [hk] at hor; cases hor; exact hkeyed c hc _ hk
  have hok : ∀ c ∈ t.keyColumns, ∃ v, keyValue t (some image) key c = .ok v := by
    grind [List.mem_map_of_mem]
  constructor
  · calc t.keyColumns.map image.get
        = t.keyColumns.map fun c => (keyValue t (some image) key c).toOption := by
          refine List.map_congr_left fun c hc => ?_
          obtain ⟨v, hv⟩ := hok c hc
          rw [hv, (hget c v hc hv).1]
          rfl
      _ = (values.map Except.ok).map (@Except.toOption (SinkError C) V) := by rw [← hmap, List.map_map]; rfl
      _ = values.map some := by rw [List.map_map]; rfl
  · grind

omit [DecidableEq V] in
theorem rowKey_inserted (h : t.keyColumns.map image.get = values.map some) :
    rowKey t (inserted t image) = values.map some := by
  rw [← h]
  refine List.map_congr_left fun c hc => ?_
  have hsome : (image.get c).isSome = true := by
    grind [List.mem_map_of_mem]
  unfold Image.get at hsome ⊢
  cases hl : image.values.lookup c with
  | none => simp [hl] at hsome
  | some => simp [inserted, assign, hl]

omit [DecidableEq V] in
theorem get_of_mem {p : C × Option V} (hp : p ∈ image.values) : image.get p.1 = p.2 := by
  have hlookup : ∀ values : List (C × Option V), (values.map Prod.fst).Nodup → p ∈ values →
      values.lookup p.1 = some p.2 := by
    intro values hnodup hmem
    induction values with
    | nil => cases hmem
    | cons => grind
  rw [Image.get, hlookup image.values image.nodup hp]
  rfl

omit [DecidableEq V] in
theorem bindColumns_mutable (h : ∀ c ∈ t.keyColumns, ∀ v, image.get c = some v → t.supported v = true) :
    bindColumns t (mutableColumns t image) = bindColumns t image.values := by
  have hother : ∀ p ∈ image.values, unbindable t p = true → p.1 ∉ t.keyColumns := by
    intro p hp hbad hkey
    cases hv : p.2 with
    | none => simp [unbindable, hv] at hbad
    | some v =>
      have hs := h p.1 hkey v ((get_of_mem hp).trans hv)
      simp [unbindable, hv, hs] at hbad
  have hfind : (mutableColumns t image).find? (unbindable t) = image.values.find? (unbindable t) := by
    unfold mutableColumns
    generalize image.values = values at hother
    induction values with
    | nil => rfl
    | cons p values ih =>
      obtain ⟨hp, hrest⟩ := List.forall_mem_cons.mp hother
      cases hbad : unbindable t p with
      | true => grind
      | false => grind
  rw [bindColumns, hfind, bindColumns]

theorem map_of_no_mutable (h : mutableColumns t image = []) (table : Table C V) :
    (table.map fun r => if rowKey t r = values.map some then updated t image r else r) = table := by
  have hsame : ∀ r, updated t image r = r := fun r => by
    funext c
    rw [updated, h]
    rfl
  simp [hsame]

theorem upsert_eq {after : Option (Image C V)}
    (hkeyed : ∀ image, after = some image → ∀ c ∈ t.keyColumns, ∀ v, key c = some v → image.get c = some v)
    (table : Table C V) : upsert t after key table = (upsertChange t after key).map (applyChange t · table) := by
  cases after with
  | none => rfl
  | some image =>
    unfold upsert upsertChange
    by_cases hempty : image.values = []
    · simp only [if_pos hempty, Except.map]
    · simp only [if_neg hempty]
      cases hk : keyValues t (some image) key with
      | error => rfl
      | ok values =>
        obtain ⟨-, hsupported⟩ := get_of_keyValues (hkeyed image rfl) hk
        have hbind := bindColumns_mutable hsupported
        have hput : applyChange t (.put (values.map some) image) table =
            if (slice (rowKey t) (values.map some) table).card = 0 then inserted t image ::ₘ table
            else table.map fun r => if rowKey t r = values.map some then updated t image r else r := rfl
        simp only [bind, Except.bind, pure, Except.pure]
        by_cases hcard : (slice (rowKey t) (values.map some) table).card = 0
        · rw [if_pos hcard] at hput ⊢
          cases bindColumns t image.values with
          | error => rfl
          | ok => exact congrArg Except.ok hput.symm
        · rw [if_neg hcard] at hput ⊢
          by_cases hmutable : mutableColumns t image = []
          · rw [map_of_no_mutable hmutable] at hput
            rw [if_pos hmutable, ← hbind, hmutable]
            exact congrArg Except.ok hput.symm
          · rw [if_neg hmutable, hbind]
            cases bindColumns t image.values with
            | error => rfl
            | ok => exact congrArg Except.ok hput.symm

end

variable {t}

theorem applyEvent_eq {e : DataEvent C V} (hkeyed : Keyed t e) (table : Table C V) :
    applyEvent t e table = (changeOf t e).map (applyChange t · table) := by
  unfold applyEvent changeOf
  cases e.operation with
  | insert | snapshot | update => exact upsert_eq hkeyed table
  | delete =>
    simp only [delete]
    cases keyValues t e.before e.key <;> rfl
  | truncate => simp only; split_ifs <;> rfl
  | schemaChange => rfl

omit [DecidableEq V] in
theorem fitsKey_upsertChange {after : Option (Image C V)} {key : C → Option V}
    (hkeyed : ∀ image, after = some image → ∀ c ∈ t.keyColumns, ∀ v, key c = some v → image.get c = some v)
    {c : Change (List (Option V)) (Image C V)} (h : upsertChange t after key = .ok c) : FitsKey t c := by
  cases after with
  | none => cases h
  | some image =>
    unfold upsertChange at h
    by_cases hempty : image.values = []
    · simp only [if_pos hempty] at h
      cases h
    · simp only [if_neg hempty] at h
      cases hk : keyValues t (some image) key with
      | error => rw [hk] at h; cases h
      | ok values =>
        cases hb : bindColumns t image.values with
        | error => rw [hk, hb] at h; cases h
        | ok =>
          rw [hk, hb] at h
          cases h
          exact rowKey_inserted (get_of_keyValues (hkeyed image rfl) hk).1

omit [DecidableEq V] in
theorem fitsKey_changeOf {e : DataEvent C V} (hkeyed : Keyed t e) {c : Change (List (Option V)) (Image C V)}
    (h : changeOf t e = .ok c) : FitsKey t c := by
  unfold changeOf at h
  cases hop : e.operation with
  | insert | snapshot | update =>
    simp only [hop] at h
    exact fitsKey_upsertChange hkeyed h
  | delete =>
    simp only [hop] at h
    cases hk : keyValues t e.before e.key with
    | error => rw [hk] at h; cases h
    | ok => rw [hk] at h; cases h; trivial
  | truncate =>
    simp only [hop] at h
    split_ifs at h
    cases h
    trivial
  | schemaChange =>
    simp only [hop] at h
    cases h
    trivial

variable {events : List (DataEvent C V)} {table table₁ : Table C V}

theorem applyEvents_eq (hkeyed : ∀ e ∈ events, Keyed t e) (table : Table C V) :
    applyEvents t events table = (events.mapM (changeOf t)).map (applyAll (applyChange t) · table) := by
  induction events generalizing table with
  | nil => rfl
  | cons e events ih =>
    obtain ⟨he, hrest⟩ := List.forall_mem_cons.mp hkeyed
    rw [applyEvents, List.foldlM_cons, applyEvent_eq he, List.mapM_cons]
    cases changeOf t e with
    | error => rfl
    | ok c =>
      refine (ih hrest (applyChange t c table)).trans ?_
      cases events.mapM (changeOf t) <;> rfl

theorem changes_of_applyEvents (hkeyed : ∀ e ∈ events, Keyed t e)
    {table' : Table C V} (h : applyEvents t events table = .ok table') :
    ∃ changes, events.mapM (changeOf t) = .ok changes ∧ applyAll (applyChange t) changes table = table' := by
  rw [applyEvents_eq hkeyed] at h
  cases hm : events.mapM (changeOf t) with
  | error => rw [hm] at h; cases h
  | ok changes => rw [hm] at h; cases h; exact ⟨changes, rfl, rfl⟩

omit [DecidableEq V] in
theorem fitsKey_changes (hkeyed : ∀ e ∈ events, Keyed t e)
    {changes : List (Change (List (Option V)) (Image C V))} (hm : events.mapM (changeOf t) = .ok changes) :
    ∀ c ∈ changes, FitsKey t c := by
  intro c hc
  have hmem : Except.ok c ∈ events.map (changeOf t) := mapM_ok hm ▸ List.mem_map_of_mem hc
  obtain ⟨e, he, hce⟩ := List.mem_map.mp hmem
  exact fitsKey_changeOf (hkeyed e he) hce

theorem applyEvents_absorbs {earlier : List (DataEvent C V)} (hkeyed : ∀ e ∈ events, Keyed t e)
    (hsub : earlier <+: events) {table₂ : Table C V} (h₁ : applyEvents t earlier table = .ok table₁)
    (h₂ : applyEvents t events table₁ = .ok table₂) : applyEvents t events table = .ok table₂ := by
  have hkeyed₁ : ∀ e ∈ earlier, Keyed t e := fun e he => hkeyed e (hsub.subset he)
  obtain ⟨changes₁, hm₁, rfl⟩ := changes_of_applyEvents hkeyed₁ h₁
  obtain ⟨changes, hm, rfl⟩ := changes_of_applyEvents hkeyed h₂
  have hfits := fitsKey_changes hkeyed hm
  have hparts : changes₁ ⊆ changes := by
    intro c hc
    have hmem : Except.ok c ∈ earlier.map (changeOf t) := mapM_ok hm₁ ▸ List.mem_map_of_mem hc
    have hmem' : Except.ok c ∈ changes.map (@Except.ok (SinkError C) _) :=
      mapM_ok hm ▸ (hsub.map (changeOf t)).subset hmem
    obtain ⟨c', hc', hcc⟩ := List.mem_map.mp hmem'
    cases hcc
    exact hc'
  rw [applyEvents_eq hkeyed, hm, (applyChange_overwrites t).absorbs hfits hparts]
  rfl

theorem applyEvents_append (events more : List (DataEvent C V)) (h : applyEvents t events table = .ok table₁) :
    applyEvents t (events ++ more) table = applyEvents t more table₁ := by
  unfold applyEvents at h ⊢
  rw [List.foldlM_append, h]
  rfl

theorem applyEvents_twice (hkeyed : ∀ e ∈ events, Keyed t e)
    (h : applyEvents t events table = .ok table₁) : applyEvents t events table₁ = .ok table₁ := by
  obtain ⟨changes, hm, rfl⟩ := changes_of_applyEvents hkeyed h
  rw [applyEvents_eq hkeyed, hm]
  exact congrArg Except.ok ((applyChange_overwrites t).absorbs (fitsKey_changes hkeyed hm) (List.Subset.refl _) table)

/-- Where every after-image carries the values of its key, the events and every last part of them can be applied again. -/
theorem applyEvents_replay (t : Target C V) (events : List (DataEvent C V)) (hkeyed : ∀ e ∈ events, Keyed t e)
    (table table₁ : Table C V) (h : applyEvents t events table = .ok table₁) :
    applyEvents t events table₁ = .ok table₁ ∧ ∀ later, later <:+ events → applyEvents t later table₁ = .ok table₁ := by
  refine ⟨applyEvents_twice hkeyed h, fun later hlater => ?_⟩
  obtain ⟨before, rfl⟩ := hlater
  have hrest : ∀ e ∈ later, Keyed t e := fun e he => hkeyed e (List.mem_append_right _ he)
  rw [applyEvents, List.foldlM_append] at h
  obtain ⟨between, -, hlater⟩ := bind_eq_ok.mp h
  exact applyEvents_twice hrest hlater

def people : Target Bool ℕ where
  keyColumns := [false]
  allowTruncate := true
  keyColumns_ne := by decide
  keyColumns_nodup := by decide
  supported _ := true
  columnDefault _ := none

def personKey (n : ℕ) : Bool → Option ℕ := fun c => if c then none else some n

def personEvent (operation : Operation) (n : ℕ) (after : Option (Image Bool ℕ)) : DataEvent Bool ℕ :=
  ⟨[], [], operation, personKey n, none, after⟩

def named (n name : ℕ) : Image Bool ℕ := ⟨[(false, some n), (true, some name)], by simp⟩

theorem applyEvents_replay_people :
    ∃ table, applyEvents people [personEvent .insert 1 (some (named 1 7)), personEvent .delete 2 none] 0 = .ok table ∧
      ∀ later, later <:+ [personEvent .insert 1 (some (named 1 7)), personEvent .delete 2 none] →
        applyEvents people later table = .ok table := by
  have hkeyed : ∀ e ∈ [personEvent .insert 1 (some (named 1 7)), personEvent .delete 2 none], Keyed people e := by
    intro e he image himage c hc v hv
    cases List.mem_singleton.mp hc
    simp only [List.mem_cons, List.not_mem_nil, or_false] at he
    rcases he with rfl | rfl
    · cases himage
      cases hv
      rfl
    · cases himage
  refine ⟨_, rfl, fun later hlater => ?_⟩
  exact (applyEvents_replay people _ hkeyed 0 _ rfl).2 later hlater

end AstraSync.CdcSink
