import AstraSync.RegionPromotion

namespace AstraSync.PromotionKeys

open ByteStrings RegionPromotion Transitions

def prepared : Pc → Bool
  | .fence | .assign => true
  | _ => false

def waiting : Pc → Bool
  | .lookup | .readEpoch | .track | .create | .done _ => true
  | _ => false

def keyed : Pc → Bool
  | .entry | .lookup | .readEpoch | .done _ => false
  | _ => true

section

variable {m : Manager} {db db' : Db} {c c' : Call} {o : Outcome}

structure Moved (db : Db) (c : Call) (db' : Db) (c' : Call) : Prop where
  key : c'.idempotencyKey = c.idempotencyKey
  rows : ∀ k, (db.promotions k).isSome = true → (db'.promotions k).isSome = true
  promotion : keyed c'.pc = true → c'.promotion.idempotencyKey = c'.idempotencyKey
  prepares : prepared c'.pc = true → c.pc = .fence ∨ (c.pc = .create ∧
    db.promotions c.idempotencyKey = none ∧ (db'.promotions c.idempotencyKey).isSome = true)
  waits : waiting c.pc = true → (db.promotions c.idempotencyKey).isSome = true → db' = db ∧ waiting c'.pc = true

variable {p : Promotion}

theorem setPromotion_isSome {k : Bytes} (h : (db.promotions k).isSome = true) :
    ((setPromotion db p).promotions k).isSome = true := by
  unfold setPromotion
  by_cases hk : k = p.idempotencyKey
  · simp [hk]
  · simpa [Function.update_of_ne hk] using h

theorem update_isSome {k : Bytes} (h : (db.promotions k).isSome = true) :
    ((update db p).promotions k).isSome = true := by
  unfold update
  split
  · exact h
  · exact setPromotion_isSome h

theorem create_none (h : create db p = some db') : db.promotions p.idempotencyKey = none ∧ db' = setPromotion db p := by
  unfold create at h
  split at h
  · cases h
  · grind

theorem assign_promotions {jobID : Bytes} {epoch : ℤ} (h : assign db jobID = some (db', epoch)) :
    db'.promotions = db.promotions := by
  obtain ⟨-, rfl⟩ := assign_some h
  rfl

theorem updateEpoch_promotions (jobID : Bytes) (expectedEpoch newEpoch : ℤ) :
    (updateEpoch db jobID expectedEpoch newEpoch).1.promotions = db.promotions := by
  unfold updateEpoch
  split_ifs <;> rfl

section

variable (hrows : ∀ k, (db.promotions k).isSome = true → (db'.promotions k).isSome = true)

include hrows

theorem refuse_moved {e : PromotionError}
    (hwaits : waiting c.pc = true → (db.promotions c.idempotencyKey).isSome = true → db' = db) :
    Moved db c db' (refuse c e) :=
  ⟨rfl, hrows, nofun, nofun, fun hw hrow => ⟨hwaits hw hrow, rfl⟩⟩

theorem goOn_moved {state : PromotionState} {context : String} {pc : Pc}
    (hkey : c.promotion.idempotencyKey = c.idempotencyKey) (hpc : prepared pc = false) (hc : waiting c.pc = false) :
    Moved db c db' (goOn c state context pc) := by
  have hwaits {P : Prop} : waiting c.pc = true → (db.promotions c.idempotencyKey).isSome = true → P := by simp [hc]
  unfold goOn
  split
  · grind [Moved, transitionTo]
  · exact refuse_moved hrows hwaits

theorem fail_moved {cause e : PromotionError}
    (hkey : c.promotion.idempotencyKey = c.idempotencyKey) (hc : waiting c.pc = false) :
    Moved db c db' (fail c cause e) := by
  have hwaits {P : Prop} : waiting c.pc = true → (db.promotions c.idempotencyKey).isSome = true → P := by simp [hc]
  unfold fail
  split
  · next p hp =>
    have hsame : p.idempotencyKey = c.promotion.idempotencyKey := by
      grind [transitionTo]
    exact ⟨rfl, hrows, fun _ => hsame.trans hkey, nofun, hwaits⟩
  · exact ⟨rfl, hrows, fun _ => hkey, nofun, hwaits⟩

end

theorem pc_moved {pc : Pc} (hkey : keyed pc = true → c.promotion.idempotencyKey = c.idempotencyKey)
    (hprepares : prepared pc = true → c.pc = .fence) (hwaits : waiting c.pc = true → waiting pc = true) :
    Moved db c db { c with pc := pc } :=
  ⟨rfl, fun _ h => h, hkey, fun h => .inl (hprepares h), fun hw _ => ⟨rfl, hwaits hw⟩⟩

theorem create_moved (hpc : c.pc = .create) (hkey : c.promotion.idempotencyKey = c.idempotencyKey) :
    Moved db c (advance m db c o).1 (advance m db c o).2 := by
  simp only [advance, hpc]
  split
  · next written hcreate =>
    obtain ⟨hnone, rfl⟩ := create_none hcreate
    rw [hkey] at hnone
    have hwaits {P : Prop} : waiting c.pc = true → (db.promotions c.idempotencyKey).isSome = true → P := by
      grind
    unfold goOn
    split
    · next p hp =>
      have hsame : p.idempotencyKey = c.promotion.idempotencyKey := by
        unfold transitionTo at hp
        split_ifs at hp
        cases hp
        rfl
      refine ⟨rfl, fun k => setPromotion_isSome, fun _ => hsame.trans hkey, fun _ => .inr ⟨hpc, hnone, ?_⟩, hwaits⟩
      simp [setPromotion, hkey]
    · exact refuse_moved (fun k => setPromotion_isSome) hwaits
  · grind [create_none, refuse_moved, setPromotion_isSome]
  · exact refuse_moved (fun _ h => h) fun _ _ => rfl

theorem assign_moved (hpc : c.pc = .assign) (hkey : c.promotion.idempotencyKey = c.idempotencyKey) :
    Moved db c (advance m db c o).1 (advance m db c o).2 := by
  have hc : waiting c.pc = false := by rw [hpc]; rfl
  simp only [advance, hpc]
  split
  · next written epoch hassign =>
    have hrows : ∀ k, (db.promotions k).isSome = true → (written.promotions k).isSome = true := by
      rw [assign_promotions hassign]
      exact fun _ h => h
    have hgo : Moved db { c with promotion := { c.promotion with newEpoch := epoch } } written
        (goOn { c with promotion := { c.promotion with newEpoch := epoch } } .epochWritten
          "transition to epoch written" .updateEpoch) :=
      goOn_moved hrows hkey rfl hc
    exact ⟨hgo.key, hgo.rows, hgo.promotion, hgo.prepares, hgo.waits⟩
  · grind [fail_moved, assign_promotions]
  · exact fail_moved (fun _ h => h) hkey hc

theorem updateEpoch_moved (hpc : c.pc = .updateEpoch) (hkey : c.promotion.idempotencyKey = c.idempotencyKey) :
    Moved db c (advance m db c o).1 (advance m db c o).2 := by
  have hc : waiting c.pc = false := by rw [hpc]; rfl
  have hrows : ∀ k, (db.promotions k).isSome = true →
      ((updateEpoch db c.jobID c.promotion.previousEpoch c.promotion.newEpoch).1.promotions k).isSome = true := by
    rw [updateEpoch_promotions]
    exact fun _ h => h
  simp only [advance, hpc]
  cases o with
  | failed => exact fail_moved (fun _ h => h) hkey hc
  | lost => exact fail_moved hrows hkey hc
  | ok =>
    dsimp only
    split_ifs
    · exact goOn_moved hrows hkey rfl hc
    · refine ⟨rfl, hrows, fun _ => hkey, by rintro ⟨⟩, fun hw => ?_⟩
      rw [hc] at hw
      cases hw

theorem advance_moved (h : keyed c.pc = true → c.promotion.idempotencyKey = c.idempotencyKey) :
    Moved db c (advance m db c o).1 (advance m db c o).2 := by
  have hsame : ∀ k, (db.promotions k).isSome = true → (db.promotions k).isSome = true := fun _ hk => hk
  cases hpc : c.pc with
  | entry | track | done =>
    simp only [advance, hpc]
    refine ⟨rfl, hsame, h, fun hp => ?_, fun hw _ => ⟨rfl, hw⟩⟩
    rw [hpc] at hp
    cases hp
  | lookup =>
    simp only [advance, hpc]
    split
    · exact pc_moved (by rintro ⟨⟩) (by rintro ⟨⟩) fun _ => rfl
    · exact pc_moved (by rintro ⟨⟩) (by rintro ⟨⟩) fun _ => rfl
  | readEpoch =>
    simp only [advance, hpc]
    split_ifs
    · exact refuse_moved hsame fun _ _ => rfl
    · exact refuse_moved hsame fun _ _ => rfl
    · exact ⟨rfl, hsame, fun _ => rfl, by rintro ⟨⟩, fun _ _ => ⟨rfl, rfl⟩⟩
  | create => exact create_moved hpc (h (by rw [hpc]; rfl))
  | fence =>
    have hkey := h (by rw [hpc]; rfl)
    have hc : waiting c.pc = false := by rw [hpc]; rfl
    simp only [advance, hpc]
    split_ifs
    · exact pc_moved (fun _ => hkey) (fun _ => hpc) (fun hw => by rw [hc] at hw; cases hw)
    · exact fail_moved hsame hkey hc
    · exact fail_moved hsame hkey hc
    · exact pc_moved (fun _ => hkey) (fun _ => hpc) (fun hw => by rw [hc] at hw; cases hw)
  | assign => exact assign_moved hpc (h (by rw [hpc]; rfl))
  | updateEpoch => exact updateEpoch_moved hpc (h (by rw [hpc]; rfl))
  | confirmEpoch | revalidate | recover =>
    have hkey := h (by rw [hpc]; rfl)
    have hc : waiting c.pc = false := by rw [hpc]; rfl
    simp only [advance, hpc]
    split_ifs <;> first
      | exact fail_moved hsame hkey hc
      | exact goOn_moved hsame hkey rfl hc
  | recordFailure | recordSuccess =>
    have hc : waiting c.pc = false := by rw [hpc]; rfl
    have hwaits {P : Prop} : waiting c.pc = true → P := fun hw => by rw [hc] at hw; cases hw
    simp only [advance, hpc]
    split_ifs
    · exact ⟨rfl, hsame, by rintro ⟨⟩, by rintro ⟨⟩, fun hw => hwaits hw⟩
    · exact ⟨rfl, fun k => update_isSome, by rintro ⟨⟩, by rintro ⟨⟩, fun hw => hwaits hw⟩

end

variable {managers : ℕ → Manager} {k : Bytes} {w w' : World} {e : Event} {n : ℕ}

def invokes (k : Bytes) (w : World) : Event → Bool
  | .advance i _ =>
    match w.calls[i]? with
    | some c => c.pc = .assign && c.idempotencyKey = k
    | none => false
  | _ => false

def invocations (managers : ℕ → Manager) (k : Bytes) : World → List Event → ℕ
  | _, [] => 0
  | w, e :: es => (if invokes k w e then 1 else 0) + match step managers w e with
    | some w' => invocations managers k w' es
    | none => 0

def LeavesAlone (managers : ℕ → Manager) (i : ℕ) : World → List Event → Prop
  | _, [] => True
  | w, e :: es => ∀ w', step managers w e = some w' →
      (∀ o, e = .advance i o → w'.db = w.db) ∧ LeavesAlone managers i w' es

structure Inv (k : Bytes) (w : World) (n : ℕ) : Prop where
  promotion : ∀ (i : ℕ) (c : Call), w.calls[i]? = some c → keyed c.pc = true →
    c.promotion.idempotencyKey = c.idempotencyKey
  absent : w.db.promotions k = none → n = 0 ∧ ∀ (i : ℕ) (c : Call), w.calls[i]? = some c → c.idempotencyKey = k →
    prepared c.pc = false
  single : ∀ (i j : ℕ) (c d : Call), w.calls[i]? = some c → w.calls[j]? = some d → c.idempotencyKey = k →
    d.idempotencyKey = k → prepared c.pc = true → prepared d.pc = true → i = j
  unassigned : ∀ (i : ℕ) (c : Call), w.calls[i]? = some c → c.idempotencyKey = k → prepared c.pc = true → n = 0
  once : n ≤ 1

variable {i : ℕ}

theorem inv_set {c c' : Call} {db' : Db} (tracked : ℕ → Bytes → Option ℕ) (h : Inv k w n)
    (hc : w.calls[i]? = some c) (hmoved : Moved w.db c db' c') :
    Inv k ⟨db', tracked, w.calls.set i c'⟩ (n + if c.pc = .assign ∧ c.idempotencyKey = k then 1 else 0) := by
  -- a call that is prepared now was so before, or has found no row of its key
  have horigin : c'.idempotencyKey = k → prepared c'.pc = true →
      (c.idempotencyKey = k ∧ prepared c.pc = true) ∨ (w.db.promotions k = none ∧ (db'.promotions k).isSome = true) := by
    intro hk hp
    rw [hmoved.key] at hk
    rcases hmoved.prepares hp with hfence | hrow
    · exact .inl ⟨hk, by rw [hfence]; rfl⟩
    · rw [hk] at hrow
      exact .inr hrow.2
  have hassign : c.pc = .assign → prepared c'.pc = false := by
    intro hpc
    rw [← Bool.not_eq_true]
    intro hp
    rcases hmoved.prepares hp with hfence | ⟨hcreate, -⟩
    · cases hpc.symm.trans hfence
    · cases hpc.symm.trans hcreate
  have hcount : (if c.pc = .assign ∧ c.idempotencyKey = k then 1 else 0) = 1 →
      c.pc = .assign ∧ c.idempotencyKey = k ∧ n = 0 := by
    intro hone
    split_ifs at hone with hinvoked
    exact ⟨hinvoked.1, hinvoked.2, h.unassigned i c hc hinvoked.2 (by rw [hinvoked.1]; rfl)⟩
  have hle : (if c.pc = .assign ∧ c.idempotencyKey = k then 1 else 0) ≤ 1 := by split_ifs <;> omega
  refine ⟨fun j d hd hkeyed => ?_, ?_, ?_, ?_, ?_⟩
  · rcases (Slots.getElem?_set hc).mp hd with ⟨-, rfl⟩ | ⟨-, hd⟩
    · exact hmoved.promotion hkeyed
    · exact h.promotion j d hd hkeyed
  · intro hnone
    have hbefore : w.db.promotions k = none := by
      by_contra hsome
      have hrow := hmoved.rows k (Option.isSome_iff_ne_none.mpr hsome)
      rw [show db'.promotions k = none from hnone] at hrow
      cases hrow
    obtain ⟨hn, hothers⟩ := h.absent hbefore
    refine ⟨?_, fun j d hd hk => ?_⟩
    · rw [if_neg, hn]
      rintro ⟨hpc, hk⟩
      have hnot := hothers i c hc hk
      rw [hpc] at hnot
      cases hnot
    · grind
  · grind [Moved, Inv]
  · intro j d hd hk hp
    rcases (Slots.getElem?_set hc).mp hd with ⟨rfl, rfl⟩ | ⟨hji, hd⟩
    · grind [Moved, Inv]
    · rw [if_neg]
      · exact h.unassigned j d hd hk hp
      · rintro ⟨hpc, hck⟩
        exact hji (h.single j i d c hd hc hk hck hp (by rw [hpc]; rfl))
  · have := h.once
    omega

variable {c : Call}

theorem inv_promote (hpc : c.pc = .entry) (h : Inv k w n) : Inv k { w with calls := w.calls ++ [c] } n := by
  refine ⟨?_, ?_, ?_, ?_, h.once⟩
  · intro j d hd hkeyed
    rcases Slots.getElem?_snoc.mp hd with hd | ⟨-, rfl⟩
    · exact h.promotion j d hd hkeyed
    · rw [hpc] at hkeyed
      cases hkeyed
  · intro hnone
    obtain ⟨hn, hothers⟩ := h.absent hnone
    refine ⟨hn, fun j d hd hk => ?_⟩
    rcases Slots.getElem?_snoc.mp hd with hd | ⟨-, rfl⟩
    · exact hothers j d hd hk
    · rw [hpc]
      rfl
  · intro i j d f hd hf hdk hfk hdp hfp
    rcases Slots.getElem?_snoc.mp hd with hd | ⟨-, rfl⟩
    · rcases Slots.getElem?_snoc.mp hf with hf | ⟨-, rfl⟩
      · exact h.single i j d f hd hf hdk hfk hdp hfp
      · rw [hpc] at hfp
        cases hfp
    · rw [hpc] at hdp
      cases hdp
  · intro j d hd hk hp
    rcases Slots.getElem?_snoc.mp hd with hd | ⟨-, rfl⟩
    · exact h.unassigned j d hd hk hp
    · rw [hpc] at hp
      cases hp

theorem enter_moved {m : Manager} (hpc : c.pc = .entry) : Moved w.db c w.db (enter m w c) := by
  have hwaits {P : Prop} : waiting c.pc = true → P := fun hw => by rw [hpc] at hw; cases hw
  unfold enter
  split_ifs
  · exact refuse_moved (fun _ h => h) fun hw => hwaits hw
  · exact refuse_moved (fun _ h => h) fun hw => hwaits hw
  · exact refuse_moved (fun _ h => h) fun hw => hwaits hw
  · exact pc_moved nofun nofun fun hw => hwaits hw

theorem step_advance {o : Outcome} (hstep : step managers w (.advance i o) = some w')
    (hkeyed : ∀ (i : ℕ) (c : Call), w.calls[i]? = some c → keyed c.pc = true →
      c.promotion.idempotencyKey = c.idempotencyKey) :
    ∃ c c' tracked, w.calls[i]? = some c ∧ Moved w.db c w'.db c' ∧ w' = ⟨w'.db, tracked, w.calls.set i c'⟩ := by
  unfold step at hstep
  dsimp only at hstep
  cases hc : w.calls[i]? with
  | none =>
    rw [hc] at hstep
    cases hstep
  | some c =>
    rw [hc] at hstep
    dsimp only at hstep
    have hadvance := @advance_moved (managers c.manager) w.db c o (hkeyed i c hc)
    cases hpc : c.pc with
    | done =>
      rw [hpc] at hstep
      cases hstep
    | entry =>
      rw [hpc] at hstep
      cases hstep
      exact ⟨c, _, _, rfl, enter_moved hpc, rfl⟩
    | track =>
      rw [hpc] at hstep
      cases hstep
      refine ⟨c, { c with pc := .create }, _, rfl, pc_moved (fun _ => ?_) nofun (fun _ => rfl), rfl⟩
      exact hkeyed i c hc (by rw [hpc]; rfl)
    | _ =>
      rw [hpc] at hstep
      cases hstep
      exact ⟨c, _, _, rfl, hadvance, rfl⟩

theorem inv_step (h : Inv k w n) (hstep : step managers w e = some w') :
    Inv k w' (n + if invokes k w e then 1 else 0) := by
  cases e with
  | promote =>
    cases hstep
    exact inv_promote rfl h
  | advance i o =>
    obtain ⟨c, c', tracked, hc, hmoved, heq⟩ := step_advance hstep h.promotion
    rw [heq]
    simpa [invokes, hc] using inv_set tracked h hc hmoved

variable {events : List Event}

theorem inv_run (h : Inv k w n) (hrun : run (step managers) w events = some w') :
    Inv k w' (n + invocations managers k w events) := by
  induction events generalizing w n with
  | nil =>
    cases hrun
    exact h
  | cons e es ih =>
    obtain ⟨u, hu, hrun⟩ := run_cons_eq.mp hrun
    have hnext := ih (inv_step h hu) hrun
    simp only [invocations, hu]
    rwa [← Nat.add_assoc]

theorem inv_initial (db : Db) : Inv k (initial db) 0 := by
  have hnone (i : ℕ) (c : Call) : (initial db).calls[i]? ≠ some c := by simp [initial]
  refine ⟨fun i c hc => ?_, fun _ => ⟨rfl, fun i c hc => ?_⟩, fun i j c d hc => ?_, fun i c hc => ?_, Nat.zero_le _⟩
  all_goals exact absurd hc (hnone i c)

theorem leavesAlone (h : Inv k w n) (hc : w.calls[i]? = some c)
    (hwaiting : waiting c.pc = true) (hrow : (w.db.promotions c.idempotencyKey).isSome = true) :
    LeavesAlone managers i w events := by
  induction events generalizing w n c with
  | nil => trivial
  | cons e es ih =>
    intro w' hstep
    have hnext := inv_step h hstep
    cases e with
    | promote =>
      cases hstep
      exact ⟨nofun, ih hnext (Slots.getElem?_snoc.mpr (.inl hc)) hwaiting hrow⟩
    | advance j o =>
      obtain ⟨d, d', tracked, hd, hmoved, hw'⟩ := step_advance hstep h.promotion
      have hcalls : w'.calls = w.calls.set j d' := by rw [hw']
      by_cases hij : i = j
      · subst hij
        cases hc.symm.trans hd
        obtain ⟨hdb, hstill⟩ := hmoved.waits hwaiting hrow
        refine ⟨fun _ _ => hdb, ih hnext (c := d') ?_ hstill ?_⟩
        · rw [hcalls]
          exact (Slots.getElem?_set hd).mpr (.inl ⟨rfl, rfl⟩)
        · rw [hmoved.key, hdb]
          exact hrow
      · refine ⟨fun o' heq => ?_, ih hnext (c := c) ?_ hwaiting (hmoved.rows _ hrow)⟩
        · cases heq
          exact absurd rfl hij
        · rw [hcalls]
          exact (Slots.getElem?_set hd).mpr (.inr ⟨hij, hc⟩)

/-- Under one key an epoch is assigned at most once, and a call that finds a promotion changes nothing. -/
theorem run_promotes_once {db : Db} {events : List Event} (hrun : run (step managers) (initial db) events = some w) :
    (∀ k, invocations managers k (initial db) events ≤ 1) ∧
      ∀ (i : ℕ) c, w.calls[i]? = some c → c.pc = .lookup → (get w.db c.jobID c.idempotencyKey).isSome = true →
        ∀ later, LeavesAlone managers i w later := by
  refine ⟨fun k => ?_, fun i c hc hpc hfound later => ?_⟩
  · have hinv := inv_run (inv_initial (k := k) db) hrun
    simpa using hinv.once
  · have hinv := inv_run (inv_initial (k := c.idempotencyKey) db) hrun
    refine leavesAlone hinv hc (by rw [hpc]; rfl) ?_
    obtain ⟨p, hp⟩ := Option.isSome_iff_exists.mp hfound
    exact Option.isSome_iff_exists.mpr ⟨p, (Option.filter_eq_some_iff.mp hp).1⟩

def sharedKey : List Event :=
  [promoteOrders 0 "promotion-0000001", promoteOrders 1 "promotion-0000001"] ++
    List.replicate 4 (.advance 1 .ok) ++ List.replicate 12 (.advance 0 .ok) ++ [.advance 1 .ok]

def askedAgain : List Event := sharedKey ++ [promoteOrders 2 "promotion-0000001", .advance 2 .ok]

theorem run_promotes_once_shared : ∃ w, run (step fun _ => standby) (initial emptyDb) askedAgain = some w ∧
    invocations (fun _ => standby) (lit "promotion-0000001") (initial emptyDb) askedAgain = 1 ∧
    (∀ k, invocations (fun _ => standby) k (initial emptyDb) askedAgain ≤ 1) ∧
    ∀ later, LeavesAlone (fun _ => standby) 2 w later := by
  have hrun : (run (step fun _ => standby) (initial emptyDb) askedAgain).map (fun w => w.calls[2]?.map fun c =>
      (c.pc, (get w.db c.jobID c.idempotencyKey).isSome)) = some (some (.lookup, true)) := by decide +kernel
  obtain ⟨w, hw, hcall⟩ := Option.map_eq_some_iff.mp hrun
  obtain ⟨c, hc, hstored⟩ := Option.map_eq_some_iff.mp hcall
  rw [Prod.mk.injEq] at hstored
  obtain ⟨honce, halone⟩ := run_promotes_once hw
  exact ⟨w, hw, by decide +kernel, honce, halone 2 c hc hstored.1 hstored.2⟩

end AstraSync.PromotionKeys
