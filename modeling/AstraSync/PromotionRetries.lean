import AstraSync.RegionPromotion

namespace AstraSync.PromotionRetries

open ByteStrings RegionPromotion Transitions

def stateAt : Pc → Option PromotionState
  | .track | .create => some .pending
  | .fence | .assign => some .epochBumped
  | .updateEpoch | .confirmEpoch => some .epochWritten
  | .revalidate => some .capabilityRevalidating
  | .recover => some .capabilityConfirmed
  | .recordSuccess => some .failoverComplete
  | .recordFailure _ => some .promotionFailed
  | .entry | .lookup | .readEpoch | .done _ => none

def remembered : Pc → Bool
  | .entry | .lookup | .readEpoch | .track | .done _ => false
  | _ => true

def running (c : Call) : Bool :=
  match c.pc with
  | .done _ => false
  | _ => true

def creates (w : World) : Event → Bool
  | .advance i o =>
    match w.calls[i]? with
    | some c => c.pc != .create || (o == .ok && (create w.db c.promotion).isSome)
    | none => true
  | _ => true

section

variable {m : Manager} {db : Db} {c c' : Call} {o : Outcome}

structure Moved (c c' : Call) : Prop where
  manager : c'.manager = c.manager
  jobID : c'.jobID = c.jobID
  state : ∀ st, stateAt c'.pc = some st → c'.promotion.state = st
  phase : remembered c.pc = true → remembered c'.pc = true ∨ (running c' = false ∧ isComplete c'.promotion = true)

theorem goOn_moved {next : PromotionState} {context : String} {pc : Pc}
    (hok : c.promotion.state ≠ .promotionFailed) (hrank : c.promotion.state.rank < next.rank)
    (hpc : stateAt pc = some next) (hphase : remembered pc = true) : Moved c (goOn c next context pc) := by
  have hgo : transitionTo c.promotion next none = .ok { c.promotion with state := next, error := c.promotion.error } := by
    unfold transitionTo
    rw [if_neg]
    · rfl
    · grind
  unfold goOn
  rw [hgo]
  refine ⟨rfl, rfl, fun st hst => ?_, fun _ => .inl hphase⟩
  rw [show stateAt pc = some st from hst] at hpc
  cases hpc
  rfl

theorem fail_moved {cause e : PromotionError} (hok : c.promotion.state ≠ .promotionFailed) :
    Moved c (fail c cause e) := by
  have hrank : c.promotion.state.rank < PromotionState.promotionFailed.rank := by
    revert hok
    cases c.promotion.state <;> decide
  have hgo : transitionTo c.promotion .promotionFailed (some cause) =
      .ok { c.promotion with state := .promotionFailed, error := some cause } := by
    unfold transitionTo
    rw [if_neg]
    · rfl
    · grind
  unfold fail
  rw [hgo]
  refine ⟨rfl, rfl, fun st hst => ?_, fun _ => .inl rfl⟩
  cases hst
  rfl

theorem pc_moved {pc : Pc} (hstate : ∀ st, stateAt pc = some st → c.promotion.state = st)
    (hphase : remembered c.pc = true → remembered pc = true) : Moved c { c with pc := pc } :=
  ⟨rfl, rfl, hstate, fun h => .inl (hphase h)⟩

theorem done_moved {r : Result} (h : remembered c.pc = true → isComplete c.promotion = true) :
    Moved c { c with pc := .done r } :=
  ⟨rfl, rfl, (fun _ hst => nomatch hst), fun hc => .inr ⟨rfl, h hc⟩⟩

theorem refuse_moved {e : PromotionError} (h : remembered c.pc = false) : Moved c (refuse c e) :=
  done_moved fun hc => by
    rw [h] at hc
    cases hc

theorem assign_moved (hbumped : c.promotion.state = .epochBumped) (hpc : c.pc = .assign) :
    Moved c (advance m db c o).2 := by
  simp only [advance, hpc]
  split
  · next db' epoch ha =>
    have hgo : Moved { c with promotion := { c.promotion with newEpoch := epoch } }
        (goOn { c with promotion := { c.promotion with newEpoch := epoch } } .epochWritten
          "transition to epoch written" .updateEpoch) :=
      goOn_moved (by simp [hbumped]) (by simp [hbumped, PromotionState.rank]) rfl rfl
    exact ⟨hgo.manager, hgo.jobID, hgo.state, hgo.phase⟩
  · exact fail_moved (by rw [hbumped]; decide)
  · exact fail_moved (by rw [hbumped]; decide)

theorem advance_moved (hstate : ∀ st, stateAt c.pc = some st → c.promotion.state = st)
    (hcreates : c.pc = .create → o = .ok ∧ (create db c.promotion).isSome) : Moved c (advance m db c o).2 := by
  cases hpc : c.pc with
  | entry | track | done =>
    simp only [advance, hpc]
    exact ⟨rfl, rfl, hstate, fun hc => by rw [hpc] at hc; cases hc⟩
  | lookup =>
    simp only [advance, hpc]
    split
    · exact done_moved fun hc => by rw [hpc] at hc; cases hc
    · exact pc_moved (fun st hst => by cases hst) fun hc => by rw [hpc] at hc; cases hc
  | readEpoch =>
    have hbefore : remembered c.pc = false := by rw [hpc]; rfl
    simp only [advance, hpc]
    split_ifs
    · exact refuse_moved hbefore
    · exact refuse_moved hbefore
    · refine ⟨rfl, rfl, fun st hst => ?_, fun hc => by rw [hbefore] at hc; cases hc⟩
      cases hst
      rfl
  | create =>
    have hpending := hstate .pending (by rw [hpc]; rfl)
    obtain ⟨rfl, hsome⟩ := hcreates hpc
    obtain ⟨db', hdb'⟩ := Option.isSome_iff_exists.mp hsome
    simp only [advance, hpc, hdb']
    exact goOn_moved (by rw [hpending]; decide) (by rw [hpending]; decide) rfl rfl
  | fence =>
    have hbumped := hstate .epochBumped (by rw [hpc]; rfl)
    have hassign : Moved c { c with pc := .assign } :=
      pc_moved (fun st hst => by cases hst; exact hbumped) fun _ => rfl
    simp only [advance, hpc]
    split_ifs
    · exact hassign
    · exact fail_moved (by rw [hbumped]; decide)
    · exact fail_moved (by rw [hbumped]; decide)
    · exact hassign
  | assign => exact assign_moved (hstate .epochBumped (by rw [hpc]; rfl)) hpc
  | updateEpoch =>
    have hwritten := hstate .epochWritten (by rw [hpc]; rfl)
    simp only [advance, hpc]
    cases o with
    | failed => exact fail_moved (by rw [hwritten]; decide)
    | lost => exact fail_moved (by rw [hwritten]; decide)
    | ok =>
      dsimp only
      split_ifs
      · exact goOn_moved (by rw [hwritten]; decide) (by rw [hwritten]; decide) rfl rfl
      · exact pc_moved (fun st hst => by cases hst; exact hwritten) fun _ => rfl
  | confirmEpoch | revalidate | recover =>
    have hbefore := hstate _ (by rw [hpc]; rfl)
    simp only [advance, hpc]
    split_ifs <;> first
      | exact fail_moved (by rw [hbefore]; decide)
      | exact goOn_moved (by rw [hbefore]; decide) (by rw [hbefore]; decide) rfl rfl
  | recordFailure | recordSuccess =>
    have hended := hstate _ (by rw [hpc]; rfl)
    simp only [advance, hpc]
    exact done_moved fun _ => by simp [isComplete, hended]

theorem enter_moved {w : World} (hpc : c.pc = .entry) : Moved c (enter m w c) := by
  have hbefore : remembered c.pc = false := by rw [hpc]; rfl
  unfold enter
  split_ifs
  · exact refuse_moved hbefore
  · exact refuse_moved hbefore
  · exact refuse_moved hbefore
  · exact pc_moved (fun st hst => by cases hst) fun hc => by rw [hbefore] at hc; cases hc

end

section

structure Inv (w : World) : Prop where
  states : ∀ (i : ℕ) (c : Call), w.calls[i]? = some c → ∀ st, stateAt c.pc = some st → c.promotion.state = st
  tracked : ∀ (manager : ℕ) (jobID : Bytes) (i : ℕ), w.tracked manager jobID = some i →
    ∃ c : Call, w.calls[i]? = some c ∧ c.manager = manager ∧ c.jobID = jobID ∧ (remembered c.pc = true ∨ (running c = false ∧ isComplete c.promotion = true))

variable {managers : ℕ → Manager} {w w' : World} {i : ℕ} {c c' : Call}

theorem inv_moved {db : Db} (h : Inv w) (hc : w.calls[i]? = some c) (hrunning : running c = true) (hmoved : Moved c c') :
    Inv { w with db := db, calls := w.calls.set i c' } := by
  constructor
  · intro k d hd st hst
    rcases (Slots.getElem?_set hc).mp hd with ⟨-, rfl⟩ | ⟨-, hd⟩
    · exact hmoved.state st hst
    · exact h.states k d hd st hst
  · intro manager jobID k hk
    obtain ⟨d, hd, hmanager, hjob, hphase⟩ := h.tracked manager jobID k hk
    by_cases hik : i = k
    · subst hik
      cases hc.symm.trans hd
      refine ⟨c', (Slots.getElem?_set hc).mpr (.inl ⟨rfl, rfl⟩), hmoved.manager.trans hmanager,
        hmoved.jobID.trans hjob, ?_⟩
      rcases hphase with hremembered | ⟨hended, -⟩
      · exact hmoved.phase hremembered
      · rw [hrunning] at hended
        cases hended
    · exact ⟨d, by rw [List.getElem?_set_ne hik]; exact hd, hmanager, hjob, hphase⟩

theorem inv_track (h : Inv w) (hc : w.calls[i]? = some c) (hpc : c.pc = .track) :
    Inv { setTracked w c.manager c.jobID i with calls := w.calls.set i { c with pc := .create } } := by
  have hpending := h.states i c hc .pending (by rw [hpc]; rfl)
  have hlength := (List.getElem?_eq_some_iff.mp hc).1
  have hmoved : Moved c { c with pc := .create } :=
    pc_moved (fun st hst => by cases hst; exact hpending) fun hr => by rw [hpc] at hr; cases hr
  have hbase : Inv { w with db := w.db, calls := w.calls.set i { c with pc := .create } } :=
    inv_moved h hc (by simp [running, hpc]) hmoved
  refine ⟨hbase.states, fun manager jobID k hk => ?_⟩
  by_cases hsame : manager = c.manager ∧ jobID = c.jobID
  · obtain ⟨rfl, rfl⟩ := hsame
    have hki : k = i := by simpa [setTracked] using hk.symm
    subst hki
    exact ⟨_, List.getElem?_set_self hlength, rfl, rfl, .inl rfl⟩
  · apply hbase.tracked manager jobID k
    rw [← hk]
    by_cases hmanager : manager = c.manager
    · subst hmanager
      have hjob : jobID ≠ c.jobID := fun hjob => hsame ⟨rfl, hjob⟩
      simp [setTracked, hjob]
    · simp [setTracked, hmanager]

theorem step_inv (w : World) (e : Event) (w' : World) (h : Inv w) (hok : creates w e = true)
    (hstep : step managers w e = some w') : Inv w' := by
  cases e with
  | promote =>
    cases hstep
    constructor
    · intro k d hd st hst
      rcases Nat.lt_or_ge k w.calls.length with hk | hk
      · rw [List.getElem?_append_left hk] at hd
        exact h.states k d hd st hst
      · rw [List.getElem?_append_right hk] at hd
        rw [List.mem_singleton.mp (List.mem_of_getElem? hd)] at hst
        cases hst
    · grind [Inv]
  | advance i o =>
    cases hc : w.calls[i]? with
    | none => simp [step, hc] at hstep
    | some c =>
      have hcreates : c.pc = .create → o = .ok ∧ (create w.db c.promotion).isSome := by
        intro hpc
        simpa [creates, hc, hpc] using hok
      have hmoved : Moved c (advance (managers c.manager) w.db c o).2 := advance_moved (h.states i c hc) hcreates
      cases hpc : c.pc with
      | done => simp [step, hc, hpc] at hstep
      | entry =>
        simp only [step, hc, hpc] at hstep
        cases hstep
        exact inv_moved h hc (by simp [running, hpc]) (enter_moved hpc)
      | track =>
        simp only [step, hc, hpc] at hstep
        cases hstep
        exact inv_track h hc hpc
      | _ =>
        simp only [step, hc, hpc] at hstep
        cases hstep
        exact inv_moved h hc (by simp [running, hpc]) hmoved

theorem initial_inv (db : Db) : Inv (initial db) :=
  ⟨fun i c hc => by simp [initial] at hc, fun manager jobID i hi => by simp [initial] at hi⟩

/-- A call that is refused because of a promotion in progress: another call for its job has not returned. -/
theorem run_retryable {db : Db} {events : List Event} (hok : meets (step managers) creates (initial db) events = true)
    (hrun : run (step managers) (initial db) events = some w) {o : Outcome} (hc : w.calls[i]? = some c)
    (hentry : c.pc = .entry) (hstep : step managers w (.advance i o) = some w') (hc' : w'.calls[i]? = some c')
    (hrefused : c'.pc = .done (.refused .alreadyPromoting)) :
    ∃ (k : ℕ) (d : Call), k ≠ i ∧ w.calls[k]? = some d ∧ d.manager = c.manager ∧ d.jobID = c.jobID ∧ running d = true := by
  have h : Inv w := run_invariant step_inv (initial_inv db) hok hrun
  simp only [step, hc, hentry] at hstep
  cases hstep
  rw [List.getElem?_set_self (List.getElem?_eq_some_iff.mp hc).1] at hc'
  cases hc'
  have hpromoting : promoting w c.manager c.jobID = true := by
    unfold enter refuse at hrefused
    split_ifs at hrefused with hvalid hstandby hpromoting
    all_goals first
      | exact hpromoting
      | simp at hrefused
  unfold promoting at hpromoting
  split at hpromoting
  · next d hd =>
    obtain ⟨k, hk, hd⟩ := Option.bind_eq_some_iff.mp hd
    obtain ⟨d', hd', hmanager, hjob, hphase⟩ := h.tracked _ _ k hk
    rw [hd] at hd'
    cases hd'
    have hremembered : remembered d.pc = true := by
      rcases hphase with hremembered | ⟨-, hcomplete⟩
      · exact hremembered
      · rw [hcomplete] at hpromoting
        cases hpromoting
    refine ⟨k, d, ?_, hd, hmanager, hjob, ?_⟩
    · rintro rfl
      rw [hc] at hd
      cases hd
      rw [hentry] at hremembered
      cases hremembered
    · unfold running
      split
      · next r hdone =>
        rw [hdone] at hremembered
        cases hremembered
      · rfl
  · cases hpromoting

end

def retried (o : Outcome) : List Event :=
  promoteOrders 0 "promotion-0000001" :: List.replicate 4 (.advance 0 .ok) ++
    [.advance 0 o, promoteOrders 0 "promotion-0000002"]

def phases (w : World) : List (Pc × Bytes) := w.calls.map fun c => (c.pc, c.jobID)

def observed (o : Outcome) : Option (List (Pc × Bytes) × List (Pc × Bytes)) :=
  (run (step fun _ => standby) (initial emptyDb) (retried o)).bind fun w =>
    (step (fun _ => standby) w (.advance 1 .ok)).map fun w' => (phases w, phases w')

theorem observed_some {o : Outcome} {first : Pc} {last : Pc}
    (h : observed o = some ([(first, lit "orders"), (.entry, lit "orders")],
      [(first, lit "orders"), (last, lit "orders")])) :
    ∃ (w w' : World) (a c c' : Call), run (step fun _ => standby) (initial emptyDb) (retried o) = some w ∧
      w.calls = [a, c] ∧ a.pc = first ∧ c.pc = .entry ∧ step (fun _ => standby) w (.advance 1 .ok) = some w' ∧
      w'.calls[1]? = some c' ∧ c'.pc = last := by
  obtain ⟨w, hw, h⟩ := Option.bind_eq_some_iff.mp h
  obtain ⟨w', hw', hphases⟩ := Option.map_eq_some_iff.mp h
  obtain ⟨hbefore, hafter⟩ := Prod.mk.inj hphases
  obtain ⟨a, rest, hcalls, ha, hrest⟩ := List.map_eq_cons_iff.mp hbefore
  obtain ⟨c, rest, rfl, hc, hnil⟩ := List.map_eq_cons_iff.mp hrest
  cases List.map_eq_nil_iff.mp hnil
  obtain ⟨a', rest, hcalls', -, hrest⟩ := List.map_eq_cons_iff.mp hafter
  obtain ⟨c', rest, rfl, hc', -⟩ := List.map_eq_cons_iff.mp hrest
  exact ⟨w, w', a, c, c', hw, hcalls, congrArg Prod.fst ha, congrArg Prod.fst hc, hw', by simp [hcalls'],
    congrArg Prod.fst hc'⟩

/-- The promotion that could not be written down is remembered as pending for good. -/
theorem create_failure_blocks :
    ∃ (w w' : World) (a c c' : Call), run (step fun _ => standby) (initial emptyDb) (retried .failed) = some w ∧
      w.calls = [a, c] ∧ running a = false ∧ c.pc = .entry ∧
      step (fun _ => standby) w (.advance 1 .ok) = some w' ∧ w'.calls[1]? = some c' ∧
      c'.pc = .done (.refused .alreadyPromoting) := by
  have hrun : observed .failed = some
      ([(.done (.refused (.wrapped "create promotion" (.database "create promotion"))), lit "orders"),
        (.entry, lit "orders")],
      [(.done (.refused (.wrapped "create promotion" (.database "create promotion"))), lit "orders"),
        (.done (.refused .alreadyPromoting), lit "orders")]) := by decide +kernel
  obtain ⟨w, w', a, c, c', hw, hcalls, ha, hc, hstep, hc', hrefused⟩ := observed_some hrun
  exact ⟨w, w', a, c, c', hw, hcalls, by simp [running, ha], hc, hstep, hc', hrefused⟩

/-- Where it was written down, the second call is refused while the first goes on. -/
theorem run_retryable_running :
    ∃ (w w' : World) (c c' : Call), run (step fun _ => standby) (initial emptyDb) (retried .ok) = some w ∧
      w.calls[1]? = some c ∧ step (fun _ => standby) w (.advance 1 .ok) = some w' ∧ w'.calls[1]? = some c' ∧
      c'.pc = .done (.refused .alreadyPromoting) ∧
      ∃ (k : ℕ) (d : Call), k ≠ 1 ∧ w.calls[k]? = some d ∧ d.manager = c.manager ∧ d.jobID = c.jobID ∧
        running d = true := by
  have hrun : observed .ok = some ([(.fence, lit "orders"), (.entry, lit "orders")],
      [(.fence, lit "orders"), (.done (.refused .alreadyPromoting), lit "orders")]) := by decide +kernel
  obtain ⟨w, w', a, c, c', hw, hcalls, -, hentry, hstep, hc', hrefused⟩ := observed_some hrun
  have hc : w.calls[1]? = some c := by simp [hcalls]
  exact ⟨w, w', c, c', hw, hc, hstep, hc', hrefused,
    run_retryable (by decide +kernel) hw hc hentry hstep hc' hrefused⟩

end AstraSync.PromotionRetries
