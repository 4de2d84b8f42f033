import AstraSync.Library.Slots
import AstraSync.Library.Transitions
import AstraSync.RecoveryCalls

namespace AstraSync.RecoveryRequests

open ByteStrings CheckpointRecovery Programs RecoveryCalls Transitions

structure Request where
  (jobID promotionID : Bytes)
  newEpoch : Int64
  deriving DecidableEq

structure Response where
  (jobID promotionID : Bytes)
  state : RecoveryState
  (checkpointSequence recoveredEpoch : Int64)
  deriving DecidableEq

def recoveryResponse (q : Request) (result : Recovery) : Response :=
  match result.checkpoint with
  | none => ⟨result.jobID, q.promotionID, result.state, 0, result.newEpoch⟩
  | some checkpoint => ⟨result.jobID, q.promotionID, result.state, checkpoint.sequence, checkpoint.epoch⟩

def Request.key (q : Request) : Bytes := q.jobID ++ [0] ++ q.promotionID

inductive ServerCall
  | lookup
  | manager (c : Call)
  | record (r : Recovery)

@[reducible] def ServerAnswer : ServerCall → Type
  | .lookup => Option Recovery
  | .manager c => Answer c
  | .record _ => Unit

abbrev Serving := Program ServerCall ServerAnswer

def recoverForPromotion (dependencies parser : Bool) (q : Request) : Serving (Except RecoveryError Response) := do
  let existing ← perform ServerCall.lookup
  match existing with
  | some r => return .ok (recoveryResponse q r)
  | none =>
    let outcome ← (recover dependencies parser q.jobID q.newEpoch).embed ServerCall.manager fun _ r => r
    match outcome with
    | .error (_, e) => return .error e
    | .ok r =>
      let _ ← perform (ServerCall.record r)
      return .ok (recoveryResponse q r)

structure ServedCall where
  request : Request
  program : Serving (Except RecoveryError Response)

structure Server where
  active : Bytes → Option Recovery
  calls : List ServedCall
  restored : List Request

def Server.initial : Server := ⟨fun _ => none, [], []⟩

def restores : (c : Call) → Answer c → Bool
  | .restore _, restored => restored
  | _, _ => false

def exec (q : Request) (s : Server) : (e : ServerCall) → ((c : Call) → Answer c) → Option (Server × ServerAnswer e)
  | .lookup, _ => some (s, s.active q.key)
  | .manager c, answer => some ({ s with restored := s.restored ++ if restores c (answer c) then [q] else [] }, answer c)
  | .record r, _ => some ({ s with active := Function.update s.active q.key (some r) }, ())

inductive Event
  | request (q : Request)
  | advance (call : ℕ) (answer : (c : Call) → Answer c)

def step (dependencies parser : Bool) (s : Server) : Event → Option Server
  | .request q => some { s with calls := s.calls ++ [⟨q, recoverForPromotion dependencies parser q⟩] }
  | .advance i answer =>
    match s.calls[i]? with
    | none => none
    | some c => (c.program.resume (exec c.request) s answer).map fun (s', rest) =>
      { s' with calls := s'.calls.set i ⟨c.request, rest⟩ }

section

variable {dependencies parser : Bool}

def view (k : Bytes) (s : Server) : Option Recovery × List Request := (s.active k, s.restored.filter fun q => q.key = k)

def alone (q : Request) : Rules (Option Recovery × List Request) ServerCall ServerAnswer where
  outcome v e r u := match e, r with
    | .lookup, r => r = v.1 ∧ u = v
    | .manager c, r => u = (v.1, v.2 ++ if restores c r then [q] else [])
    | .record r, _ => u = (some r, v.2)
  rely v u := v = u
  guarantee _ _ _ u := u.2.length ≤ 1

def Settled (q : Request) (v : Option Recovery × List Request) : Prop :=
  v = (none, []) ∨ ∃ r, v = (some r, [q])

def Answered (q : Request) (result : Except RecoveryError Response) (v : Option Recovery × List Request) : Prop :=
  Settled q v ∧ ∀ response, result = .ok response → q ∈ v.2

variable {q : Request} {v : Option Recovery × List Request} {s : Server}

theorem Settled.length (h : Settled q v) : v.2.length ≤ 1 := by
  rcases h with rfl | ⟨r, rfl⟩
  · exact Nat.zero_le _
  · exact Nat.le_refl _

theorem restored_snoc (events : List RecoveryCalls.Event) (c : Call) (r : Answer c) :
    Restored (events ++ [⟨c, r⟩]) ↔ Restored events ∨ restores c r = true := by
  constructor
  · rintro ⟨manifest, hmem⟩
    rcases List.mem_append.mp hmem with hmem | hmem
    · exact .inl ⟨manifest, hmem⟩
    · cases List.mem_singleton.mp hmem
      exact .inr rfl
  · rintro (⟨manifest, hmem⟩ | hrestores)
    · exact ⟨manifest, List.mem_append_left _ hmem⟩
    · cases c with
      | restore manifest =>
        obtain rfl : r = true := hrestores
        exact ⟨manifest, List.mem_append_right _ (List.mem_singleton_self _)⟩
      | _ => cases hrestores

def Coupled (q : Request) (events : List RecoveryCalls.Event) (v : Option Recovery × List Request) : Prop :=
  v.1 = none ∧ (Restored events ∧ v.2 = [q] ∨ ¬Restored events ∧ v.2 = [])

variable {events : List RecoveryCalls.Event}

theorem Coupled.call {c : Call}
    {jobID : Bytes} {newEpoch : Int64} (h : Coupled q events v) (hok : InOrder jobID newEpoch events c) (r : Answer c) :
    Coupled q (events ++ [⟨c, r⟩]) (v.1, v.2 ++ if restores c r then [q] else []) := by
  obtain ⟨hnone, hcouple⟩ := h
  refine ⟨hnone, ?_⟩
  rw [restored_snoc]
  by_cases hrestores : restores c r = true
  · have hnot : ¬Restored events := by
      cases c with
      | restore manifest => exact (hok.2 manifest rfl).2
      | _ => cases hrestores
    rcases hcouple with ⟨hyes, -⟩ | ⟨-, hempty⟩
    · exact absurd hyes hnot
    · exact .inl ⟨.inr hrestores, by simp [hempty, hrestores]⟩
  · simpa [hrestores] using hcouple

theorem Coupled.length (h : Coupled q events v) : v.2.length ≤ 1 := by
  rcases h.2 with ⟨-, heq⟩ | ⟨-, heq⟩ <;> simp [heq]

theorem recoverForPromotion_alone (q : Request) (hv : Settled q v) :
    Obeys (alone q) (Answered q) (recoverForPromotion dependencies parser q) v := by
  refine obeys_perform fun u hu existing w hw => ?_
  obtain rfl : v = u := hu
  obtain ⟨rfl, rfl⟩ : existing = v.1 ∧ w = v := hw
  refine ⟨hv.length, ?_⟩
  rcases hv with rfl | ⟨r, rfl⟩
  · have hstart : Coupled q [] (none, []) := by
      refine ⟨rfl, .inr ⟨?_, rfl⟩⟩
      rintro ⟨manifest, hmem⟩
      exact absurd hmem List.not_mem_nil
    have hsafe := safe_recover dependencies parser q.jobID q.newEpoch
    refine obeys_bind (obeys_weaken (obeys_embed (Coupled q) hsafe hstart ?_) ?_)
    · rintro events v c hcoupled hok u hu r w hw
      obtain rfl : v = u := hu
      obtain rfl : w = (v.1, v.2 ++ if restores c r then [q] else []) := hw
      have hnext := hcoupled.call hok r
      exact ⟨hnext.length, hnext⟩
    · rintro outcome ⟨active, restored⟩ ⟨events, ⟨-, hfinished⟩, hnone, hcouple⟩
      obtain rfl : active = none := hnone
      cases outcome with
      | error =>
        refine ⟨.inl ?_, nofun⟩
        rcases hcouple with ⟨hyes, -⟩ | ⟨-, hempty⟩
        · exact absurd hyes hfinished.2
        · rw [show restored = [] from hempty]
      | ok r =>
        obtain rfl : restored = [q] := by
          rcases hcouple with ⟨-, heq⟩ | ⟨hno, -⟩
          · exact heq
          · exact absurd hfinished.2 hno
        refine obeys_perform fun u hu answer w hw => ?_
        obtain rfl : (none, [q]) = u := hu
        obtain rfl : w = (some r, [q]) := hw
        exact ⟨Nat.le_refl _, .inr ⟨r, rfl⟩, fun _ _ => List.mem_singleton_self q⟩
  · exact ⟨.inr ⟨r, rfl⟩, fun _ _ => List.mem_singleton_self q⟩

variable {answer : (c : Call) → Answer c}

theorem exec_view {u : Server} {e : ServerCall} {r : ServerAnswer e} (h : exec q s e answer = some (u, r)) :
    (alone q).outcome (view q.key s) e r (view q.key u) ∧ u.calls = s.calls ∧
      (∀ k, k ≠ q.key → view k u = view k s) ∧ ∀ q' ∈ s.restored, q' ∈ u.restored := by
  cases e with
  | lookup =>
    cases h
    exact ⟨⟨rfl, rfl⟩, rfl, fun _ _ => rfl, fun _ hq => hq⟩
  | manager c =>
    cases h
    refine ⟨?_, rfl, fun k hk => ?_, fun q' hq' => List.mem_append_left _ hq'⟩
    · change (_, _) = (_, _)
      rw [List.filter_append]
      by_cases hrestores : restores c (answer c) = true <;> simp [view, hrestores]
    · unfold view
      rw [List.filter_append]
      by_cases hrestores : restores c (answer c) = true <;> simp [hrestores, Ne.symm hk]
  | record =>
    cases h
    refine ⟨?_, rfl, fun k hk => ?_, fun _ hq => hq⟩
    · change (_, _) = (_, _)
      simp [view]
    · simp [view, Function.update_of_ne hk]

def oneByOne (s : Server) : Event → Bool
  | .request q => s.calls.all fun c => c.request.key ≠ q.key || (c.request = q && c.program.finished)
  | .advance _ _ => true

def OthersDone (s : Server) (q : Request) (i : ℕ) : Prop :=
  ∀ (j : ℕ) c, j ≠ i → s.calls[j]? = some c → c.request.key = q.key → c.request = q ∧ c.program.finished = true

structure Inv (s : Server) : Prop where
  once : ∀ k, (view k s).2.length ≤ 1
  busy : ∀ (i : ℕ) c, s.calls[i]? = some c → c.program.finished = false →
    Obeys (alone c.request) (Answered c.request) c.program (view c.request.key s) ∧ OthersDone s c.request i
  idle : ∀ q, (∀ (i : ℕ) c, s.calls[i]? = some c → c.request.key = q.key → c.request = q ∧ c.program.finished = true) →
    Settled q (view q.key s)
  answered : ∀ (i : ℕ) c response, s.calls[i]? = some c → c.program = .done (.ok response) → c.request ∈ s.restored

theorem inv_initial : Inv .initial := by
  refine ⟨fun k => Nat.zero_le _, nofun, fun q _ => .inl rfl, nofun⟩

theorem inv_request (h : Inv s) (hok : oneByOne s (.request q) = true) :
    Inv { s with calls := s.calls ++ [⟨q, recoverForPromotion dependencies parser q⟩] } := by
  have hsame : ∀ (i : ℕ) c, s.calls[i]? = some c → c.request.key = q.key → c.request = q ∧ c.program.finished = true := by
    intro i c hi hkey
    have hcall := List.all_eq_true.mp hok _ (List.mem_of_getElem? hi)
    simpa [hkey] using hcall
  refine ⟨h.once, ?_, ?_, ?_⟩
  · intro i c hi hp
    rcases Slots.getElem?_snoc.mp hi with hi | ⟨rfl, rfl⟩
    · obtain ⟨hobeys, hothers⟩ := h.busy i c hi hp
      refine ⟨hobeys, fun j c' hj hcall hkey => ?_⟩
      rcases Slots.getElem?_snoc.mp hcall with hcall | ⟨-, rfl⟩
      · exact hothers j c' hj hcall hkey
      · grind
    · refine ⟨recoverForPromotion_alone q (h.idle q hsame), fun j c' hj hcall hkey => ?_⟩
      rcases Slots.getElem?_snoc.mp hcall with hcall | ⟨rfl, -⟩
      · exact hsame j c' hcall hkey
      · exact absurd rfl hj
  · intro q' hidle
    refine h.idle q' fun i c hi hkey => hidle i c ?_ hkey
    exact Slots.getElem?_snoc.mpr (.inl hi)
  · intro i c response hi hdone
    rcases Slots.getElem?_snoc.mp hi with hi | ⟨-, rfl⟩
    · exact h.answered i c response hi hdone
    · cases hdone

theorem inv_advance {u : Server} {i : ℕ} {c : ServedCall}
    {rest : Serving (Except RecoveryError Response)} (h : Inv s) (hi : s.calls[i]? = some c)
    (hresume : c.program.resume (exec c.request) s answer = some (u, rest)) :
    Inv { u with calls := u.calls.set i ⟨c.request, rest⟩ } := by
  obtain ⟨hbusy, e, r, hexec⟩ := Program.resume_exec hresume
  obtain ⟨-, hcalls, hviews, hrestored⟩ := exec_view hexec
  obtain ⟨hobeys, hothers⟩ := h.busy i c hi hbusy
  obtain ⟨⟨e', r', hguarantee⟩, hrest⟩ := obeys_resume (view c.request.key) hobeys hresume
    (fun e r hexec => (exec_view hexec).1) rfl
  rw [hcalls]
  refine ⟨fun k => ?_, ?_, ?_, ?_⟩
  · by_cases hk : k = c.request.key
    · subst hk
      exact hguarantee
    · change (view k u).2.length ≤ 1
      rw [hviews k hk]
      exact h.once k
  · intro j c' hj hp
    rcases (Slots.getElem?_set hi).mp hj with ⟨rfl, rfl⟩ | ⟨hji, hj⟩
    · refine ⟨hrest, fun k c'' hk hcall hkey => ?_⟩
      rcases (Slots.getElem?_set hi).mp hcall with ⟨rfl, -⟩ | ⟨-, hcall⟩
      · exact absurd rfl hk
      · exact hothers k c'' hk hcall hkey
    · obtain ⟨hobeys', hothers'⟩ := h.busy j c' hj hp
      have hkey : c'.request.key ≠ c.request.key := by
        intro hkey
        obtain ⟨-, hfinished⟩ := hothers j c' hji hj hkey
        rw [hfinished] at hp
        cases hp
      refine ⟨?_, fun k c'' hk hcall hkey' => ?_⟩
      · change Obeys _ _ _ (view c'.request.key u)
        rw [hviews _ hkey]
        exact hobeys'
      · rcases (Slots.getElem?_set hi).mp hcall with ⟨rfl, rfl⟩ | ⟨-, hcall⟩
        · exact absurd hkey'.symm hkey
        · exact hothers' k c'' hk hcall hkey'
  · intro q hidle
    change Settled q (view q.key u)
    by_cases hkey : c.request.key = q.key
    · obtain ⟨rfl, hfinished⟩ := hidle i _ ((Slots.getElem?_set hi).mpr (.inl ⟨rfl, rfl⟩)) hkey
      cases rest with
      | done => exact hrest.1
      | call => cases hfinished
    · rw [hviews q.key (Ne.symm hkey)]
      refine h.idle q fun j c' hj hkey' => ?_
      have hji : j ≠ i := by
        grind
      exact hidle j c' ((Slots.getElem?_set hi).mpr (.inr ⟨hji, hj⟩)) hkey'
  · intro j c' response hj hdone
    rcases (Slots.getElem?_set hi).mp hj with ⟨rfl, rfl⟩ | ⟨-, hj⟩
    · obtain rfl : rest = .done (.ok response) := hdone
      exact (List.mem_filter.mp (hrest.2 response rfl)).1
    · exact hrestored _ (h.answered j c' response hj hdone)

theorem inv_step {t : Server} {a : Event} (h : Inv s) (hok : oneByOne s a = true)
    (hstep : step dependencies parser s a = some t) :
    Inv t := by
  cases a with
  | request =>
    cases hstep
    exact inv_request h hok
  | advance =>
    unfold step at hstep
    dsimp only at hstep
    split at hstep
    · cases hstep
    · grind [Option.map_eq_some_iff, inv_advance]

/-- Requests one by one: the checkpoint of a promotion is restored once at most, and whoever is answered has had its own
epoch recovered. -/
theorem run_restores_once {events : List Event} {t : Server}
    (hmeets : meets (step dependencies parser) oneByOne .initial events = true)
    (hrun : run (step dependencies parser) .initial events = some t) :
    (∀ jobID promotionID, (t.restored.filter fun q => q.jobID = jobID ∧ q.promotionID = promotionID).length ≤ 1) ∧
      ∀ c ∈ t.calls, ∀ response, c.program = .done (.ok response) → c.request ∈ t.restored := by
  have hinv := run_invariant (fun s a t h hok hstep => inv_step h hok hstep) inv_initial hmeets hrun
  refine ⟨fun jobID promotionID => ?_, fun c hc response hdone => ?_⟩
  · refine le_trans ?_ (hinv.once (jobID ++ [0] ++ promotionID))
    refine (List.monotone_filter_right t.restored fun q hq => ?_).length_le
    have hq : q.jobID = jobID ∧ q.promotionID = promotionID := of_decide_eq_true hq
    simp [Request.key, hq]
  · obtain ⟨i, hi⟩ := List.mem_iff_getElem?.mp hc
    exact hinv.answered i c response hi hdone

end

def promoted (newEpoch : Int64) : Request := ⟨lit "orders", lit "promotion", newEpoch⟩

def advances (call steps : ℕ) : List Event := List.replicate steps (.advance call sampleAnswer)

def retried : List Event := .request (promoted 4) :: advances 0 12 ++ .request (promoted 4) :: advances 1 1

theorem run_restores_once_retried : ∃ t, run (step true false) .initial retried = some t ∧
    (∀ jobID promotionID, (t.restored.filter fun q => q.jobID = jobID ∧ q.promotionID = promotionID).length ≤ 1) ∧
      ∀ c ∈ t.calls, ∀ response, c.program = .done (.ok response) → c.request ∈ t.restored := by
  have hmeets : meets (step true false) oneByOne .initial retried = true := by decide
  exact ⟨_, rfl, run_restores_once hmeets rfl⟩

def answers (s : Server) : List (Option (Except RecoveryError Response)) :=
  s.calls.map fun c => match c.program with
    | .done result => some result
    | .call _ _ => none

/-- Two requests at a time restore the checkpoint twice; a later request with another epoch is told that all is done,
although nothing was recovered for it. -/
theorem restored_twice_or_not_at_all : (run (step true false) .initial
      (.request (promoted 4) :: .request (promoted 4) :: advances 0 1 ++ advances 1 12 ++ advances 0 11)).map
        (·.restored) =
        some [promoted 4, promoted 4] ∧
    (run (step true false) .initial
      (.request (promoted 4) :: advances 0 12 ++ .request (promoted 9) :: advances 1 1)).map
        (fun s => (answers s, s.restored)) =
      some ([some (.ok ⟨lit "orders", lit "promotion", .complete, 7, 3⟩),
        some (.ok ⟨lit "orders", lit "promotion", .complete, 7, 3⟩)], [promoted 4]) := by
  constructor <;> rfl

end AstraSync.RecoveryRequests
