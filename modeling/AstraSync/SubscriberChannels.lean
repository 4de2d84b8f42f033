import AstraSync.CheckpointAdmissions

namespace AstraSync.SubscriberChannels

open ByteStrings Transitions CheckpointPush CheckpointDelivery CheckpointAdmissions
open WalEntry (Entry)

section

inductive PublishPc
  | enter
  | visit (rest : List ℕ)
  | done

structure Publish where
  server : ℕ
  event : CheckpointEvent
  entry : Entry
  pc : PublishPc

structure Traffic where
  world : World
  publishes : List Publish

inductive Input
  | order (subscribers : List ℕ)
  | go
  | cancelled

inductive Event
  | service (e : CheckpointPush.Event)
  | publishCheckpoint (server : ℕ) (event : Option CheckpointEvent)
  | advance (j : ℕ) (input : Input)

def initial : Traffic := ⟨CheckpointPush.initial, []⟩

def PublishPc.rest : PublishPc → List ℕ
  | .visit rest => rest
  | _ => []

def PublishPc.locks : PublishPc → Bool
  | .visit _ => true
  | _ => false

def readLocked (t : Traffic) (server : ℕ) : Bool := t.publishes.any fun q => q.server = server && q.pc.locks

def publishedTo (w : World) (q : Publish) : List ℕ :=
  (List.range w.subscribers.length).filter fun s =>
    w.subscribers[s]?.any fun sub =>
      sub.connected && sub.server = q.server && (q.entry.region = [] || q.entry.region = sub.region)

def skipsEntry (subscription : CheckpointSubscription) (entry : Entry) : Bool :=
  (subscription.jobID ≠ [] && subscription.jobID ≠ entry.jobID) ||
    (subscription.filterBySequence && entry.sequence ≤ subscription.resumeFrom)

variable (t : Traffic)

def putPublish (j : ℕ) (q : Publish) : Traffic := { t with publishes := t.publishes.set j q }

def crash (server : ℕ) : Traffic where
  world := CheckpointPush.crash t.world server
  publishes := t.publishes.map fun q => if q.server = server then { q with pc := .done } else q

def publishCheckpoint (j : ℕ) (q : Publish) : Input → Option Traffic
  | .order subscribers =>
    match q.pc with
    | .enter =>
      if subscribers.Perm (publishedTo t.world q) then some (putPublish t j { q with pc := .visit subscribers }) else none
    | _ => none
  | .go =>
    match q.pc with
    | .visit [] => some (putPublish t j { q with pc := .done })
    | .visit (s :: rest) =>
      if skipsEntry (subscriptionOf t.world s) q.entry then some (putPublish t j { q with pc := .visit rest })
      else
        match t.world.subscribers[s]? with
        | none => none
        | some sub =>
          if !sub.connected then some (crash t q.server)
          else if sub.queue.length < queueCapacity then
            some (putPublish { t with world := { t.world with
              subscribers := t.world.subscribers.set s (enqueue sub ⟨q.event, none⟩) } } j { q with pc := .visit rest })
          else some (putPublish t j { q with pc := .done })
    | _ => none
  | .cancelled =>
    match q.pc with
    | .visit (s :: _) =>
      if skipsEntry (subscriptionOf t.world s) q.entry then none else some (putPublish t j { q with pc := .done })
    | _ => none

def writeLocks (w : World) : CheckpointPush.Event → Option ℕ
  | .join server _ _ _ => some server
  | .leave s => w.subscribers[s]?.map (·.server)
  | .advance i .go =>
    match w.calls[i]? with
    | some c =>
      match c.pc with
      | .deliver [] => some c.server
      | _ => none
    | none => none
  | _ => none

def panics (w : World) : CheckpointPush.Event → Option ℕ
  | .advance i .go =>
    match w.calls[i]? with
    | some c =>
      match c.pc with
      | .send s _ => if isConnected w s then none else some c.server
      | _ => none
    | none => none
  | _ => none

def serve (sha256 : Bytes → Bytes) (t : Traffic) (e : CheckpointPush.Event) : Option Traffic :=
  match e with
  | .publish _ _ => none
  | .crash server => some (crash t server)
  | e =>
    match panics t.world e with
    | some server => some (crash t server)
    | none =>
      if (writeLocks t.world e).any (readLocked t) then none
      else (CheckpointPush.step sha256 t.world e).map fun world => { t with world }

def step (sha256 : Bytes → Bytes) (t : Traffic) : Event → Option Traffic
  | .service e => serve sha256 t e
  | .publishCheckpoint server event =>
    match event with
    | none => some t
    | some event =>
      match event.walEntry with
      | none => some t
      | some entry => some { t with publishes := t.publishes ++ [⟨server, event, entry, .enter⟩] }
  | .advance j input => t.publishes[j]?.bind fun q => publishCheckpoint t j q input

def sendsOnClosed : Event → Bool
  | .service e => (panics t.world e).isSome
  | .advance j .go =>
    t.publishes[j]?.any fun q =>
      match q.pc with
      | .visit (s :: _) => !skipsEntry (subscriptionOf t.world s) q.entry && !isConnected t.world s
      | _ => false
  | _ => false

end

section

variable {sha256 : Bytes → Bytes} {w w' : World} {i s server : ℕ} {c c' : Call}

def Connected (w : World) (server s : ℕ) : Prop :=
  ∃ sub, w.subscribers[s]? = some sub ∧ sub.connected = true ∧ sub.server = server

theorem Connected.isConnected (h : Connected w server s) : isConnected w s = true := by
  obtain ⟨sub, hsub, hconnected, -⟩ := h
  simp [CheckpointPush.isConnected, hsub, hconnected]

def pending : Pc → List ℕ
  | .deliver rest => rest
  | .send s rest => s :: rest
  | _ => []

def Pushing (w : World) : Prop := ∀ c ∈ w.calls, ∀ s ∈ pending c.pc, Connected w c.server s

def Keeps (w w' : World) : Prop := ∀ server s, Connected w server s → Connected w' server s

theorem Keeps.refl (w : World) : Keeps w w := fun _ _ h => h

theorem keeps_set {sub sub' : Subscriber} (hsub : w.subscribers[s]? = some sub) (hserver : sub'.server = sub.server)
    (hconnected : sub'.connected = sub.connected) : Keeps w { w with subscribers := w.subscribers.set s sub' } := by
  intro server s' ⟨d, hd, hd'⟩
  by_cases hs : s = s'
  · subst hs
    rw [hsub] at hd
    cases hd
    refine ⟨sub', List.getElem?_set_self (List.getElem?_eq_some_iff.mp hsub).1, ?_⟩
    rw [hserver, hconnected]
    exact hd'
  · exact ⟨d, (List.getElem?_set_ne hs).trans hd, hd'⟩

theorem Pushing.set (h : Pushing w) (hkeeps : Keeps w w') (c' : Call) (hcalls : w'.calls = w.calls.set i c')
    (hpending : ∀ s ∈ pending c'.pc, Connected w c'.server s) : Pushing w' := by
  intro d hd s hs
  apply hkeeps
  rw [hcalls] at hd
  rcases List.mem_or_eq_of_mem_set hd with hd | rfl
  · exact h d hd s hs
  · exact hpending s hs

theorem subscribersOf_connected {region : Bytes} (h : s ∈ subscribersOf w server region) : Connected w server s := by
  have hany := (List.mem_filter.mp h).2
  cases hsub : w.subscribers[s]? with
  | none => simp [hsub] at hany
  | some sub =>
    simp only [hsub, Option.any_some, Bool.and_eq_true, decide_eq_true_eq] at hany
    exact ⟨sub, hsub, hany.1⟩

theorem advance_pushing {input : CheckpointPush.Input} (h : Pushing w) (hc : w.calls[i]? = some c)
    (o : Advance sha256 w i c input w') (hopen : ∀ s rest, input = .go → c.pc = .send s rest → isConnected w s = true) :
    Pushing w' ∧ Keeps w w' := by
  have hown := h c (List.mem_of_getElem? hc)
  cases o with
  | claimRefused | claimFound | foundInProgress | found | full | cancelled | uncommitted | releaseFailed | releaseKept
  | claimed | claimLost | released | acknowledged =>
    exact ⟨h.set (Keeps.refl _) _ rfl nofun, Keeps.refl _⟩
  | committed hpc row hrow o pc hnext =>
    refine ⟨h.set (Keeps.refl _) _ rfl ?_, Keeps.refl _⟩
    rcases hnext with rfl | rfl <;> nofun
  | snapshot hpc subscribers horder =>
    refine ⟨h.set (Keeps.refl _) _ rfl fun s hs => ?_, Keeps.refl _⟩
    exact subscribersOf_connected (horder.mem_iff.mp hs)
  | skipped s rest hpc =>
    rw [hpc] at hown
    exact ⟨h.set (Keeps.refl _) _ rfl fun s' hs => hown s' (List.mem_cons_of_mem _ hs), Keeps.refl _⟩
  | looked s rest hpc =>
    rw [hpc] at hown
    exact ⟨h.set (Keeps.refl _) _ rfl hown, Keeps.refl _⟩
  | panicked => grind [CheckpointPush.isConnected]
  | sent s rest hpc sub hsub =>
    rw [hpc] at hown
    have hkeeps : Keeps w { w with subscribers := w.subscribers.set s (enqueue sub ⟨c.push.event, some i⟩) } :=
      keeps_set hsub rfl rfl
    exact ⟨h.set hkeeps _ rfl fun s' hs => hown s' (List.mem_cons_of_mem _ hs), hkeeps⟩

theorem Connected.leave {sub : Subscriber} {s' : ℕ} (h : Connected w server s') (hne : s' ≠ s) :
    Connected { w with subscribers := w.subscribers.set s sub } server s' := by
  obtain ⟨d, hd, hd'⟩ := h
  exact ⟨d, (List.getElem?_set_ne hne.symm).trans hd, hd'⟩

theorem Connected.crash {down : ℕ} (h : Connected w server s) (hne : server ≠ down) :
    Connected (CheckpointPush.crash w down) server s := by
  obtain ⟨d, hd, hconnected, rfl⟩ := h
  refine ⟨d, ?_, hconnected, rfl⟩
  simp [CheckpointPush.crash, hd, hne]

theorem Pushing.crash (h : Pushing w) (down : ℕ) : Pushing (CheckpointPush.crash w down) := by
  intro d hd s hs
  obtain ⟨c, hc, rfl⟩ := List.mem_map.mp (show d ∈ w.calls.map (cut down) from hd)
  rcases cut_cases down c with heq | ⟨-, heq⟩
  · rw [heq] at hs ⊢
    refine (h c hc s hs).crash fun hdown => ?_
    -- a call of that server that is not done would have been cut
    unfold cut at heq
    split at heq
    · next hpc => rw [hpc] at hs; cases hs
    · grind
  · rw [heq] at hs
    cases hs

end

variable {sha256 : Bytes → Bytes} {t t' : Traffic} {w : World} {j : ℕ} {q : Publish}

structure Open (t : Traffic) : Prop where
  pushes : Pushing t.world
  publishes : ∀ q ∈ t.publishes, ∀ s ∈ q.pc.rest, Connected t.world q.server s

theorem Open.serve (h : Open t) (hpushes : Pushing w) (hkeeps : Keeps t.world w) : Open { t with world := w } :=
  ⟨hpushes, fun q hq s hs => hkeeps _ _ (h.publishes q hq s hs)⟩

theorem Open.crash (h : Open t) (server : ℕ) : Open (crash t server) := by
  refine ⟨h.pushes.crash server, fun q hq s hs => ?_⟩
  obtain ⟨p, hp, rfl⟩ := List.mem_map.mp hq
  by_cases hserver : p.server = server
  · rw [if_pos hserver] at hs
    cases hs
  · rw [if_neg hserver] at hs ⊢
    exact (h.publishes p hp s hs).crash hserver

theorem Open.put (h : Open t) (q' : Publish) (hrest : ∀ s ∈ q'.pc.rest, Connected t.world q'.server s) :
    Open (putPublish t j q') := by
  refine ⟨h.pushes, fun p hp => ?_⟩
  rcases List.mem_or_eq_of_mem_set hp with hp | rfl
  · exact h.publishes p hp
  · exact hrest

theorem publishedTo_connected {s : ℕ} (h : s ∈ publishedTo w q) : Connected w q.server s := by
  have hany := (List.mem_filter.mp h).2
  cases hsub : w.subscribers[s]? with
  | none => simp [hsub] at hany
  | some sub =>
    simp only [hsub, Option.any_some, Bool.and_eq_true, decide_eq_true_eq] at hany
    exact ⟨sub, hsub, hany.1⟩

theorem publishCheckpoint_open {input : Input} (h : Open t) (hq : t.publishes[j]? = some q)
    (hstep : publishCheckpoint t j q input = some t') : Open t' := by
  have hown := h.publishes q (List.mem_of_getElem? hq)
  unfold publishCheckpoint at hstep
  split at hstep
  · split at hstep
    · split at hstep
      · next horder =>
        cases hstep
        exact h.put _ fun s hs => publishedTo_connected (horder.mem_iff.mp hs)
      · cases hstep
    · cases hstep
  · split at hstep
    · cases hstep
      exact h.put _ nofun
    · next s rest hpc =>
      rw [hpc] at hown
      have hrest (s' : ℕ) (hs : s' ∈ rest) : Connected t.world q.server s' := hown s' (List.mem_cons_of_mem _ hs)
      split at hstep
      · cases hstep
        exact h.put _ hrest
      · split at hstep
        · cases hstep
        · next sub hsub =>
          split at hstep
          · cases hstep
            exact h.crash _
          · split at hstep
            · cases hstep
              have hkeeps : Keeps t.world
                  { t.world with subscribers := t.world.subscribers.set s (enqueue sub ⟨q.event, none⟩) } :=
                keeps_set hsub rfl rfl
              have hpushes : Pushing
                  { t.world with subscribers := t.world.subscribers.set s (enqueue sub ⟨q.event, none⟩) } :=
                fun c hc s' hs => hkeeps _ _ (h.pushes c hc s' hs)
              exact (h.serve hpushes hkeeps).put _ fun s' hs => hkeeps _ _ (hrest s' hs)
            · cases hstep
              exact h.put _ nofun
    · cases hstep
  · split at hstep
    · split at hstep
      · cases hstep
      · cases hstep
        exact h.put _ nofun
    · cases hstep

def settled (t : Traffic) : Event → Bool
  | .service (.leave s) => t.world.calls.all fun c => s ∉ pending c.pc
  | _ => true

theorem leave_open {s : ℕ} (h : Open t) (hsettled : settled t (.service (.leave s)) = true)
    (hlock : (writeLocks t.world (.leave s)).any (readLocked t) = false) {world : World}
    (hstep : CheckpointPush.step sha256 t.world (.leave s) = some world) : Open { t with world } := by
  obtain ⟨sub', hleave, rfl⟩ := Option.map_eq_some_iff.mp hstep
  obtain ⟨sub, hsub, -⟩ := Option.bind_eq_some_iff.mp hleave
  constructor
  · intro c hc s' hs
    refine (h.pushes c hc s' hs).leave fun heq => ?_
    subst heq
    have hout := List.all_eq_true.mp hsettled c hc
    exact (of_decide_eq_true hout) hs
  · intro q hq s' hs
    have hconnected := h.publishes q hq s' hs
    refine hconnected.leave fun heq => ?_
    subst heq
    -- the publish holds the read lock of the subscriber's server
    obtain ⟨d, hd, -, hserver⟩ := hconnected
    rw [hsub] at hd
    cases hd
    simp only [writeLocks, hsub, Option.map_some, Option.any_some, readLocked, List.any_eq_false] at hlock
    have hfree := hlock q hq
    cases hpc : q.pc with
    | visit => simp [hpc, hserver, PublishPc.locks] at hfree
    | enter | done => rw [hpc] at hs; cases hs

theorem panics_none {i : ℕ} {c : Call} (hc : w.calls[i]? = some c) {input : CheckpointPush.Input}
    (h : panics w (.advance i input) = none) (s : ℕ) (rest : List ℕ) (hinput : input = .go) (hpc : c.pc = .send s rest) :
    isConnected w s = true := by
  subst hinput
  simpa [panics, hc, hpc] using h

theorem serve_open {e : CheckpointPush.Event} (h : Open t) (hsettled : settled t (.service e) = true)
    (hstep : serve sha256 t e = some t') : Open t' := by
  unfold serve at hstep
  split at hstep
  · cases hstep
  · cases hstep
    exact h.crash _
  · next hpublish hcrash =>
    split at hstep
    · cases hstep
      exact h.crash _
    · next hpanics =>
      split at hstep
      · cases hstep
      · next hlock =>
        obtain ⟨world, hworld, rfl⟩ := Option.map_eq_some_iff.mp hstep
        cases e with
        | push =>
          dsimp only [CheckpointPush.step] at hworld
          split at hworld
          · cases hworld
            exact h
          · cases hworld
            refine h.serve (fun c hc => ?_) fun _ _ hs => hs
            rcases List.mem_append.mp hc with hc | hc
            · exact h.pushes c hc
            · cases List.mem_singleton.mp hc
              nofun
        | advance =>
          obtain ⟨c, hc, hpush⟩ := Option.bind_eq_some_iff.mp hworld
          obtain ⟨hpushes, hkeeps⟩ :=
            advance_pushing h.pushes hc (pushCheckpoint_advance hpush) (panics_none hc hpanics)
          exact h.serve hpushes hkeeps
        | join server region jobID resumeFrom =>
          obtain ⟨sub, -, rfl⟩ := Option.map_eq_some_iff.mp hworld
          have hkeeps : Keeps t.world { t.world with subscribers := t.world.subscribers ++ [sub] } := by
            intro server s ⟨d, hd, hd'⟩
            exact ⟨d, (List.getElem?_append_left (List.getElem?_eq_some_iff.mp hd).1).trans hd, hd'⟩
          exact h.serve (fun c hc s hs => hkeeps _ _ (h.pushes c hc s hs)) hkeeps
        | receive s =>
          obtain ⟨sub', hreceive, rfl⟩ := Option.map_eq_some_iff.mp hworld
          obtain ⟨sub, hsub, hreceive⟩ := Option.bind_eq_some_iff.mp hreceive
          have hsame : sub'.server = sub.server ∧ sub'.connected = sub.connected := by
            unfold receive at hreceive
            split at hreceive
            · cases hreceive
            · split at hreceive <;> cases hreceive
              exact ⟨rfl, rfl⟩
          have hkeeps := keeps_set hsub hsame.1 hsame.2
          exact h.serve (fun c hc s hs => hkeeps _ _ (h.pushes c hc s hs)) hkeeps
        | leave => exact leave_open h hsettled (by simpa using hlock) hworld
        | publish s event => exact absurd rfl (hpublish s event)
        | crash server => exact absurd rfl (hcrash server)

theorem step_open {e : Event} (h : Open t) (hsettled : settled t e = true) (hstep : step sha256 t e = some t') : Open t' := by
  cases e with
  | service => exact serve_open h hsettled hstep
  | publishCheckpoint =>
    dsimp only [step] at hstep
    split at hstep
    · cases hstep
      exact h
    · split at hstep
      · cases hstep
        exact h
      · cases hstep
        refine ⟨h.pushes, fun q hq => ?_⟩
        rcases List.mem_append.mp hq with hq | hq
        · exact h.publishes q hq
        · cases List.mem_singleton.mp hq
          nofun
  | advance =>
    obtain ⟨q, hq, hpublish⟩ := Option.bind_eq_some_iff.mp hstep
    exact publishCheckpoint_open h hq hpublish

theorem Open.sends (h : Open t) (e : Event) : sendsOnClosed t e = false := by
  unfold sendsOnClosed
  split
  · next e =>
    unfold panics
    split
    · split
      · next c hc =>
        split
        · next s rest hpc =>
          have hown := h.pushes c (List.mem_of_getElem? hc) s
          rw [hpc] at hown
          rw [if_pos (hown List.mem_cons_self).isConnected]
          rfl
        · rfl
      · rfl
    · rfl
  · next j =>
    cases hq : t.publishes[j]? with
    | none => rfl
    | some q =>
      rw [Option.any_some]
      split
      · next s rest hpc =>
        have hown := h.publishes q (List.mem_of_getElem? hq) s
        rw [hpc] at hown
        rw [(hown List.mem_cons_self).isConnected, Bool.not_true, Bool.and_false]
      · rfl
  · rfl

/-- Where no subscriber leaves between the copy of a push and its send, no event is sent on a closed channel. -/
theorem run_sends_open (sha256 : Bytes → Bytes) (events : List Event) (t : Traffic)
    (hsettled : meets (step sha256) settled initial events = true) (hrun : run (step sha256) initial events = some t)
    (e : Event) : sendsOnClosed t e = false := by
  have hinitial : Open initial := ⟨fun _ hc => absurd hc List.not_mem_nil, fun _ hq => absurd hq List.not_mem_nil⟩
  have hopen : Open t := run_invariant (fun _ _ _ h ho hs => step_open h ho hs) hinitial hsettled hrun
  exact hopen.sends e

def leftBehind : List Event :=
  [.service joinSample, .service pushSample, .service (.advance 0 (.statement .ok)), .service (.advance 0 (.order [0])),
    .service (.advance 0 .go), .service (.leave 0)]

theorem left_behind_sends :
    ∃ t, run (step id) initial leftBehind = some t ∧ sendsOnClosed t (.service (.advance 0 .go)) = true :=
  ⟨_, rfl, rfl⟩

def leftAfter : List Event :=
  [.service joinSample, .service pushSample, .service (.advance 0 (.statement .ok)), .service (.advance 0 (.order [0])),
    .service (.advance 0 .go), .service (.advance 0 .go), .service (.leave 0),
    .service (.join 0 [97] [] 0), .publishCheckpoint 0 (some sample), .advance 0 (.order [1]), .advance 0 .go,
    .advance 0 .go, .service (.leave 1)]

theorem run_sends_open_left : meets (step id) settled initial leftAfter = true ∧
      ∃ t, run (step id) initial leftAfter = some t ∧ ∀ e, sendsOnClosed t e = false := by
  have hmeets : meets (step id) settled initial leftAfter = true := by decide +kernel
  have hrun : run (step id) initial leftAfter = some _ := rfl
  exact ⟨hmeets, _, hrun, run_sends_open id leftAfter _ hmeets hrun⟩

end AstraSync.SubscriberChannels
