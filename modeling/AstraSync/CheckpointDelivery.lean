import AstraSync.CheckpointPush

/-!
What subscribers get of the events that are pushed. An admission has one holder, and a push sends only while it holds
the admission of its event; so an event comes again only behind a push that gave its admission up.
-/

namespace AstraSync.CheckpointDelivery

open ByteStrings CheckpointPush Transitions
open RegionPromotion (Outcome)

def keyOf (region : Bytes) (m : Message) : Option AdmissionKey :=
  m.event.walEntry.map fun e => ⟨e.region, region, e.jobID, e.sequence⟩

def GaveUp (w : World) (i : ℕ) : Prop :=
  ∃ (c : Call) (e : PushError), w.calls[i]? = some c ∧ c.released = true ∧ c.pc = .done (some (.error e))

def Again (w : World) (region : Bytes) (m m' : Message) : Prop :=
  ∀ i j, m.push = some i → m'.push = some j → keyOf region m = keyOf region m' → i ≠ j ∧ GaveUp w i

/-- Every matching subscriber that was connected from the beginning of the push to its last send has the event of the
push in its queue, or has taken it from there. -/
def FannedOut (w : World) (i : ℕ) (c : Call) : Prop :=
  ∃ reached, c.reached = some reached ∧ ∀ s ∈ reached, ∃ sub, w.subscribers[s]? = some sub ∧
    (matching sub c.server c.push = true → ∃ m ∈ sub.history, m.push = some i ∧ m.event = c.push.event)

structure Safe (w : World) : Prop where
  again : ∀ (s : ℕ) (sub : Subscriber), w.subscribers[s]? = some sub → sub.history.Pairwise (Again w sub.region)
  acknowledged : ∀ (i : ℕ) (c : Call) (n : Int64), w.calls[i]? = some c → c.pc = .done (some (.ok n)) →
    n = c.push.entry.sequence ∧
      (c.accepted = true → FannedOut w i c) ∧
      (c.accepted = false → ∃ (j : ℕ) (d : Call), w.calls[j]? = some d ∧ d.accepted = true ∧ d.push.key = c.push.key ∧
        d.push.content = c.push.content ∧ FannedOut w j d)

section

def Sent (sub : Subscriber) (i : ℕ) : Prop := ∃ m ∈ sub.history, m.push = some i

structure Grown (P : Message → Prop) (sub sub' : Subscriber) : Prop where
  server : sub'.server = sub.server
  region : sub'.region = sub.region
  subscription : sub'.subscription = sub.subscription
  connected : sub'.connected = true → sub.connected = true
  history : ∃ more : Option Message, sub'.history = sub.history ++ more.toList ∧ ∀ m ∈ more, P m

structure Fed (P : Message → Prop) (subs subs' : List Subscriber) : Prop where
  old : ∀ (s : ℕ) (sub : Subscriber), subs[s]? = some sub → ∃ sub', subs'[s]? = some sub' ∧ Grown P sub sub'
  new : ∀ (s : ℕ) (sub' : Subscriber), subs'[s]? = some sub' →
    (∃ sub, subs[s]? = some sub ∧ Grown P sub sub') ∨ (subs.length ≤ s ∧ sub'.history = [])

structure Kept (c c' : Call) : Prop where
  server : c'.server = c.server
  push : c'.push = c.push
  accepted : c.accepted = true → c'.accepted = true
  reached : ∀ reached, c.reached = some reached → c'.reached = some reached
  released : c.released = true → c' = c

structure Changed (P : Message → Prop) (w w' : World) : Prop where
  fed : Fed P w.subscribers w'.subscribers
  calls : ∀ (j : ℕ) (d : Call), w.calls[j]? = some d → ∃ d', w'.calls[j]? = some d' ∧ Kept d d'
  rows : ∀ k row, w.admissions k = some row →
    (∃ row', w'.admissions k = some row' ∧ row'.holder = row.holder) ∨
      ∃ c, w'.calls[row.holder]? = some c ∧ c.released = true

variable {P : Message → Prop} {sub sub' : Subscriber} {subs subs' : List Subscriber} {w w' : World} {c c' : Call} {i s : ℕ}

theorem Grown.refl (sub : Subscriber) : Grown P sub sub :=
  ⟨rfl, rfl, rfl, id, none, (List.append_nil _).symm, nofun⟩

section

variable (h : Grown P sub sub')

include h

theorem Grown.matching (server : ℕ) (p : Push) : matching sub' server p = matching sub server p := by
  unfold CheckpointPush.matching
  rw [h.server, h.region, h.subscription]

theorem Grown.mem {m : Message} (hm : m ∈ sub.history) : m ∈ sub'.history := by
  obtain ⟨more, hhistory, -⟩ := h.history
  rw [hhistory]
  exact List.mem_append_left _ hm

theorem Grown.mem_inv {m : Message} (hm : m ∈ sub'.history) : m ∈ sub.history ∨ P m := by
  obtain ⟨more, hhistory, hP⟩ := h.history
  rw [hhistory] at hm
  exact (List.mem_append.mp hm).imp_right fun hm => hP m (Option.mem_toList.mp hm)

theorem Grown.sent (hsent : Sent sub i) : Sent sub' i := by
  obtain ⟨m, hm, hi⟩ := hsent
  exact ⟨m, h.mem hm, hi⟩

theorem Grown.unsent (hP : ∀ m, P m → m.push ≠ some i) (hunsent : ¬ Sent sub i) : ¬ Sent sub' i := by
  rintro ⟨m, hm, hi⟩
  rcases h.mem_inv hm with hm | hm
  · exact hunsent ⟨m, hm, hi⟩
  · exact hP m hm hi

end

theorem Fed.refl (subs : List Subscriber) : Fed P subs subs :=
  ⟨fun _ sub h => ⟨sub, h, Grown.refl sub⟩, fun _ sub h => .inl ⟨sub, h, Grown.refl sub⟩⟩

theorem Fed.set (h : subs[s]? = some sub) (hgrown : Grown P sub sub') : Fed P subs (subs.set s sub') := by
  constructor
  · intro j old hold
    by_cases hj : j = s
    · rw [hj, h] at hold
      cases hold
      exact ⟨sub', (Slots.getElem?_set h).mpr (.inl ⟨hj, rfl⟩), hgrown⟩
    · exact ⟨old, (Slots.getElem?_set h).mpr (.inr ⟨hj, hold⟩), .refl old⟩
  · intro j new hnew
    rcases (Slots.getElem?_set h).mp hnew with ⟨rfl, rfl⟩ | ⟨-, hnew⟩
    · exact .inl ⟨sub, h, hgrown⟩
    · exact .inl ⟨new, hnew, .refl new⟩

theorem Fed.join (hnew : sub.history = []) : Fed P subs (subs ++ [sub]) := by
  constructor
  · intro j old hold
    exact ⟨old, Slots.getElem?_snoc.mpr (.inl hold), .refl old⟩
  · intro j new hj
    rcases Slots.getElem?_snoc.mp hj with hj | ⟨rfl, rfl⟩
    · exact .inl ⟨new, hj, .refl new⟩
    · exact .inr ⟨le_rfl, hnew⟩

theorem Fed.map {f : Subscriber → Subscriber} (hf : ∀ sub, Grown P sub (f sub)) : Fed P subs (subs.map f) := by
  constructor
  · intro j old hold
    exact ⟨f old, by rw [List.getElem?_map, hold, Option.map_some], hf old⟩
  · intro j new hnew
    rw [List.getElem?_map, Option.map_eq_some_iff] at hnew
    obtain ⟨old, hold, rfl⟩ := hnew
    exact .inl ⟨old, hold, hf old⟩

theorem Fed.length (h : Fed P subs subs') : subs.length ≤ subs'.length := by
  by_contra hlt
  have hs : subs'.length < subs.length := by omega
  obtain ⟨sub', hsub', -⟩ := h.old subs'.length _ (List.getElem?_eq_getElem hs)
  rw [List.getElem?_eq_none le_rfl] at hsub'
  cases hsub'

theorem Kept.refl (c : Call) : Kept c c := ⟨rfl, rfl, id, fun _ h => h, fun _ => rfl⟩

end

section

variable (sha256 : Bytes → Bytes)

def holding : Pc → Bool
  | .snapshot | .deliver _ | .send _ _ | .commit | .release _ => true
  | _ => false

def unfinished : Pc → Bool
  | .claim | .find | .snapshot | .deliver _ | .send _ _ => true
  | _ => false

structure FanOut (w : World) (i server : ℕ) (p : Push) (present rest : List ℕ) : Prop where
  nodup : rest.Nodup
  ahead : ∀ s ∈ rest, ∃ sub, w.subscribers[s]? = some sub ∧ sub.region = p.targetRegion ∧ ¬ Sent sub i
  behind : ∀ s ∈ present, ∀ sub, w.subscribers[s]? = some sub → sub.connected = true →
    matching sub server p = true → s ∈ rest ∨ Sent sub i

def Silent (w : World) (i : ℕ) : Prop := ∀ (s : ℕ) (sub : Subscriber), w.subscribers[s]? = some sub → ¬ Sent sub i

def Answered (w : World) (c : Call) (n : Int64) : Prop :=
  n = c.push.entry.sequence ∧ (c.accepted = true → c.reached.isSome) ∧
    (c.accepted = false → ∃ (j : ℕ) (d : Call), w.calls[j]? = some d ∧ d.reached.isSome ∧ d.push.key = c.push.key ∧
      checkpointFingerprint sha256 d.push = checkpointFingerprint sha256 c.push)

def Progress (w : World) (i : ℕ) (c : Call) : Pc → Prop
  | .claim | .find => Silent w i ∧ c.accepted = false
  | .snapshot => Silent w i
  | .deliver rest => FanOut w i c.server c.push c.present rest
  | .send s rest => FanOut w i c.server c.push c.present (s :: rest)
  | .commit => c.reached.isSome
  | .release _ => True
  | .done (some (.ok n)) => Answered sha256 w c n
  | .done _ => True

structure CallInv (w : World) (i : ℕ) (c : Call) : Prop where
  present : ∀ s ∈ c.present, s < w.subscribers.length
  holds : holding c.pc = true → c.accepted = true ∧ ∃ row, w.admissions c.push.key = some row ∧ row.holder = i
  early : unfinished c.pc = true → c.reached = none
  reached : ∀ reached, c.reached = some reached → c.accepted = true ∧ ∀ s ∈ reached, ∃ sub,
    w.subscribers[s]? = some sub ∧ (matching sub c.server c.push = true → Sent sub i)
  released : c.released = true → ∃ e, c.pc = .done (some (.error e))
  progress : Progress sha256 w i c c.pc

def RowInv (w : World) (k : AdmissionKey) (row : Admission) : Prop :=
  ∃ c, w.calls[row.holder]? = some c ∧ c.push.key = k ∧ row.fingerprint = checkpointFingerprint sha256 c.push ∧
    (row.committed = true → c.reached.isSome)

structure SubscriberInv (w : World) (sub : Subscriber) : Prop where
  source : ∀ m ∈ sub.history, ∀ i, m.push = some i → ∃ c, w.calls[i]? = some c ∧ m.event = c.push.event ∧
    sub.region = c.push.targetRegion ∧
    (c.released = true ∨ ∃ row, w.admissions c.push.key = some row ∧ row.holder = i)
  again : sub.history.Pairwise (Again w sub.region)

structure Inv (w : World) : Prop where
  call : ∀ (i : ℕ) (c : Call), w.calls[i]? = some c → CallInv sha256 w i c
  row : ∀ k row, w.admissions k = some row → RowInv sha256 w k row
  subscriber : ∀ (s : ℕ) (sub : Subscriber), w.subscribers[s]? = some sub → SubscriberInv w sub

end

section

variable {sha256 : Bytes → Bytes} {P : Message → Prop} {w w' : World} {c : Call} {i : ℕ}

theorem GaveUp.changed (h : Changed P w w') (hgave : GaveUp w i) : GaveUp w' i := by
  obtain ⟨c, e, hc, hreleased, hpc⟩ := hgave
  obtain ⟨c', hc', hkept⟩ := h.calls i c hc
  rw [hkept.released hreleased] at hc'
  exact ⟨c, e, hc', hreleased, hpc⟩

theorem Again.changed (h : Changed P w w') {region : Bytes} {m m' : Message} (hagain : Again w region m m') :
    Again w' region m m' := by
  intro i j hi hj hkey
  obtain ⟨hne, hgave⟩ := hagain i j hi hj hkey
  exact ⟨hne, hgave.changed h⟩

theorem Silent.fed (h : Fed P w.subscribers w'.subscribers) (hP : ∀ m, P m → m.push ≠ some i) (hsilent : Silent w i) :
    Silent w' i := by
  intro s sub' hsub'
  rcases h.new s sub' hsub' with ⟨sub, hsub, hgrown⟩ | ⟨-, hnil⟩
  · exact hgrown.unsent hP (hsilent s sub hsub)
  · rintro ⟨m, hm, -⟩
    rw [hnil] at hm
    exact absurd hm List.not_mem_nil

theorem FanOut.fed (h : Fed P w.subscribers w'.subscribers) (hP : ∀ m, P m → m.push ≠ some i)
    {server : ℕ} {p : Push} {present rest : List ℕ} (hpresent : ∀ s ∈ present, s < w.subscribers.length)
    (hfan : FanOut w i server p present rest) : FanOut w' i server p present rest := by
  refine ⟨hfan.nodup, fun s hs => ?_, fun s hs sub' hsub' hconnected hmatch => ?_⟩
  · obtain ⟨sub, hsub, hregion, hunsent⟩ := hfan.ahead s hs
    obtain ⟨sub', hsub', hgrown⟩ := h.old s sub hsub
    exact ⟨sub', hsub', hgrown.region.trans hregion, hgrown.unsent hP hunsent⟩
  · rcases h.new s sub' hsub' with ⟨sub, hsub, hgrown⟩ | ⟨hge, -⟩
    · rw [hgrown.matching] at hmatch
      exact (hfan.behind s hs sub hsub (hgrown.connected hconnected) hmatch).imp id hgrown.sent
    · exact absurd (hpresent s hs) (not_lt.mpr hge)

theorem Answered.changed (h : Changed P w w') {n : Int64} (hanswered : Answered sha256 w c n) : Answered sha256 w' c n := by
  refine ⟨hanswered.1, hanswered.2.1, fun hnot => ?_⟩
  obtain ⟨j, d, hd, hreached, hkey, hdigest⟩ := hanswered.2.2 hnot
  obtain ⟨d', hd', hkept⟩ := h.calls j d hd
  obtain ⟨reached, hsome⟩ := Option.isSome_iff_exists.mp hreached
  refine ⟨j, d', hd', ?_, ?_, ?_⟩
  · rw [hkept.reached reached hsome, Option.isSome_some]
  · rw [hkept.push, hkey]
  · rw [hkept.push, hdigest]

theorem reached_fed (h : Fed P w.subscribers w'.subscribers) {reached : List ℕ}
    (hreached : ∀ s ∈ reached, ∃ sub, w.subscribers[s]? = some sub ∧ (matching sub c.server c.push = true → Sent sub i)) :
    ∀ s ∈ reached, ∃ sub, w'.subscribers[s]? = some sub ∧ (matching sub c.server c.push = true → Sent sub i) := by
  intro s hs
  obtain ⟨sub, hsub, hsent⟩ := hreached s hs
  obtain ⟨sub', hsub', hgrown⟩ := h.old s sub hsub
  exact ⟨sub', hsub', fun hmatch => hgrown.sent (hsent (hgrown.matching c.server c.push ▸ hmatch))⟩

theorem Progress.changed (h : Changed P w w') (hP : ∀ m, P m → m.push ≠ some i)
    (hpresent : ∀ s ∈ c.present, s < w.subscribers.length) {pc : Pc} (hprogress : Progress sha256 w i c pc) :
    Progress sha256 w' i c pc := by
  cases pc with
  | claim => exact ⟨hprogress.1.fed h.fed hP, hprogress.2⟩
  | find => exact ⟨hprogress.1.fed h.fed hP, hprogress.2⟩
  | snapshot => exact Silent.fed h.fed hP hprogress
  | deliver => exact FanOut.fed h.fed hP hpresent hprogress
  | send => exact FanOut.fed h.fed hP hpresent hprogress
  | commit => exact hprogress
  | release => trivial
  | done answer =>
    match answer with
    | none => trivial
    | some (.error e) => trivial
    | some (.ok n) => exact Answered.changed h hprogress

theorem CallInv.changed (hinv : CallInv sha256 w i c) (h : Changed P w w') (hP : ∀ m, P m → m.push ≠ some i)
    (hholds : holding c.pc = true → ∃ row, w'.admissions c.push.key = some row ∧ row.holder = i) : CallInv sha256 w' i c := by
  refine ⟨fun s hs => ?_, fun hpc => ⟨(hinv.holds hpc).1, hholds hpc⟩, hinv.early, fun reached hreached => ?_,
    hinv.released, hinv.progress.changed h hP hinv.present⟩
  · exact lt_of_lt_of_le (hinv.present s hs) h.fed.length
  · exact ⟨(hinv.reached reached hreached).1, reached_fed h.fed (hinv.reached reached hreached).2⟩

theorem RowInv.changed {k : AdmissionKey} {row : Admission} (hinv : RowInv sha256 w k row) (h : Changed P w w') :
    RowInv sha256 w' k row := by
  obtain ⟨c, hc, hkey, hfingerprint, hcommitted⟩ := hinv
  obtain ⟨c', hc', hkept⟩ := h.calls _ c hc
  refine ⟨c', hc', ?_, ?_, fun hrow => ?_⟩
  · rw [hkept.push, hkey]
  · rw [hkept.push, hfingerprint]
  · obtain ⟨reached, hsome⟩ := Option.isSome_iff_exists.mp (hcommitted hrow)
    rw [hkept.reached reached hsome, Option.isSome_some]

theorem source_changed (h : Changed P w w') {region : Bytes} {m : Message} {i : ℕ}
    (hsource : ∃ c, w.calls[i]? = some c ∧ m.event = c.push.event ∧ region = c.push.targetRegion ∧
      (c.released = true ∨ ∃ row, w.admissions c.push.key = some row ∧ row.holder = i)) :
    ∃ c, w'.calls[i]? = some c ∧ m.event = c.push.event ∧ region = c.push.targetRegion ∧
      (c.released = true ∨ ∃ row, w'.admissions c.push.key = some row ∧ row.holder = i) := by
  obtain ⟨c, hc, hevent, hregion, hclaim⟩ := hsource
  obtain ⟨c', hc', hkept⟩ := h.calls i c hc
  refine ⟨c', hc', ?_, ?_, ?_⟩
  · rw [hkept.push, hevent]
  · rw [hkept.push, hregion]
  · rcases hclaim with hreleased | ⟨row, hrow, hholder⟩
    · exact .inl (by rw [hkept.released hreleased, hreleased])
    · rcases h.rows _ row hrow with ⟨row', hrow', hsame⟩ | ⟨d, hd, hreleased⟩
      · exact .inr ⟨row', by rw [hkept.push, hrow'], hsame.trans hholder⟩
      · rw [hholder, hc'] at hd
        cases hd
        exact .inl hreleased

theorem SubscriberInv.of_nil {sub : Subscriber} (h : sub.history = []) : SubscriberInv w sub := by
  constructor
  · intro m hm
    rw [h] at hm
    cases hm
  · rw [h]
    exact List.Pairwise.nil

theorem SubscriberInv.changed {Q : Message → Prop} {sub sub' : Subscriber} (hinv : SubscriberInv w sub)
    (h : Changed P w w') (hgrown : Grown Q sub sub')
    (hsource : ∀ m, Q m → ∀ i, m.push = some i → ∃ c, w'.calls[i]? = some c ∧ m.event = c.push.event ∧
      sub.region = c.push.targetRegion ∧ (c.released = true ∨ ∃ row, w'.admissions c.push.key = some row ∧ row.holder = i))
    (hagain : ∀ m ∈ sub.history, ∀ m', Q m' → Again w' sub.region m m') : SubscriberInv w' sub' := by
  obtain ⟨more, heq, hmore⟩ := hgrown.history
  refine ⟨fun m hm i hi => ?_, ?_⟩
  · rw [hgrown.region]
    rcases hgrown.mem_inv hm with hm | hm
    · exact source_changed h (hinv.source m hm i hi)
    · exact hsource m hm i hi
  · rw [hgrown.region, heq, List.pairwise_append]
    refine ⟨hinv.again.imp fun ha => ha.changed h, ?_, fun m hm m' hm' => ?_⟩
    · simp
    · exact hagain m hm m' (hmore m' (Option.mem_toList.mp hm'))

end

section

variable {sha256 : Bytes → Bytes} {P : Message → Prop} {w w' : World} {c c' : Call} {i : ℕ}

def OwnRow (sha256 : Bytes → Bytes) (w w' : World) (i : ℕ) (c c' : Call) : Prop :=
  w'.admissions c.push.key = w.admissions c.push.key ∨
    ((∀ row, w.admissions c.push.key = some row → row.holder = i) ∧
      (w'.admissions c.push.key = none → c'.released = true) ∧
      ∀ row, w'.admissions c.push.key = some row → row.holder = i ∧
        row.fingerprint = checkpointFingerprint sha256 c.push ∧ (row.committed = true → c'.reached.isSome))

structure Advanced (sha256 : Bytes → Bytes) (P : Message → Prop) (w w' : World) (i : ℕ) (c c' : Call) : Prop where
  before : w.calls[i]? = some c
  kept : Kept c c'
  calls : w'.calls = w.calls.set i c'
  fed : Fed P w.subscribers w'.subscribers
  others : ∀ k, k ≠ c.push.key → w'.admissions k = w.admissions k
  own : OwnRow sha256 w w' i c c'

section

variable (h : Advanced sha256 P w w' i c c')

include h

theorem Advanced.after : w'.calls[i]? = some c' := by
  rw [h.calls, List.getElem?_set_self (List.getElem?_eq_some_iff.mp h.before).1]

theorem Advanced.changed : Changed P w w' := by
  refine ⟨h.fed, fun j d hd => ?_, fun k row hrow => ?_⟩
  · by_cases hj : j = i
    · rw [hj, h.before] at hd
      cases hd
      exact ⟨c', hj ▸ h.after, h.kept⟩
    · exact ⟨d, by rwa [h.calls, List.getElem?_set_ne (Ne.symm hj)], .refl d⟩
  · by_cases hk : k = c.push.key
    · subst hk
      rcases h.own with hsame | ⟨hholder, hgone, hrow'⟩
      · exact .inl ⟨row, by rw [hsame, hrow], rfl⟩
      · cases hnew : w'.admissions c.push.key with
        | none => exact .inr ⟨c', by rw [hholder row hrow, h.after], hgone hnew⟩
        | some row' => exact .inl ⟨row', rfl, (hrow' row' hnew).1.trans (hholder row hrow).symm⟩
    · exact .inl ⟨row, by rw [h.others k hk, hrow], rfl⟩

theorem Advanced.holds {j : ℕ} (hj : j ≠ i) {k : AdmissionKey}
    (hholds : ∃ row, w.admissions k = some row ∧ row.holder = j) : ∃ row, w'.admissions k = some row ∧ row.holder = j := by
  obtain ⟨row, hrow, hholder⟩ := hholds
  by_cases hk : k = c.push.key
  · subst hk
    rcases h.own with hsame | ⟨hmine, -⟩
    · exact ⟨row, by rw [hsame, hrow], hholder⟩
    · exact absurd (hholder.symm.trans (hmine row hrow)) hj
  · exact ⟨row, by rw [h.others k hk, hrow], hholder⟩

end

theorem Inv.advanced (hinv : Inv sha256 w) (h : Advanced sha256 P w w' i c c') (hP : ∀ m, P m → m.push = some i)
    (hself : CallInv sha256 w' i c')
    (hsubscribers : ∀ (s : ℕ) (sub : Subscriber), w'.subscribers[s]? = some sub → SubscriberInv w' sub) :
    Inv sha256 w' := by
  refine ⟨fun j d hd => ?_, fun k row hrow => ?_, hsubscribers⟩
  · by_cases hij : i = j
    · subst hij
      rw [h.after] at hd
      cases hd
      exact hself
    · rw [h.calls, List.getElem?_set_ne hij] at hd
      have hd' := hinv.call j d hd
      refine hd'.changed h.changed (fun m hm hpush => hij ?_) fun hpc => h.holds (Ne.symm hij) (hd'.holds hpc).2
      rw [hP m hm] at hpush
      exact Option.some.inj hpush
  · by_cases hk : k = c.push.key
    · subst hk
      rcases h.own with hsame | ⟨-, -, hown⟩
      · rw [hsame] at hrow
        exact (hinv.row _ row hrow).changed h.changed
      · obtain ⟨hholder, hfingerprint, hcommitted⟩ := hown row hrow
        refine ⟨c', by rw [hholder, h.after], by rw [h.kept.push], by rw [h.kept.push, hfingerprint], hcommitted⟩
    · rw [h.others k hk] at hrow
      exact (hinv.row k row hrow).changed h.changed

theorem Inv.quiet (hinv : Inv sha256 w) (h : Advanced sha256 (fun _ => False) w w' i c c')
    (hself : CallInv sha256 w' i c') : Inv sha256 w' := by
  refine hinv.advanced h (fun _ hm => hm.elim) hself fun s sub' hsub' => ?_
  rcases h.fed.new s sub' hsub' with ⟨sub, hsub, hgrown⟩ | ⟨-, hnil⟩
  · exact (hinv.subscriber s sub hsub).changed h.changed hgrown (fun _ hm => hm.elim) fun _ _ _ hm => hm.elim
  · exact .of_nil hnil

def running : Pc → Bool
  | .done _ => false
  | _ => true

theorem CallInv.not_released (hinv : CallInv sha256 w i c) (hpc : running c.pc = true) : c.released = false := by
  cases hreleased : c.released with
  | false => rfl
  | true =>
    obtain ⟨e, he⟩ := hinv.released hreleased
    rw [he] at hpc
    cases hpc

theorem Inv.callAt {pc : Pc} (hinv : Inv sha256 w) (hc : w.calls[i]? = some c) (hpc : c.pc = pc)
    (h : running pc = true) : running c.pc = true ∧ CallInv sha256 w i c ∧ c.released = false := by
  rw [← hpc] at h
  exact ⟨h, hinv.call i c hc, (hinv.call i c hc).not_released h⟩

theorem CallInv.progress_of_pc {pc : Pc} (hinv : CallInv sha256 w i c) (hpc : c.pc = pc) : Progress sha256 w i c pc := hpc ▸ hinv.progress

theorem kept_of_running (hrunning : c.released = false) (hserver : c'.server = c.server) (hpush : c'.push = c.push)
    (haccepted : c.accepted = true → c'.accepted = true)
    (hreached : ∀ reached, c.reached = some reached → c'.reached = some reached) : Kept c c' := by
  refine ⟨hserver, hpush, haccepted, hreached, fun hreleased => ?_⟩
  cases hrunning.symm.trans hreleased

theorem CallInv.goOn (hinv : CallInv sha256 w i c) (hfed : Fed P w.subscribers w'.subscribers) (hrunning : c.released = false)
    {pc : Pc} (hholds : holding pc = true → c.accepted = true ∧ ∃ row, w'.admissions c.push.key = some row ∧ row.holder = i)
    (hearly : unfinished pc = true → unfinished c.pc = true) (hprogress : Progress sha256 w' i c pc) : CallInv sha256 w' i { c with pc } := by
  refine ⟨fun s hs => lt_of_lt_of_le (hinv.present s hs) hfed.length, hholds, fun h => hinv.early (hearly h),
    fun reached hreached => ?_, fun h => ?_, ?_⟩
  · exact ⟨(hinv.reached reached hreached).1, reached_fed hfed (hinv.reached reached hreached).2⟩
  · cases hrunning.symm.trans h
  · cases pc with
    | done answer =>
      match answer with
      | none => trivial
      | some (.error e) => trivial
      | some (.ok n) => exact hprogress
    | _ => exact hprogress

theorem advanced_put (hc : w.calls[i]? = some c) (hkept : Kept c c') :
    Advanced sha256 (fun _ => False) w (w.put i c') i c c' :=
  ⟨hc, hkept, rfl, Fed.refl _, fun _ _ => rfl, .inl rfl⟩

variable {s : ℕ} {sub : Subscriber}

theorem setAdmission_key {row : Option Admission} {k : AdmissionKey} : ((w.setAdmission k row).put i c').admissions k = row := by
  simp [World.setAdmission, World.put]

theorem advanced_setAdmission (row : Admission) (c' : Call) (hc : w.calls[i]? = some c) (hkept : Kept c c')
    (hmine : ∀ row, w.admissions c.push.key = some row → row.holder = i) (hholder : row.holder = i)
    (hfingerprint : row.fingerprint = checkpointFingerprint sha256 c.push)
    (hcommitted : row.committed = true → c'.reached.isSome) :
    Advanced sha256 (fun _ => False) w ((w.setAdmission c.push.key (some row)).put i c') i c c' := by
  refine ⟨hc, hkept, rfl, Fed.refl _, fun k hk => Function.update_of_ne hk _ _, .inr ⟨hmine, fun h => ?_, fun r hr => ?_⟩⟩
  · rw [setAdmission_key] at h
    cases h
  · rw [setAdmission_key] at hr
    cases hr
    exact ⟨hholder, hfingerprint, hcommitted⟩

theorem mem_subscribersOf {server : ℕ} {region : Bytes} :
    s ∈ subscribersOf w server region ↔ ∃ sub, w.subscribers[s]? = some sub ∧ sub.connected = true ∧
      sub.server = server ∧ sub.region = region := by
  unfold subscribersOf
  rw [List.mem_filter, List.mem_range, Option.any_eq_true]
  simp only [Bool.and_eq_true, decide_eq_true_eq, and_assoc]
  constructor
  · exact And.right
  · rintro ⟨sub, hsub, h⟩
    exact ⟨(List.getElem?_eq_some_iff.mp hsub).1, sub, hsub, h⟩

theorem matching_iff {sub : Subscriber} {server : ℕ} {p : Push} : matching sub server p = true ↔
    sub.server = server ∧ sub.region = p.targetRegion ∧ skips sub.subscription p = false := by
  simp [matching, and_assoc]

theorem enqueue_grown {m : Message} (hm : P m) : Grown P sub (enqueue sub m) := by
  refine ⟨rfl, rfl, rfl, id, some m, ?_, fun m' hm' => ?_⟩
  · rw [Subscriber.history, Subscriber.history, enqueue, List.append_assoc]
    rfl
  · cases Option.mem_some.mp hm'
    exact hm

theorem enqueue_sent (event : CheckpointEvent) : Sent (enqueue sub ⟨event, some i⟩) i :=
  ⟨⟨event, some i⟩, List.mem_append_right _ (List.mem_append_right _ (List.mem_singleton.mpr rfl)), rfl⟩

theorem keyOf_push {c : Call} {m : Message} (h : m.event = c.push.event) :
    keyOf c.push.targetRegion m = some c.push.key := by
  rw [keyOf, h, c.push.carried, Option.map_some, Push.key, ← c.push.originated]

section

variable (hinv : Inv sha256 w) (hc : w.calls[i]? = some c)

include hinv hc

theorem Inv.goOn (hrunning : running c.pc = true) {pc : Pc}
    (hholds : holding pc = true → holding c.pc = true) (hearly : unfinished pc = true → unfinished c.pc = true)
    (hprogress : Progress sha256 w i c pc) : Inv sha256 (w.put i { c with pc }) := by
  have hcall := hinv.call i c hc
  have hreleased := hcall.not_released hrunning
  have hkept : Kept c { c with pc } := kept_of_running hreleased rfl rfl id fun _ h => h
  have hadvanced : Advanced sha256 (fun _ => False) w (w.put i { c with pc }) i c { c with pc } := advanced_put hc hkept
  refine hinv.quiet hadvanced (hcall.goOn hadvanced.fed hreleased (fun h => hcall.holds (hholds h)) hearly ?_)
  exact hprogress.changed hadvanced.changed (fun _ hm => hm.elim) hcall.present

theorem Inv.refuse (hrunning : running c.pc = true) (e : PushError) : Inv sha256 (w.put i (answer c (.error e))) :=
  hinv.goOn hc hrunning nofun nofun trivial

theorem claimCheckpoint_inv (hpc : c.pc = .claim) (o : Outcome) : Inv sha256 (claimCheckpoint sha256 w i c o) := by
  obtain ⟨hrunning, hcall, hreleased⟩ := hinv.callAt hc hpc rfl
  have hprogress : Silent w i ∧ c.accepted = false := hcall.progress_of_pc hpc
  dsimp only [claimCheckpoint]
  split
  · exact hinv.refuse hc hrunning _
  · cases hrow : w.admissions c.push.key with
    | some =>
      cases o with
      | failed => exact hinv.refuse hc hrunning _
      | lost => exact hinv.refuse hc hrunning _
      | ok => exact hinv.goOn hc hrunning nofun (fun _ => by rw [hpc]; rfl) hprogress
    | none =>
      have hmine : ∀ row, w.admissions c.push.key = some row → row.holder = i := by
        rw [hrow]
        exact nofun
      cases o with
      | failed => exact hinv.refuse hc hrunning _
      | lost =>
        have hkept : Kept c (answer c (.error admissionFailed)) := kept_of_running hreleased rfl rfl id fun _ h => h
        have h := advanced_setAdmission ⟨checkpointFingerprint sha256 c.push, false, i⟩ _ hc hkept hmine rfl rfl nofun
        exact hinv.quiet h (hcall.goOn h.fed hreleased nofun nofun trivial)
      | ok =>
        -- the push has its claim now, and has sent nothing
        have hkept : Kept c { c with pc := .snapshot, accepted := true } :=
          kept_of_running hreleased rfl rfl (fun _ => rfl) fun _ h => h
        have h := advanced_setAdmission ⟨checkpointFingerprint sha256 c.push, false, i⟩ _ hc hkept hmine rfl rfl nofun
        refine hinv.quiet h ⟨hcall.present, fun _ => ⟨rfl, _, setAdmission_key, rfl⟩, fun _ => hcall.early (by rw [hpc]; rfl),
          fun reached hreached => ?_, fun hr => ?_, hprogress.1⟩
        · exact ⟨rfl, (hcall.reached reached hreached).2⟩
        · exact hcall.released hr |>.imp fun e he => by rw [hpc] at he; cases he

theorem findAdmission_inv (hpc : c.pc = .find) (o : Outcome) : Inv sha256 (w.put i (findAdmission sha256 w c o)) := by
  have hrunning : running c.pc = true := by rw [hpc]; rfl
  have hprogress : Silent w i ∧ c.accepted = false := (hinv.call i c hc).progress_of_pc hpc
  unfold findAdmission
  split
  · rename_i row hrow
    split
    · exact hinv.refuse hc hrunning _
    · rename_i hfingerprint
      split
      · exact hinv.refuse hc hrunning _
      · rename_i hcommitted
        obtain ⟨d, hd, hkey, hfp, hreached⟩ := hinv.row _ row hrow
        refine hinv.goOn hc hrunning nofun nofun ⟨rfl, fun h => ?_, fun _ => ⟨_, d, hd, ?_, hkey, ?_⟩⟩
        · rw [hprogress.2] at h
          cases h
        · exact hreached (by simpa using hcommitted)
        · exact hfp.symm.trans (not_not.mp hfingerprint)
  · exact hinv.refuse hc hrunning _

theorem commitCheckpoint_inv (hpc : c.pc = .commit) (o : Outcome) : Inv sha256 (commitCheckpoint w i c o) := by
  obtain ⟨hrunning, hcall, hreleased⟩ := hinv.callAt hc hpc rfl
  have hreached : c.reached.isSome := hcall.progress_of_pc hpc
  obtain ⟨haccepted, row, hrow, hholder⟩ := hcall.holds (by rw [hpc]; rfl)
  obtain ⟨d, hd, -, hfingerprint, -⟩ := hinv.row _ row hrow
  rw [hholder, hc] at hd
  cases hd
  have hmine : ∀ r, w.admissions c.push.key = some r → r.holder = i := by
    intro r hr
    cases hrow.symm.trans hr
    exact hholder
  have hadvance (pc : Pc) := advanced_setAdmission { row with committed := true } { c with pc := pc } hc
    (kept_of_running hreleased rfl rfl id fun _ h => h) hmine hholder hfingerprint fun _ => hreached
  unfold commitCheckpoint
  rw [hrow]
  cases o with
  | failed => exact hinv.goOn hc hrunning (fun _ => by rw [hpc]; rfl) nofun trivial
  | ok =>
    refine hinv.quiet (hadvance _) (hcall.goOn (hadvance _).fed hreleased nofun nofun ⟨rfl, fun _ => hreached, fun h => ?_⟩)
    rw [haccepted] at h
    cases h
  | lost =>
    exact hinv.quiet (hadvance _)
      (hcall.goOn (hadvance _).fed hreleased (fun _ => ⟨haccepted, _, setAdmission_key, hholder⟩) nofun trivial)

theorem releaseCheckpoint_inv {e : PushError} (hpc : c.pc = .release e)
    (o : Outcome) : Inv sha256 (releaseCheckpoint w i c e o) := by
  obtain ⟨hrunning, hcall, hreleased⟩ := hinv.callAt hc hpc rfl
  obtain ⟨-, row, hrow, hholder⟩ := hcall.holds (by rw [hpc]; rfl)
  unfold releaseCheckpoint
  rw [hrow]
  have hremove : Inv sha256 (if row.committed then w.put i (answer c (.error e))
      else (w.setAdmission c.push.key none).put i (answer { c with released := true } (.error e))) := by
    split
    · exact hinv.refuse hc hrunning e
    · have hkept : Kept c (answer { c with released := true } (.error e)) :=
        kept_of_running hreleased rfl rfl id fun _ h => h
      have h : Advanced sha256 (fun _ => False) w
          ((w.setAdmission c.push.key none).put i (answer { c with released := true } (.error e))) i c
          (answer { c with released := true } (.error e)) := by
        refine ⟨hc, hkept, rfl, Fed.refl _, fun k hk => Function.update_of_ne hk _ _,
          .inr ⟨fun r hr => ?_, fun _ => rfl, fun r hr => ?_⟩⟩
        · cases hrow.symm.trans hr
          exact hholder
        · rw [setAdmission_key] at hr
          cases hr
      exact hinv.quiet h ⟨hcall.present, nofun, nofun, hcall.reached, fun _ => ⟨e, rfl⟩, trivial⟩
  cases o with
  | failed => exact hinv.refuse hc hrunning e
  | ok => exact hremove
  | lost => exact hremove

theorem snapshot_inv {order : List ℕ} (hpc : c.pc = .snapshot)
    (horder : order.Perm (subscribersOf w c.server c.push.targetRegion)) :
    Inv sha256 (w.put i { c with pc := .deliver order }) := by
  have hsilent : Silent w i := (hinv.call i c hc).progress_of_pc hpc
  refine hinv.goOn hc (by rw [hpc]; rfl) (fun _ => by rw [hpc]; rfl) (fun _ => by rw [hpc]; rfl)
    ⟨?_, fun s hs => ?_, fun s hs sub hsub hconnected hmatch => ?_⟩
  · exact horder.nodup_iff.mpr (List.nodup_range.filter _)
  · obtain ⟨sub, hsub, -, -, hregion⟩ := mem_subscribersOf.mp (horder.mem_iff.mp hs)
    exact ⟨sub, hsub, hregion, hsilent s sub hsub⟩
  · obtain ⟨hserver, hregion, -⟩ := matching_iff.mp hmatch
    exact .inl (horder.mem_iff.mpr (mem_subscribersOf.mpr ⟨sub, hsub, hconnected, hserver, hregion⟩))

theorem lookup_inv {rest : List ℕ} (hpc : c.pc = .deliver (s :: rest)) :
    Inv sha256 (w.put i { c with pc := if skips (subscriptionOf w s) c.push then .deliver rest else .send s rest }) := by
  have hfan : FanOut w i c.server c.push c.present (s :: rest) := (hinv.call i c hc).progress_of_pc hpc
  have hrunning : running c.pc = true := by rw [hpc]; rfl
  split
  · rename_i hskips
    refine hinv.goOn hc hrunning (fun _ => by rw [hpc]; rfl) (fun _ => by rw [hpc]; rfl) ⟨hfan.nodup.of_cons, fun t ht => ?_, ?_⟩
    · exact hfan.ahead t (List.mem_cons_of_mem s ht)
    · intro t ht sub hsub hconnected hmatch
      rcases hfan.behind t ht sub hsub hconnected hmatch with hmem | hsent
      · rcases List.mem_cons.mp hmem with rfl | hmem
        · have hsubscription : subscriptionOf w t = sub.subscription := by simp [subscriptionOf, hsub, hconnected]
          rw [hsubscription, (matching_iff.mp hmatch).2.2] at hskips
          cases hskips
        · exact .inl hmem
      · exact .inr hsent
  · exact hinv.goOn hc hrunning (fun _ => by rw [hpc]; rfl) (fun _ => by rw [hpc]; rfl) hfan

theorem acknowledge_inv (hpc : c.pc = .deliver []) : Inv sha256 (acknowledge w i c) := by
  obtain ⟨hrunning, hcall, hreleased⟩ := hinv.callAt hc hpc rfl
  have hfan : FanOut w i c.server c.push c.present [] := hcall.progress_of_pc hpc
  obtain ⟨haccepted, hrow⟩ := hcall.holds (by rw [hpc]; rfl)
  have hkept : Kept c { c with pc := .commit, reached := some (c.present.filter (isConnected w)) } := by
    refine kept_of_running hreleased rfl rfl id fun reached h => ?_
    rw [hcall.early (by rw [hpc]; rfl)] at h
    cases h
  have h : Advanced sha256 (fun _ => False) w (acknowledge w i c) i c
      { c with pc := .commit, reached := some (c.present.filter (isConnected w)) } :=
    ⟨hc, hkept, rfl, Fed.refl _, fun _ _ => rfl, .inl rfl⟩
  refine hinv.quiet h ⟨hcall.present, fun _ => ⟨haccepted, hrow⟩, nofun, fun reached hreached => ⟨haccepted, ?_⟩,
    fun hr => ?_, rfl⟩
  · cases hreached
    intro s hs
    obtain ⟨hpresent, hconnected⟩ := List.mem_filter.mp hs
    rw [isConnected, Option.any_eq_true] at hconnected
    obtain ⟨sub, hsub, hconnected⟩ := hconnected
    refine ⟨sub, hsub, fun hmatch => ?_⟩
    exact (hfan.behind s hpresent sub hsub hconnected hmatch).resolve_left List.not_mem_nil
  · exact absurd hr (by rw [show _ = c.released from rfl, hreleased]; decide)

theorem again_of_holder {row : Admission}
    (hrow : w.admissions c.push.key = some row) (hholder : row.holder = i) (hsub : SubscriberInv w sub)
    (hregion : sub.region = c.push.targetRegion) (hunsent : ¬ Sent sub i) :
    ∀ m ∈ sub.history, Again w sub.region m ⟨c.push.event, some i⟩ := by
  intro m hm j i' hj hi' hkey
  cases hi'
  have hne : j ≠ i := by
    rintro rfl
    exact hunsent ⟨m, hm, hj⟩
  obtain ⟨d, hd, hevent, hregion', hclaim⟩ := hsub.source m hm j hj
  refine ⟨hne, ?_⟩
  rcases hclaim with hreleased | ⟨row', hrow', hholder'⟩
  · obtain ⟨e, he⟩ := (hinv.call j d hd).released hreleased
    exact ⟨d, e, hd, hreleased, he⟩
  · -- both pushes would hold the one row
    have hkeys : d.push.key = c.push.key := by
      have hd := keyOf_push hevent
      have hc := keyOf_push (c := c) (m := ⟨c.push.event, some i⟩) rfl
      rw [← hregion', hkey, hregion, hc] at hd
      exact (Option.some.inj hd).symm
    rw [hkeys, hrow] at hrow'
    cases hrow'
    exact absurd (hholder'.symm.trans hholder) hne

theorem enqueue_inv {rest : List ℕ} (hpc : c.pc = .send s rest) (hs : w.subscribers[s]? = some sub) :
    Inv sha256 ({ w with subscribers := w.subscribers.set s (enqueue sub ⟨c.push.event, some i⟩) }.put i
      { c with pc := .deliver rest }) := by
  obtain ⟨hrunning, hcall, hreleased⟩ := hinv.callAt hc hpc rfl
  have hfan : FanOut w i c.server c.push c.present (s :: rest) := hcall.progress_of_pc hpc
  obtain ⟨haccepted, row, hrow, hholder⟩ := hcall.holds (by rw [hpc]; rfl)
  obtain ⟨sub₁, hsub₁, hregion, hunsent⟩ := hfan.ahead s List.mem_cons_self
  rw [hs] at hsub₁
  cases hsub₁
  obtain ⟨hnot, hnodup⟩ := List.nodup_cons.mp hfan.nodup
  have hlt : s < w.subscribers.length := (List.getElem?_eq_some_iff.mp hs).1
  have hkept : Kept c { c with pc := .deliver rest } := kept_of_running hreleased rfl rfl id fun _ h => h
  have hgrown : Grown (· = ⟨c.push.event, some i⟩) sub (enqueue sub ⟨c.push.event, some i⟩) := enqueue_grown rfl
  have h : Advanced sha256 (· = ⟨c.push.event, some i⟩) w
      ({ w with subscribers := w.subscribers.set s (enqueue sub ⟨c.push.event, some i⟩) }.put i
        { c with pc := .deliver rest }) i c { c with pc := .deliver rest } :=
    ⟨hc, hkept, rfl, Fed.set hs hgrown, fun _ _ => rfl, .inl rfl⟩
  refine hinv.advanced h (by rintro m rfl; rfl) ?_ fun t sub' hsub' => ?_
  · refine hcall.goOn h.fed hreleased (fun _ => ⟨haccepted, row, hrow, hholder⟩) (fun _ => by rw [hpc]; rfl)
      ⟨hnodup, fun t ht => ?_, fun t ht sub' hsub' hconnected hmatch => ?_⟩
    · obtain ⟨sub', hsub', hrest⟩ := hfan.ahead t (List.mem_cons_of_mem s ht)
      have hst : s ≠ t := fun heq => hnot (heq ▸ ht)
      exact ⟨sub', (List.getElem?_set_ne hst).trans hsub', hrest⟩
    · by_cases hst : s = t
      · subst hst
        cases ((List.getElem?_set_self hlt).symm.trans hsub')
        exact .inr (enqueue_sent _)
      · have hsub := (List.getElem?_set_ne hst).symm.trans hsub'
        rcases hfan.behind t ht sub' hsub hconnected hmatch with hmem | hsent
        · exact .inl (List.mem_of_ne_of_mem (Ne.symm hst) hmem)
        · exact .inr hsent
  · by_cases hst : s = t
    · subst hst
      cases ((List.getElem?_set_self hlt).symm.trans hsub')
      have hsub := hinv.subscriber s sub hs
      refine hsub.changed h.changed hgrown ?_ ?_
      · rintro m rfl j hj
        cases hj
        exact ⟨_, h.after, rfl, hregion, .inr ⟨row, hrow, hholder⟩⟩
      · rintro m hm m' rfl
        exact (again_of_holder hinv hc hrow hholder hsub hregion hunsent m hm).changed h.changed
    · have hsub := (List.getElem?_set_ne hst).symm.trans hsub'
      exact (hinv.subscriber t sub' hsub).changed h.changed (Grown.refl sub') (fun _ hm => False.elim hm)
        fun _ _ _ hm => False.elim hm

end

end

variable {sha256 : Bytes → Bytes} {P : Message → Prop} {w w' : World}

def cut (server : ℕ) (c : Call) : Call :=
  match c.pc with
  | .done _ => c
  | _ => if c.server = server then { c with pc := .done none } else c

theorem cut_cases (server : ℕ) (c : Call) :
    cut server c = c ∨ (running c.pc = true ∧ cut server c = { c with pc := .done none }) := by
  unfold cut
  split
  · exact .inl rfl
  · rename_i hpc
    split
    · refine .inr ⟨?_, rfl⟩
      cases hc : c.pc with
      | done answer => exact absurd hc (hpc answer)
      | _ => rfl
    · exact .inl rfl

section

variable (hinv : Inv sha256 w)

include hinv

theorem Inv.environment (h : Changed P w w') (hP : ∀ m, P m → m.push = none)
    (hadmissions : w'.admissions = w.admissions)
    (hcalls : ∀ (i : ℕ) (c' : Call), w'.calls[i]? = some c' → w.calls[i]? = some c' ∨ CallInv sha256 w' i c') :
    Inv sha256 w' := by
  refine ⟨fun i c hc => ?_, fun k row hrow => ?_, fun s sub' hsub' => ?_⟩
  · rcases hcalls i c hc with hc | hself
    · have hcall := hinv.call i c hc
      refine hcall.changed h (fun m hm => by rw [hP m hm]; exact nofun) fun hpc => ?_
      rw [hadmissions]
      exact (hcall.holds hpc).2
    · exact hself
  · rw [hadmissions] at hrow
    exact (hinv.row k row hrow).changed h
  · rcases h.fed.new s sub' hsub' with ⟨sub, hsub, hgrown⟩ | ⟨-, hnil⟩
    · refine (hinv.subscriber s sub hsub).changed h hgrown (fun m hm i hi => ?_) fun m _ m' hm' i j _ hj => ?_
      · rw [hP m hm] at hi
        cases hi
      · rw [hP m' hm'] at hj
        cases hj
    · exact .of_nil hnil

theorem crash_inv (server : ℕ) : Inv sha256 (crash w server) := by
  have hcalls : (crash w server).calls = w.calls.map (cut server) := rfl
  have hchanged : Changed (fun _ => False) w (crash w server) := by
    refine ⟨Fed.map fun sub => ?_, fun j d hd => ⟨cut server d, by rw [hcalls, List.getElem?_map, hd, Option.map_some], ?_⟩,
      fun k row hrow => .inl ⟨row, hrow, rfl⟩⟩
    · split
      · exact ⟨rfl, rfl, rfl, nofun, none, (List.append_nil _).symm, nofun⟩
      · exact Grown.refl sub
    · rcases cut_cases server d with heq | ⟨hrunning, heq⟩
      · rw [heq]
        exact Kept.refl d
      · rw [heq]
        exact kept_of_running ((hinv.call j d hd).not_released hrunning) rfl rfl id fun _ h => h
  refine hinv.environment hchanged (fun _ hm => hm.elim) rfl fun i c' hc' => ?_
  rw [hcalls, List.getElem?_map] at hc'
  obtain ⟨c, hc, rfl⟩ := Option.map_eq_some_iff.mp hc'
  rcases cut_cases server c with heq | ⟨hrunning, heq⟩
  · rw [heq]
    exact .inl hc
  · rw [heq]
    have hcall := hinv.call i c hc
    exact .inr (hcall.goOn hchanged.fed (hcall.not_released hrunning) nofun nofun trivial)

theorem push_inv (server : ℕ) (p : Push) :
    Inv sha256 { w with calls := w.calls ++ [⟨server, p, .claim, false, connectedTo w server, none, false⟩] } := by
  have hchanged : Changed (fun _ => False) w
      { w with calls := w.calls ++ [⟨server, p, .claim, false, connectedTo w server, none, false⟩] } := by
    refine ⟨Fed.refl _, fun j d hd => ⟨d, ?_, Kept.refl d⟩, fun k row hrow => .inl ⟨row, hrow, rfl⟩⟩
    exact (List.getElem?_append_left (List.getElem?_eq_some_iff.mp hd).1).trans hd
  refine hinv.environment hchanged (fun _ hm => hm.elim) rfl fun i c' hc' => ?_
  rcases lt_or_ge i w.calls.length with hlt | hge
  · exact .inl ((List.getElem?_append_left hlt).symm.trans hc')
  · have hsingle := (List.getElem?_append_right hge).symm.trans hc'
    cases List.mem_singleton.mp (List.mem_of_getElem? hsingle)
    refine .inr ⟨fun s hs => ?_, nofun, fun _ => rfl, nofun, nofun, ⟨fun s sub hsub hsent => ?_, rfl⟩⟩
    · exact List.mem_range.mp (List.mem_filter.mp hs).1
    · -- no message names a push that has not begun
      obtain ⟨m, hm, hi⟩ := hsent
      obtain ⟨c, hc, -⟩ := (hinv.subscriber s sub hsub).source m hm i hi
      exact absurd (List.getElem?_eq_some_iff.mp hc).1 (not_lt.mpr hge)

theorem subscribers_inv {subs : List Subscriber} (hfed : Fed P w.subscribers subs)
    (hP : ∀ m, P m → m.push = none) : Inv sha256 { w with subscribers := subs } := by
  refine hinv.environment (P := P) ⟨hfed, fun j d hd => ⟨d, hd, Kept.refl d⟩, fun k row hrow => .inl ⟨row, hrow, rfl⟩⟩ hP rfl ?_
  exact fun i c' hc' => .inl hc'

theorem changeSubscriber_inv {s : ℕ} {change : Subscriber → Option Subscriber}
    (hchange : ∀ sub sub', change sub = some sub' → Grown (·.push = none) sub sub')
    (h : changeSubscriber w s change = some w') : Inv sha256 w' := by
  obtain ⟨sub', hsub', rfl⟩ := Option.map_eq_some_iff.mp h
  obtain ⟨sub, hsub, hto⟩ := Option.bind_eq_some_iff.mp hsub'
  exact subscribers_inv hinv (Fed.set hsub (hchange sub sub' hto)) fun _ hm => hm

end

variable {sub sub' : Subscriber} {i : ℕ} {c : Call}

theorem receive_grown (h : receive sub = some sub') : Grown P sub sub' := by
  unfold receive at h
  split at h
  · cases h
  · rename_i m rest hqueue
    split at h
    · cases h
      refine ⟨rfl, rfl, rfl, id, none, ?_, nofun⟩
      simp [Subscriber.history, hqueue]
    · cases h

theorem leave_grown (h : leave sub = some sub') : Grown P sub sub' := by
  unfold leave at h
  split at h
  · cases h
    exact ⟨rfl, rfl, rfl, nofun, none, (List.append_nil _).symm, nofun⟩
  · cases h

theorem publish_grown {event : CheckpointEvent} (h : publish event sub = some sub') :
    Grown (·.push = none) sub sub' := by
  unfold publish at h
  split at h
  · cases h
    exact enqueue_grown rfl
  · cases h

theorem sendTo_inv {s : ℕ} {rest : List ℕ} (hinv : Inv sha256 w) (hc : w.calls[i]? = some c)
    (hpc : c.pc = .send s rest) (h : sendTo w i c s rest = some w') : Inv sha256 w' := by
  unfold sendTo at h
  split at h
  · cases h
  · rename_i sub hsub
    split at h
    · cases h
      exact crash_inv hinv c.server
    · split at h
      · cases h
        exact enqueue_inv hinv hc hpc hsub
      · cases h
        exact hinv.goOn hc (by rw [hpc]; rfl) (fun _ => by rw [hpc]; rfl) nofun trivial

theorem pushCheckpoint_inv {input : Input} (hinv : Inv sha256 w)
    (hc : w.calls[i]? = some c) (h : pushCheckpoint sha256 w i c input = some w') : Inv sha256 w' := by
  cases input with
  | statement o =>
    dsimp only [pushCheckpoint] at h
    split at h <;> cases h
    case h_1 hpc => exact claimCheckpoint_inv hinv hc hpc o
    case h_2 hpc => exact findAdmission_inv hinv hc hpc o
    case h_3 hpc => exact commitCheckpoint_inv hinv hc hpc o
    case h_4 e hpc => exact releaseCheckpoint_inv hinv hc hpc o
  | order =>
    dsimp only [pushCheckpoint] at h
    split at h
    · rename_i hpc
      split at h
      · cases h
        exact snapshot_inv hinv hc hpc ‹_›
      · cases h
    · cases h
  | go =>
    dsimp only [pushCheckpoint] at h
    split at h
    · rename_i hpc
      cases h
      exact acknowledge_inv hinv hc hpc
    · rename_i hpc
      cases h
      exact lookup_inv hinv hc hpc
    · rename_i hpc
      exact sendTo_inv hinv hc hpc h
    · cases h
  | cancelled =>
    dsimp only [pushCheckpoint] at h
    split at h
    · rename_i hpc
      cases h
      exact hinv.goOn hc (by rw [hpc]; rfl) (fun _ => by rw [hpc]; rfl) nofun trivial
    · cases h

theorem initial_inv : Inv sha256 initial := by
  refine ⟨fun i c hc => ?_, nofun, fun s sub hsub => ?_⟩
  · exact absurd (List.mem_of_getElem? hc) List.not_mem_nil
  · exact absurd (List.mem_of_getElem? hsub) List.not_mem_nil

theorem step_inv (e : Event) (hinv : Inv sha256 w) (h : step sha256 w e = some w') :
    Inv sha256 w' := by
  cases e with
  | push server request =>
    dsimp only [step] at h
    split at h
    · cases h
      exact hinv
    · cases h
      exact push_inv hinv server _
  | advance =>
    obtain ⟨c, hc, h⟩ := Option.bind_eq_some_iff.mp h
    exact pushCheckpoint_inv hinv hc h
  | join =>
    obtain ⟨sub, hsub, rfl⟩ := Option.map_eq_some_iff.mp h
    have hnil : sub.history = [] := by
      unfold streamCheckpoints at hsub
      split at hsub
      · cases hsub
      · cases hsub
        rfl
    exact subscribers_inv hinv (Fed.join hnil) fun _ hm => hm
  | receive => exact changeSubscriber_inv hinv (fun _ _ => receive_grown) h
  | leave => exact changeSubscriber_inv hinv (fun _ _ => leave_grown) h
  | publish => exact changeSubscriber_inv hinv (fun _ _ => publish_grown) h
  | crash server =>
    cases h
    exact crash_inv hinv server

theorem run_inv {events : List Event} (h : run (step sha256) initial events = some w) :
    Inv sha256 w :=
  run_preserves (fun _ e _ hs ht => step_inv e hs ht) initial_inv h

theorem Inv.fannedOut (hinv : Inv sha256 w) (hc : w.calls[i]? = some c) (h : c.reached.isSome) :
    c.accepted = true ∧ FannedOut w i c := by
  obtain ⟨reached, hreached⟩ := Option.isSome_iff_exists.mp h
  obtain ⟨haccepted, hall⟩ := (hinv.call i c hc).reached reached hreached
  refine ⟨haccepted, reached, hreached, fun s hs => ?_⟩
  obtain ⟨sub, hsub, hsent⟩ := hall s hs
  refine ⟨sub, hsub, fun hmatch => ?_⟩
  obtain ⟨m, hm, hi⟩ := hsent hmatch
  obtain ⟨c', hc', hevent, -⟩ := (hinv.subscriber s sub hsub).source m hm i hi
  rw [hc] at hc'
  cases hc'
  exact ⟨m, hm, hi, hevent⟩

theorem run_delivery (sha256 : Bytes → Bytes) (events : List Event) (w : World)
    (hrun : run (step sha256) initial events = some w)
    (hsha : Set.InjOn sha256 {text | ∃ c ∈ w.calls, c.push.text = text}) : Safe w := by
  have hinv := run_inv hrun
  refine ⟨fun s sub hsub => (hinv.subscriber s sub hsub).again, fun i c n hc hpc => ?_⟩
  have hanswered : Answered sha256 w c n := (hinv.call i c hc).progress_of_pc hpc
  refine ⟨hanswered.1, fun haccepted => (hinv.fannedOut hc (hanswered.2.1 haccepted)).2, fun hnot => ?_⟩
  obtain ⟨j, d, hd, hreached, hkey, hdigest⟩ := hanswered.2.2 hnot
  obtain ⟨haccepted, hfanned⟩ := hinv.fannedOut hd hreached
  have htext := hsha ⟨d, List.mem_of_getElem? hd, rfl⟩ ⟨c, List.mem_of_getElem? hc, rfl⟩ hdigest
  exact ⟨j, d, hd, haccepted, hkey, content_of_text hkey htext, hfanned⟩

def sample : CheckpointEvent := ⟨1, some ⟨7, [97], 1, [117], [106], 0, 0⟩, false⟩

def pushSample : Event := .push 0 ⟨some sample, [97], [98]⟩

def joinSample : Event := .join 0 [98] [] 0

def cancelledPush : List Event :=
  [joinSample, joinSample, pushSample, .advance 0 (.statement .ok), .advance 0 (.order [0, 1]), .advance 0 .go,
    .advance 0 .go, .advance 0 .go, .advance 0 .cancelled, .advance 0 (.statement .ok)]

def secondPush : List Event :=
  [pushSample, .advance 1 (.statement .ok), .advance 1 (.order [0, 1]), .advance 1 .go, .advance 1 .go, .advance 1 .go,
    .advance 1 .go, .advance 1 .go, .advance 1 (.statement .ok)]

def lateSubscriber : List Event :=
  [pushSample, .advance 0 (.statement .ok), .advance 0 (.order []), .advance 0 .go, .advance 0 (.statement .ok),
    joinSample, pushSample, .advance 1 (.statement .ok), .advance 1 (.statement .ok)]

def acknowledgement (c : Call) : Option Int64 :=
  match c.pc with
  | .done (some (.ok n)) => some n
  | _ => none

theorem run_delivery_retried : ∃ w, run (step id) initial (cancelledPush ++ secondPush) = some w ∧
    w.calls.map acknowledgement = [none, some 7] ∧ Safe w := by
  have hrun : ((run (step id) initial (cancelledPush ++ secondPush)).map fun w => w.calls.map acknowledgement) =
      some [none, some 7] := by decide +kernel
  obtain ⟨w, hw, hcalls⟩ := Option.map_eq_some_iff.mp hrun
  exact ⟨w, hw, hcalls, run_delivery id _ w hw (Set.injOn_id _)⟩

/-- A subscriber that stays connected gets the event of a retried push twice, and a push that finds its event admitted
is acknowledged while a subscriber connected all along has nothing. -/
theorem repeated_and_skipped : (∃ w, run (step id) initial (cancelledPush ++ secondPush) = some w ∧
      (w.subscribers.map fun sub => (sub.connected, sub.history.map (·.event))) =
        [(true, [sample, sample]), (true, [sample])]) ∧
    ∃ w, run (step id) initial lateSubscriber = some w ∧
      (w.calls.map fun c => (acknowledgement c, c.present)) = [(some 7, []), (some 7, [0])] ∧
      ∃ sub, w.subscribers = [sub] ∧ sub.connected = true ∧ sub.history = [] ∧
        (w.calls.map fun c => matching sub c.server c.push) = [true, true] := by
  constructor
  · have hrun : ((run (step id) initial (cancelledPush ++ secondPush)).map fun w =>
        w.subscribers.map fun sub => (sub.connected, sub.history.map (·.event))) =
        some [(true, [sample, sample]), (true, [sample])] := by decide +kernel
    exact Option.map_eq_some_iff.mp hrun
  · refine ⟨_, rfl, ?_, _, rfl, rfl, rfl, ?_⟩
    · decide +kernel
    · decide +kernel

end AstraSync.CheckpointDelivery
