import AstraSync.ConsoleSessions
import AstraSync.Library.Histories
import AstraSync.Library.Transitions

/-!
What the Console's logins and sessions are safe from, over all interleavings of the calls and with any clock. A
statement on its own could leave the idle expiry beyond the absolute one; the manager makes no such statement, since it
only updates tokens that can be refreshed.
-/

namespace AstraSync.ConsoleSafety

open ByteStrings ConsoleSessions Histories Transitions
open JobLifecycle (Time)

section

def Allowed (before : List Record) : Record → Prop
  | .begun login _ _ => ∀ browser expiresAt, .begun login browser expiresAt ∉ before
  | .consumed login browser time =>
    (∃ expiresAt, .begun login browser expiresAt ∈ before ∧ time < expiresAt) ∧
      ∀ browser' time', .consumed login browser' time' ∉ before
  | .opened session _ => ∀ absoluteExpiresAt, .opened session absoluteExpiresAt ∉ before
  | .resolved session time =>
    (∃ absoluteExpiresAt, .opened session absoluteExpiresAt ∈ before ∧ time < absoluteExpiresAt) ∧ .ended session ∉ before
  | .updated session revision => .updated session revision ∉ before
  | .ended _ => True

structure Touched (row row' : SessionRow) : Prop where
  serial : row'.serial = row.serial
  absolute : row'.absoluteExpiresAt ≤ row.absoluteExpiresAt
  idle : row.idleExpiresAt ≤ row.absoluteExpiresAt → row'.idleExpiresAt ≤ row'.absoluteExpiresAt
  revision : row.revision ≤ row'.revision

inductive Noted (sessions : List SessionRow) (f : SessionRow → SessionRow) : List Record → Prop
  | nothing : Noted sessions f []
  | resolved (row : SessionRow) (time : Time) (mem : row ∈ sessions) (live : time < row.absoluteExpiresAt) :
      Noted sessions f [.resolved row.serial time]
  | updated (row : SessionRow) (mem : row ∈ sessions) (next : row.revision < (f row).revision) :
      Noted sessions f [.updated row.serial row.revision]

inductive Effect (c : Codec) (s t : Store) : Prop
  | kept (same : t = s)
  | begun (row : LoginRow) (browser : Bytes) (serial : row.serial = s.nextLogin)
      (hash : row.browserHash = c.browserHash browser)
      (store : t = { s with
        logins := s.logins ++ [row]
        nextLogin := s.nextLogin + 1
        log := s.log ++ [.begun row.serial browser row.expiresAt] })
  | dropped (stale : LoginRow → Bool) (store : t = { s with logins := s.logins.filter fun row => !stale row })
  | consumed (stale : LoginRow → Bool) (row : LoginRow) (browser : Bytes) (time : Time) (mem : row ∈ s.logins)
      (gone : stale row = true) (hash : row.browserHash = c.browserHash browser) (early : time < row.expiresAt)
      (store : t = { s with
        logins := s.logins.filter fun row => !stale row
        log := s.log ++ [.consumed row.serial browser time] })
  | opened (row : SessionRow) (serial : row.serial = s.nextSession) (idle : row.idleExpiresAt ≤ row.absoluteExpiresAt)
      (store : t = { s with
        sessions := s.sessions ++ [row]
        nextSession := s.nextSession + 1
        log := s.log ++ [.opened row.serial row.absoluteExpiresAt] })
  | written (f : SessionRow → SessionRow) (records : List Record) (touched : ∀ row ∈ s.sessions, Touched row (f row))
      (noted : Noted s.sessions f records)
      (store : t = { s with sessions := s.sessions.map f, log := s.log ++ records })
  | ended (stale : SessionRow → Bool) (store : t = endSessions s stale)

variable {c : Codec} {s t : Store} {now : Time} {o : Outcome}

theorem deliver_effect {α : Type} {text : String} {after : Store} {result : Except StoreError α}
    (h : Effect c s after) : Effect c s (deliver s o text after result).1 := by
  unfold deliver
  split
  · exact h
  · exact h
  · exact .kept rfl

theorem deliver_error {α : Type} {text : String} {after : Store} {e : StoreError} {a : α} :
    (deliver s o text after (.error e : Except StoreError α)).2 ≠ .ok a := by
  unfold deliver
  split <;> exact nofun

theorem createLoginTransaction_effect {transaction : LoginTransaction} {ttl : Time} {stateBytes browserBytes : Bytes} :
    Effect c s (createLoginTransaction c s now o transaction ttl stateBytes browserBytes).1 := by
  unfold createLoginTransaction
  split
  · exact .kept rfl
  · dsimp only
    split
    · exact .kept rfl
    · split
      · exact .kept rfl
      · exact deliver_effect (.begun ⟨s.nextLogin, _, _, _, _⟩ browserBytes rfl rfl rfl)

theorem consumeLoginTransaction_effect {state browserBinding : String} :
    Effect c s (consumeLoginTransaction c s now o state browserBinding).1 := by
  unfold consumeLoginTransaction
  split
  · next stateBytes browserBytes _ _ =>
    dsimp only
    split
    · exact deliver_effect (.kept rfl)
    · next row hfind =>
      have hmatches := List.find?_some hfind
      have hrow := List.mem_of_find?_eq_some hfind
      split
      · have hspec := hmatches
        simp only [LoginRow.matches, Bool.and_eq_true, decide_eq_true_eq] at hspec
        exact .consumed _ row browserBytes now hrow hmatches hspec.1.2 hspec.2 rfl
      · exact deliver_effect (.dropped _ rfl)
  · exact .kept rfl

variable {principalID : String} {tokens : ConsoleTokens}

theorem createConsoleSession_effect {idleTTL absoluteTTL : Time} {sessionBytes : Bytes} :
    Effect c s (createConsoleSession c s now o principalID tokens idleTTL absoluteTTL sessionBytes).1 := by
  unfold createConsoleSession
  split
  · exact .kept rfl
  · dsimp only
    split
    · exact .kept rfl
    · split
      · exact .kept rfl
      · split
        · exact .kept rfl
        · exact deliver_effect (.opened ⟨s.nextSession, _, _, _, _, _, _, _, _⟩ rfl (min_le_right _ _) rfl)

theorem live_spec {sessionHash : Bytes} {row : SessionRow} (h : row.live now sessionHash = true) :
    now < row.absoluteExpiresAt := by
  simp only [SessionRow.live, Bool.and_eq_true, decide_eq_true_eq] at h
  exact h.2

theorem extend_touched {idleTTL : Time} (row : SessionRow) : Touched row (row.extend now idleTTL) :=
  ⟨rfl, le_refl _, fun _ => min_le_left _ _, le_refl _⟩

theorem Touched.refl (row : SessionRow) : Touched row row := ⟨rfl, le_refl _, id, le_refl _⟩

variable {f : SessionRow → SessionRow}

theorem touched_if {p : SessionRow → Bool} (h : ∀ row, Touched row (f row))
    (row : SessionRow) : Touched row (if p row then f row else row) := by
  split_ifs
  · exact h row
  · exact .refl row

theorem effect_touched (h : ∀ row ∈ s.sessions, Touched row (f row)) :
    Effect c s { s with sessions := s.sessions.map f } :=
  .written f [] h .nothing (by rw [List.append_nil])

theorem resolveConsoleSession_effect (c : Codec) (s : Store) (now : Time) (o : Outcome) (sessionID : String)
    (idleTTL : Time) :
    Effect c s (resolveConsoleSession c s now o sessionID idleTTL).1 ∧
      ∀ session, (resolveConsoleSession c s now o sessionID idleTTL).2 = .ok session →
        (resolveConsoleSession c s now o sessionID idleTTL).1.log = s.log ++ [.resolved session.serial now] := by
  unfold resolveConsoleSession
  split
  · exact ⟨.kept rfl, nofun⟩
  split
  · exact ⟨.kept rfl, nofun⟩
  dsimp only
  split
  · exact ⟨deliver_effect (.kept rfl), fun session h => absurd h deliver_error⟩
  next row hfind =>
  split
  · next session hsession =>
    refine ⟨.written _ _ (fun row _ => touched_if extend_touched row)
      (.resolved row now (List.mem_of_find?_eq_some hfind) (live_spec (List.find?_some hfind))) rfl, ?_⟩
    rintro _ ⟨⟩
    unfold SessionRow.session at hsession
    dsimp only at hsession
    split_ifs at hsession
    obtain ⟨tokens, -, rfl⟩ := Option.map_eq_some_iff.mp hsession
    rfl
  · exact ⟨deliver_effect (effect_touched fun row _ => touched_if extend_touched row),
      fun session h => absurd h deliver_error⟩

theorem write_touched {payload : Envelope ConsoleTokens (Bytes × String)}
    (h : tokens.refreshToken ≠ "") (row : SessionRow) : Touched row (row.write tokens payload) := by
  have habsolute : (row.write tokens payload).absoluteExpiresAt = row.absoluteExpiresAt := if_pos h
  refine ⟨rfl, le_of_eq habsolute, fun hidle => ?_, ?_⟩
  · rw [habsolute]
    exact hidle
  · exact (Int.lt_succ _).le

variable {sessionID : String}

theorem updateConsoleSessionTokens_effect {expectedRevision : ℤ} (htokens : tokens.refreshToken ≠ "") :
    Effect c s (updateConsoleSessionTokens c s now o sessionID principalID expectedRevision tokens).1 := by
  unfold updateConsoleSessionTokens
  split
  · exact .kept rfl
  split
  · exact .kept rfl
  dsimp only
  split
  · exact .kept rfl
  split
  · exact deliver_effect (.kept rfl)
  next row hfind =>
  have hcurrent := List.find?_some hfind
  split
  · have hrevision : row.revision = expectedRevision := by
      simp only [SessionRow.current, Bool.and_eq_true, decide_eq_true_eq] at hcurrent
      exact hcurrent.1.1.2
    subst hrevision
    refine .written _ _ (fun row _ => touched_if (write_touched htokens) row)
      (.updated row (List.mem_of_find?_eq_some hfind) ?_) rfl
    rw [if_pos hcurrent]
    exact Int.lt_succ _
  · exact deliver_effect (effect_touched fun row _ => touched_if (write_touched htokens) row)

theorem deleteConsoleSession_effect : Effect c s (deleteConsoleSession c s o sessionID).1 := by
  unfold deleteConsoleSession
  split
  · exact .kept rfl
  · exact deliver_effect (.ended _ rfl)

theorem revoke_effect : Effect c s (revokeConsoleSessionsForPrincipal c s o principalID).1 := by
  unfold revokeConsoleSessionsForPrincipal
  split
  · exact .kept rfl
  · exact deliver_effect (.ended _ rfl)

end

section

def loginOf : Record → Option ℕ
  | .begun login _ _ => some login
  | .consumed login _ _ => some login
  | _ => none

def sessionOf : Record → Option ℕ
  | .opened session _ => some session
  | .resolved session _ => some session
  | .updated session _ => some session
  | .ended session => some session
  | _ => none

structure LoginSound (c : Codec) (log : List Record) (row : LoginRow) : Prop where
  begun : ∃ browser, .begun row.serial browser row.expiresAt ∈ log ∧ row.browserHash = c.browserHash browser
  unconsumed : ∀ browser time, .consumed row.serial browser time ∉ log

structure SessionSound (log : List Record) (row : SessionRow) : Prop where
  opened : ∃ absoluteExpiresAt, .opened row.serial absoluteExpiresAt ∈ log ∧ row.absoluteExpiresAt ≤ absoluteExpiresAt
  idle : row.idleExpiresAt ≤ row.absoluteExpiresAt
  going : .ended row.serial ∉ log
  updated : ∀ revision, .updated row.serial revision ∈ log → revision < row.revision

structure LoginInv (c : Codec) (logins : List LoginRow) (next : ℕ) (log : List Record) : Prop where
  serials : (logins.map (·.serial)).Nodup
  below : ∀ row ∈ logins, row.serial < next
  records : ∀ r ∈ log, ∀ login, loginOf r = some login → login < next
  sound : ∀ row ∈ logins, LoginSound c log row

structure SessionInv (sessions : List SessionRow) (next : ℕ) (log : List Record) : Prop where
  serials : (sessions.map (·.serial)).Nodup
  below : ∀ row ∈ sessions, row.serial < next
  records : ∀ r ∈ log, ∀ session, sessionOf r = some session → session < next
  sound : ∀ row ∈ sessions, SessionSound log row

structure Inv (c : Codec) (s : Store) : Prop where
  logins : LoginInv c s.logins s.nextLogin s.log
  sessions : SessionInv s.sessions s.nextSession s.log
  log : Admissible Allowed s.log

variable {c : Codec} {s t : Store} {logins : List LoginRow} {sessions : List SessionRow} {next : ℕ}
  {log more : List Record} {row : LoginRow} {f : SessionRow → SessionRow} {records : List Record}

theorem LoginSound.append (h : LoginSound c log row) (hmore : ∀ r ∈ more, loginOf r ≠ some row.serial) :
    LoginSound c (log ++ more) row := by
  obtain ⟨⟨browser, hbegun, hhash⟩, hunconsumed⟩ := h
  refine ⟨⟨browser, List.mem_append_left _ hbegun, hhash⟩, fun browser' time hmem => ?_⟩
  rcases List.mem_append.mp hmem with hmem | hmem
  · exact hunconsumed browser' time hmem
  · exact hmore _ hmem rfl

theorem SessionSound.append {row : SessionRow} (h : SessionSound log row)
    (hended : .ended row.serial ∉ more) (hupdated : ∀ revision, .updated row.serial revision ∈ more → revision < row.revision) :
    SessionSound (log ++ more) row := by
  obtain ⟨⟨absoluteExpiresAt, hopened, hle⟩, hidle, hgoing, hbefore⟩ := h
  refine ⟨⟨absoluteExpiresAt, List.mem_append_left _ hopened, hle⟩, hidle, fun hmem => ?_, fun revision hmem => ?_⟩
  · exact (List.mem_append.mp hmem).elim hgoing hended
  · exact (List.mem_append.mp hmem).elim (hbefore revision) (hupdated revision)

theorem LoginInv.append (h : LoginInv c logins next log) (hmore : ∀ r ∈ more, loginOf r = none) :
    LoginInv c logins next (log ++ more) := by
  refine ⟨h.serials, h.below, List.forall_mem_append.mpr ⟨h.records, fun r hr login hlogin => ?_⟩,
    fun row hrow => (h.sound row hrow).append fun r hr => ?_⟩
  · cases (hmore r hr).symm.trans hlogin
  · rw [hmore r hr]
    exact nofun

theorem SessionInv.append (h : SessionInv sessions next log) (hmore : ∀ r ∈ more, sessionOf r = none) :
    SessionInv sessions next (log ++ more) := by
  refine ⟨h.serials, h.below, List.forall_mem_append.mpr ⟨h.records, fun r hr session hsession => ?_⟩,
    fun row hrow => (h.sound row hrow).append ?_ ?_⟩
  · cases (hmore r hr).symm.trans hsession
  · intro hmem
    cases hmore _ hmem
  · intro revision hmem
    cases hmore _ hmem

theorem LoginInv.filter (h : LoginInv c logins next log) (p : LoginRow → Bool) :
    LoginInv c (logins.filter p) next log :=
  ⟨h.serials.sublist (List.filter_sublist.map _), fun row hrow => h.below row (List.mem_of_mem_filter hrow), h.records,
    fun row hrow => h.sound row (List.mem_of_mem_filter hrow)⟩

theorem SessionInv.filter (h : SessionInv sessions next log) (p : SessionRow → Bool) :
    SessionInv (sessions.filter p) next log :=
  ⟨h.serials.sublist (List.filter_sublist.map _), fun row hrow => h.below row (List.mem_of_mem_filter hrow), h.records,
    fun row hrow => h.sound row (List.mem_of_mem_filter hrow)⟩

theorem numbered_snoc {α : Type} {rows : List α} {row : α} {serial : α → ℕ} (h : (rows.map serial).Nodup)
    (hbelow : ∀ row ∈ rows, serial row < next) (hserial : serial row = next) :
    ((rows ++ [row]).map serial).Nodup ∧ ∀ other ∈ rows ++ [row], serial other < next + 1 := by
  constructor
  · rw [List.map_append, List.map_singleton, ← List.concat_eq_append]
    refine h.concat fun hmem => ?_
    obtain ⟨other, hother, heq⟩ := List.mem_map.mp hmem
    exact (hbelow other hother).ne (heq.trans hserial)
  · rw [List.forall_mem_append, List.forall_mem_singleton, hserial]
    exact ⟨fun other hother => Nat.lt_succ_of_lt (hbelow other hother), Nat.lt_succ_self next⟩

theorem records_snoc {of : Record → Option ℕ} {new : Record} {bound : ℕ}
    (h : ∀ r ∈ log, ∀ serial, of r = some serial → serial < next) (hnext : next ≤ bound)
    (hnew : ∀ serial, of new = some serial → serial < bound) :
    ∀ r ∈ log ++ [new], ∀ serial, of r = some serial → serial < bound := by
  rw [List.forall_mem_append, List.forall_mem_singleton]
  exact ⟨fun r hr serial hserial => (h r hr serial hserial).trans_le hnext, hnew⟩

theorem LoginInv.begun (h : LoginInv c logins next log) {browser : Bytes} (hserial : row.serial = next)
    (hhash : row.browserHash = c.browserHash browser) :
    LoginInv c (logins ++ [row]) (next + 1) (log ++ [.begun row.serial browser row.expiresAt]) := by
  obtain ⟨hserials, hbelow⟩ := numbered_snoc h.serials h.below hserial
  refine ⟨hserials, hbelow, records_snoc h.records (Nat.le_succ next) ?_, fun row' hrow' => ?_⟩
  · rintro _ ⟨⟩
    omega
  · rcases List.mem_append.mp hrow' with hrow' | hrow'
    · refine (h.sound row' hrow').append fun r hr hlogin => ?_
      rw [List.mem_singleton.mp hr] at hlogin
      have hbelow := h.below row' hrow'
      have heq : row.serial = row'.serial := Option.some.inj hlogin
      omega
    · rw [List.mem_singleton.mp hrow']
      refine ⟨⟨browser, List.mem_append_right _ (List.mem_singleton_self _), hhash⟩, fun browser' time hmem => ?_⟩
      rcases List.mem_append.mp hmem with hmem | hmem
      · have hbelow := h.records _ hmem row.serial rfl
        omega
      · cases List.mem_singleton.mp hmem

theorem LoginInv.consumed (h : LoginInv c logins next log) {stale : LoginRow → Bool} {browser : Bytes}
    {time : Time} (hrow : row ∈ logins) (hover : stale row = true) :
    LoginInv c (logins.filter fun row => !stale row) next (log ++ [.consumed row.serial browser time]) := by
  refine ⟨(h.filter _).serials, (h.filter _).below, records_snoc h.records le_rfl ?_, fun row' hrow' => ?_⟩
  · rintro _ ⟨⟩
    exact h.below row hrow
  · obtain ⟨hmem, hnot⟩ := List.mem_filter.mp hrow'
    refine (h.sound row' hmem).append fun r hr hlogin => ?_
    rw [List.mem_singleton.mp hr] at hlogin
    cases List.inj_on_of_nodup_map h.serials hrow hmem (Option.some.inj hlogin)
    rw [hover] at hnot
    cases hnot

section

variable (h : SessionInv sessions next log)

include h

theorem SessionInv.opened {row : SessionRow} (hserial : row.serial = next)
    (hidle : row.idleExpiresAt ≤ row.absoluteExpiresAt) :
    SessionInv (sessions ++ [row]) (next + 1) (log ++ [.opened row.serial row.absoluteExpiresAt]) := by
  obtain ⟨hserials, hbelow⟩ := numbered_snoc h.serials h.below hserial
  refine ⟨hserials, hbelow, records_snoc h.records (Nat.le_succ next) ?_, fun row' hrow' => ?_⟩
  · rintro _ ⟨⟩
    omega
  · rcases List.mem_append.mp hrow' with hrow' | hrow'
    · refine (h.sound row' hrow').append (fun hmem => ?_) fun revision hmem => ?_
      · cases List.mem_singleton.mp hmem
      · cases List.mem_singleton.mp hmem
    · rw [List.mem_singleton.mp hrow']
      have hnew (r : Record) (hr : r ∈ log) : sessionOf r ≠ some row.serial := fun hsession => by
        have hbelow := h.records r hr _ hsession
        omega
      refine ⟨⟨_, List.mem_append_right _ (List.mem_singleton_self _), le_refl _⟩, hidle, fun hmem => ?_,
        fun revision hmem => ?_⟩
      · rcases List.mem_append.mp hmem with hmem | hmem
        · exact hnew _ hmem rfl
        · cases List.mem_singleton.mp hmem
      · rcases List.mem_append.mp hmem with hmem | hmem
        · exact absurd rfl (hnew _ hmem)
        · cases List.mem_singleton.mp hmem

theorem SessionInv.written (htouched : ∀ row ∈ sessions, Touched row (f row)) (hnoted : Noted sessions f records) :
    SessionInv (sessions.map f) next (log ++ records) := by
  refine ⟨?_, fun row' hrow' => ?_, ?_, fun row' hrow' => ?_⟩
  · have hserials : (sessions.map f).map (·.serial) = sessions.map (·.serial) := by
      rw [List.map_map]
      exact List.map_congr_left fun row hrow => (htouched row hrow).serial
    rw [hserials]
    exact h.serials
  · obtain ⟨row, hrow, rfl⟩ := List.mem_map.mp hrow'
    rw [(htouched row hrow).serial]
    exact h.below row hrow
  · cases hnoted with
    | nothing =>
      rw [List.append_nil]
      exact h.records
    | resolved row _ hrow | updated row hrow =>
      refine records_snoc h.records le_rfl ?_
      rintro _ ⟨⟩
      exact h.below row hrow
  · obtain ⟨row, hrow, rfl⟩ := List.mem_map.mp hrow'
    obtain ⟨hserial, habsolute, hidle, hrevision⟩ := htouched row hrow
    obtain ⟨⟨absoluteExpiresAt, hopened, hle⟩, hidle', hgoing, hbefore⟩ := h.sound row hrow
    have hsound : SessionSound log (f row) := by
      refine ⟨⟨absoluteExpiresAt, hserial ▸ hopened, habsolute.trans hle⟩, hidle hidle', hserial ▸ hgoing, ?_⟩
      intro revision hmem
      exact lt_of_lt_of_le (hbefore revision (hserial ▸ hmem)) hrevision
    cases hnoted with
    | nothing =>
      rw [List.append_nil]
      exact hsound
    | resolved =>
      refine hsound.append (fun hmem => ?_) fun revision hmem => ?_
      · cases List.mem_singleton.mp hmem
      · cases List.mem_singleton.mp hmem
    | updated row' mem later =>
      refine hsound.append (fun hmem => ?_) fun revision hmem => ?_
      · cases List.mem_singleton.mp hmem
      · obtain ⟨heq, rfl⟩ := Record.updated.inj (List.mem_singleton.mp hmem)
        cases List.inj_on_of_nodup_map h.serials hrow mem (hserial.symm.trans heq)
        exact later

theorem SessionInv.ended (stale : SessionRow → Bool) : SessionInv (sessions.filter fun row => !stale row) next
      (log ++ (sessions.filter stale).map fun row => .ended row.serial) := by
  refine ⟨(h.filter _).serials, (h.filter _).below, fun r hr session hsession => ?_, fun row' hrow' => ?_⟩
  · rcases List.mem_append.mp hr with hr | hr
    · exact h.records r hr session hsession
    · obtain ⟨row, hrow, rfl⟩ := List.mem_map.mp hr
      cases hsession
      exact h.below row (List.mem_of_mem_filter hrow)
  · obtain ⟨hmem', hnot⟩ := List.mem_filter.mp hrow'
    refine (h.sound row' hmem').append (fun hmem => ?_) fun revision hmem => ?_
    · obtain ⟨row, hrow, heq⟩ := List.mem_map.mp hmem
      obtain ⟨hrow, hstale⟩ := List.mem_filter.mp hrow
      cases List.inj_on_of_nodup_map h.serials hrow hmem' (Record.ended.inj heq)
      rw [hstale] at hnot
      cases hnot
    · obtain ⟨row, -, heq⟩ := List.mem_map.mp hmem
      cases heq

end

theorem ended_noLogin (rows : List SessionRow) (r : Record) (hr : r ∈ rows.map fun row => .ended row.serial) :
    loginOf r = none := by
  obtain ⟨row, -, rfl⟩ := List.mem_map.mp hr
  rfl

theorem noted_noLogin (h : Noted sessions f records) (r : Record) (hr : r ∈ records) : loginOf r = none := by
  cases h with
  | nothing => cases hr
  | resolved => rw [List.mem_singleton.mp hr]; rfl
  | updated => rw [List.mem_singleton.mp hr]; rfl

theorem noted_admissible (hinv : SessionInv sessions next log)
    (hlog : Admissible Allowed log) (h : Noted sessions f records) : Admissible Allowed (log ++ records) := by
  cases h with
  | nothing => rwa [List.append_nil]
  | resolved row time hrow hlive =>
    obtain ⟨⟨absoluteExpiresAt, hopened, hle⟩, -, hgoing, -⟩ := hinv.sound row hrow
    exact admissible_snoc.mpr ⟨hlog, ⟨absoluteExpiresAt, hopened, lt_of_lt_of_le hlive hle⟩, hgoing⟩
  | updated row hrow =>
    exact admissible_snoc.mpr ⟨hlog, fun hmem => lt_irrefl _ ((hinv.sound row hrow).updated _ hmem)⟩

theorem Effect.inv (hhash : Function.Injective c.browserHash) (h : Effect c s t) (hs : Inv c s) : Inv c t := by
  obtain ⟨hlogins, hsessions, hlog⟩ := hs
  cases h with
  | kept same =>
    subst same
    exact ⟨hlogins, hsessions, hlog⟩
  | begun row browser serial hash store =>
    subst store
    refine ⟨hlogins.begun serial hash, hsessions.append fun r hr => ?_, admissible_snoc.mpr ⟨hlog, ?_⟩⟩
    · rw [List.mem_singleton.mp hr]
      rfl
    · intro browser' expiresAt hmem
      have hbelow := hlogins.records _ hmem row.serial rfl
      omega
  | dropped stale store =>
    subst store
    exact ⟨hlogins.filter _, hsessions, hlog⟩
  | consumed stale row browser time mem gone hash early store =>
    subst store
    refine ⟨hlogins.consumed mem gone, hsessions.append fun r hr => ?_, admissible_snoc.mpr ⟨hlog, ?_, ?_⟩⟩
    · rw [List.mem_singleton.mp hr]
      rfl
    · obtain ⟨browser', hbegun, hhash'⟩ := (hlogins.sound row mem).begun
      cases hhash (hash.symm.trans hhash')
      exact ⟨row.expiresAt, hbegun, early⟩
    · exact (hlogins.sound row mem).unconsumed
  | opened row serial idle store =>
    subst store
    refine ⟨hlogins.append fun r hr => ?_, hsessions.opened serial idle, admissible_snoc.mpr ⟨hlog, ?_⟩⟩
    · rw [List.mem_singleton.mp hr]
      rfl
    · intro absoluteExpiresAt hmem
      have hbelow := hsessions.records _ hmem row.serial rfl
      omega
  | written f records touched noted store =>
    subst store
    exact ⟨hlogins.append (noted_noLogin noted), hsessions.written touched noted, noted_admissible hsessions hlog noted⟩
  | ended stale store =>
    subst store
    refine ⟨hlogins.append (ended_noLogin _), hsessions.ended stale, hlog.append fun r hr before => ?_⟩
    obtain ⟨row, -, rfl⟩ := List.mem_map.mp hr
    trivial

theorem Effect.grows (h : Effect c s t) : ∃ more, t.log = s.log ++ more := by
  cases h with
  | kept same => exact ⟨[], by rw [same, List.append_nil]⟩
  | begun row browser serial hash store => exact ⟨_, by rw [store]⟩
  | dropped stale store => exact ⟨[], by rw [store, List.append_nil]⟩
  | consumed stale row browser time mem gone hash early store => exact ⟨_, by rw [store]⟩
  | opened row serial idle store => exact ⟨_, by rw [store]⟩
  | written f records touched noted store => exact ⟨_, by rw [store]⟩
  | ended stale store => exact ⟨_, by rw [store]; rfl⟩

structure Aged (s t : Store) : Prop where
  next : s.nextSession ≤ t.nextSession
  rows : ∀ row' ∈ t.sessions, row'.serial < s.nextSession →
    ∃ row ∈ s.sessions, row.serial = row'.serial ∧ row'.absoluteExpiresAt ≤ row.absoluteExpiresAt

theorem Aged.refl (s : Store) : Aged s s := ⟨le_refl _, fun row hrow _ => ⟨row, hrow, rfl, le_refl _⟩⟩

theorem Aged.trans {u : Store} (h : Aged s t) (h' : Aged t u) : Aged s u := by
  refine ⟨h.next.trans h'.next, fun row'' hrow'' hlt => ?_⟩
  obtain ⟨row', hrow', hserial', hle'⟩ := h'.rows row'' hrow'' (lt_of_lt_of_le hlt h.next)
  obtain ⟨row, hrow, hserial, hle⟩ := h.rows row' hrow' (hserial' ▸ hlt)
  exact ⟨row, hrow, hserial.trans hserial', hle'.trans hle⟩

theorem Effect.aged (h : Effect c s t) : Aged s t := by
  cases h with
  | kept same => exact same ▸ .refl s
  | begun row browser serial hash store => exact store ▸ ⟨le_refl _, (Aged.refl s).rows⟩
  | dropped stale store => exact store ▸ ⟨le_refl _, (Aged.refl s).rows⟩
  | consumed stale row browser time mem gone hash early store => exact store ▸ ⟨le_refl _, (Aged.refl s).rows⟩
  | opened row serial idle store =>
    subst store
    refine ⟨Nat.le_succ _, fun row' hrow' hlt => ?_⟩
    rcases List.mem_append.mp hrow' with hrow' | hrow'
    · exact ⟨row', hrow', rfl, le_refl _⟩
    · rw [List.mem_singleton.mp hrow'] at hlt
      omega
  | written f records touched noted store =>
    subst store
    refine ⟨le_refl _, fun row' hrow' _ => ?_⟩
    obtain ⟨row, hrow, rfl⟩ := List.mem_map.mp hrow'
    exact ⟨row, hrow, (touched row hrow).serial.symm, (touched row hrow).absolute⟩
  | ended stale store =>
    subst store
    exact ⟨le_refl _, fun row hrow _ => ⟨row, List.mem_of_mem_filter hrow, rfl, le_refl _⟩⟩

end

section

def serials (session : Option Session) : List ℕ := (session.map (·.record.serial)).toList

def held : Phase → List ℕ
  | .resolve _ fallback => serials fallback
  | .principal _ record fallback => record.serial :: serials fallback
  | .refresh _ record _ fallback => record.serial :: serials fallback
  | .update _ record _ _ fallback => record.serial :: serials fallback
  | .done result => serials result
  | _ => []

def refreshable : Phase → Prop
  | .update _ _ next _ _ => next.refreshToken ≠ ""
  | _ => True

variable {c : Codec} {g : ManagerConfig} {s t : Store} {a : Answer}

theorem exchanged_held : held (exchanged a) = [] ∧ refreshable (exchanged a) := by
  unfold exchanged
  split
  · split_ifs <;> exact ⟨rfl, trivial⟩
  · exact ⟨rfl, trivial⟩

theorem mem_serials {serial : ℕ} {record : ConsoleSession} {principal : Principal} {sessionID : String}
    (h : serial ∈ serials (some ⟨principal, record, sessionID⟩)) : serial = record.serial :=
  List.mem_singleton.mp h

theorem resolvedPrincipal_held (g : ManagerConfig) (a : Answer) (sessionID : String) (record : ConsoleSession)
    (fallback : Option Session) :
    (∀ serial ∈ held (resolvedPrincipal g a sessionID record fallback), serial ∈ record.serial :: serials fallback) ∧
      refreshable (resolvedPrincipal g a sessionID record fallback) := by
  unfold resolvedPrincipal
  split
  · exact ⟨fun serial h => List.mem_cons_of_mem _ h, trivial⟩
  · dsimp only
    split_ifs
    · exact ⟨fun serial h => List.mem_cons_of_mem _ h, trivial⟩
    · exact ⟨fun serial h => h, trivial⟩
    · refine ⟨fun serial h => ?_, trivial⟩
      rcases List.mem_cons.mp h with rfl | h
      · exact List.mem_cons_self
      · rw [mem_serials h]
        exact List.mem_cons_self
    · refine ⟨fun serial h => ?_, trivial⟩
      rw [mem_serials h]
      exact List.mem_cons_self

theorem refreshed_held (a : Answer) (principal : Principal) (record : ConsoleSession) (sessionID : String)
    (fallback : Option Session) :
    (∀ serial ∈ held (refreshed a principal record sessionID fallback), serial ∈ record.serial :: serials fallback) ∧
      refreshable (refreshed a principal record sessionID fallback) := by
  unfold refreshed
  split
  · exact ⟨fun serial h => List.mem_cons_of_mem _ h, trivial⟩
  · next hrefresh =>
    split
    · split
      · exact ⟨fun serial h => List.mem_cons_of_mem _ h, trivial⟩
      · refine ⟨fun serial h => h, ?_⟩
        -- where the provider does not send a new token, the old one is kept
        show (if _ = "" then _ else _) ≠ ""
        split_ifs with hnone
        · exact hrefresh
        · exact hnone
    · exact ⟨fun serial h => List.mem_cons_of_mem _ h, trivial⟩

structure Advanced (c : Codec) (s t : Store) (phase phase' : Phase) : Prop where
  effect : Effect c s t
  refreshable : refreshable phase'
  held : ∀ serial ∈ held phase', serial ∈ held phase ∨ ∃ time, t.log = s.log ++ [.resolved serial time]

variable {phase phase' : Phase} {sessionID : String} {principal : Principal} {record : ConsoleSession}
  {fallback : Option Session}

theorem consume_advanced {state browserBinding code : String}
    (h : advance c g s a (.consume state browserBinding code) = some (t, phase')) :
    Advanced c s t (.consume state browserBinding code) phase' := by
  have heffect : Effect c s (consumeLoginTransaction c s a.now a.outcome state browserBinding).1 :=
    consumeLoginTransaction_effect
  dsimp only [advance] at h
  split at h
  · next heq =>
    cases h
    rw [heq] at heffect
    split_ifs <;> exact ⟨heffect, trivial, nofun⟩
  · next heq =>
    cases h
    rw [heq] at heffect
    exact ⟨heffect, trivial, nofun⟩

theorem create_advanced {tokens : ConsoleTokens} (h : advance c g s a (.create principal tokens) = some (t, phase')) :
    Advanced c s t (.create principal tokens) phase' := by
  have heffect : Effect c s
      (createConsoleSession c s a.now a.outcome principal.id tokens g.idleTTL g.absoluteTTL a.random).1 :=
    createConsoleSession_effect
  dsimp only [advance] at h
  split at h <;> cases h
  case h_1 heq | h_2 heq =>
    rw [heq] at heffect
    exact ⟨heffect, trivial, nofun⟩

theorem first_advanced (h : advance c g s a (.first principal sessionID) = some (t, phase')) :
    Advanced c s t (.first principal sessionID) phase' := by
  obtain ⟨heffect, hlog⟩ := resolveConsoleSession_effect c s a.now a.outcome sessionID g.idleTTL
  dsimp only [advance] at h
  split at h
  · next record heq =>
    cases h
    rw [heq] at heffect hlog
    refine ⟨heffect, trivial, fun serial hserial => .inr ?_⟩
    rw [mem_serials hserial]
    exact ⟨a.now, hlog record rfl⟩
  · next heq =>
    cases h
    rw [heq] at heffect
    exact ⟨heffect, trivial, nofun⟩

theorem resolve_advanced (h : advance c g s a (.resolve sessionID fallback) = some (t, phase')) :
    Advanced c s t (.resolve sessionID fallback) phase' := by
  obtain ⟨heffect, hlog⟩ := resolveConsoleSession_effect c s a.now a.outcome sessionID g.idleTTL
  dsimp only [advance] at h
  split at h
  · next record heq =>
    cases h
    rw [heq] at heffect hlog
    refine ⟨heffect, trivial, fun serial hserial => ?_⟩
    rcases List.mem_cons.mp hserial with rfl | hserial
    · exact .inr ⟨a.now, hlog record rfl⟩
    · exact .inl hserial
  · next heq =>
    cases h
    rw [heq] at heffect
    exact ⟨heffect, trivial, fun serial hserial => .inl hserial⟩

theorem update_advanced {next : ConsoleTokens} (hrefreshable : refreshable (.update principal record next sessionID fallback))
    (h : advance c g s a (.update principal record next sessionID fallback) = some (t, phase')) :
    Advanced c s t (.update principal record next sessionID fallback) phase' := by
  have heffect : Effect c s
      (updateConsoleSessionTokens c s a.now a.outcome sessionID principal.id record.revision next).1 :=
    updateConsoleSessionTokens_effect hrefreshable
  dsimp only [advance] at h
  split at h <;> cases h
  case h_1 heq =>
    rw [heq] at heffect
    refine ⟨heffect, trivial, fun serial hserial => .inl ?_⟩
    rw [mem_serials hserial]
    exact List.mem_cons_self
  case h_2 heq | h_3 heq =>
    rw [heq] at heffect
    exact ⟨heffect, trivial, fun serial hserial => .inl (List.mem_cons_of_mem _ hserial)⟩

theorem advance_spec (hrefreshable : refreshable phase) (h : advance c g s a phase = some (t, phase')) :
    Advanced c s t phase phase' := by
  cases phase with
  | consume => exact consume_advanced h
  | create => exact create_advanced h
  | first => exact first_advanced h
  | resolve => exact resolve_advanced h
  | update => exact update_advanced hrefreshable h
  | exchange =>
    cases h
    obtain ⟨hheld, href⟩ := exchanged_held (a := a)
    refine ⟨.kept rfl, href, fun serial hserial => ?_⟩
    rw [hheld] at hserial
    cases hserial
  | audit =>
    cases h
    refine ⟨.kept rfl, ?_, ?_⟩ <;> split_ifs
    · exact trivial
    · exact trivial
    · exact nofun
    · exact nofun
  | discard | logout =>
    cases h
    exact ⟨deleteConsoleSession_effect, trivial, nofun⟩
  | principal sessionID record fallback =>
    cases h
    obtain ⟨hheld, href⟩ := resolvedPrincipal_held g a sessionID record fallback
    exact ⟨.kept rfl, href, fun serial hserial => .inl (hheld serial hserial)⟩
  | refresh principal record sessionID fallback =>
    cases h
    obtain ⟨hheld, href⟩ := refreshed_held a principal record sessionID fallback
    exact ⟨.kept rfl, href, fun serial hserial => .inl (hheld serial hserial)⟩
  | done => cases h

end

section

structure CallSound (log : List Record) (call : Call) : Prop where
  began : call.began ≤ log.length
  refreshable : refreshable call.phase
  held : ∀ serial ∈ held call.phase, ∃ time, .resolved serial time ∈ log.drop call.began

structure WorldInv (c : Codec) (w : World) : Prop where
  store : Inv c w.store
  calls : ∀ call ∈ w.calls, CallSound w.store.log call

variable {log : List Record}

theorem CallSound.append {call : Call} (h : CallSound log call) (more : List Record) :
    CallSound (log ++ more) call := by
  refine ⟨h.began.trans (List.length_append ▸ Nat.le_add_right _ _), h.refreshable, fun serial hserial => ?_⟩
  obtain ⟨time, htime⟩ := h.held serial hserial
  rw [List.drop_append_of_le_length h.began]
  exact ⟨time, List.mem_append_left _ htime⟩

variable {c : Codec} {g : ManagerConfig} {w w' : World}

theorem WorldInv.statement (hhash : Function.Injective c.browserHash) (h : WorldInv c w) {store : Store}
    (heffect : Effect c w.store store) : WorldInv c { w with store } ∧ Aged w.store store := by
  obtain ⟨more, hlog⟩ := heffect.grows
  refine ⟨⟨heffect.inv hhash h.store, fun call hcall => ?_⟩, heffect.aged⟩
  show CallSound store.log call
  rw [hlog]
  exact (h.calls call hcall).append more

theorem WorldInv.call (h : WorldInv c w) {phase : Phase} (hheld : held phase = []) (href : refreshable phase) :
    WorldInv c (w.call phase) := by
  refine ⟨h.store, fun call hcall => ?_⟩
  rcases List.mem_append.mp hcall with hcall | hcall
  · exact h.calls call hcall
  · rw [List.mem_singleton.mp hcall]
    refine ⟨le_refl _, href, fun serial hserial => ?_⟩
    rw [hheld] at hserial
    cases hserial

theorem WorldInv.step (hhash : Function.Injective c.browserHash) (h : WorldInv c w) {e : Event}
    (hstep : ConsoleSessions.step c g w e = some w') : WorldInv c w' ∧ Aged w.store w'.store := by
  cases e with
  | beginLogin =>
    cases hstep
    exact h.statement hhash createLoginTransaction_effect
  | completeLogin =>
    cases hstep
    exact ⟨h.call rfl trivial, .refl _⟩
  | resolve =>
    cases hstep
    exact ⟨h.call rfl trivial, .refl _⟩
  | logout =>
    cases hstep
    exact ⟨h.call rfl trivial, .refl _⟩
  | advance =>
    obtain ⟨call, hcall, hstep⟩ := Option.bind_eq_some_iff.mp hstep
    obtain ⟨⟨store, phase⟩, hadvance, hstep⟩ := Option.bind_eq_some_iff.mp hstep
    cases hstep
    have hsound := h.calls call (List.mem_of_getElem? hcall)
    obtain ⟨heffect, href, hheld⟩ := advance_spec hsound.refreshable hadvance
    obtain ⟨⟨hstore, hcalls⟩, haged⟩ := h.statement hhash heffect
    refine ⟨⟨hstore, fun call' hcall' => ?_⟩, haged⟩
    rcases List.mem_or_eq_of_mem_set hcall' with hcall' | rfl
    · exact hcalls call' hcall'
    · have hlater := hcalls call (List.mem_of_getElem? hcall)
      refine ⟨hlater.began, href, fun serial hserial => ?_⟩
      rcases hheld serial hserial with hserial | ⟨time, hlog⟩
      · exact hlater.held serial hserial
      · refine ⟨time, ?_⟩
        show _ ∈ store.log.drop call.began
        rw [hlog, List.drop_append_of_le_length hsound.began]
        exact List.mem_append_right _ (List.mem_singleton_self _)
  | revoke =>
    cases hstep
    exact h.statement hhash revoke_effect

theorem worldInv_initial : WorldInv c initial where
  store := {
    logins := ⟨List.nodup_nil, fun _ h => absurd h List.not_mem_nil, fun _ h => absurd h List.not_mem_nil,
      fun _ h => absurd h List.not_mem_nil⟩
    sessions := ⟨List.nodup_nil, fun _ h => absurd h List.not_mem_nil, fun _ h => absurd h List.not_mem_nil,
      fun _ h => absurd h List.not_mem_nil⟩
    log := admissible_nil }
  calls := fun _ h => absurd h List.not_mem_nil

theorem run_worldInv (hhash : Function.Injective c.browserHash) {events : List Event} (h : WorldInv c w)
    (hrun : run (step c g) w events = some w') : WorldInv c w' ∧ Aged w.store w'.store := by
  have hstep : ∀ u e u', (WorldInv c u ∧ Aged w.store u.store) → step c g u e = some u' →
      WorldInv c u' ∧ Aged w.store u'.store := by
    intro u e u' hu hstep
    obtain ⟨hinv, haged⟩ := hu.1.step hhash hstep
    exact ⟨hinv, hu.2.trans haged⟩
  exact run_preserves hstep ⟨h, .refl _⟩ hrun

/-- The event carries out a logout from the session, or the revocation of its principal's sessions. -/
def Ends (c : Codec) (w : World) (row : SessionRow) : Event → Prop
  | .revoke principalID outcome => c.parseUUID principalID = true ∧ outcome ≠ .failed ∧ row.principalID = principalID
  | .advance n a => ∃ call session sessionBytes, w.calls[n]? = some call ∧ call.phase = .logout session ∧
      a.outcome ≠ .failed ∧ c.decodeCredential session.sessionID = some sessionBytes ∧
      row.sessionHash = c.sessionHash sessionBytes
  | _ => False

structure Safe (c : Codec) (after : List Event) (w w' : World) : Prop where
  history : Admissible Allowed w'.store.log
  idle : ∀ row ∈ w'.store.sessions, row.idleExpiresAt ≤ row.absoluteExpiresAt
  absolute : ∀ row ∈ w.store.sessions, ∀ row' ∈ w'.store.sessions, row'.serial = row.serial →
    row'.absoluteExpiresAt ≤ row.absoluteExpiresAt
  opened : ∀ row ∈ w'.store.sessions, ∃ absoluteExpiresAt,
    .opened row.serial absoluteExpiresAt ∈ w'.store.log ∧ row.absoluteExpiresAt ≤ absoluteExpiresAt
  returned : ∀ call ∈ w'.calls, ∀ session, call.phase = .done (some session) →
    .ended session.record.serial ∉ w'.store.log.take call.began
  gone : ∀ e ∈ after.head?, ∀ row ∈ w.store.sessions, Ends c w row e → ∀ row' ∈ w'.store.sessions, row'.serial ≠ row.serial

theorem deliver_done {α : Type} {s : Store} {o : Outcome} {text : String} {after : Store} {result : Except StoreError α}
    (h : o ≠ .failed) : (deliver s o text after result).1 = after := by
  cases o with
  | answered | lost => rfl
  | failed => exact absurd rfl h

theorem step_ends {e : Event} {row : SessionRow} (h : Ends c w row e) (hstep : step c g w e = some w') :
    ∃ gone : SessionRow → Bool, gone row = true ∧ w'.store = endSessions w.store gone := by
  cases e with
  | revoke principalID outcome =>
    obtain ⟨hvalid, houtcome, hrow⟩ := h
    cases hstep
    refine ⟨fun row => row.principalID = principalID, decide_eq_true hrow, ?_⟩
    dsimp only [revokeConsoleSessionsForPrincipal]
    rw [if_neg (by simp [hvalid]), deliver_done houtcome]
  | advance n a =>
    obtain ⟨call, session, sessionBytes, hcall, hphase, houtcome, hdecode, hrow⟩ := h
    refine ⟨fun row => row.sessionHash = c.sessionHash sessionBytes, decide_eq_true hrow, ?_⟩
    simp only [step, hcall, hphase, advance, deleteConsoleSession, hdecode, deliver_done houtcome, Option.bind_eq_bind,
      Option.bind_some, pure, Option.some.injEq] at hstep
    rw [← hstep]
  | _ => exact h.elim

theorem gone_of_ends (hhash : Function.Injective c.browserHash) (hw : WorldInv c w) {after : List Event}
    (hafter : run (step c g) w after = some w') {e : Event} (he : e ∈ after.head?) {row : SessionRow}
    (hrow : row ∈ w.store.sessions) (h : Ends c w row e) : ∀ row' ∈ w'.store.sessions, row'.serial ≠ row.serial := by
  obtain ⟨rest, rfl⟩ : ∃ rest, after = e :: rest := ⟨after.tail, (List.cons_head?_tail he).symm⟩
  obtain ⟨u, hu, hrest⟩ := run_cons_eq.mp hafter
  obtain ⟨gone, hgone, hstore⟩ := step_ends h hu
  obtain ⟨hinv, hstep⟩ := hw.step hhash hu
  have haged := (run_worldInv hhash hinv hrest).2
  intro row' hrow' hserial
  obtain ⟨old, hold, holdSerial, -⟩ := haged.rows row' hrow' (hserial ▸ (hw.store.sessions.below row hrow).trans_le hstep.next)
  rw [hstore] at hold
  obtain ⟨hmem, hkept⟩ := List.mem_filter.mp hold
  cases List.inj_on_of_nodup_map hw.store.sessions.serials hmem hrow (holdSerial.trans hserial)
  rw [hgone] at hkept
  cases hkept

theorem not_ended_before (h : Admissible Allowed log) {serial n : ℕ} {time : Time}
    (hmem : .resolved serial time ∈ log.drop n) : .ended serial ∉ log.take n := by
  intro hended
  obtain ⟨between, after, hdrop⟩ := List.append_of_mem hmem
  obtain ⟨-, hnot⟩ := h (log.take n ++ between) (.resolved serial time) after (by
    rw [List.append_assoc, ← hdrop, List.take_append_drop])
  exact hnot (List.mem_append_left _ hended)

end

def sampleCodec : Codec where
  encodeCredential bytes := String.ofList (bytes.map fun b => Char.ofNat b.toNat)
  decodeCredential s := some (lit s)
  parseUUID _ := true
  sessionHash := id
  browserHash := id
  csrfToken _ := "csrf"
  csrfHash := lit
  loginSize _ := 1
  tokensSize _ := 1

def sampleManager : ManagerConfig := ⟨30 * minute, 480 * minute, 10 * minute, minute⟩

def sampleAnswer (now : Time) : Answer :=
  ⟨now, now, .answered, lit "session", some ⟨"access", "refresh", "Bearer", now + 60 * minute, "id"⟩,
    some ⟨⟨"issuer", "subject"⟩, now + 60 * minute⟩, some ⟨⟨"issuer", "subject"⟩, now + 60 * minute⟩,
    some ⟨"p", "issuer", "subject", true⟩, true⟩

def login : List Event :=
  [.beginLogin ⟨"0123456789abcdef0123456789abcdef", "0123456789abcdef0123456789abcdef0123456789abcdef", "/"⟩
      (lit "state") (lit "browser") 10 .answered,
    .completeLogin "state" "browser" "code", .advance 0 (sampleAnswer 20), .advance 0 (sampleAnswer 20),
    .advance 0 (sampleAnswer 20), .advance 0 (sampleAnswer 20), .advance 0 (sampleAnswer 30)]

def revoked : List Event := [.revoke "p" .answered, .resolve "session", .advance 1 (sampleAnswer 40)]

def histories (before after : List Event) : Option (List Record × List Record) :=
  (run (step sampleCodec sampleManager) initial before).bind fun w =>
    (run (step sampleCodec sampleManager) w after).map fun w' => (w.store.log, w'.store.log)

end AstraSync.ConsoleSafety
