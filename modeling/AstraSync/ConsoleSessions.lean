import AstraSync.JobValidation

namespace AstraSync.ConsoleSessions

open ByteStrings JobLifecycle

structure ConsoleTokens where
  (accessToken refreshToken tokenType : String)
  expiresAt : Time
  deriving DecidableEq

def ConsoleTokens.invalid (t : ConsoleTokens) : Bool :=
  JobLifecycle.blank t.accessToken || 20480 < t.accessToken.utf8ByteSize || 20480 < t.refreshToken.utf8ByteSize ||
    t.tokenType.toList.map Char.toLower ≠ "bearer".toList || t.expiresAt = zeroTime

structure LoginTransaction where
  (nonce codeVerifier returnTo : String)
  deriving DecidableEq

def LoginTransaction.invalid (t : LoginTransaction) : Bool :=
  t.nonce.utf8ByteSize < 32 || 256 < t.nonce.utf8ByteSize || t.codeVerifier.utf8ByteSize < 43 ||
    128 < t.codeVerifier.utf8ByteSize || t.returnTo.utf8ByteSize = 0 || 2048 < t.returnTo.utf8ByteSize

structure Codec where
  encodeCredential : Bytes → String
  decodeCredential : String → Option Bytes
  parseUUID : String → Bool
  (sessionHash browserHash : Bytes → Bytes)
  csrfToken : Bytes → String
  csrfHash : String → Bytes
  loginSize : LoginTransaction → ℕ
  tokensSize : ConsoleTokens → ℕ

structure Envelope (α β : Type) where
  value : α
  size : ℕ
  additionalData : β

def encryptJSON {α β : Type} (value : α) (size : ℕ) (additionalData : β) : Option (Envelope α β) :=
  if size = 0 ∨ 65536 < size then none else some ⟨value, size, additionalData⟩

def decryptJSON {α β : Type} [DecidableEq β] (envelope : Envelope α β) (additionalData : β) : Option α :=
  if 65536 < envelope.size + 29 ∨ envelope.additionalData ≠ additionalData then none else some envelope.value

section

structure LoginRow where
  serial : ℕ
  (stateHash browserHash : Bytes)
  payload : Envelope LoginTransaction (Bytes × Bytes)
  expiresAt : Time

structure SessionRow where
  serial : ℕ
  sessionHash : Bytes
  principalID : String
  payload : Envelope ConsoleTokens (Bytes × String)
  csrfHash : Bytes
  revision : ℤ
  (idleExpiresAt absoluteExpiresAt : Time)
  revokedAt : Option Time

inductive Record
  | begun (login : ℕ) (browser : Bytes) (expiresAt : Time)
  | consumed (login : ℕ) (browser : Bytes) (time : Time)
  | opened (session : ℕ) (absoluteExpiresAt : Time)
  | resolved (session : ℕ) (time : Time)
  | updated (session : ℕ) (revision : ℤ)
  | ended (session : ℕ)
  deriving DecidableEq

structure Store where
  logins : List LoginRow
  sessions : List SessionRow
  (nextLogin nextSession : ℕ)
  log : List Record

def emptyStore : Store := ⟨[], [], 0, 0, []⟩

inductive StoreError
  | unauthenticated
  | conflict
  | invalid (text : String)
  | database (text : String)
  deriving DecidableEq

inductive Outcome
  | answered
  | lost
  | failed
  deriving DecidableEq

structure LoginCredentials where
  (state browserBinding : String)
  expiresAt : Time

structure SessionCredentials where
  (sessionID csrfToken : String)
  expiresAt : Time

structure ConsoleSession where
  serial : ℕ
  principalID : String
  tokens : ConsoleTokens
  csrfToken : String
  revision : ℤ
  (idleExpiresAt absoluteExpiresAt : Time)
  deriving DecidableEq

def minute : Time := 60000000000

variable (c : Codec) (s : Store) (now : Time) (o : Outcome)

def deliver {α : Type} (text : String) (after : Store) (result : Except StoreError α) : Store × Except StoreError α :=
  match o with
  | .answered => (after, result)
  | .lost => (after, .error (.database text))
  | .failed => (s, .error (.database text))

def createLoginTransaction (transaction : LoginTransaction) (ttl : Time) (stateBytes browserBytes : Bytes) :
    Store × Except StoreError LoginCredentials :=
  if transaction.invalid ∨ ttl < minute ∨ 30 * minute < ttl then
    (s, .error (.invalid "OIDC login transaction bounds are invalid"))
  else
    let stateHash := c.sessionHash stateBytes
    let browserHash := c.browserHash browserBytes
    match encryptJSON transaction (c.loginSize transaction) (stateHash, browserHash) with
    | none => (s, .error (.invalid "encode encrypted Console state"))
    | some payload =>
      if s.logins.any (·.stateHash = stateHash) then (s, .error (.database "persist OIDC login transaction"))
      else
        let expiresAt := now + ttl
        deliver s o "persist OIDC login transaction" { s with
          logins := s.logins ++ [⟨s.nextLogin, stateHash, browserHash, payload, expiresAt⟩]
          nextLogin := s.nextLogin + 1
          log := s.log ++ [.begun s.nextLogin browserBytes expiresAt] }
          (.ok ⟨c.encodeCredential stateBytes, c.encodeCredential browserBytes, expiresAt⟩)

def LoginRow.matches (stateHash browserHash : Bytes) (row : LoginRow) : Bool :=
  row.stateHash = stateHash && row.browserHash = browserHash && now < row.expiresAt

def consumeLoginTransaction (state browserBinding : String) : Store × Except StoreError LoginTransaction :=
  match c.decodeCredential state, c.decodeCredential browserBinding with
  | some stateBytes, some browserBytes =>
    let stateHash := c.sessionHash stateBytes
    let browserHash := c.browserHash browserBytes
    match s.logins.find? (LoginRow.matches now stateHash browserHash) with
    | none => deliver s o "consume OIDC login transaction" s (.error .unauthenticated)
    | some row =>
      let deleted := { s with logins := s.logins.filter fun row => !row.matches now stateHash browserHash }
      match o, (decryptJSON row.payload (stateHash, browserHash)).filter (fun t => !t.invalid) with
      | .answered, some transaction =>
        ({ deleted with log := s.log ++ [.consumed row.serial browserBytes now] }, .ok transaction)
      | o, _ => deliver s o "consume OIDC login transaction" deleted (.error .unauthenticated)
  | _, _ => (s, .error .unauthenticated)

def absoluteExpiry (tokens : ConsoleTokens) (absoluteTTL : Time) : Time :=
  if tokens.refreshToken = "" ∧ tokens.expiresAt < now + absoluteTTL then tokens.expiresAt else now + absoluteTTL

def createConsoleSession (principalID : String) (tokens : ConsoleTokens) (idleTTL absoluteTTL : Time)
    (sessionBytes : Bytes) : Store × Except StoreError SessionCredentials :=
  if c.parseUUID principalID = false ∨ tokens.invalid ∨ idleTTL < minute ∨ absoluteTTL < idleTTL ∨
      7 * 24 * 60 * minute < absoluteTTL then (s, .error (.invalid "Console session bounds are invalid"))
  else
    let sessionHash := c.sessionHash sessionBytes
    let csrfToken := c.csrfToken sessionBytes
    match encryptJSON tokens (c.tokensSize tokens) (sessionHash, principalID) with
    | none => (s, .error (.invalid "encode encrypted Console state"))
    | some payload =>
      let absoluteExpiresAt := absoluteExpiry now tokens absoluteTTL
      let idleExpiresAt := min (now + idleTTL) absoluteExpiresAt
      if absoluteExpiresAt ≤ now ∨ idleExpiresAt ≤ now then
        (s, .error (.invalid "Console token set is already expired"))
      else if s.sessions.any (·.sessionHash = sessionHash) then (s, .error (.database "persist Console session"))
      else
        deliver s o "persist Console session" { s with
          sessions := s.sessions ++ [⟨s.nextSession, sessionHash, principalID, payload, c.csrfHash csrfToken, 1,
            idleExpiresAt, absoluteExpiresAt, none⟩]
          nextSession := s.nextSession + 1
          log := s.log ++ [.opened s.nextSession absoluteExpiresAt] }
          (.ok ⟨c.encodeCredential sessionBytes, csrfToken, absoluteExpiresAt⟩)

def SessionRow.live (sessionHash : Bytes) (row : SessionRow) : Bool :=
  row.sessionHash = sessionHash && row.revokedAt.isNone && now < row.idleExpiresAt && now < row.absoluteExpiresAt

def SessionRow.extend (idleTTL : Time) (row : SessionRow) : SessionRow :=
  { row with idleExpiresAt := min row.absoluteExpiresAt (now + idleTTL) }

def SessionRow.session (sessionBytes : Bytes) (row : SessionRow) : Option ConsoleSession :=
  let csrfToken := c.csrfToken sessionBytes
  if row.csrfHash ≠ c.csrfHash csrfToken then none
  else ((decryptJSON row.payload (c.sessionHash sessionBytes, row.principalID)).filter (fun t => !t.invalid)).map
    fun tokens => ⟨row.serial, row.principalID, tokens, csrfToken, row.revision, row.idleExpiresAt, row.absoluteExpiresAt⟩

def resolveConsoleSession (sessionID : String) (idleTTL : Time) : Store × Except StoreError ConsoleSession :=
  if idleTTL < minute ∨ 24 * 60 * minute < idleTTL then
    (s, .error (.invalid "Console session idle TTL is invalid"))
  else match c.decodeCredential sessionID with
    | none => (s, .error .unauthenticated)
    | some sessionBytes =>
      let sessionHash := c.sessionHash sessionBytes
      match s.sessions.find? (SessionRow.live now sessionHash) with
      | none => deliver s o "resolve Console session" s (.error .unauthenticated)
      | some row =>
        let extended := { s with
          sessions := s.sessions.map fun row => if row.live now sessionHash then row.extend now idleTTL else row }
        match o, (row.extend now idleTTL).session c sessionBytes with
        | .answered, some session => ({ extended with log := s.log ++ [.resolved row.serial now] }, .ok session)
        | o, _ => deliver s o "resolve Console session" extended (.error .unauthenticated)

def SessionRow.current (sessionHash : Bytes) (principalID : String) (expectedRevision : ℤ) (row : SessionRow) : Bool :=
  row.sessionHash = sessionHash && row.principalID = principalID && row.revision = expectedRevision &&
    row.revokedAt.isNone && now < row.absoluteExpiresAt

def SessionRow.write (tokens : ConsoleTokens) (payload : Envelope ConsoleTokens (Bytes × String)) (row : SessionRow) :
    SessionRow :=
  { row with
    payload
    revision := row.revision + 1
    absoluteExpiresAt :=
      if tokens.refreshToken ≠ "" then row.absoluteExpiresAt else min row.absoluteExpiresAt tokens.expiresAt }

def updateConsoleSessionTokens (sessionID principalID : String) (expectedRevision : ℤ) (tokens : ConsoleTokens) :
    Store × Except StoreError ℤ :=
  if c.parseUUID principalID = false ∨ expectedRevision < 1 ∨ tokens.invalid then
    (s, .error (.invalid "Console session token update is invalid"))
  else match c.decodeCredential sessionID with
    | none => (s, .error .unauthenticated)
    | some sessionBytes =>
      let sessionHash := c.sessionHash sessionBytes
      match encryptJSON tokens (c.tokensSize tokens) (sessionHash, principalID) with
      | none => (s, .error (.invalid "encode encrypted Console state"))
      | some payload =>
        match s.sessions.find? (SessionRow.current now sessionHash principalID expectedRevision) with
        | none => deliver s o "update Console session tokens" s (.error .conflict)
        | some row =>
          let written := { s with
            sessions := s.sessions.map fun row =>
              if row.current now sessionHash principalID expectedRevision then row.write tokens payload else row }
          match o with
          | .answered => ({ written with log := s.log ++ [.updated row.serial expectedRevision] }, .ok (row.revision + 1))
          | o => deliver s o "update Console session tokens" written (.error .conflict)

def endSessions (gone : SessionRow → Bool) : Store :=
  { s with
    sessions := s.sessions.filter fun row => !gone row
    log := s.log ++ (s.sessions.filter gone).map fun row => .ended row.serial }

def deleteConsoleSession (sessionID : String) : Store × Except StoreError Unit :=
  match c.decodeCredential sessionID with
  | none => (s, .ok ())
  | some sessionBytes =>
    deliver s o "delete Console session" (endSessions s fun row => row.sessionHash = c.sessionHash sessionBytes) (.ok ())

def revokeConsoleSessionsForPrincipal (principalID : String) : Store × Except StoreError Unit :=
  if c.parseUUID principalID = false then (s, .error .unauthenticated)
  else deliver s o "revoke principal console sessions" (endSessions s fun row => row.principalID = principalID) (.ok ())

end

section

structure ManagerConfig where
  (idleTTL absoluteTTL loginTTL refreshWindow : Time)

structure ExternalIdentity where
  (issuer subject : String)
  deriving DecidableEq

structure ValidatedToken where
  identity : ExternalIdentity
  expiresAt : Time

structure TokenSet where
  (accessToken refreshToken tokenType : String)
  expiresAt : Time
  idToken : String

structure Principal where
  (id issuer subject : String)
  active : Bool

structure Session where
  principal : Principal
  record : ConsoleSession
  sessionID : String

/-- Where a call is: a login from `consume` on, a resolution from `resolve` on, a logout from `logout` on. The resolution
keeps the session that it falls back to. -/
inductive Phase
  | consume (state browserBinding code : String)
  | exchange (transaction : LoginTransaction)
  | create (principal : Principal) (tokens : ConsoleTokens)
  | audit (principal : Principal) (sessionID : String)
  | discard (sessionID : String)
  | first (principal : Principal) (sessionID : String)
  | resolve (sessionID : String) (fallback : Option Session)
  | principal (sessionID : String) (record : ConsoleSession) (fallback : Option Session)
  | refresh (principal : Principal) (record : ConsoleSession) (sessionID : String) (fallback : Option Session)
  | update (principal : Principal) (record : ConsoleSession) (next : ConsoleTokens) (sessionID : String)
      (fallback : Option Session)
  | logout (session : Session)
  | done (result : Option Session)

/-- What a step meets with: the clocks, random bytes, the answers of the provider, of the resolver of principals and of
the audit, and how its statement comes off. -/
structure Answer where
  (now clock : Time)
  outcome : Outcome
  random : Bytes
  tokens : Option TokenSet
  (idToken accessToken : Option ValidatedToken)
  principal : Option Principal
  audited : Bool

variable (c : Codec) (g : ManagerConfig) (s : Store) (a : Answer)

def exchanged : Phase :=
  match a.tokens, a.idToken, a.accessToken, a.principal with
  | some tokens, some idToken, some accessToken, some principal =>
    if tokens.idToken = "" ∨ accessToken.identity ≠ idToken.identity ∨ principal.active = false then .done none
    else .create principal ⟨tokens.accessToken, tokens.refreshToken, tokens.tokenType,
      if accessToken.expiresAt < tokens.expiresAt then accessToken.expiresAt else tokens.expiresAt⟩
  | _, _, _, _ => .done none

def resolvedPrincipal (sessionID : String) (record : ConsoleSession) (fallback : Option Session) : Phase :=
  match a.principal with
  | none => .done fallback
  | some principal =>
    let session : Session := ⟨principal, record, sessionID⟩
    if principal.active = false then .done fallback
    else if record.tokens.expiresAt ≤ a.clock then .refresh principal record sessionID fallback
    else if record.tokens.refreshToken ≠ "" ∧ record.tokens.expiresAt - a.clock ≤ g.refreshWindow then
      .refresh principal record sessionID (some session)
    else .done (some session)

def refreshed (principal : Principal) (record : ConsoleSession) (sessionID : String) (fallback : Option Session) : Phase :=
  if record.tokens.refreshToken = "" then .done fallback
  else match a.tokens, a.accessToken with
    | some tokens, some access =>
      if access.identity.issuer ≠ principal.issuer ∨ access.identity.subject ≠ principal.subject then .done fallback
      else
        let refreshToken := if tokens.refreshToken = "" then record.tokens.refreshToken else tokens.refreshToken
        .update principal record ⟨tokens.accessToken, refreshToken, tokens.tokenType, tokens.expiresAt⟩ sessionID fallback
    | _, _ => .done fallback

def advance : Phase → Option (Store × Phase)
  | .consume state browserBinding code =>
    match consumeLoginTransaction c s a.now a.outcome state browserBinding with
    | (t, .ok transaction) =>
      some (t, if JobLifecycle.blank code ∨ 16384 < code.utf8ByteSize then .done none else .exchange transaction)
    | (t, .error _) => some (t, .done none)
  | .exchange _ => some (s, exchanged a)
  | .create principal tokens =>
    match createConsoleSession c s a.now a.outcome principal.id tokens g.idleTTL g.absoluteTTL a.random with
    | (t, .ok credentials) => some (t, .audit principal credentials.sessionID)
    | (t, .error _) => some (t, .done none)
  | .audit principal sessionID => some (s, if a.audited then .first principal sessionID else .discard sessionID)
  | .discard sessionID => some ((deleteConsoleSession c s a.outcome sessionID).1, .done none)
  | .first principal sessionID =>
    match resolveConsoleSession c s a.now a.outcome sessionID g.idleTTL with
    | (t, .ok record) => some (t, .done (some ⟨principal, record, sessionID⟩))
    | (t, .error _) => some (t, .done none)
  | .resolve sessionID fallback =>
    match resolveConsoleSession c s a.now a.outcome sessionID g.idleTTL with
    | (t, .ok record) => some (t, .principal sessionID record fallback)
    | (t, .error _) => some (t, .done fallback)
  | .principal sessionID record fallback => some (s, resolvedPrincipal g a sessionID record fallback)
  | .refresh principal record sessionID fallback => some (s, refreshed a principal record sessionID fallback)
  | .update principal record next sessionID fallback =>
    match updateConsoleSessionTokens c s a.now a.outcome sessionID principal.id record.revision next with
    | (t, .ok _) =>
      some (t, .done (some ⟨principal, { record with tokens := next, revision := record.revision + 1 }, sessionID⟩))
    | (t, .error .conflict) => some (t, .resolve sessionID fallback)
    | (t, .error _) => some (t, .done fallback)
  | .logout session => some ((deleteConsoleSession c s a.outcome session.sessionID).1, .done none)
  | .done _ => none

end

section

structure Call where
  phase : Phase
  began : ℕ

structure World where
  store : Store
  calls : List Call

inductive Event
  | beginLogin (transaction : LoginTransaction) (stateBytes browserBytes : Bytes) (now : Time) (outcome : Outcome)
  | completeLogin (state browserBinding code : String)
  | resolve (sessionID : String)
  | logout (session : Session)
  | advance (n : ℕ) (a : Answer)
  | revoke (principalID : String) (outcome : Outcome)

variable (c : Codec) (g : ManagerConfig)

def World.call (w : World) (phase : Phase) : World := { w with calls := w.calls ++ [⟨phase, w.store.log.length⟩] }

def step (w : World) : Event → Option World
  | .beginLogin transaction stateBytes browserBytes now outcome =>
    some { w with
      store := (createLoginTransaction c w.store now outcome transaction g.loginTTL stateBytes browserBytes).1 }
  | .completeLogin state browserBinding code => some (w.call (.consume state browserBinding code))
  | .resolve sessionID => some (w.call (.resolve sessionID none))
  | .logout session => some (w.call (.logout session))
  | .advance n a => do
    let call ← w.calls[n]?
    let (store, phase) ← ConsoleSessions.advance c g w.store a call.phase
    return ⟨store, w.calls.set n { call with phase }⟩
  | .revoke principalID outcome =>
    some { w with store := (revokeConsoleSessionsForPrincipal c w.store outcome principalID).1 }

def initial : World := ⟨emptyStore, []⟩

end

def escapedSize (c : Char) : ℕ :=
  if c = '"' ∨ c = '\\' ∨ c.toNat ∈ [8, 9, 10, 12, 13] then 2
  else if c.toNat < 32 ∨ c ∈ ['<', '>', '&'] ∨ c.toNat = 0x2028 ∨ c.toNat = 0x2029 then 6
  else c.utf8Size

def textSize (s : String) : ℕ := 2 + (s.toList.map escapedSize).sum

def marshalledSize (t : ConsoleTokens) : ℕ :=
  16 + textSize t.accessToken + (if t.refreshToken = "" then 0 else 17 + textSize t.refreshToken) +
    14 + textSize t.tokenType + 14 + 22 + 1

theorem decryptJSON_encryptJSON {α β : Type} [DecidableEq β] {value : α} {size : ℕ} {additionalData : β}
    {envelope : Envelope α β} (hroom : size + 29 ≤ 65536) (h : encryptJSON value size additionalData = some envelope) :
    decryptJSON envelope additionalData = some value := by
  unfold encryptJSON at h
  split_ifs at h
  cases h
  exact if_neg (by simpa using hroom)

/-- Every envelope of a payload opens exactly where the payload leaves room for the version, the nonce and the tag, or
is not sealed at all; a session stored with such a payload can be read. -/
theorem envelopes_open {α β : Type} [DecidableEq β] (value : α) (size : ℕ) (additionalData : β) :
    ((∀ envelope, encryptJSON value size additionalData = some envelope →
        decryptJSON envelope additionalData = some value) ↔ size ≤ 65507 ∨ 65536 < size) ∧
      ∀ (c : Codec) s t now principalID tokens idleTTL absoluteTTL sessionBytes credentials,
        c.tokensSize tokens ≤ 65507 →
        createConsoleSession c s now .answered principalID tokens idleTTL absoluteTTL sessionBytes =
            (t, .ok credentials) →
          ∃ row ∈ t.sessions, (row.session c sessionBytes).map (·.tokens) = some tokens := by
  refine ⟨⟨fun h => ?_, ?_⟩, ?_⟩
  · by_contra hgap
    push Not at hgap
    have hsealed : encryptJSON value size additionalData = some ⟨value, size, additionalData⟩ := if_neg (by omega)
    have hopen := h _ hsealed
    rw [decryptJSON, if_pos (.inl (by dsimp only; omega))] at hopen
    cases hopen
  · rintro (hroom | hlarge) envelope hsealed
    · exact decryptJSON_encryptJSON (by omega) hsealed
    · rw [encryptJSON, if_pos (.inr hlarge)] at hsealed
      cases hsealed
  · intro c s t now principalID tokens idleTTL absoluteTTL sessionBytes credentials hroom h
    unfold createConsoleSession at h
    split_ifs at h with hbounds
    · cases h
    dsimp only at h
    split at h
    · cases h
    · next payload hpayload =>
      split_ifs at h <;> cases h
      refine ⟨_, List.mem_append_right _ (List.mem_singleton_self _), ?_⟩
      have hopen := decryptJSON_encryptJSON (by omega) hpayload
      simp only [not_or, Bool.not_eq_true] at hbounds
      simp [SessionRow.session, hopen, hbounds.2.1]

def wideTokens (n : ℕ) : ConsoleTokens := ⟨String.ofList (List.replicate n '<'), "", "Bearer", 1⟩

theorem wideTokens_size (n : ℕ) : marshalledSize (wideTokens n) = 6 * n + 77 := by
  have hescaped : escapedSize '<' = 6 := by decide
  have haccess : textSize (wideTokens n).accessToken = 2 + n * 6 := by simp [textSize, wideTokens, hescaped]
  have htype : textSize "Bearer" = 8 := by decide
  have hrefresh : (wideTokens n).refreshToken = "" := rfl
  rw [marshalledSize, haccess, show (wideTokens n).tokenType = "Bearer" from rfl, htype, if_pos hrefresh]
  omega

theorem envelopes_open_tokens : ∃ envelope,
    encryptJSON (wideTokens 10) (marshalledSize (wideTokens 10)) () = some envelope ∧
      decryptJSON envelope () = some (wideTokens 10) := by
  have hroom : marshalledSize (wideTokens 10) ≤ 65507 := by
    rw [wideTokens_size]
    decide
  have hsealed : encryptJSON (wideTokens 10) (marshalledSize (wideTokens 10)) () =
      some ⟨wideTokens 10, marshalledSize (wideTokens 10), ()⟩ := if_neg (by rw [wideTokens_size]; decide)
  exact ⟨_, hsealed, (envelopes_open _ _ ()).1.mpr (.inl hroom) _ hsealed⟩

theorem wideTokens_valid {n : ℕ} (hpos : n ≠ 0) (hn : n ≤ 20480) : (wideTokens n).invalid = false := by
  have hbytes (k : ℕ) : (String.ofList (List.replicate k '<')).utf8ByteSize = k := by
    rw [← String.size_toByteArray, String.toByteArray_ofList]
    induction k with
    | zero => rfl
    | succ k ih =>
      rw [List.replicate_succ, List.utf8Encode_cons, ByteArray.size_append, ih]
      exact Nat.add_comm 1 k
  have hblank : JobLifecycle.blank (String.ofList (List.replicate n '<')) = false := by
    have hspace : isSpace '<' = false := by decide
    simp [JobLifecycle.blank, hpos, hspace]
  have hset : (1 : Time) ≠ zeroTime := by decide
  simp [ConsoleTokens.invalid, wideTokens, hblank, hbytes, hn, hset]

theorem wide_tokens_sealed : (wideTokens 10907).invalid = false ∧ ∃ envelope,
      encryptJSON (wideTokens 10907) (marshalledSize (wideTokens 10907)) () = some envelope ∧
        decryptJSON envelope () = none := by
  refine ⟨wideTokens_valid (by decide) (by decide), ⟨wideTokens 10907, 65519, ()⟩, ?_, ?_⟩
  · rw [wideTokens_size]
    exact if_neg (by decide)
  · exact if_pos (by decide)

end AstraSync.ConsoleSessions
