import Helipod.Lib.Rows
import Helipod.Lib.Runs
import Helipod.Values.Value

/-!
# The functions of the auth component

Model of `components/auth`: the mutations of `functions.ts`, `external.ts`, `passkeys.ts` and
`mfa/functions.ts` over the tables of `schema.ts`. An action is the sequence of the mutations it
runs; what it knows between two of them stands in `callbacks` and `registrations`.

Random tokens, codes and document ids are numbers from one supply, so each is new. A hash stands
for what was hashed (`sha256base64url`, `hashSecret`), as if there were no collisions. What needs a
key or a network is an input: which step of a secret a code is (`verifyTotp`), the identity that a
provider vouches for, the counter of a verified assertion. Emails are normalized by any function.

Left out: rows of releases without hashed tokens, and what is only shown (labels, device names,
times of creation). Nothing deletes users. `revokeSession` and `revokePasskey` take ids of their own
tables; `ctx.db.get` takes any id, and they would delete another row with the caller's `userId`.
-/

namespace Helipod

abbrev UserId := Nat

/-- A random token or its hash. -/
abbrev Token := Nat

inductive Flow where
  | verify
  | reset
  | magic
  | otp
  deriving DecidableEq

/-! ## Configuration -/

structure EmailConfig where
  requireEmailVerification : Bool
  createUsersOnEmailSignIn : Bool
  emailSendsPerMinute : Nat
  requestCooldownMs : Int
  otpAttempts : Nat
  ttlFor : Flow → Int

structure OAuthConfig where
  stateTtlMs : Int
  handoffTtlMs : Int

structure PasskeyConfig where
  challengeTtlMs : Int
  maxCredentialsPerUser : Nat

structure MfaConfig where
  recoveryCodeCount : Nat
  challengeTtlMs : Int
  mfaAttempts : Nat
  verifyAttemptsPerWindow : Nat
  verifyWindowMs : Int
  /-- `decryptSecret` and `verifyTotp`: the step of the secret that the code is at a time. -/
  verifyTotp : Token → JsString → Int → Option Nat
  /-- The hash of `normalizeRecoveryCode`. -/
  recoveryCodeHash : JsString → Token

structure AuthConfig where
  accessTtlMs : Int
  refreshTtlMs : Int
  refreshGraceMs : Int
  sessionTotalTtlMs : Int
  anonymousSignInsPerMinute : Nat
  normalizeEmail : JsString → JsString
  email : Option EmailConfig
  oauth : Option OAuthConfig
  jwt : Bool
  passkeys : Option PasskeyConfig
  mfa : Option MfaConfig

/-- `DEFAULTS`, with addresses as they are and nothing optional. -/
def AuthConfig.defaults : AuthConfig where
  accessTtlMs := 3600000
  refreshTtlMs := 2592000000
  refreshGraceMs := 30000
  sessionTotalTtlMs := 7776000000
  anonymousSignInsPerMinute := 60
  normalizeEmail := id
  email := none
  oauth := none
  jwt := false
  passkeys := none
  mfa := none

/-! ## Tables -/

structure UserRow where
  email : Option JsString
  anonymous : Bool
  emailVerified : Bool
  deriving DecidableEq

inductive Provider where
  | password
  | external (name : JsString)
  deriving DecidableEq

/-- An external account has no secret (`""` in the source). -/
structure AccountRow where
  userId : UserId
  provider : Provider
  accountId : JsString
  secret : Option JsString
  failedAttempts : Nat
  lockedUntil : Int
  deriving DecidableEq

structure SessionRow where
  userId : UserId
  tokenHash : Token
  expiresAt : Int
  refreshTokenHash : Token
  prevRefreshTokenHash : Option Token
  refreshExpiresAt : Int
  absoluteExpiresAt : Int
  lastRefreshAt : Int
  deriving DecidableEq

inductive CounterName where
  | anonymousSignIns
  | emailSends
  | mfaVerify (userId : UserId)
  deriving DecidableEq

structure CounterRow where
  windowStart : Int
  count : Nat
  deriving DecidableEq

/-- `codeHash` is `none` in a row that only keeps the cooldown (`""` in the source). -/
structure CodeRow where
  codeHash : Option JsString
  expiresAt : Int
  attempts : Nat
  createdAt : Int
  deriving DecidableEq

structure OAuthStateRow where
  stateHash : Token
  provider : JsString
  linkUserId : Option UserId
  expiresAt : Int
  deriving DecidableEq

structure HandoffRow where
  handoffHash : Token
  userId : UserId
  expiresAt : Int
  deriving DecidableEq

structure EnrollmentRow where
  userId : UserId
  secret : Token
  confirmedAt : Option Int
  lastUsedStep : Option Nat
  deriving DecidableEq

structure MfaChallengeRow where
  challengeHash : Token
  userId : UserId
  failedAttempts : Nat
  expiresAt : Int
  deriving DecidableEq

structure RecoveryCodeRow where
  userId : UserId
  codeHash : Token
  deriving DecidableEq

structure PasskeyRow where
  userId : UserId
  credentialId : JsString
  counter : Nat
  deriving DecidableEq

inductive CeremonyKind where
  | register
  | authenticate
  deriving DecidableEq

structure WebauthnChallengeRow where
  challenge : Token
  kind : CeremonyKind
  userId : Option UserId
  expiresAt : Int
  deriving DecidableEq

/-- The tables, and what the actions under way know: the links that `oauthCallback` has read, the
users for whom `finishPasskeyRegistration` has taken a challenge. Counters and codes are looked up
by their key before one is inserted, so they stand under it. -/
structure AuthDb where
  users : OrderedMap UserId UserRow
  accounts : OrderedMap Nat AccountRow
  sessions : OrderedMap Nat SessionRow
  authCounters : OrderedMap CounterName CounterRow
  authCodes : OrderedMap (JsString × Flow) CodeRow
  oauthState : OrderedMap Nat OAuthStateRow
  oauthHandoff : OrderedMap Nat HandoffRow
  mfaEnrollments : OrderedMap Nat EnrollmentRow
  mfaChallenges : OrderedMap Nat MfaChallengeRow
  mfaRecoveryCodes : OrderedMap Nat RecoveryCodeRow
  passkeys : OrderedMap Nat PasskeyRow
  webauthnChallenge : OrderedMap Nat WebauthnChallengeRow
  callbacks : List (JsString × Option UserId)
  registrations : List UserId
  /-- The next random token or document id. -/
  fresh : Nat

def AuthDb.empty : AuthDb :=
  ⟨.empty, .empty, .empty, .empty, .empty, .empty, .empty, .empty, .empty, .empty,
    .empty, .empty, [], [], 0⟩

/-! ## Transactions -/

/-- A mutation throws, and nothing is committed, or it commits and returns a value or, after
`commitThenThrow`, an error. -/
abbrev Txn (α : Type) := Except String (AuthDb × Except String α)

def commitThenThrow {α : Type} (db : AuthDb) (message : String) : Txn α := .ok (db, .error message)

def committed {α : Type} (db : AuthDb) (value : α) : Txn α := .ok (db, .ok value)

structure MintResult where
  token : Token
  refreshToken : Token
  sessionId : Nat
  userId : UserId
  expiresAt : Int
  deriving DecidableEq

inductive SignInResult where
  | minted (m : MintResult)
  | mfaRequired (pendingToken : Token) (expiresAt : Int)
  | needsVerification
  deriving DecidableEq

namespace AuthDb

variable (cfg : AuthConfig) (db : AuthDb) (now : Int)

def mintSession (userId : UserId) : AuthDb × MintResult :=
  ({ db with
      sessions := db.sessions.set (db.fresh + 2) {
        userId := userId
        tokenHash := db.fresh
        expiresAt := now + cfg.accessTtlMs
        refreshTokenHash := db.fresh + 1
        prevRefreshTokenHash := none
        refreshExpiresAt := now + cfg.refreshTtlMs
        absoluteExpiresAt := now + cfg.sessionTotalTtlMs
        lastRefreshAt := now }
      fresh := db.fresh + 3 },
    ⟨db.fresh, db.fresh + 1, db.fresh + 2, userId, now + cfg.accessTtlMs⟩)

def enrollmentFor (userId : UserId) : Option (Nat × EnrollmentRow) :=
  db.mfaEnrollments.first fun row => row.userId = userId

/-- The user has a confirmed enrolment. -/
def enrolled (userId : UserId) : Bool :=
  (db.enrollmentFor userId).any fun row => row.2.confirmedAt.isSome

/-- A new challenge, in the place of those the user has. -/
def challenge (mfa : MfaConfig) (userId : UserId) : AuthDb × SignInResult :=
  ({ db with
      mfaChallenges := (db.mfaChallenges.deleteWhere fun row => row.userId = userId).set
        (db.fresh + 1) ⟨db.fresh, userId, 0, now + mfa.challengeTtlMs⟩
      fresh := db.fresh + 2 },
    .mfaRequired db.fresh (now + mfa.challengeTtlMs))

def finishSignIn (userId : UserId) : AuthDb × SignInResult :=
  match cfg.mfa with
  | some mfa =>
    if db.enrolled userId then db.challenge now mfa userId
    else ((db.mintSession cfg now userId).1, .minted (db.mintSession cfg now userId).2)
  | none => ((db.mintSession cfg now userId).1, .minted (db.mintSession cfg now userId).2)

def resolveSession (token : Token) : Option (Nat × SessionRow) :=
  db.sessions.first fun row => row.tokenHash = token

/-- The session of the ambient token, unless it has expired. -/
def currentSessionOf (caller : Option Token) : Option (Nat × SessionRow) :=
  (caller.bind db.resolveSession).filter fun row => decide (now ≤ row.2.expiresAt)

/-- The user of the ambient token, `ctx.auth.getUserId()`. -/
def callerId (caller : Option Token) : Option UserId :=
  (db.currentSessionOf now caller).map (·.2.userId)

def getUserId (token : Token) : Option UserId := db.callerId now (some token)

def insertUser (row : UserRow) : AuthDb :=
  { db with users := db.users.set db.fresh row, fresh := db.fresh + 1 }

def setUser (userId : UserId) (row : UserRow) : AuthDb :=
  { db with users := db.users.set userId row }

def setAccount (id : Nat) (row : AccountRow) : AuthDb :=
  { db with accounts := db.accounts.set id row }

def insertAccount (row : AccountRow) : AuthDb :=
  { db with accounts := db.accounts.set db.fresh row, fresh := db.fresh + 1 }

def deleteSessionsOf (userId : UserId) : AuthDb :=
  { db with sessions := db.sessions.deleteWhere fun row => row.userId = userId }

def byAccount (provider : Provider) (accountId : JsString) : Option (Nat × AccountRow) :=
  db.accounts.first fun row => row.provider = provider ∧ row.accountId = accountId

def byEmail (email : JsString) : Option (UserId × UserRow) :=
  db.users.first fun row => row.email = some email

def markVerifiedRevokingIfFirstProof (userId : UserId) (user : UserRow) : AuthDb :=
  let db := if user.emailVerified then db else db.deleteSessionsOf userId
  db.setUser userId { user with emailVerified := true }

/-! ## `functions.ts` -/

def requiresVerification : Bool := cfg.email.any (·.requireEmailVerification)

def anonymousUser (userId : UserId) : Option (UserId × UserRow) :=
  ((db.users.get? userId).filter (·.anonymous)).map fun user => (userId, user)

/-- The user that a sign-up is for: the anonymous caller, or a new one. -/
def signUpUser (caller : Option Token) (email : JsString) : AuthDb × UserId :=
  match (db.currentSessionOf now caller).bind fun s => db.anonymousUser s.2.userId with
  | some (userId, user) =>
    let upgraded := db.setUser userId { user with email := some email, anonymous := false }
    if requiresVerification cfg && !user.emailVerified then (upgraded, userId)
    else (upgraded.deleteSessionsOf userId, userId)
  | none => (db.insertUser ⟨some email, false, false⟩, db.fresh)

/-- A sign-in that the verification gate lets through, or not. -/
def gatedSignIn (userId : UserId) : AuthDb × SignInResult :=
  if requiresVerification cfg && !(db.users.get? userId).any (·.emailVerified) then
    (db, .needsVerification)
  else db.finishSignIn cfg now userId

def signUp (caller : Option Token) (email password : JsString) : Txn SignInResult :=
  let normEmail := cfg.normalizeEmail email
  if (db.byAccount .password normEmail).isSome then
    .error "an account with that email already exists"
  else
    let (db, userId) := db.signUpUser cfg now caller normEmail
    let db := db.insertAccount ⟨userId, .password, normEmail, some password, 0, 0⟩
    let (db, result) := db.gatedSignIn cfg now userId
    committed db result

def maxAttempts : Nat := 5

def lockMs : Int := 15 * 60 * 1000

def signIn (email password : JsString) : Txn SignInResult :=
  match db.byAccount .password (cfg.normalizeEmail email) with
  | none => .error "invalid credentials"
  | some (id, account) =>
    if now < account.lockedUntil then .error "too many attempts — account temporarily locked"
    else if account.secret ≠ some password then
      let failedAttempts := account.failedAttempts + 1
      let lockedUntil := if maxAttempts ≤ failedAttempts then now + lockMs else account.lockedUntil
      let account := { account with failedAttempts := failedAttempts, lockedUntil := lockedUntil }
      commitThenThrow (db.setAccount id account) "invalid credentials"
    else
      let db := db.setAccount id { account with failedAttempts := 0, lockedUntil := 0 }
      let (db, result) := db.gatedSignIn cfg now account.userId
      committed db result

def signOut (token : Token) : AuthDb :=
  match db.resolveSession token with
  | some (id, _) => { db with sessions := db.sessions.erase id }
  | none => db

/-- The row after a rotation. -/
def rotated (row : SessionRow) : SessionRow :=
  { row with
    tokenHash := db.fresh
    expiresAt := now + cfg.accessTtlMs
    prevRefreshTokenHash := some row.refreshTokenHash
    refreshTokenHash := db.fresh + 1
    refreshExpiresAt := now + cfg.refreshTtlMs
    lastRefreshAt := now }

def refresh (refreshToken : Token) : Txn MintResult :=
  match db.sessions.first fun row => row.refreshTokenHash = refreshToken with
  | some (id, row) =>
    if row.absoluteExpiresAt < now then .error "REFRESH_EXPIRED"
    else if row.refreshExpiresAt < now then .error "REFRESH_EXPIRED"
    else
      committed
        { db with sessions := db.sessions.set id (db.rotated cfg now row), fresh := db.fresh + 2 }
        ⟨db.fresh, db.fresh + 1, id, row.userId, now + cfg.accessTtlMs⟩
  | none =>
    match db.sessions.first fun row => row.prevRefreshTokenHash = some refreshToken with
    | some (id, row) =>
      if now - row.lastRefreshAt ≤ cfg.refreshGraceMs then .error "REFRESH_STALE"
      else commitThenThrow { db with sessions := db.sessions.erase id } "REFRESH_REUSED"
    | none => .error "invalid refresh token"

/-- One more in the window of a counter, or `none` over the cap; `0` disables it. -/
def countInWindow (name : CounterName) (cap : Nat) : Option AuthDb :=
  if cap = 0 then some db
  else
    match db.authCounters.get? name with
    | none => some { db with authCounters := db.authCounters.set name ⟨now, 1⟩ }
    | some counter =>
      if 60000 ≤ now - counter.windowStart then
        some { db with authCounters := db.authCounters.set name ⟨now, 1⟩ }
      else if cap ≤ counter.count then none
      else
        some { db with
          authCounters := db.authCounters.set name { counter with count := counter.count + 1 } }

def signInAnonymously (caller : Option Token) : Txn SignInResult :=
  if (db.currentSessionOf now caller).isSome then
    .error "already authenticated — sign out before signing in anonymously"
  else
    match db.countInWindow now .anonymousSignIns cfg.anonymousSignInsPerMinute with
    | none => .error "ANONYMOUS_THROTTLED"
    | some db =>
      let minted := (db.insertUser ⟨none, true, false⟩).mintSession cfg now db.fresh
      committed minted.1 (.minted minted.2)

def revokeSession (caller : Option Token) (sessionId : Nat) : Txn Unit :=
  match db.currentSessionOf now caller with
  | none => .error "not authenticated"
  | some (_, current) =>
    if (db.sessions.get? sessionId).any (·.userId = current.userId) then
      committed { db with sessions := db.sessions.erase sessionId } ()
    else .error "session not found"

def revokeOtherSessions (caller : Option Token) : Txn Unit :=
  match db.currentSessionOf now caller with
  | none => .error "not authenticated"
  | some (id, current) =>
    committed { db with sessions := db.sessions.filterMap fun other row =>
      if row.userId = current.userId ∧ other ≠ id then none else some row } ()

/-! ## Codes sent by email -/

def shouldIssue (email : EmailConfig) (address : JsString) : Flow → Bool
  | .otp | .magic => (db.byEmail address).isSome || email.createUsersOnEmailSignIn
  | .reset => (db.byEmail address).isSome && (db.byAccount .password address).isSome
  | .verify => (db.byEmail address).isSome

/-- `_issueCode`, which returns the code that the action sends, if it sends one. -/
def issueCode (mail : EmailConfig) (email : JsString) (flow : Flow) (code : JsString) :
    Txn (Option JsString) :=
  let normEmail := cfg.normalizeEmail email
  match db.countInWindow now .emailSends mail.emailSendsPerMinute with
  | none => .error "EMAIL_THROTTLED"
  | some db =>
    if (db.authCodes.get? (normEmail, flow)).any fun row =>
        decide (now - row.createdAt < mail.requestCooldownMs) then
      .error "EMAIL_COOLDOWN"
    else if db.shouldIssue mail normEmail flow then
      let row := ⟨some code, now + mail.ttlFor flow, 0, now⟩
      committed { db with authCodes := db.authCodes.set (normEmail, flow) row } (some code)
    else
      committed { db with authCodes := db.authCodes.set (normEmail, flow) ⟨none, now, 0, now⟩ } none

/-- Whether a code is the one that was sent, `peekCode`. -/
def codeMatches (normEmail : JsString) (flow : Flow) (code : JsString) : Bool :=
  (db.authCodes.get? (normEmail, flow)).any fun row =>
    decide (now ≤ row.expiresAt ∧ row.codeHash = some code)

def consumeCode (normEmail : JsString) (flow : Flow) : AuthDb :=
  { db with authCodes := db.authCodes.erase (normEmail, flow) }

def adoptOrCreateThenMint (mail : EmailConfig) (normEmail : JsString) : Txn SignInResult :=
  match db.byEmail normEmail with
  | none =>
    if mail.createUsersOnEmailSignIn then
      let (db, result) := (db.insertUser ⟨some normEmail, false, true⟩).finishSignIn
        cfg now db.fresh
      committed db result
    else commitThenThrow db "invalid code"
  | some (userId, user) =>
    let db := if user.emailVerified then db
      else { db with accounts := db.accounts.deleteWhere fun row =>
        row.provider = .password ∧ row.accountId = normEmail }
    let (db, result) := (db.markVerifiedRevokingIfFirstProof userId user).finishSignIn
      cfg now userId
    committed db result

def verifyEmail (email code : JsString) : Txn SignInResult :=
  let normEmail := cfg.normalizeEmail email
  if db.codeMatches now normEmail .verify code then
    let db := db.consumeCode normEmail .verify
    match db.byEmail normEmail with
    | none => commitThenThrow db "invalid code"
    | some (userId, user) =>
      let (db, result) := (db.markVerifiedRevokingIfFirstProof userId user).finishSignIn
        cfg now userId
      committed db result
  else .error "invalid code"

def setVerified (userId : UserId) : AuthDb :=
  match db.users.get? userId with
  | some user => db.setUser userId { user with emailVerified := true }
  | none => db

def resetPassword (email code newPassword : JsString) : Txn SignInResult :=
  let normEmail := cfg.normalizeEmail email
  if db.codeMatches now normEmail .reset code then
    let db := db.consumeCode normEmail .reset
    match db.byAccount .password normEmail with
    | none => commitThenThrow db "invalid code"
    | some (id, account) =>
      let account :=
        { account with secret := some newPassword, failedAttempts := 0, lockedUntil := 0 }
      let db := (db.setAccount id account).setVerified account.userId
      let (db, result) := (db.deleteSessionsOf account.userId).finishSignIn cfg now account.userId
      committed db result
  else .error "invalid code"

def signInWithMagicLink (mail : EmailConfig) (email token : JsString) : Txn SignInResult :=
  let normEmail := cfg.normalizeEmail email
  if db.codeMatches now normEmail .magic token then
    (db.consumeCode normEmail .magic).adoptOrCreateThenMint cfg now mail normEmail
  else .error "invalid code"

def signInWithOtp (mail : EmailConfig) (email code : JsString) : Txn SignInResult :=
  let normEmail := cfg.normalizeEmail email
  match db.authCodes.get? (normEmail, .otp) with
  | none => .error "invalid code"
  | some row =>
    if db.codeMatches now normEmail .otp code then
      (db.consumeCode normEmail .otp).adoptOrCreateThenMint cfg now mail normEmail
    else if mail.otpAttempts ≤ row.attempts + 1 then
      commitThenThrow (db.consumeCode normEmail .otp) "invalid code"
    else
      let row := { row with attempts := row.attempts + 1 }
      commitThenThrow { db with authCodes := db.authCodes.set (normEmail, .otp) row } "invalid code"

/-! ## `external.ts` -/

/-- The identity that a provider or an issuer vouches for. -/
structure ExternalIdentity where
  provider : JsString
  accountId : JsString
  email : Option JsString
  emailVerified : Bool
  deriving DecidableEq

def insertExternalAccount (userId : UserId) (identity : ExternalIdentity) : AuthDb :=
  db.insertAccount ⟨userId, .external identity.provider, identity.accountId, none, 0, 0⟩

/-- An empty email is none. -/
def ExternalIdentity.normEmail (identity : ExternalIdentity) : Option JsString :=
  (identity.email.filter (· ≠ [])).map cfg.normalizeEmail

/-- The user with the verified email of an identity. -/
def verifiedMatch (identity : ExternalIdentity) : Option (UserId × UserRow) :=
  (identity.normEmail cfg).bind fun e => if e ≠ [] ∧ identity.emailVerified then
    db.byEmail e else none

/-- A verified email links the identity to the user that has it; an unverified one never does. -/
def resolveByEmail (identity : ExternalIdentity) : AuthDb × UserId :=
  match db.verifiedMatch cfg identity with
  | some (userId, user) =>
    ((db.insertExternalAccount userId identity).markVerifiedRevokingIfFirstProof
      userId user, userId)
  | none =>
    ((db.insertUser ⟨identity.normEmail cfg, false, identity.emailVerified⟩).insertExternalAccount
      db.fresh identity, db.fresh)

def resolveUserId (identity : ExternalIdentity) (linkUserId : Option UserId) : AuthDb × UserId :=
  match db.byAccount (.external identity.provider) identity.accountId with
  | some (_, account) => (db, account.userId)
  | none =>
    match linkUserId.filter fun userId => (db.users.get? userId).isSome with
    | some userId => (db.insertExternalAccount userId identity, userId)
    | none => db.resolveByEmail cfg identity

/-- `_resolveExternalIdentity` with the outcome `"mint"`. -/
def signInWithIdToken (identity : ExternalIdentity) : Txn SignInResult :=
  let (db, userId) := db.resolveUserId cfg identity none
  let (db, result) := db.finishSignIn cfg now userId
  committed db result

/-- `_resolveExternalIdentity` with the outcome `"handoff"`; the code of the handoff is returned. -/
def authorizeHandoff (oauth : OAuthConfig) (identity : ExternalIdentity)
    (linkUserId : Option UserId) : AuthDb × Token :=
  let (db, userId) := db.resolveUserId cfg identity linkUserId
  ({ db with
      oauthHandoff := db.oauthHandoff.set (db.fresh + 1)
        ⟨db.fresh, userId, now + oauth.handoffTtlMs⟩
      fresh := db.fresh + 2 },
    db.fresh)

/-- `_startOAuth`, which returns the state of the redirect. -/
def startOAuth (oauth : OAuthConfig) (provider : JsString) (callerToken : Option Token) :
    AuthDb × Token :=
  ({ db with
      oauthState := db.oauthState.set (db.fresh + 1) ⟨db.fresh, provider,
        db.callerId now callerToken, now + oauth.stateTtlMs⟩
      fresh := db.fresh + 2 },
    db.fresh)

/-- `_consumeOAuthState`, and the callback goes on with the link it has read. -/
def consumeOAuthState (provider : JsString) (state : Token) : Txn Unit :=
  match db.oauthState.first fun row => row.stateHash = state with
  | none => .error "authentication failed"
  | some (id, row) =>
    let db := { db with oauthState := db.oauthState.erase id }
    if row.provider ≠ provider ∨ row.expiresAt < now then commitThenThrow db "authentication failed"
    else committed { db with callbacks := (provider, row.linkUserId) :: db.callbacks } ()

def consumeHandoff (handoffCode : Token) : Txn SignInResult :=
  match db.oauthHandoff.first fun row => row.handoffHash = handoffCode with
  | none => .error "authentication failed"
  | some (id, row) =>
    let db := { db with oauthHandoff := db.oauthHandoff.erase id }
    if row.expiresAt < now then commitThenThrow db "authentication failed"
    else
      let (db, result) := db.finishSignIn cfg now row.userId
      committed db result

/-! ## `passkeys.ts` -/

/-- `_storeChallenge`; a registration needs a caller. -/
def storeChallenge (passkeys : PasskeyConfig) (caller : Option Token) (kind : CeremonyKind) :
    Txn Token :=
  let userId := (db.callerId now caller).filter fun _ => kind = .register
  if kind = .register ∧ userId = none then .error "not authenticated"
  else
    committed { db with
      webauthnChallenge := db.webauthnChallenge.set (db.fresh + 1)
        ⟨db.fresh, kind, userId, now + passkeys.challengeTtlMs⟩
      fresh := db.fresh + 2 } db.fresh

/-- `_consumeChallenge`; a registration goes on for the user of the challenge. -/
def consumeChallenge (challenge : Token) (kind : CeremonyKind) : Txn (Option UserId) :=
  match db.webauthnChallenge.first fun row => row.challenge = challenge with
  | none => .error "invalid or expired passkey challenge"
  | some (id, row) =>
    let db := { db with webauthnChallenge := db.webauthnChallenge.erase id }
    if row.kind ≠ kind ∨ row.expiresAt < now then
      commitThenThrow db "invalid or expired passkey challenge"
    else
      match kind with
      | .authenticate => committed db row.userId
      | .register =>
        committed { db with registrations := row.userId.toList ++ db.registrations } row.userId

def savePasskey (passkeys : PasskeyConfig) (userId : UserId) (credentialId : JsString)
    (counter : Nat) :
    Txn Nat :=
  if passkeys.maxCredentialsPerUser ≤
      (db.passkeys.values.filter fun row => row.userId = userId).length then
    .error "PASSKEY_LIMIT_REACHED"
  else if (db.passkeys.first fun row => row.credentialId = credentialId).isSome then
    .error "PASSKEY_ALREADY_REGISTERED"
  else
    committed { db with
      passkeys := db.passkeys.set db.fresh ⟨userId, credentialId, counter⟩
      fresh := db.fresh + 1 } db.fresh

def finishPasskeyAuth (credentialId : JsString) (newCounter : Nat) : Txn SignInResult :=
  match db.passkeys.first fun row => row.credentialId = credentialId with
  | none => .error "passkey authentication failed"
  | some (id, row) =>
    if ¬(row.counter = 0 ∧ newCounter = 0) ∧ ¬row.counter < newCounter then
      .error "passkey authentication failed"
    else
      let db := { db with passkeys := db.passkeys.set id { row with counter := newCounter } }
      let (db, result) := db.finishSignIn cfg now row.userId
      committed db result

def revokePasskey (caller : Option Token) (passkeyId : Nat) : Txn Unit :=
  match db.currentSessionOf now caller with
  | none => .error "not authenticated"
  | some (_, current) =>
    if (db.passkeys.get? passkeyId).any (·.userId = current.userId) then
      committed { db with passkeys := db.passkeys.erase passkeyId } ()
    else .error "passkey not found"

/-! ## `mfa/functions.ts` -/

/-- The step that a code is, if the enrolment is confirmed and the step is after the last one. -/
def verifyTotpForEnrollment (mfa : MfaConfig) (row : EnrollmentRow)
    (code : JsString) : Option Nat :=
  if row.confirmedAt.isSome then
    (mfa.verifyTotp row.secret code now).filter fun step =>
      row.lastUsedStep.all fun last => decide (last < step)
  else none

inductive SecondFactor where
  | totp (enrollment step : Nat)
  | recovery (code : Nat)
  deriving DecidableEq

/-- Which second factor of the user a code is. -/
def secondFactor (mfa : MfaConfig) (userId : UserId) (code : JsString) : Option SecondFactor :=
  match (db.enrollmentFor userId).bind fun row =>
      (verifyTotpForEnrollment now mfa row.2 code).map (SecondFactor.totp row.1) with
  | some factor => some factor
  | none => (db.mfaRecoveryCodes.first fun row =>
      row.userId = userId ∧ row.codeHash = mfa.recoveryCodeHash code).map fun row => .recovery row.1

/-- The writes of `verifyUserSecondFactor`: a step is used, a recovery code is gone. -/
def useFactor : SecondFactor → AuthDb
  | .totp id step => { db with mfaEnrollments := match db.mfaEnrollments.get? id with
      | some row => db.mfaEnrollments.set id { row with lastUsedStep := some step }
      | none => db.mfaEnrollments }
  | .recovery id => { db with mfaRecoveryCodes := db.mfaRecoveryCodes.erase id }

def deleteRecoveryCodes (userId : UserId) : AuthDb :=
  { db with mfaRecoveryCodes := db.mfaRecoveryCodes.deleteWhere fun row => row.userId = userId }

/-- New recovery codes, which are returned. -/
def insertRecoveryCodes (userId : UserId) : Nat → AuthDb × List Token
  | 0 => (db, [])
  | n + 1 =>
    let (db, codes) := insertRecoveryCodes userId n
    ({ db with
        mfaRecoveryCodes := db.mfaRecoveryCodes.set (db.fresh + 1) ⟨userId, db.fresh⟩
        fresh := db.fresh + 2 },
      db.fresh :: codes)

/-- The secret is returned once. -/
def startMfaEnrollment (caller : Option Token) : Txn Token :=
  match db.currentSessionOf now caller with
  | none => .error "not authenticated"
  | some (_, current) =>
    if (db.users.get? current.userId).any (·.anonymous) then .error "MFA_ANONYMOUS_NOT_ALLOWED"
    else if db.enrolled current.userId then .error "MFA_ALREADY_ENROLLED"
    else
      let enrollments := match db.enrollmentFor current.userId with
        | some (id, _) => db.mfaEnrollments.erase id
        | none => db.mfaEnrollments
      committed { db with
        mfaEnrollments := enrollments.set (db.fresh + 1) ⟨current.userId, db.fresh, none, none⟩
        fresh := db.fresh + 2 } db.fresh

def confirmMfaEnrollment (mfa : MfaConfig) (caller : Option Token) (code : JsString) :
    Txn (List Token) :=
  match db.currentSessionOf now caller with
  | none => .error "not authenticated"
  | some (_, current) =>
    match db.enrollmentFor current.userId with
    | none => .error "MFA_NOT_ENROLLED"
    | some (id, row) =>
      if row.confirmedAt.isSome then .error "MFA_NOT_ENROLLED"
      else
        match mfa.verifyTotp row.secret code now with
        | none => .error "invalid code"
        | some step =>
          let row := { row with confirmedAt := some now, lastUsedStep := some step }
          let db := { db with mfaEnrollments := db.mfaEnrollments.set id row }
          let (db, codes) := db.insertRecoveryCodes current.userId mfa.recoveryCodeCount
          committed db codes

def disableMfa (mfa : MfaConfig) (caller : Option Token) (code : JsString) : Txn Unit :=
  match db.currentSessionOf now caller with
  | none => .error "not authenticated"
  | some (_, current) =>
    match db.enrollmentFor current.userId with
    | none => .error "MFA_NOT_ENROLLED"
    | some (id, row) =>
      if row.confirmedAt.isNone then .error "MFA_NOT_ENROLLED"
      else
        match db.secondFactor now mfa current.userId code with
        | none => .error "invalid code"
        | some factor =>
          let db := db.useFactor factor
          let db := { db with mfaEnrollments := db.mfaEnrollments.erase id }
          committed (db.deleteRecoveryCodes current.userId) ()

def regenerateRecoveryCodes (mfa : MfaConfig) (caller : Option Token) (code : JsString) :
    Txn (List Token) :=
  match db.currentSessionOf now caller with
  | none => .error "not authenticated"
  | some (_, current) =>
    match db.enrollmentFor current.userId with
    | none => .error "MFA_NOT_ENROLLED"
    | some (id, row) =>
      if row.confirmedAt.isNone then .error "MFA_NOT_ENROLLED"
      else
        match verifyTotpForEnrollment now mfa row code with
        | none => .error "invalid code"
        | some step =>
          let db := (db.useFactor (.totp id step)).deleteRecoveryCodes current.userId
          let (db, codes) := db.insertRecoveryCodes current.userId mfa.recoveryCodeCount
          committed db codes

/-- A wrong code counts for the challenge, which goes at the cap, and in the window of the user. -/
def wrongFactor (mfa : MfaConfig) (id : Nat) (row : MfaChallengeRow) : AuthDb :=
  let name := .mfaVerify row.userId
  { db with
    mfaChallenges := if mfa.mfaAttempts ≤ row.failedAttempts + 1 then db.mfaChallenges.erase id
      else db.mfaChallenges.set id { row with failedAttempts := row.failedAttempts + 1 }
    authCounters := match db.authCounters.get? name with
      | none => db.authCounters.set name ⟨now, 1⟩
      | some counter =>
        if now - counter.windowStart < mfa.verifyWindowMs then
          db.authCounters.set name { counter with count := counter.count + 1 }
        else db.authCounters.set name ⟨now, 1⟩ }

/-- The user has used up the wrong codes of the window. -/
def rateLimited (mfa : MfaConfig) (userId : UserId) : Bool :=
  (db.authCounters.get? (.mfaVerify userId)).any fun counter =>
    decide (now - counter.windowStart < mfa.verifyWindowMs ∧
      mfa.verifyAttemptsPerWindow ≤ counter.count)

def completeMfaSignIn (mfa : MfaConfig) (pendingToken : Token) (code : JsString) :
    Txn SignInResult :=
  match db.mfaChallenges.first fun row => row.challengeHash = pendingToken with
  | none => .error "invalid code"
  | some (id, row) =>
    if row.expiresAt < now then .error "invalid code"
    else if db.rateLimited now mfa row.userId then commitThenThrow db "MFA_RATE_LIMITED"
    else
      match db.secondFactor now mfa row.userId code with
      | some factor =>
        let db := db.useFactor factor
        let minted := { db with
          mfaChallenges := db.mfaChallenges.erase id
          authCounters := db.authCounters.erase (.mfaVerify row.userId) }.mintSession cfg
            now row.userId
        committed minted.1 (.minted minted.2)
      | none => commitThenThrow (db.wrongFactor now mfa id row) "invalid code"

end AuthDb

/-! ## Runs -/

/-- The mutations, with what their callers and the environment give them. -/
inductive AuthCall where
  | signUp (caller : Option Token) (email password : JsString)
  | signIn (email password : JsString)
  | signOut (token : Token)
  | refresh (refreshToken : Token)
  | signInAnonymously (caller : Option Token)
  | revokeSession (caller : Option Token) (sessionId : Nat)
  | revokeOtherSessions (caller : Option Token)
  | issueCode (email : JsString) (flow : Flow) (code : JsString)
  | verifyEmail (email code : JsString)
  | resetPassword (email code newPassword : JsString)
  | signInWithMagicLink (email token : JsString)
  | signInWithOtp (email code : JsString)
  | startOAuth (provider : JsString) (callerToken : Option Token)
  | consumeOAuthState (provider : JsString) (state : Token)
  | authorizeHandoff (identity : AuthDb.ExternalIdentity) (linkUserId : Option UserId)
  | consumeHandoff (handoffCode : Token)
  | signInWithIdToken (identity : AuthDb.ExternalIdentity)
  | storeChallenge (caller : Option Token) (kind : CeremonyKind)
  | consumeChallenge (challenge : Token) (kind : CeremonyKind)
  | savePasskey (userId : UserId) (credentialId : JsString) (counter : Nat)
  | finishPasskeyAuth (credentialId : JsString) (newCounter : Nat)
  | revokePasskey (caller : Option Token) (passkeyId : Nat)
  | startMfaEnrollment (caller : Option Token)
  | confirmMfaEnrollment (caller : Option Token) (code : JsString)
  | disableMfa (caller : Option Token) (code : JsString)
  | regenerateRecoveryCodes (caller : Option Token) (code : JsString)
  | completeMfaSignIn (pendingToken : Token) (code : JsString)
  deriving DecidableEq

/-- What a mutation leaves: a plain throw commits nothing. -/
def Txn.after {α : Type} (t : Txn α) (db : AuthDb) : AuthDb :=
  match t with
  | .ok (db', _) => db'
  | .error _ => db

/-- One mutation at a time. A module that is not configured has no functions. -/
def AuthDb.step (cfg : AuthConfig) (db : AuthDb) (e : Int × AuthCall) : Option AuthDb :=
  match e.2 with
  | .signUp caller email password => some ((db.signUp cfg e.1 caller email password).after db)
  | .signIn email password => some ((db.signIn cfg e.1 email password).after db)
  | .signOut token => some (db.signOut token)
  | .refresh refreshToken => some ((db.refresh cfg e.1 refreshToken).after db)
  | .signInAnonymously caller => some ((db.signInAnonymously cfg e.1 caller).after db)
  | .revokeSession caller sessionId => some ((db.revokeSession e.1 caller sessionId).after db)
  | .revokeOtherSessions caller => some ((db.revokeOtherSessions e.1 caller).after db)
  | .issueCode email flow code =>
    cfg.email.map fun mail => (db.issueCode cfg e.1 mail email flow code).after db
  | .verifyEmail email code => cfg.email.map fun _ => (db.verifyEmail cfg e.1 email code).after db
  | .resetPassword email code newPassword =>
    cfg.email.map fun _ => (db.resetPassword cfg e.1 email code newPassword).after db
  | .signInWithMagicLink email token =>
    cfg.email.map fun mail => (db.signInWithMagicLink cfg e.1 mail email token).after db
  | .signInWithOtp email code =>
    cfg.email.map fun mail => (db.signInWithOtp cfg e.1 mail email code).after db
  | .startOAuth provider callerToken =>
    cfg.oauth.map fun oauth => (db.startOAuth e.1 oauth provider callerToken).1
  | .consumeOAuthState provider state =>
    cfg.oauth.map fun _ => (db.consumeOAuthState e.1 provider state).after db
  | .authorizeHandoff identity linkUserId =>
    -- the callback that has read this link goes on
    if (identity.provider, linkUserId) ∈ db.callbacks then
      cfg.oauth.map fun oauth =>
        ({ db with callbacks := db.callbacks.erase (identity.provider,
          linkUserId) }.authorizeHandoff cfg e.1 oauth identity linkUserId).1
    else none
  | .consumeHandoff handoffCode =>
    cfg.oauth.map fun _ => (db.consumeHandoff cfg e.1 handoffCode).after db
  | .signInWithIdToken identity =>
    if cfg.jwt then some ((db.signInWithIdToken cfg e.1 identity).after db) else none
  | .storeChallenge caller kind =>
    cfg.passkeys.map fun passkeys => (db.storeChallenge e.1 passkeys caller kind).after db
  | .consumeChallenge challenge kind =>
    cfg.passkeys.map fun _ => (db.consumeChallenge e.1 challenge kind).after db
  | .savePasskey userId credentialId counter =>
    if userId ∈ db.registrations then
      let db := { db with registrations := db.registrations.erase userId }
      cfg.passkeys.map fun passkeys =>
        (db.savePasskey passkeys userId credentialId counter).after db
    else none
  | .finishPasskeyAuth credentialId newCounter =>
    cfg.passkeys.map fun _ => (db.finishPasskeyAuth cfg e.1 credentialId newCounter).after db
  | .revokePasskey caller passkeyId =>
    cfg.passkeys.map fun _ => (db.revokePasskey e.1 caller passkeyId).after db
  | .startMfaEnrollment caller => cfg.mfa.map fun _ => (db.startMfaEnrollment e.1 caller).after db
  | .confirmMfaEnrollment caller code =>
    cfg.mfa.map fun mfa => (db.confirmMfaEnrollment e.1 mfa caller code).after db
  | .disableMfa caller code => cfg.mfa.map fun mfa => (db.disableMfa e.1 mfa caller code).after db
  | .regenerateRecoveryCodes caller code =>
    cfg.mfa.map fun mfa => (db.regenerateRecoveryCodes e.1 mfa caller code).after db
  | .completeMfaSignIn pendingToken code =>
    cfg.mfa.map fun mfa => (db.completeMfaSignIn cfg e.1 mfa pendingToken code).after db

end Helipod
