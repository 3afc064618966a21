import Mathlib.Data.Nat.Basic
import Helipod.Auth.Functions

/-!
# What a mutation of the auth component can do

Most mutations change their own tables, delete sessions, give a user its email, and end in
`finishSignIn` or not. `Prep` says what they leave as it is, and `Stepped` what a mutation can do.
-/

namespace Helipod.AuthDb

open OrderedMap Option

variable {cfg : AuthConfig} {db db₁ db₂ db' : AuthDb} {now : Int} {u userId : UserId} {n : Nat}
  {who : Option (UserId × JsString)} {identity : ExternalIdentity} {e : AuthCall} {user : UserRow}
  {mfa : MfaConfig} {email code : JsString} {mail : EmailConfig}

/-! ## The email that a mutation gives -/

/-- The email of the user that a sign-in by email creates. -/
def createdEmail (cfg : AuthConfig) (db : AuthDb) (now : Int) (flow : Flow)
    (email code : JsString) :
    Option JsString :=
  if db.codeMatches now (cfg.normalizeEmail email) flow code ∧
    db.byEmail (cfg.normalizeEmail email) = none ∧
      cfg.email.any (·.createUsersOnEmailSignIn) then
    some (cfg.normalizeEmail email)
  else none

/-- The email of the user that an external identity creates. -/
def externalEmail (cfg : AuthConfig) (db : AuthDb) (identity : ExternalIdentity)
    (linkUserId : Option UserId) : Option JsString :=
  if db.byAccount (.external identity.provider) identity.accountId = none ∧
      (linkUserId.filter fun userId => (db.users.get? userId).isSome) = none ∧
      db.verifiedMatch cfg identity = none then
    identity.normEmail cfg
  else none

/-- The email that a mutation gives to a new user, or to an anonymous one. -/
def emailGiven (cfg : AuthConfig) (db : AuthDb) (e : Int × AuthCall) : Option JsString :=
  match e.2 with
  | .signUp _ email _ =>
    if db.byAccount .password (cfg.normalizeEmail email) = none then some (cfg.normalizeEmail email)
    else none
  | .signInWithMagicLink email token => db.createdEmail cfg e.1 .magic email token
  | .signInWithOtp email code => db.createdEmail cfg e.1 .otp email code
  | .signInWithIdToken identity => db.externalEmail cfg identity none
  | .authorizeHandoff identity linkUserId => db.externalEmail cfg identity linkUserId
  | _ => none

/-! ## The second factor that a mutation checks -/

/-- The user for whom a code is checked, and the second factor it is; a wrong code is none. -/
def check (cfg : AuthConfig) (db : AuthDb) (e : Int × AuthCall) :
    Option (UserId × Option SecondFactor) :=
  match e.2 with
  | .confirmMfaEnrollment caller code =>
    cfg.mfa.bind fun mfa => (db.callerId e.1 caller).bind fun u =>
      ((db.enrollmentFor u).filter fun row => row.2.confirmedAt.isNone).bind fun row =>
        (mfa.verifyTotp row.2.secret code e.1).map fun step => (u, some (.totp row.1 step))
  | .disableMfa caller code =>
    cfg.mfa.bind fun mfa => ((db.callerId e.1 caller).filter db.enrolled).map fun u =>
      (u, db.secondFactor e.1 mfa u code)
  | .regenerateRecoveryCodes caller code =>
    cfg.mfa.bind fun mfa => (db.callerId e.1 caller).bind fun u =>
      ((db.enrollmentFor u).filter fun row => row.2.confirmedAt.isSome).map fun row =>
        (u, (verifyTotpForEnrollment e.1 mfa row.2 code).map (.totp row.1))
  | .completeMfaSignIn pendingToken code =>
    cfg.mfa.bind fun mfa =>
      ((db.mfaChallenges.first fun row => row.challengeHash = pendingToken).filter fun row =>
        decide (e.1 ≤ row.2.expiresAt) && !db.rateLimited e.1 mfa row.2.userId).map fun row =>
          (row.2.userId, db.secondFactor e.1 mfa row.2.userId code)
  | _ => none

/-! ## Sound tables -/

def HasEmail (db : AuthDb) (u : UserId) (email : JsString) : Prop :=
  ∃ user, db.users.get? u = some user ∧ user.email = some email

theorem hasEmail_set {v : UserId} {email : JsString} (h : db₁.users = db.users.set v user) :
    db₁.HasEmail u email ↔ if v = u then user.email = some email else db.HasEmail u email := by
  unfold HasEmail
  simp only [h, get?_set]
  split
  · simp
  · rfl

/-- Ids and tokens are below `n`, an anonymous user has no email, and the password account of an
email is that of a user with the email. -/
structure Sound (db : AuthDb) (n : Nat) : Prop where
  users : db.users.All fun u user => u < n ∧ (user.anonymous = true → user.email = none)
  accounts : db.accounts.All fun id row => row.userId < n ∧ id < n ∧
    (row.provider = .password → db.HasEmail row.userId row.accountId)
  sessions : db.sessions.All fun _ row => row.userId < n ∧ row.tokenHash < n ∧
    row.refreshTokenHash < n
  states : db.oauthState.All fun _ row => ∀ u ∈ row.linkUserId, u < n
  callbacks : ∀ provider u, (provider, some u) ∈ db.callbacks → u < n
  handoffs : db.oauthHandoff.All fun id row => row.userId < n ∧ id < n
  enrollments : db.mfaEnrollments.All fun id row => id < n ∧ row.userId < n
  challenges : db.mfaChallenges.All fun _ row => row.userId < n ∧ row.challengeHash < n
  recoveryCodes : db.mfaRecoveryCodes.All fun id _ => id < n
  passkeys : db.passkeys.All fun _ row => row.userId < n
  ceremonies : db.webauthnChallenge.All fun _ row => ∀ u ∈ row.userId, u < n
  registrations : ∀ u ∈ db.registrations, u < n

namespace Sound

theorem empty : Sound .empty n := by
  constructor
  case callbacks => intro provider u hu; cases hu
  case registrations => intro u hu; cases hu
  all_goals intro a b hb; cases hb

theorem mono (h : Sound db n) {m : Nat} (hle : n ≤ m) : Sound db m := by
  have up {a : Nat} (ha : a < n) : a < m := Nat.lt_of_lt_of_le ha hle
  constructor
  case users => exact h.users.imp fun _ _ hu => ⟨up hu.1, hu.2⟩
  case accounts => exact h.accounts.imp fun _ _ hu => ⟨up hu.1, up hu.2.1, hu.2.2⟩
  case sessions => exact h.sessions.imp fun _ _ hu => ⟨up hu.1, up hu.2.1, up hu.2.2⟩
  case states => exact h.states.imp fun _ _ hu u hmem => up (hu u hmem)
  case callbacks => exact fun p u hmem => up (h.callbacks p u hmem)
  case handoffs => exact h.handoffs.imp fun _ _ hu => ⟨up hu.1, up hu.2⟩
  case enrollments => exact h.enrollments.imp fun _ _ hu => ⟨up hu.1, up hu.2⟩
  case challenges => exact h.challenges.imp fun _ _ hu => ⟨up hu.1, up hu.2⟩
  case recoveryCodes => exact h.recoveryCodes.imp fun _ _ hu => up hu
  case passkeys => exact h.passkeys.imp fun _ _ hu => up hu
  case ceremonies => exact h.ceremonies.imp fun _ _ hu u hmem => up (hu u hmem)
  case registrations => exact fun u hmem => up (h.registrations u hmem)

theorem caller (h : Sound db n) {token : Option Token}
    (hu : db.callerId now token = some u) : u < n := by
  obtain ⟨⟨id, row⟩, hsession, rfl⟩ := map_eq_some_iff.1 hu
  obtain ⟨token, -, hrow⟩ := bind_eq_some_iff.1 (filter_eq_some_iff.1 hsession).1
  exact (h.sessions _ _ (get?_of_first _ hrow).1).1

theorem hasEmail_lt (h : Sound db n) {email : JsString} (hu : db.HasEmail u email) : u < n := by
  obtain ⟨user, huser, -⟩ := hu
  exact (h.users _ _ huser).1

theorem setUser (h : Sound db n) {user : UserRow} (hu : u < n)
    (hanonymous : user.anonymous = true → user.email = none)
    (hkeep : ∀ email, db.HasEmail u email → user.email = some email) :
    Sound (db.setUser u user) n :=
  { h with
    users := h.users.set ⟨hu, hanonymous⟩
    accounts := fun id row hrow => by
      obtain ⟨hlt, hid, hold⟩ := h.accounts id row hrow
      refine ⟨hlt, hid, fun hpassword => (hasEmail_set rfl).2 ?_⟩
      have hemail := hold hpassword
      split
      · rename_i heq
        exact hkeep _ (heq ▸ hemail)
      · exact hemail }

end Sound

/-! ## Frames -/

/-- Nothing about second factors changes. -/
structure SameFactors (db db₁ : AuthDb) : Prop where
  enrollments : db₁.mfaEnrollments = db.mfaEnrollments
  recoveryCodes : db₁.mfaRecoveryCodes = db.mfaRecoveryCodes
  challenges : db₁.mfaChallenges = db.mfaChallenges
  counters : ∀ u, db₁.authCounters.get? (.mfaVerify u) = db.authCounters.get? (.mfaVerify u)

theorem SameFactors.trans (h : SameFactors db db₁) (h' : SameFactors db₁ db₂) :
    SameFactors db db₂ :=
  ⟨h'.1.trans h.1, h'.2.trans h.2, h'.3.trans h.3, fun u => (h'.4 u).trans (h.4 u)⟩

/-- Sessions may go, and a user may get its first email. -/
structure Prep (db : AuthDb) (who : Option (UserId × JsString)) (db₁ : AuthDb) : Prop where
  sessions : ∀ {id row}, db₁.sessions.get? id = some row → db.sessions.get? id = some row
  fresh : db.fresh ≤ db₁.fresh
  factors : SameFactors db db₁
  sound : Sound db db.fresh → Sound db₁ db₁.fresh
  emails : Sound db db.fresh → ∀ u email, db₁.HasEmail u email ↔ db.HasEmail u email ∨
    who = some (u, email)
  first : Sound db db.fresh → ∀ u email, who = some (u, email) → ∀ email', ¬db.HasEmail u email'

namespace Prep

theorem trans (h : Prep db none db₁) (h' : Prep db₁ who db₂) : Prep db who db₂ where
  sessions hrow := h.sessions (h'.sessions hrow)
  fresh := Nat.le_trans h.fresh h'.fresh
  factors := h.factors.trans h'.factors
  sound hs := h'.sound (h.sound hs)
  emails hs u email := by simp [h'.emails (h.sound hs), h.emails hs]
  first hs u email hwho email' hold :=
    h'.first (h.sound hs) u email hwho email' ((h.emails hs _ _).2 (.inl hold))

theorem keep (h : Prep db who db₁) (h' : Prep db₁ none db₂) : Prep db who db₂ where
  sessions hrow := h.sessions (h'.sessions hrow)
  fresh := Nat.le_trans h.fresh h'.fresh
  factors := h.factors.trans h'.factors
  sound hs := h'.sound (h.sound hs)
  emails hs u email := by simp [h'.emails (h.sound hs), h.emails hs]
  first := h.first

theorem of_users (husers : db₁.users = db.users)
    (hsessions : ∀ id row, db₁.sessions.get? id = some row → db.sessions.get? id = some row)
    (hfresh : db.fresh ≤ db₁.fresh) (hfactors : SameFactors db db₁)
    (hsound : Sound db db₁.fresh → Sound db₁ db₁.fresh) : Prep db none db₁ where
  sessions hrow := hsessions _ _ hrow
  fresh := hfresh
  factors := hfactors
  sound hs := hsound (hs.mono hfresh)
  emails _ u email := by simp [HasEmail, husers]
  first _ _ _ hwho := by cases hwho

/-- Only the tables of the other flows change. -/
theorem of_same (hsame : (db₁.users, db₁.sessions, db₁.mfaEnrollments, db₁.mfaRecoveryCodes,
    db₁.mfaChallenges,
      db₁.authCounters) = (db.users, db.sessions, db.mfaEnrollments, db.mfaRecoveryCodes,
        db.mfaChallenges,
      db.authCounters)) (hfresh : db.fresh ≤ db₁.fresh)
    (hsound : Sound db db₁.fresh → Sound db₁ db₁.fresh) : Prep db none db₁ := by
  simp only [Prod.mk.injEq] at hsame
  obtain ⟨husers, hsessions, henrollments, hcodes, hchallenges, hcounters⟩ := hsame
  exact .of_users husers (fun _ _ => hsessions ▸ id) hfresh
    ⟨henrollments, hcodes, hchallenges, fun _ => hcounters ▸ rfl⟩ hsound

theorem refl : Prep db none db := of_same rfl le_rfl id

end Prep

theorem prep_dropSessions {sessions : OrderedMap Nat SessionRow}
    (h : ∀ id row, sessions.get? id = some row → db.sessions.get? id = some row) :
    Prep db none { db with sessions := sessions } :=
  .of_users rfl h le_rfl ⟨rfl, rfl, rfl, fun _ => rfl⟩ fun hs =>
    { hs with sessions := fun id row hrow => hs.sessions id row (h id row hrow) }

theorem prep_deleteSessionsOf (u : UserId) : Prep db none (db.deleteSessionsOf u) :=
  prep_dropSessions fun _ _ hrow => ((get?_deleteWhere _).1 hrow).1

theorem prep_eraseSession {id : Nat} : Prep db none { db with sessions := db.sessions.erase id } :=
  prep_dropSessions fun _ _ hrow => (get?_erase_eq_some.1 hrow).2

theorem prep_insertUser (hanonymous : user.anonymous = true → user.email = none) :
    Prep db (user.email.map fun email => (db.fresh, email)) (db.insertUser user) where
  sessions := id
  fresh := Nat.le_succ _
  factors := ⟨rfl, rfl, rfl, fun _ => rfl⟩
  sound hs := by
    have hset := (hs.mono (Nat.le_succ _)).setUser (Nat.lt_succ_self _) hanonymous
      fun email hu => absurd (hs.hasEmail_lt hu) (Nat.lt_irrefl _)
    exact { hset with }
  emails hs u email := by
    rw [hasEmail_set rfl]
    split
    · rename_i heq
      subst heq
      have hnot : ¬db.HasEmail db.fresh email := fun hu =>
        absurd (hs.hasEmail_lt hu) (Nat.lt_irrefl _)
      simp [hnot]
    · rename_i hne
      simp [hne]
  first hs v email hwho email' hv := by
    obtain ⟨email₁, -, heq⟩ := map_eq_some_iff.1 hwho
    cases heq
    exact absurd (hs.hasEmail_lt hv) (Nat.lt_irrefl _)

theorem prep_upgrade (huser : db.users.get? u = some user) (h : user.anonymous = true)
    (email : JsString) :
    Prep db (some (u, email))
      (db.setUser u { user with email := some email, anonymous := false }) := by
  have hnone : Sound db db.fresh → ∀ email', ¬db.HasEmail u email' := by
    rintro hs email' ⟨user', huser', hemail⟩
    rw [huser] at huser'
    cases huser'
    rw [(hs.users _ _ huser).2 h] at hemail
    cases hemail
  refine ⟨id, le_rfl, ⟨rfl, rfl, rfl, fun _ => rfl⟩, fun hs => ?_, fun hs v email' => ?_, ?_⟩
  · exact hs.setUser (hs.users _ _ huser).1 (by intro hanonymous; cases hanonymous)
      fun email' hu => absurd hu (hnone hs email')
  · rw [hasEmail_set rfl]
    split
    · rename_i heq
      subst heq
      simp [hnone hs email']
    · rename_i hne
      simp [hne]
  · rintro hs v email₁ hwho email'
    cases hwho
    exact hnone hs email'

theorem prep_verify (huser : db.users.get? u = some user) :
    Prep db none (db.setUser u { user with emailVerified := true }) := by
  have hsame : ∀ email, db.HasEmail u email ↔ user.email = some email := by
    simp [HasEmail, huser]
  refine ⟨id, le_rfl, ⟨rfl, rfl, rfl, fun _ => rfl⟩, fun hs => ?_, fun hs v email => ?_, ?_⟩
  · exact hs.setUser (hs.users _ _ huser).1 (hs.users _ _ huser).2 fun email hu =>
      (hsame email).1 hu
  · rw [hasEmail_set rfl]
    split
    · rename_i heq
      subst heq
      simp [hsame]
    · simp
  · intro hs v email hwho
    cases hwho

theorem prep_markVerified (huser : db.users.get? u = some user) :
    Prep db none (db.markVerifiedRevokingIfFirstProof u user) := by
  unfold markVerifiedRevokingIfFirstProof
  split
  · exact prep_verify huser
  · exact (prep_deleteSessionsOf u).trans (prep_verify huser)

theorem prep_setVerified : Prep db none (db.setVerified u) := by
  unfold setVerified
  split
  · rename_i huser
    exact prep_verify huser
  · exact .refl

theorem prep_setAccount {k : Nat} {row row' : AccountRow} (hrow : db.accounts.get? k = some row)
    (hsame : row'.provider = row.provider ∧ row'.accountId = row.accountId ∧
      row'.userId = row.userId) :
    Prep db none (db.setAccount k row') := by
  refine .of_same rfl le_rfl fun hs => ?_
  obtain ⟨hprovider, haccount, hu⟩ := hsame
  obtain ⟨hlt, hid, hemail⟩ := hs.accounts _ _ hrow
  rw [← hu] at hlt
  rw [← hprovider, ← haccount, ← hu] at hemail
  exact { hs with accounts := hs.accounts.set ⟨hlt, hid, hemail⟩ }

theorem prep_insertAccount {row : AccountRow} (hu : Sound db db.fresh → row.userId < db.fresh)
    (hpassword : row.provider = .password → db.HasEmail row.userId row.accountId) :
    Prep db none (db.insertAccount row) where
  sessions := id
  fresh := Nat.le_succ _
  factors := ⟨rfl, rfl, rfl, fun _ => rfl⟩
  sound hs := by
    have hs' := hs.mono (Nat.le_succ _)
    have hlt := Nat.lt_succ_of_lt (hu hs)
    exact { hs' with accounts := hs'.accounts.set ⟨hlt, Nat.lt_succ_self _, hpassword⟩ }
  emails _ _ _ := by simp [HasEmail, insertAccount]
  first _ _ _ hwho := by cases hwho

theorem prep_deleteAccounts {p : AccountRow → Bool} :
    Prep db none { db with accounts := db.accounts.deleteWhere p } :=
  .of_same rfl le_rfl fun hs =>
    { hs with accounts := hs.accounts.deleteWhere }

theorem prep_consumeCode (email : JsString) (flow : Flow) :
    Prep db none (db.consumeCode email flow) :=
  .of_same rfl le_rfl fun hs => { hs with }

theorem prep_countInWindow {name : CounterName} {cap : Nat} (hname : ∀ u, name ≠ .mfaVerify u)
    (h : db.countInWindow now name cap = some db₁) : Prep db none db₁ ∧ db₁.fresh = db.fresh := by
  have hset : ∀ row, Prep db none
    { db with authCounters := db.authCounters.set name row } := fun row =>
    .of_users rfl (fun _ _ => id) le_rfl ⟨rfl, rfl, rfl, fun u => get?_set_ne _ (hname u)⟩
      fun hs => { hs with }
  unfold countInWindow at h
  split at h
  · cases h
    exact ⟨.refl, rfl⟩
  split at h
  · cases h
    exact ⟨hset _, rfl⟩
  split at h
  · cases h
    exact ⟨hset _, rfl⟩
  split at h <;> cases h
  exact ⟨hset _, rfl⟩

/-! ## The user of a sign-up or an identity -/

variable {caller : Option Token}

theorem hasEmail_signUpUser {email : JsString} :
    (db.signUpUser cfg now caller email).1.HasEmail
    (db.signUpUser cfg now caller email).2 email := by
  unfold signUpUser
  split
  · dsimp only
    split <;> exact (hasEmail_set rfl).2 (by simp)
  · exact (hasEmail_set rfl).2 (by simp)

theorem prep_signUpUser {email : JsString} :
    Prep db (some ((db.signUpUser cfg now caller email).2, email))
      (db.signUpUser cfg now caller email).1 := by
  unfold signUpUser
  split
  · rename_i v user hcaller
    obtain ⟨session, -, huser⟩ := bind_eq_some_iff.1 hcaller
    obtain ⟨user', hfilter, heq⟩ := map_eq_some_iff.1 huser
    cases heq
    obtain ⟨hrow, hanonymous⟩ := filter_eq_some_iff.1 hfilter
    split
    · exact prep_upgrade hrow hanonymous email
    · exact (prep_upgrade hrow hanonymous email).keep (prep_deleteSessionsOf _)
  · have hinsert := @prep_insertUser db ⟨some email, false, false⟩ (by intro h; cases h)
    exact hinsert

theorem prep_resolveUserId {linkUserId : Option UserId} :
    ∃ who, Prep db who (db.resolveUserId cfg identity linkUserId).1 ∧
      who.map Prod.snd = db.externalEmail cfg identity linkUserId ∧
      ∀ n, Sound (db.resolveUserId cfg identity linkUserId).1 n →
        (db.resolveUserId cfg identity linkUserId).2 < n := by
  unfold resolveUserId
  split
  · rename_i hrow
    refine ⟨none, .refl, by simp [externalEmail, hrow], fun n hs => ?_⟩
    exact (hs.accounts _ _ (get?_of_first _ hrow).1).1
  rename_i hnone
  split
  · rename_i v hlink
    obtain ⟨user, huser⟩ := isSome_iff_exists.1 (filter_eq_some_iff.1 hlink).2
    refine ⟨none, prep_insertAccount (fun hs => (hs.users _ _ huser).1) (by rintro ⟨⟩),
      by simp [externalEmail, hlink], fun n hs => (hs.users _ _ huser).1⟩
  rename_i hlink
  unfold resolveByEmail
  split
  · rename_i v user hmatch
    obtain ⟨email, -, hrow⟩ := bind_eq_some_iff.1 hmatch
    have huser := (get?_of_first _ (ite_none_right_eq_some.1 hrow).2).1
    have hprep : Prep db none
      ((db.insertExternalAccount v identity).markVerifiedRevokingIfFirstProof v user) :=
      (prep_insertAccount (fun hs => (hs.users _ _ huser).1) (by rintro ⟨⟩)).trans
        (prep_markVerified huser)
    refine ⟨none, hprep, by simp [externalEmail, hmatch], fun n hs => ?_⟩
    exact (hs.users _ _ (get?_set_self _)).1
  · rename_i hmatch
    have hinsert := @prep_insertUser db ⟨identity.normEmail cfg, false, identity.emailVerified⟩
      (by intro h; cases h)
    refine ⟨_, hinsert.keep (prep_insertAccount (fun _ => Nat.lt_succ_self _) (by rintro ⟨⟩)), ?_,
      fun n hs => (hs.users _ _ (get?_set_self _)).1⟩
    simp [externalEmail, hnone, hlink, hmatch, Function.comp_def]

/-! ## The end of a sign-in -/

/-- The sign-in is finished, or it stops before. -/
inductive Ends (cfg : AuthConfig) (now : Int) (db : AuthDb)
    (who : Option (UserId × JsString)) : AuthDb → Prop
  | prep {db₁ : AuthDb} (h : Prep db who db₁) : Ends cfg now db who db₁
  | finish {db₁ : AuthDb} {userId : UserId} (h : Prep db who db₁)
    (hu : Sound db db.fresh → userId < db₁.fresh) :
    Ends cfg now db who (db₁.finishSignIn cfg now userId).1

theorem Ends.of_lt (h : Prep db who db₁) (hu : Sound db db.fresh → userId < db.fresh) :
    Ends cfg now db who (db₁.finishSignIn cfg now userId).1 :=
  .finish h fun hs => Nat.lt_of_lt_of_le (hu hs) h.fresh

/-- It gives the email that `emailGiven` tells. -/
def Given (cfg : AuthConfig) (now : Int) (db : AuthDb) (e : AuthCall) (db' : AuthDb) : Prop :=
  ∃ who, Ends cfg now db who db' ∧ who.map Prod.snd = emailGiven cfg db (now, e)

theorem Given.same (h : emailGiven cfg db (now, e) = none) : Given cfg now db e db :=
  ⟨none, .prep .refl, h.symm⟩

theorem ends_gatedSignIn (h : Prep db who db₁) (hu : Sound db db.fresh → userId < db₁.fresh) :
    Ends cfg now db who (db₁.gatedSignIn cfg now userId).1 := by
  unfold gatedSignIn
  split
  · exact .prep h
  · exact .finish h hu

theorem given_signUp {email password : JsString} :
    Given cfg now db (.signUp caller email password)
      ((db.signUp cfg now caller email password).after db) := by
  unfold signUp
  dsimp only
  split
  · rename_i hsome
    obtain ⟨row, hrow⟩ := isSome_iff_exists.1 hsome
    exact .same (by simp [emailGiven, hrow])
  · rename_i hnone
    have huser := @prep_signUpUser cfg db now caller (cfg.normalizeEmail email)
    have hemail := @hasEmail_signUpUser cfg db now caller (cfg.normalizeEmail email)
    refine ⟨_, ends_gatedSignIn (huser.keep (prep_insertAccount (fun hs => hs.hasEmail_lt hemail)
      fun _ => hemail)) fun hs => ?_, ?_⟩
    · exact Nat.lt_succ_of_lt ((huser.sound hs).hasEmail_lt hemail)
    · simpa [emailGiven] using hnone

theorem ends_signIn {email password : JsString} :
    Ends cfg now db none ((db.signIn cfg now email password).after db) := by
  unfold signIn
  split
  · exact .prep .refl
  rename_i hrow
  have hrow := (get?_of_first _ hrow).1
  split
  · exact .prep .refl
  split
  · refine .prep ?_
    exact prep_setAccount hrow ⟨rfl, rfl, rfl⟩
  · refine ends_gatedSignIn ?_ fun hs => (hs.accounts _ _ hrow).1
    exact prep_setAccount hrow ⟨rfl, rfl, rfl⟩

/-- The two sign-ins with a code: the code is taken, then the user is looked up. -/
theorem given_adoptOrCreate (hmail : cfg.email = some mail) {flow : Flow}
    (hgiven : emailGiven cfg db (now, e) = db.createdEmail cfg now flow email code)
    (hcode : db.codeMatches now (cfg.normalizeEmail email) flow code = true) :
    Given cfg now db e
      (((db.consumeCode (cfg.normalizeEmail email) flow).adoptOrCreateThenMint cfg now
      mail (cfg.normalizeEmail email)).after db) := by
  have hconsume := @prep_consumeCode db (cfg.normalizeEmail email) flow
  unfold adoptOrCreateThenMint
  split
  · rename_i hnone
    have hnone : db.byEmail (cfg.normalizeEmail email) = none := hnone
    split
    · rename_i hcreate
      have hinsert := @prep_insertUser (db.consumeCode (cfg.normalizeEmail email) flow)
        ⟨some (cfg.normalizeEmail email), false, true⟩ (by intro h; cases h)
      refine ⟨_, .finish (hconsume.trans hinsert) fun _ => Nat.lt_succ_self _, ?_⟩
      simp [hgiven, createdEmail, hcode, hnone, hmail, hcreate]
    · rename_i hcreate
      exact ⟨none, .prep hconsume, by simp [hgiven, createdEmail, hmail, hcreate]⟩
  · rename_i v user hsome
    have hsome : db.byEmail (cfg.normalizeEmail email) = some (v, user) := hsome
    have hrow := (get?_of_first _ hsome).1
    refine ⟨none, .of_lt (hconsume.trans ?_) fun hs => (hs.users _ _ hrow).1,
      by simp [hgiven, createdEmail, hsome]⟩
    split
    · exact prep_markVerified hrow
    · exact prep_deleteAccounts.trans (prep_markVerified hrow)

theorem ends_verifyEmail : Ends cfg now db none ((db.verifyEmail cfg now email code).after db) := by
  unfold verifyEmail
  dsimp only
  split
  · split
    · exact .prep (prep_consumeCode _ _)
    · rename_i hrow
      have hrow := (get?_of_first _ hrow).1
      exact .of_lt ((prep_consumeCode _ _).trans (prep_markVerified hrow)) fun hs =>
        (hs.users _ _ hrow).1
  · exact .prep .refl

variable {code : JsString}

theorem ends_resetPassword {email newPassword : JsString} :
    Ends cfg now db none ((db.resetPassword cfg now email code newPassword).after db) := by
  unfold resetPassword
  dsimp only
  split
  · split
    · exact .prep (prep_consumeCode _ _)
    · rename_i hrow
      have hrow := (get?_of_first _ hrow).1
      refine .of_lt ((prep_consumeCode (cfg.normalizeEmail email) .reset).trans (Prep.trans ?_
        (prep_setVerified.trans (prep_deleteSessionsOf _)))) fun hs => (hs.accounts _ _ hrow).1
      exact prep_setAccount hrow ⟨rfl, rfl, rfl⟩
  · exact .prep .refl

theorem given_signInWithMagicLink (hmail : cfg.email = some mail)
    {email token : JsString} : Given cfg now db (.signInWithMagicLink email token)
      ((db.signInWithMagicLink cfg now mail email token).after db) := by
  unfold signInWithMagicLink
  dsimp only
  split
  · rename_i hcode
    exact given_adoptOrCreate hmail rfl hcode
  · rename_i hcode
    exact .same (by simp [emailGiven, createdEmail, hcode])

theorem given_signInWithOtp (hmail : cfg.email = some mail) :
    Given cfg now db (.signInWithOtp email code)
      ((db.signInWithOtp cfg now mail email code).after db) := by
  unfold signInWithOtp
  dsimp only
  split
  · rename_i hnone
    exact .same (by simp [emailGiven, createdEmail, codeMatches, hnone])
  split
  · rename_i hcode
    exact given_adoptOrCreate hmail rfl hcode
  rename_i hcode
  have hgiven : emailGiven cfg db (now, .signInWithOtp email code) = none := by
    simp [emailGiven, createdEmail, hcode]
  split
  · exact ⟨none, .prep (prep_consumeCode _ _), hgiven.symm⟩
  · exact ⟨none, .prep (.of_same rfl le_rfl
      fun hs => { hs with }), hgiven.symm⟩

theorem ends_consumeHandoff {handoffCode : Token} :
    Ends cfg now db none ((db.consumeHandoff cfg now handoffCode).after db) := by
  unfold consumeHandoff
  split
  · exact .prep .refl
  rename_i k row hrow
  have hrow := (get?_of_first _ hrow).1
  have herase : Prep db none { db with oauthHandoff := db.oauthHandoff.erase k } :=
    .of_same rfl le_rfl fun hs =>
      { hs with handoffs := hs.handoffs.erase }
  split
  · exact .prep herase
  · exact .finish herase fun hs => (hs.handoffs _ _ hrow).1

theorem ends_finishPasskeyAuth {credentialId : JsString} {newCounter : Nat} :
    Ends cfg now db none ((db.finishPasskeyAuth cfg now credentialId newCounter).after db) := by
  unfold finishPasskeyAuth
  split
  · exact .prep .refl
  rename_i hrow
  have hrow := (get?_of_first _ hrow).1
  split
  · exact .prep .refl
  · refine .finish (.of_same rfl le_rfl fun hs => ?_)
      fun hs => hs.passkeys _ _ hrow
    have hu := hs.passkeys _ _ hrow
    exact { hs with passkeys := hs.passkeys.set hu }

theorem given_authorizeHandoff {oauth : OAuthConfig}
    {linkUserId : Option UserId} : Given cfg now db (.authorizeHandoff identity linkUserId)
      ({ db with callbacks := db.callbacks.erase (identity.provider, linkUserId) }.authorizeHandoff
        cfg now oauth identity linkUserId).1 := by
  obtain ⟨who, hprep, hwho, hu⟩ := @prep_resolveUserId cfg { db with
    callbacks := db.callbacks.erase (identity.provider, linkUserId) } identity linkUserId
  have hcallbacks : Prep db none { db with
      callbacks := db.callbacks.erase (identity.provider, linkUserId) } :=
    .of_same rfl le_rfl fun hs =>
      { hs with callbacks := fun provider v hmem =>
        hs.callbacks provider v (List.mem_of_mem_erase hmem) }
  refine ⟨who, .prep (hcallbacks.trans (hprep.keep ?_)), hwho⟩
  refine .of_same rfl (Nat.le_add_right _ 2) fun hs => ?_
  exact { hs with handoffs := hs.handoffs.set ⟨hu _ hs, Nat.lt_succ_self _⟩ }

/-! ## One mutation -/

/-- What a mutation can do. -/
inductive Stepped (cfg : AuthConfig) (now : Int) (db : AuthDb) : AuthCall → AuthDb → Prop
  | ends {e : AuthCall} {db' : AuthDb} (h : Given cfg now db e db')
    (hcheck : check cfg db (now, e) = none) : Stepped cfg now db e db'
  /-- A wrong code at `disableMfa` or `regenerateRecoveryCodes`. -/
  | wrong {e : AuthCall} (userId : UserId) (hcheck : check cfg db (now, e) = some (userId, none))
    (hgiven : emailGiven cfg db (now, e) = none)
      (he : ∀ token code, e ≠ .completeMfaSignIn token code) :
    Stepped cfg now db e db
  /-- An anonymous user is a new one. -/
  | anonymous {caller : Option Token} {db₁ : AuthDb} {userId : UserId} (h : Prep db none db₁)
    (hnew : db.fresh ≤ userId) (hu : userId < db₁.fresh) :
    Stepped cfg now db (.signInAnonymously caller) (db₁.mintSession cfg now userId).1
  | rotates {token : Token} {id : Nat} {row : SessionRow}
    (hrow : (db.sessions.first fun row => row.refreshTokenHash = token) = some (id, row)) :
    Stepped cfg now db (.refresh token)
      { db with sessions := db.sessions.set id (db.rotated cfg now row), fresh := db.fresh + 2 }
  | starts {caller : Option Token} {userId : UserId} {enrollments : OrderedMap Nat EnrollmentRow}
    (hcaller : db.callerId now caller = some userId) (hnot : db.enrolled userId = false)
    (hrows : ∀ {id row}, enrollments.get? id = some row →
      db.mfaEnrollments.get? id = some row ∧
        ∀ old, db.enrollmentFor userId = some old → id ≠ old.1) :
    Stepped cfg now db (.startMfaEnrollment caller) { db with
      mfaEnrollments := enrollments.set (db.fresh + 1) ⟨userId, db.fresh, none, none⟩
      fresh := db.fresh + 2 }
  | confirms {mfa : MfaConfig} {caller : Option Token} {code : JsString} {userId : UserId}
      {id step : Nat}
    {row : EnrollmentRow} (hmfa : cfg.mfa = some mfa)
      (hcaller : db.callerId now caller = some userId)
    (hrow : db.enrollmentFor userId = some (id, row)) (hnot : row.confirmedAt = none)
    (hcode : mfa.verifyTotp row.secret code now = some step) :
    Stepped cfg now db (.confirmMfaEnrollment caller code) ({ db with
      mfaEnrollments := db.mfaEnrollments.set id
        { row with confirmedAt := some now, lastUsedStep := some step } }.insertRecoveryCodes userId
          mfa.recoveryCodeCount).1
  | disables {mfa : MfaConfig} {caller : Option Token} {code : JsString}
      {userId : UserId} {id : Nat}
    {row : EnrollmentRow} {factor : SecondFactor} (hmfa : cfg.mfa = some mfa)
    (hcaller : db.callerId now caller = some userId)
    (hrow : db.enrollmentFor userId = some (id, row)) (hconfirmed : row.confirmedAt.isSome = true)
    (hcode : db.secondFactor now mfa userId code = some factor) :
    Stepped cfg now db (.disableMfa caller code) ({ db.useFactor factor with
      mfaEnrollments := (db.useFactor factor).mfaEnrollments.erase id }.deleteRecoveryCodes userId)
  | regenerates {mfa : MfaConfig} {caller : Option Token} {code : JsString} {userId : UserId}
    {id step : Nat} {row : EnrollmentRow} (hmfa : cfg.mfa = some mfa)
    (hcaller : db.callerId now caller = some userId)
    (hrow : db.enrollmentFor userId = some (id, row)) (hconfirmed : row.confirmedAt.isSome = true)
    (hcode : verifyTotpForEnrollment now mfa row code = some step) :
    Stepped cfg now db (.regenerateRecoveryCodes caller code)
      (((db.useFactor (.totp id step)).deleteRecoveryCodes userId).insertRecoveryCodes userId
        mfa.recoveryCodeCount).1
  | completes {mfa : MfaConfig} {pendingToken : Token} {code : JsString} {id : Nat}
    {row : MfaChallengeRow} {factor : SecondFactor} (hmfa : cfg.mfa = some mfa)
    (hrow : (db.mfaChallenges.first fun row => row.challengeHash = pendingToken) = some (id, row))
    (hlive : now ≤ row.expiresAt) (hrate : db.rateLimited now mfa row.userId = false)
    (hcode : db.secondFactor now mfa row.userId code = some factor) :
    Stepped cfg now db (.completeMfaSignIn pendingToken code) ({ db.useFactor factor with
      mfaChallenges := (db.useFactor factor).mfaChallenges.erase id
      authCounters := (db.useFactor factor).authCounters.erase (.mfaVerify row.userId) }.mintSession
        cfg now row.userId).1
  | rejects {mfa : MfaConfig} {pendingToken : Token} {code : JsString} {id : Nat}
    {row : MfaChallengeRow} (hmfa : cfg.mfa = some mfa)
    (hrow : (db.mfaChallenges.first fun row => row.challengeHash = pendingToken) = some (id, row))
    (hlive : now ≤ row.expiresAt) (hrate : db.rateLimited now mfa row.userId = false)
    (hcode : db.secondFactor now mfa row.userId code = none) :
    Stepped cfg now db (.completeMfaSignIn pendingToken code) (db.wrongFactor now mfa id row)

theorem Stepped.same (h : emailGiven cfg db (now, e) = none)
    (hcheck : check cfg db (now, e) = none) : Stepped cfg now db e db :=
  .ends (.same h) hcheck

theorem Stepped.of_prep (h : emailGiven cfg db (now, e) = none)
    (hcheck : check cfg db (now, e) = none) (hprep : Prep db none db') : Stepped cfg now db e db' :=
  .ends ⟨none, .prep hprep, h.symm⟩ hcheck

theorem stepped_refresh {token : Token} :
    Stepped cfg now db (.refresh token) ((db.refresh cfg now token).after db) := by
  unfold refresh
  split
  · rename_i hrow
    split
    · exact .same rfl rfl
    split
    · exact .same rfl rfl
    · exact .rotates hrow
  split
  · split
    · exact .same rfl rfl
    · exact .of_prep rfl rfl prep_eraseSession
  · exact .same rfl rfl

theorem stepped_signInAnonymously :
    Stepped cfg now db (.signInAnonymously caller)
      ((db.signInAnonymously cfg now caller).after db) := by
  unfold signInAnonymously
  split
  · exact .same rfl rfl
  split
  · exact .same rfl rfl
  · rename_i db₁ hcount
    obtain ⟨h, -⟩ := prep_countInWindow (by rintro u ⟨⟩) hcount
    have hinsert := @prep_insertUser db₁ ⟨none, true, false⟩ fun _ => rfl
    exact .anonymous (h.trans hinsert) h.fresh (Nat.lt_succ_self _)

theorem callerId_of_currentSessionOf {id : Nat} {row : SessionRow}
    (h : db.currentSessionOf now caller = some (id, row)) :
    db.callerId now caller = some row.userId := by
  rw [callerId, h]
  rfl

theorem stepped_startMfaEnrollment :
    Stepped cfg now db (.startMfaEnrollment caller)
      ((db.startMfaEnrollment now caller).after db) := by
  unfold startMfaEnrollment
  split
  · exact .same rfl rfl
  rename_i hcaller
  split
  · exact .same rfl rfl
  split
  · exact .same rfl rfl
  rename_i hnot
  refine .starts (callerId_of_currentSessionOf hcaller) (Bool.eq_false_iff.2 hnot)
    fun {id row} hrow => ?_
  split at hrow
  · rename_i old _ hold
    obtain ⟨hne, hrow⟩ := get?_erase_eq_some.1 hrow
    refine ⟨hrow, fun old' hold' => ?_⟩
    rw [hold] at hold'
    cases hold'
    exact Ne.symm hne
  · rename_i hnone
    exact ⟨hrow, fun old hold => by simp [hnone] at hold⟩

theorem callerId_of_none (h : db.currentSessionOf now caller = none) :
    db.callerId now caller = none := by
  rw [callerId, h]
  rfl

theorem stepped_confirmMfaEnrollment (hmfa : cfg.mfa = some mfa) :
    Stepped cfg now db (.confirmMfaEnrollment caller code)
      ((db.confirmMfaEnrollment now mfa caller code).after db) := by
  unfold confirmMfaEnrollment
  split
  · rename_i hcaller
    exact .same rfl (by simp [check, callerId_of_none hcaller])
  rename_i hcaller
  have hcaller := callerId_of_currentSessionOf hcaller
  split
  · rename_i hrow
    exact .same rfl (by simp [check, hcaller, hrow])
  rename_i hrow
  split
  · rename_i hsome
    exact .same rfl (by simp [check, hcaller, hrow, isSome_iff_ne_none.1 hsome])
  rename_i hnot
  split
  · rename_i hcode
    exact .same rfl (by simp [check, hmfa, hcaller, hrow, hcode])
  rename_i hcode
  exact .confirms hmfa hcaller hrow (by simpa using hnot) hcode

theorem stepped_disableMfa (hmfa : cfg.mfa = some mfa) :
    Stepped cfg now db (.disableMfa caller code)
      ((db.disableMfa now mfa caller code).after db) := by
  unfold disableMfa
  split
  · rename_i hcaller
    exact .same rfl (by simp [check, callerId_of_none hcaller])
  rename_i current hcaller
  have hcaller := callerId_of_currentSessionOf hcaller
  split
  · rename_i hrow
    exact .same rfl (by simp [check, hcaller, enrolled, hrow])
  rename_i hrow
  split
  · rename_i hnone
    exact .same rfl (by simp [check, hcaller, enrolled, hrow, isNone_iff_eq_none.1 hnone])
  rename_i hconfirmed
  rw [Bool.not_eq_true, isNone_eq_false_iff] at hconfirmed
  split
  · rename_i hcode
    refine .wrong current.userId ?_ rfl (by rintro token code ⟨⟩)
    simp [check, hmfa, hcaller, enrolled, hrow, hconfirmed, hcode]
  rename_i hcode
  exact .disables hmfa hcaller hrow hconfirmed hcode

theorem stepped_regenerateRecoveryCodes (hmfa : cfg.mfa = some mfa) :
    Stepped cfg now db (.regenerateRecoveryCodes caller code)
      ((db.regenerateRecoveryCodes now mfa caller code).after db) := by
  unfold regenerateRecoveryCodes
  split
  · rename_i hcaller
    exact .same rfl (by simp [check, callerId_of_none hcaller])
  rename_i current hcaller
  have hcaller := callerId_of_currentSessionOf hcaller
  split
  · rename_i hrow
    exact .same rfl (by simp [check, hcaller, hrow])
  rename_i hrow
  split
  · rename_i hnone
    exact .same rfl (by simp [check, hcaller, hrow, isNone_iff_eq_none.1 hnone])
  rename_i hconfirmed
  rw [Bool.not_eq_true, isNone_eq_false_iff] at hconfirmed
  split
  · rename_i hcode
    refine .wrong current.userId ?_ rfl (by rintro token code ⟨⟩)
    simp [check, hmfa, hcaller, hrow, hconfirmed, hcode]
  rename_i hcode
  exact .regenerates hmfa hcaller hrow hconfirmed hcode

theorem stepped_completeMfaSignIn {pendingToken : Token} (hmfa : cfg.mfa = some mfa) :
    Stepped cfg now db (.completeMfaSignIn pendingToken code)
      ((db.completeMfaSignIn cfg now mfa pendingToken code).after db) := by
  unfold completeMfaSignIn
  split
  · rename_i hrow
    exact .same rfl (by simp [check, hrow])
  rename_i hrow
  split
  · rename_i hexpired
    exact .same rfl (by simp [check, hrow, Int.not_le.2 hexpired])
  rename_i hlive
  split
  · rename_i hrate
    exact .same rfl (by simp [check, hmfa, hrow, hrate])
  rename_i hrate
  split
  · rename_i hcode
    exact .completes hmfa hrow (Int.not_lt.1 hlive) (Bool.eq_false_iff.2 hrate) hcode
  · rename_i hcode
    exact .rejects hmfa hrow (Int.not_lt.1 hlive) (Bool.eq_false_iff.2 hrate) hcode

theorem stepped_of_step (h : db.step cfg (now, e) = some db') : Stepped cfg now db e db' := by
  cases e with
  | signUp => cases h; exact .ends given_signUp rfl
  | signIn => cases h; exact .ends ⟨none, ends_signIn, rfl⟩ rfl
  | signOut =>
    cases h
    unfold signOut
    split
    · exact .of_prep rfl rfl prep_eraseSession
    · exact .same rfl rfl
  | refresh => cases h; exact stepped_refresh
  | signInAnonymously => cases h; exact stepped_signInAnonymously
  | revokeSession =>
    cases h
    unfold revokeSession
    split
    · exact .same rfl rfl
    split
    · exact .of_prep rfl rfl prep_eraseSession
    · exact .same rfl rfl
  | revokeOtherSessions =>
    cases h
    unfold revokeOtherSessions
    split
    · exact .same rfl rfl
    · refine .of_prep rfl rfl (prep_dropSessions fun id row hrow => ?_)
      obtain ⟨row, hrow, heq⟩ := bind_eq_some_iff.1 ((get?_filterMap _ _).symm.trans hrow)
      obtain ⟨-, heq⟩ := ite_none_left_eq_some.1 heq
      rwa [← heq]
  | issueCode =>
    obtain ⟨mail, -, rfl⟩ := map_eq_some_iff.1 h
    unfold issueCode
    dsimp only
    split
    · exact .same rfl rfl
    rename_i hcount
    have hprep := (prep_countInWindow (by rintro u ⟨⟩) hcount).1
    split
    · exact .same rfl rfl
    split <;> exact .of_prep rfl rfl (hprep.trans (.of_same rfl le_rfl fun hs => { hs with }))
  | verifyEmail =>
    obtain ⟨mail, -, rfl⟩ := map_eq_some_iff.1 h
    exact .ends ⟨none, ends_verifyEmail, rfl⟩ rfl
  | resetPassword =>
    obtain ⟨mail, -, rfl⟩ := map_eq_some_iff.1 h
    exact .ends ⟨none, ends_resetPassword, rfl⟩ rfl
  | signInWithMagicLink =>
    obtain ⟨mail, hmail, rfl⟩ := map_eq_some_iff.1 h
    exact .ends (given_signInWithMagicLink hmail) rfl
  | signInWithOtp =>
    obtain ⟨mail, hmail, rfl⟩ := map_eq_some_iff.1 h
    exact .ends (given_signInWithOtp hmail) rfl
  | startOAuth =>
    obtain ⟨oauth, -, rfl⟩ := map_eq_some_iff.1 h
    exact .of_prep rfl rfl (.of_same rfl (Nat.le_add_right _ 2) fun hs =>
      { hs with states := hs.states.set fun u hu => hs.caller hu })
  | consumeOAuthState =>
    obtain ⟨oauth, -, rfl⟩ := map_eq_some_iff.1 h
    unfold consumeOAuthState
    split
    · exact .same rfl rfl
    rename_i hrow
    split
    · exact .of_prep rfl rfl (.of_same rfl le_rfl fun hs =>
        { hs with states := hs.states.erase })
    · refine .of_prep rfl rfl (.of_same rfl le_rfl fun hs => ?_)
      refine { hs with states := hs.states.erase, callbacks := fun provider u hmem => ?_ }
      rcases List.mem_cons.1 hmem with heq | hmem
      · exact hs.states _ _ (get?_of_first _ hrow).1 u (congrArg Prod.snd heq).symm
      · exact hs.callbacks provider u hmem
  | authorizeHandoff identity linkUserId =>
    obtain ⟨-, h⟩ := ite_none_right_eq_some.1 h
    obtain ⟨oauth, -, rfl⟩ := map_eq_some_iff.1 h
    exact .ends given_authorizeHandoff rfl
  | consumeHandoff =>
    obtain ⟨oauth, -, rfl⟩ := map_eq_some_iff.1 h
    exact .ends ⟨none, ends_consumeHandoff, rfl⟩ rfl
  | signInWithIdToken identity =>
    obtain ⟨-, heq⟩ := ite_none_right_eq_some.1 h
    cases heq
    obtain ⟨who, hprep, hwho, hu⟩ := @prep_resolveUserId cfg db identity none
    exact .ends ⟨who, .finish hprep fun hs => hu _ (hprep.sound hs), hwho⟩ rfl
  | storeChallenge =>
    obtain ⟨passkeys, -, rfl⟩ := map_eq_some_iff.1 h
    unfold storeChallenge
    dsimp only
    split
    · exact .same rfl rfl
    · refine .of_prep rfl rfl (.of_same rfl (Nat.le_add_right _ 2) fun hs => ?_)
      exact { hs with
        ceremonies := hs.ceremonies.set fun u hu => hs.caller (filter_eq_some_iff.1 hu).1 }
  | consumeChallenge challenge kind =>
    obtain ⟨passkeys, -, rfl⟩ := map_eq_some_iff.1 h
    unfold consumeChallenge
    split
    · exact .same rfl rfl
    rename_i k row hrow
    have herase : Prep db none { db with webauthnChallenge := db.webauthnChallenge.erase k } :=
      .of_same rfl le_rfl fun hs =>
        { hs with ceremonies := hs.ceremonies.erase }
    split
    · exact .of_prep rfl rfl herase
    cases kind with
    | authenticate => exact .of_prep rfl rfl herase
    | register =>
      refine .of_prep rfl rfl (.of_same rfl le_rfl fun hs => ?_)
      refine { hs with ceremonies := hs.ceremonies.erase, registrations := fun u hmem => ?_ }
      rcases List.mem_append.1 hmem with hmem | hmem
      · exact hs.ceremonies _ _ (get?_of_first _ hrow).1 u (mem_toList.1 hmem)
      · exact hs.registrations u hmem
  | savePasskey userId =>
    obtain ⟨hmem, h⟩ := ite_none_right_eq_some.1 h
    obtain ⟨passkeys, -, rfl⟩ := map_eq_some_iff.1 h
    have hrest : Prep db none { db with registrations := db.registrations.erase userId } :=
      .of_same rfl le_rfl fun hs =>
        { hs with registrations := fun v hv => hs.registrations v (List.mem_of_mem_erase hv) }
    unfold savePasskey
    split
    · exact .of_prep rfl rfl hrest
    split
    · exact .of_prep rfl rfl hrest
    · refine .of_prep rfl rfl (.of_same rfl (Nat.le_succ _)
        fun hs => ?_)
      exact { hs with
        registrations := fun v hv => hs.registrations v (List.mem_of_mem_erase hv)
        passkeys := hs.passkeys.set (hs.registrations userId hmem) }
  | finishPasskeyAuth =>
    obtain ⟨passkeys, -, rfl⟩ := map_eq_some_iff.1 h
    exact .ends ⟨none, ends_finishPasskeyAuth, rfl⟩ rfl
  | revokePasskey =>
    obtain ⟨passkeys, -, rfl⟩ := map_eq_some_iff.1 h
    unfold revokePasskey
    split
    · exact .same rfl rfl
    split
    · exact .of_prep rfl rfl (.of_same rfl le_rfl fun hs =>
        { hs with passkeys := hs.passkeys.erase })
    · exact .same rfl rfl
  | startMfaEnrollment =>
    obtain ⟨mfa, -, rfl⟩ := map_eq_some_iff.1 h
    exact stepped_startMfaEnrollment
  | confirmMfaEnrollment =>
    obtain ⟨mfa, hmfa, rfl⟩ := map_eq_some_iff.1 h
    exact stepped_confirmMfaEnrollment hmfa
  | disableMfa =>
    obtain ⟨mfa, hmfa, rfl⟩ := map_eq_some_iff.1 h
    exact stepped_disableMfa hmfa
  | regenerateRecoveryCodes =>
    obtain ⟨mfa, hmfa, rfl⟩ := map_eq_some_iff.1 h
    exact stepped_regenerateRecoveryCodes hmfa
  | completeMfaSignIn =>
    obtain ⟨mfa, hmfa, rfl⟩ := map_eq_some_iff.1 h
    exact stepped_completeMfaSignIn hmfa

/-! ## What every mutation keeps -/

theorem insertRecoveryCodes_eq (u : UserId) (count : Nat) : ∃ codes fresh,
    (db.insertRecoveryCodes u count).1 = { db with mfaRecoveryCodes := codes, fresh := fresh } ∧
      db.fresh ≤ fresh ∧ ∀ id row, codes.get? id = some row →
        db.mfaRecoveryCodes.get? id = some row ∨ db.fresh ≤ id ∧ id < fresh := by
  induction count with
  | zero => exact ⟨db.mfaRecoveryCodes, db.fresh, rfl, le_rfl, fun _ _ hrow => .inl hrow⟩
  | succ count ih =>
    obtain ⟨codes, fresh, heq, hle, hcodes⟩ := ih
    refine ⟨codes.set (fresh + 1) ⟨u, fresh⟩, fresh + 2, ?_,
      Nat.le_trans hle (Nat.le_add_right _ 2), ?_⟩
    · rw [insertRecoveryCodes]
      simp [heq]
    · intro id row hrow
      rcases get?_set_eq_some.1 hrow with ⟨rfl, -⟩ | ⟨-, hrow⟩
      · exact .inr (by omega)
      · rcases hcodes id row hrow with hold | ⟨hge, hlt⟩
        · exact .inl hold
        · exact .inr (by omega)

/-- A used factor: one step more, or one recovery code less. -/
theorem useFactor_eq (factor : SecondFactor) : ∃ enrollments codes,
    db.useFactor factor = { db with mfaEnrollments := enrollments, mfaRecoveryCodes := codes } ∧
      (∀ q : Nat → EnrollmentRow → Prop, (∀ id row step, q id row →
        q id { row with lastUsedStep := step }) → db.mfaEnrollments.All q → enrollments.All q) ∧
      ∀ q, db.mfaRecoveryCodes.All q → codes.All q := by
  cases factor with
  | totp k step =>
    refine ⟨_, _, rfl, fun q hq hall => ?_, fun q => id⟩
    split
    · rename_i row hrow
      exact hall.set (hq k row (some step) (hall k row hrow))
    · exact hall
  | recovery id => exact ⟨_, _, rfl, fun q _ hall => hall, fun q hall => hall.erase⟩

theorem Sound.mintSession (h : Sound db db.fresh) (hu : u < db.fresh) :
    Sound (db.mintSession cfg now u).1 (db.mintSession cfg now u).1.fresh := by
  have h' := h.mono (Nat.le_add_right db.fresh 3)
  have hrow : u < db.fresh + 3 ∧ db.fresh < db.fresh + 3 ∧ db.fresh + 1 < db.fresh + 3 :=
    ⟨Nat.lt_add_right 3 hu, by omega, by omega⟩
  exact { h' with sessions := h'.sessions.set hrow }

theorem fresh_lt_finishSignIn : db.fresh < (db.finishSignIn cfg now userId).1.fresh := by
  unfold finishSignIn
  split
  · split <;> exact Nat.lt_add_of_pos_right (by decide)
  · exact Nat.lt_add_of_pos_right (by decide)

theorem Sound.finishSignIn (h : Sound db db.fresh) (hu : u < db.fresh) :
    Sound (db.finishSignIn cfg now u).1 (db.finishSignIn cfg now u).1.fresh := by
  unfold AuthDb.finishSignIn
  split
  · split
    · have h' := h.mono (Nat.le_add_right db.fresh 2)
      have hrow : u < db.fresh + 2 ∧ db.fresh < db.fresh + 2 := ⟨Nat.lt_add_right 2 hu, by omega⟩
      exact { h' with challenges := h'.challenges.deleteWhere.set hrow }
    · exact h.mintSession hu
  · exact h.mintSession hu

theorem Sound.useFactor (h : Sound db n) (factor : SecondFactor) :
    Sound (db.useFactor factor) n := by
  obtain ⟨enrollments, codes, heq, henrollments, hcodes⟩ := @useFactor_eq db factor
  rw [heq]
  exact { h with
    enrollments := henrollments _ (fun _ _ _ hrow => hrow) h.enrollments
    recoveryCodes := hcodes _ h.recoveryCodes }

theorem Sound.insertRecoveryCodes (h : Sound db db.fresh) (u : UserId) (count : Nat) :
    Sound (db.insertRecoveryCodes u count).1 (db.insertRecoveryCodes u count).1.fresh := by
  obtain ⟨codes, fresh, heq, hle, hcodes⟩ := @insertRecoveryCodes_eq db u count
  rw [heq]
  have h' := h.mono hle
  refine { h' with recoveryCodes := fun id row hrow => ?_ }
  rcases hcodes id row hrow with hold | ⟨-, hlt⟩
  · exact h'.recoveryCodes id row hold
  · exact hlt

theorem fresh_useFactor (factor : SecondFactor) : (db.useFactor factor).fresh = db.fresh := by
  cases factor <;> rfl

theorem sessions_useFactor (factor : SecondFactor) :
    (db.useFactor factor).sessions = db.sessions := by
  cases factor <;> rfl

theorem Stepped.fresh_le (h : Stepped cfg now db e db') : db.fresh ≤ db'.fresh := by
  cases h with
  | ends h =>
    obtain ⟨who, h, -⟩ := h
    cases h with
    | prep h => exact h.fresh
    | finish h => exact Nat.le_trans h.fresh (Nat.le_of_lt fresh_lt_finishSignIn)
  | wrong => exact le_rfl
  | anonymous h => exact Nat.le_trans h.fresh (Nat.le_add_right _ 3)
  | rotates | starts => exact Nat.le_add_right _ _
  | confirms | regenerates =>
    obtain ⟨codes, fresh, heq, hle, -⟩ := insertRecoveryCodes_eq _ _
    rw [heq]
    exact hle
  | disables => exact Nat.le_of_eq (fresh_useFactor _).symm
  | completes => exact Nat.le_trans (Nat.le_of_eq (fresh_useFactor _).symm) (Nat.le_add_right _ 3)
  | rejects => exact le_rfl

theorem Sound.step {e : Int × AuthCall} (hs : Sound db db.fresh) (h : db.step cfg e = some db') :
    Sound db' db'.fresh := by
  obtain ⟨now, e⟩ := e
  have hstepped := stepped_of_step h
  clear h
  cases hstepped with
  | ends h =>
    obtain ⟨who, h, -⟩ := h
    cases h with
    | prep h => exact h.sound hs
    | finish h hu => exact (h.sound hs).finishSignIn (hu hs)
  | wrong => exact hs
  | anonymous h _ hu => exact (h.sound hs).mintSession hu
  | rotates hrow =>
    have hs' := hs.mono (Nat.le_add_right db.fresh 2)
    have hu := (hs'.sessions _ _ (get?_of_first _ hrow).1).1
    have htokens : db.fresh < db.fresh + 2 ∧ db.fresh + 1 < db.fresh + 2 := by omega
    exact { hs' with sessions := hs'.sessions.set ⟨hu, htokens⟩ }
  | starts hcaller _ hrows =>
    have hs' := hs.mono (Nat.le_add_right db.fresh 2)
    have hold : OrderedMap.All _ _ := fun id row hrow => hs'.enrollments id row (hrows hrow).1
    exact { hs' with enrollments := hold.set ⟨Nat.lt_succ_self _, hs'.caller hcaller⟩ }
  | confirms _ hcaller hrow =>
    have hids := hs.enrollments _ _ (get?_of_first _ hrow).1
    refine Sound.insertRecoveryCodes ?_ _ _
    exact { hs with enrollments := hs.enrollments.set hids }
  | @disables _ _ _ _ _ _ factor =>
    have hused := hs.useFactor factor
    rw [← fresh_useFactor factor] at hused
    exact { hused with
      enrollments := hused.enrollments.erase, recoveryCodes := hused.recoveryCodes.deleteWhere }
  | @regenerates _ _ _ _ k step =>
    refine Sound.insertRecoveryCodes ?_ _ _
    have hused := hs.useFactor (.totp k step)
    exact { hused with recoveryCodes := hused.recoveryCodes.deleteWhere }
  | @completes _ _ _ _ _ factor _ hrow =>
    have hu := hs.challenges _ _ (get?_of_first _ hrow).1
    have hused := hs.useFactor factor
    rw [← fresh_useFactor factor] at hused hu
    refine Sound.mintSession ?_ hu.1
    exact { hused with challenges := hused.challenges.erase }
  | @rejects mfa _ _ _ _ _ hrow =>
    have hu := hs.challenges _ _ (get?_of_first _ hrow).1
    refine { hs with challenges := ?_ }
    show OrderedMap.All (if mfa.mfaAttempts ≤ _ then _ else _) _
    split
    · exact hs.challenges.erase
    · exact hs.challenges.set hu

theorem Sound.of_run {es : List (Int × AuthCall)}
    (hrun : Runs.run (AuthDb.step cfg) .empty es = some db) : Sound db db.fresh :=
  Runs.run_invariant (I := fun db => Sound db db.fresh) (fun _ _ _ hs h => hs.step h)
    Sound.empty hrun

end Helipod.AuthDb
