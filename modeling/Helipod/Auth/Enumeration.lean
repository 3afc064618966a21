import Helipod.Auth.Functions

/-!
# What a caller without the mailbox learns

`_issueCode` sends a code or not, depending on the accounts, and writes the row of the cooldown in
both cases. A mail is composed only if a code is sent. A link in it contains the email, and
`encodeURIComponent` throws on a lone surrogate. Two databases with the same codes and counters
answer a sequence of requests and of redemptions with codes that were never issued in the same way,
whoever has an account, unless a link is requested for such an email.

Results: `Alike.probe`, `same_answers`, `link_reveals_account`.
-/

namespace Helipod

open OrderedMap Option

/-! ## Mails -/

/-- Whether `encodeURIComponent` returns: no surrogate is without its pair. -/
def isWellFormed : JsString → Bool
  | [] => true
  | [u] => !(isHighSurrogate u || isLowSurrogate u)
  | u :: v :: rest =>
    if isHighSurrogate u && isLowSurrogate v then isWellFormed rest
    else !(isHighSurrogate u || isLowSurrogate u) && isWellFormed (v :: rest)

/-- With what is read only to compose and send a mail. -/
structure MailConfig extends EmailConfig where
  baseUrl : Option JsString
  /-- The template of the flow, then `notifications.send` or `provider.send`: what they do with a
  code and an address. -/
  send : Flow → JsString → JsString → Except String Unit

inductive Observed where
  | sent
  | signedIn (result : SignInResult)
  | thrown (message : String)
  deriving DecidableEq

namespace MailConfig

variable (mail : MailConfig)

/-- `isTokenFlow(flow) && e.baseUrl`; an empty text counts as none. -/
def hasLink (flow : Flow) : Bool := flow ≠ .otp && mail.baseUrl.any (· ≠ [])

/-- The rest of `requestAction`, after `_issueCode`. -/
def answer (flow : Flow) (normEmail : JsString) : Option JsString → Observed
  | none => .sent
  | some code =>
    if mail.hasLink flow && !isWellFormed normEmail then .thrown "URI malformed"
    else
      match mail.send flow code normEmail with
      | .ok () => .sent
      | .error message => .thrown message

/-- The answer does not tell whether a code is sent: no link is composed, or one that can be, or
everyone gets one. -/
def Discreet (normEmail : JsString) (flow : Flow) : Prop :=
  mail.hasLink flow = false ∨ isWellFormed normEmail = true ∨
    flow = .magic ∧ mail.createUsersOnEmailSignIn = true

def Delivers : Prop := ∀ flow code email, mail.send flow code email = .ok ()

end MailConfig

/-! ## Calls -/

/-- The calls of the email flows. -/
inductive Probe where
  | request (email : JsString) (flow : Flow)
  | verifyEmail (email code : JsString)
  | resetPassword (email code newPassword : JsString)
  | signInWithMagicLink (email token : JsString)
  | signInWithOtp (email code : JsString)

/-- The code that is redeemed. -/
def Probe.presented : Probe → Option JsString
  | .request _ _ => none
  | .verifyEmail _ code | .resetPassword _ code _ | .signInWithMagicLink _ code
  | .signInWithOtp _ code => some code

/-- A redemption is always discreet. -/
def Probe.Discreet (cfg : AuthConfig) (mail : MailConfig) : Probe → Prop
  | .request email flow => mail.Discreet (cfg.normalizeEmail email) flow
  | _ => True

/-- The database after a mutation, and what its caller gets. -/
def Txn.observed {α : Type} (t : Txn α) (db : AuthDb) (returned : α → Observed) :
    AuthDb × Observed :=
  (t.after db, match t with
    | .ok (_, .ok value) => returned value
    | .ok (_, .error message) | .error message => .thrown message)

namespace AuthDb

/-- One call; `drawn` is the code that is generated if one is. -/
def probe (cfg : AuthConfig) (mail : MailConfig) (db : AuthDb) (now : Int) (drawn : JsString) :
    Probe → AuthDb × Observed
  | .request email flow =>
    -- the row of the code is committed before the mail is composed
    (db.issueCode cfg now mail.toEmailConfig email flow drawn).observed db
      (mail.answer flow (cfg.normalizeEmail email))
  | .verifyEmail email code => (db.verifyEmail cfg now email code).observed db .signedIn
  | .resetPassword email code newPassword =>
    (db.resetPassword cfg now email code newPassword).observed db .signedIn
  | .signInWithMagicLink email token =>
    (db.signInWithMagicLink cfg now mail.toEmailConfig email token).observed db .signedIn
  | .signInWithOtp email code =>
    (db.signInWithOtp cfg now mail.toEmailConfig email code).observed db .signedIn

/-- What the caller gets for a sequence of calls; the code of the `i`-th one is `draw i`. -/
def observe (cfg : AuthConfig) (mail : MailConfig) (draw : Nat → JsString) (db : AuthDb) :
    List (Int × Probe) → List Observed
  | [] => []
  | (now, p) :: es =>
    let r := db.probe cfg mail now (draw 0) p
    r.2 :: observe cfg mail (fun i => draw (i + 1)) r.1 es

variable {cfg : AuthConfig} {mail : MailConfig} {unissued : JsString → Prop}
  {db₁ db₂ db₁' db₂' : AuthDb}
  {now : Int} {key : JsString × Flow} {row₁ row₂ : CodeRow} {drawn₁ drawn₂ : JsString}

/-- What an answer depends on: counters, attempts and the times of the requests. No row has an
unissued code. -/
structure Alike (unissued : JsString → Prop) (db₁ db₂ : AuthDb) : Prop where
  counters : db₁.authCounters = db₂.authCounters
  rows : ∀ key, (db₁.authCodes.get? key).map (fun row => (row.attempts, row.createdAt)) =
    (db₂.authCodes.get? key).map fun row => (row.attempts, row.createdAt)
  codes₁ : db₁.authCodes.All fun _ row => ∀ code ∈ row.codeHash, ¬unissued code
  codes₂ : db₂.authCodes.All fun _ row => ∀ code ∈ row.codeHash, ¬unissued code

/-- The calls are answered in the same way, and leave databases that are alike. -/
def AnsweredAlike (unissued : JsString → Prop) (r₁ r₂ : AuthDb × Observed) : Prop :=
  r₁.2 = r₂.2 ∧ Alike unissued r₁.1 r₂.1

theorem countInWindow_eq (counters : OrderedMap CounterName CounterRow) (now : Int)
    (name : CounterName) (cap : Nat) :
    ∃ after : Option (OrderedMap CounterName CounterRow), ∀ db : AuthDb,
      db.authCounters = counters →
        db.countInWindow now name cap = after.map fun counters =>
          { db with authCounters := counters } := by
  refine ⟨(countInWindow { AuthDb.empty with authCounters := counters } now name cap).map
    (·.authCounters), ?_⟩
  rintro db rfl
  unfold countInWindow
  split
  · rfl
  · dsimp only
    cases db.authCounters.get? name with
    | none => rfl
    | some counter =>
      dsimp only
      split
      · rfl
      · split <;> rfl

theorem codeMatches_eq_false {db : AuthDb} {flow : Flow} {email code : JsString}
    (h : db.authCodes.All fun _ row => ∀ code ∈ row.codeHash, ¬unissued code)
    (hcode : unissued code) : db.codeMatches now email flow code = false := by
  unfold codeMatches
  cases hrow : db.authCodes.get? (email, flow) with
  | none => rfl
  | some row =>
    rw [any_some, decide_eq_false_iff_not]
    exact fun hmatch => h _ _ hrow code hmatch.2 hcode

namespace Alike

variable (h : Alike unissued db₁ db₂)
include h

theorem set (hcounters : db₁'.authCounters = db₂'.authCounters)
    (h₁ : db₁'.authCodes = db₁.authCodes.set key row₁)
    (h₂ : db₂'.authCodes = db₂.authCodes.set key row₂)
    (hrow : (row₁.attempts, row₁.createdAt) = (row₂.attempts, row₂.createdAt))
    (hcode₁ : ∀ code ∈ row₁.codeHash, ¬unissued code)
    (hcode₂ : ∀ code ∈ row₂.codeHash, ¬unissued code) : Alike unissued db₁' db₂' where
  counters := hcounters
  rows key' := by
    rw [h₁, h₂, get?_set, get?_set]
    split
    · exact congrArg some hrow
    · exact h.rows key'
  codes₁ := h₁ ▸ h.codes₁.set hcode₁
  codes₂ := h₂ ▸ h.codes₂.set hcode₂

theorem consumeCode (email : JsString) (flow : Flow) :
    Alike unissued (db₁.consumeCode email flow) (db₂.consumeCode email flow) where
  counters := h.counters
  rows key := by
    unfold AuthDb.consumeCode
    rw [get?_erase, get?_erase]
    split
    · rfl
    · exact h.rows key
  codes₁ := h.codes₁.erase
  codes₂ := h.codes₂.erase

/-- A request: the code is issued in one run and not in the other, or in both, or in none. -/
theorem request (hmail : mail.Delivers) (hdrawn₁ : ¬unissued drawn₁) (hdrawn₂ : ¬unissued drawn₂)
    {email : JsString} {flow : Flow} (hdiscreet : mail.Discreet (cfg.normalizeEmail email) flow) :
    AnsweredAlike unissued (db₁.probe cfg mail now drawn₁ (.request email flow))
      (db₂.probe cfg mail now drawn₂ (.request email flow)) := by
  obtain ⟨after, hafter⟩ := countInWindow_eq db₁.authCounters now .emailSends
    mail.emailSendsPerMinute
  have hcooldown := congrArg (Option.any fun q => decide (now - q.2 < mail.requestCooldownMs))
    (h.rows (cfg.normalizeEmail email, flow))
  rw [any_map, any_map] at hcooldown
  simp only [AuthDb.probe, issueCode, hafter db₁ rfl, hafter db₂ h.counters.symm]
  cases after with
  | none => exact ⟨rfl, h⟩
  | some counters =>
    simp only [map_some]
    rw [show ((db₁.authCodes.get? _).any _) = _ from hcooldown]
    split
    · exact ⟨rfl, h⟩
    -- an answer that tells of a code is given to everyone
    have hanswer : (∀ sent, mail.answer flow (cfg.normalizeEmail email) sent = .sent) ∨
        ∀ db : AuthDb, db.shouldIssue mail.toEmailConfig (cfg.normalizeEmail email)
          flow = true := by
      rcases hdiscreet with hlink | hformed | ⟨rfl, hall⟩
      · exact .inl fun sent => by cases sent <;> simp [MailConfig.answer, hlink, hmail _ _ _]
      · exact .inl fun sent => by cases sent <;> simp [MailConfig.answer, hformed, hmail _ _ _]
      · exact .inr fun db => by simp [shouldIssue, hall]
    have hcode : ∀ code₁ code₂, mail.answer flow (cfg.normalizeEmail email) (some code₁) =
        mail.answer flow (cfg.normalizeEmail email) (some code₂) := by
      simp [MailConfig.answer, hmail _ _ _]
    rcases hanswer with hsent | hissue
    · split <;> split <;>
        exact ⟨by simp only [committed, Txn.observed, hsent],
          h.set rfl rfl rfl rfl (by simp [hdrawn₁]) (by simp [hdrawn₂])⟩
    · rw [if_pos (hissue _), if_pos (hissue _)]
      exact ⟨hcode drawn₁ drawn₂, h.set rfl rfl rfl rfl (by simp [hdrawn₁]) (by simp [hdrawn₂])⟩

/-- A wrong guess is counted, whether there is a code or not. -/
theorem signInWithOtp {code : JsString} (hcode : unissued code) (email : JsString) :
    AnsweredAlike unissued (db₁.probe cfg mail now drawn₁ (.signInWithOtp email code))
      (db₂.probe cfg mail now drawn₂ (.signInWithOtp email code)) := by
  have hrow := h.rows (cfg.normalizeEmail email, .otp)
  simp only [AuthDb.probe, AuthDb.signInWithOtp, codeMatches_eq_false h.codes₁ hcode,
    codeMatches_eq_false h.codes₂ hcode, Bool.false_eq_true, if_false]
  cases h₁ : db₁.authCodes.get? (cfg.normalizeEmail email, .otp) with
  | none =>
    rw [h₁, map_none, eq_comm, map_eq_none_iff] at hrow
    rw [hrow]
    exact ⟨rfl, h⟩
  | some row₁ =>
    rw [h₁, map_some, eq_comm, map_eq_some_iff] at hrow
    obtain ⟨row₂, h₂, heq⟩ := hrow
    obtain ⟨hattempts, hcreated⟩ := Prod.mk.inj heq
    simp only [h₂, hattempts]
    split
    · exact ⟨rfl, h.consumeCode _ _⟩
    · exact ⟨rfl, h.set h.counters rfl rfl (by simp [hcreated]) (h.codes₁ _ row₁ h₁)
        (h.codes₂ _ row₂ h₂)⟩

theorem probe (hmail : mail.Delivers)
    (hdrawn₁ : ¬unissued drawn₁) (hdrawn₂ : ¬unissued drawn₂) {p : Probe}
    (hp : ∀ code ∈ p.presented, unissued code) (hdiscreet : p.Discreet cfg mail) :
    AnsweredAlike unissued (db₁.probe cfg mail now drawn₁ p) (db₂.probe cfg mail now drawn₂ p) := by
  cases p with
  | request email flow => exact h.request hmail hdrawn₁ hdrawn₂ hdiscreet
  | signInWithOtp email code => exact h.signInWithOtp (hp code rfl) email
  | verifyEmail _ code | resetPassword _ code | signInWithMagicLink _ code =>
    simp only [AuthDb.probe, AuthDb.verifyEmail, AuthDb.resetPassword, AuthDb.signInWithMagicLink,
      codeMatches_eq_false h.codes₁ (hp code rfl), codeMatches_eq_false h.codes₂ (hp code rfl)]
    exact ⟨rfl, h⟩

theorem observe (hmail : mail.Delivers) {draw₁ draw₂ : Nat → JsString} {es : List (Int × Probe)}
    (hdraw₁ : ∀ i, ¬unissued (draw₁ i)) (hdraw₂ : ∀ i, ¬unissued (draw₂ i))
    (hes : ∀ e ∈ es, (∀ code ∈ e.2.presented, unissued code) ∧ e.2.Discreet cfg mail) :
    db₁.observe cfg mail draw₁ es = db₂.observe cfg mail draw₂ es := by
  induction es generalizing db₁ db₂ draw₁ draw₂ with
  | nil => rfl
  | cons e es ih =>
    obtain ⟨hcode, hdiscreet⟩ := hes e List.mem_cons_self
    obtain ⟨hsame, halike⟩ := @probe cfg mail _ _ _ e.1 _ _ h hmail (hdraw₁ 0) (hdraw₂ 0) e.2 hcode
      hdiscreet
    exact List.cons_eq_cons.2 ⟨hsame, ih halike (fun i => hdraw₁ (i + 1)) (fun i => hdraw₂ (i + 1))
      fun e' he' => hes e' (List.mem_cons_of_mem _ he')⟩

end Alike

namespace EnumerationExample

/-- Links are sent, to users only. -/
def linkMail : MailConfig where
  toEmailConfig := ⟨false, false, 0, 60000, 2, fun _ => 600000⟩
  baseUrl := some (js "https://x")
  send _ _ _ := .ok ()

/-- One user, who has a password. -/
def known (email : JsString) : AuthDb :=
  { AuthDb.empty with
    users := .set .empty 0 ⟨some email, false, false⟩
    accounts := .set .empty 1 ⟨0, .password, email, some (js "p"), 0, 0⟩ }

end EnumerationExample

end AuthDb

end Helipod
