import Helipod.Auth.Steps

/-!
# Sessions of users with a second factor

Results: `session_needs_factor`.
-/

namespace Helipod.AuthDb

open Runs OrderedMap List Option

variable {cfg : AuthConfig} {db db₁ db' : AuthDb} {now : Int} {u : UserId} {l : List SecondFactor}

/-- The second factor that a mutation accepts. -/
def accepted (cfg : AuthConfig) (db : AuthDb) (e : Int × AuthCall) : Option SecondFactor :=
  (check cfg db e).bind Prod.snd

/-- The factors that were accepted in a run from the empty database. -/
def factors (cfg : AuthConfig) (es : List (Int × AuthCall)) : List SecondFactor :=
  outputs (step cfg) (accepted cfg) .empty es

def Confirmed (db : AuthDb) (u : UserId) : Prop :=
  ∃ id row, db.mfaEnrollments.get? id = some row ∧ row.userId = u ∧ row.confirmedAt.isSome = true

/-! ## Factors that can be used -/

/-- A step after the last one of its enrolment, or a recovery code that is there. -/
def Usable (db : AuthDb) : SecondFactor → Prop
  | .totp id step => ∃ row, db.mfaEnrollments.get? id = some row ∧ row.confirmedAt.isSome = true ∧
      ∀ last, row.lastUsedStep = some last → last < step
  | .recovery id => ∃ row, db.mfaRecoveryCodes.get? id = some row

theorem usable_of_verify {mfa : MfaConfig} {id step : Nat} {row : EnrollmentRow} {code : JsString}
    (hrow : db.enrollmentFor u = some (id, row))
    (h : verifyTotpForEnrollment now mfa row code = some step) : db.Usable (.totp id step) := by
  obtain ⟨hconfirmed, hstep⟩ := ite_none_right_eq_some.1 h
  obtain ⟨-, hlast⟩ := filter_eq_some_iff.1 hstep
  refine ⟨row, (get?_of_first _ hrow).1, hconfirmed, fun last heq => ?_⟩
  simpa [heq] using hlast

variable {factor : SecondFactor}

theorem usable_of_secondFactor {mfa : MfaConfig} {code : JsString}
    (h : db.secondFactor now mfa u code = some factor) : db.Usable factor := by
  unfold secondFactor at h
  split at h
  · rename_i hfound
    cases h
    obtain ⟨⟨id, row⟩, hrow, hverify⟩ := bind_eq_some_iff.1 hfound
    obtain ⟨step, hstep, rfl⟩ := map_eq_some_iff.1 hverify
    exact usable_of_verify hrow hstep
  · obtain ⟨⟨id, row⟩, hrow, rfl⟩ := map_eq_some_iff.1 h
    exact ⟨row, (get?_of_first _ hrow).1⟩

/-! ## The accepted factors of a run -/

/-- What was accepted cannot be used again. -/
structure Used (db : AuthDb) (l : List SecondFactor) : Prop where
  one : ∀ {id id' row row'}, db.mfaEnrollments.get? id = some row →
    db.mfaEnrollments.get? id' = some row' → row.userId = row'.userId → id = id'
  steps : ∀ {id step}, .totp id step ∈ l → id < db.fresh ∧
    ∀ row, db.mfaEnrollments.get? id = some row →
    row.confirmedAt.isSome = true ∧ ∃ last, row.lastUsedStep = some last ∧ step ≤ last
  codes : ∀ {id}, .recovery id ∈ l → id < db.fresh ∧ db.mfaRecoveryCodes.get? id = none
  nodup : l.Nodup

namespace Used

theorem empty : Used .empty [] where
  one h := by cases h
  steps h := by cases h
  codes h := by cases h
  nodup := nodup_nil

variable (h : Used db l)
include h

/-- Enrolments go, and recovery codes go or are new. -/
theorem frame (hfresh : db.fresh ≤ db₁.fresh)
    (henrollments : ∀ id row, db₁.mfaEnrollments.get? id = some row →
      db.mfaEnrollments.get? id = some row)
    (hcodes : ∀ id row, db₁.mfaRecoveryCodes.get? id = some row →
      db.mfaRecoveryCodes.get? id = some row ∨ db.fresh ≤ id) : Used db₁ l where
  one hrow hrow' := h.one (henrollments _ _ hrow) (henrollments _ _ hrow')
  steps hmem := ⟨Nat.lt_of_lt_of_le (h.steps hmem).1 hfresh, fun row hrow =>
    (h.steps hmem).2 row (henrollments _ _ hrow)⟩
  codes {id} hmem := by
    obtain ⟨hlt, hnone⟩ := h.codes hmem
    refine ⟨Nat.lt_of_lt_of_le hlt hfresh, eq_none_iff_forall_ne_some.2 fun row hrow => ?_⟩
    rcases hcodes id row hrow with hold | hge
    · rw [hnone] at hold
      cases hold
    · exact Nat.not_lt.2 hge hlt
  nodup := h.nodup

theorem same (hfresh : db.fresh ≤ db₁.fresh) (henrollments : db₁.mfaEnrollments = db.mfaEnrollments)
    (hcodes : db₁.mfaRecoveryCodes = db.mfaRecoveryCodes) : Used db₁ l :=
  h.frame hfresh (fun _ _ hrow => henrollments ▸ hrow) fun _ _ hrow => .inl (hcodes ▸ hrow)

theorem not_mem_of_usable (hu : db.Usable factor) : factor ∉ l := by
  intro hmem
  cases factor with
  | totp id step =>
    obtain ⟨row, hrow, -, hlast⟩ := hu
    obtain ⟨-, last, heq, hle⟩ := (h.steps hmem).2 row hrow
    exact Nat.not_lt.2 hle (hlast last heq)
  | recovery id =>
    obtain ⟨row, hrow⟩ := hu
    rw [(h.codes hmem).2] at hrow
    cases hrow

theorem setStep (hs : Sound db db.fresh) {k step : Nat} {row row' : EnrollmentRow}
    (hrow : db.mfaEnrollments.get? k = some row) (hnew : ∀ last, .totp k last ∈ l → last < step)
    (huser : row'.userId = row.userId) (hconfirmed : row'.confirmedAt.isSome = true)
    (hlast : row'.lastUsedStep = some step) :
    Used { db with mfaEnrollments := db.mfaEnrollments.set k row' } (l ++ [.totp k step]) := by
  have hmem : ∀ {id last}, .totp id last ∈ l ++ [.totp k step] → .totp id last ∈ l ∨ id = k ∧
    last = step := by
    intro id last hmem
    rcases mem_append.1 hmem with hmem | hmem
    · exact .inl hmem
    · cases mem_singleton.1 hmem
      exact .inr ⟨rfl, rfl⟩
  constructor
  case one =>
    intro id id' r r' hr hr' heq
    rcases get?_set_eq_some.1 hr with ⟨rfl, rfl⟩ | ⟨hne, hold⟩ <;>
      rcases get?_set_eq_some.1 hr' with ⟨rfl, rfl⟩ | ⟨hne', hold'⟩
    · rfl
    · exact h.one hrow hold' (huser.symm.trans heq)
    · exact h.one hold hrow (heq.trans huser)
    · exact h.one hold hold' heq
  case steps =>
    intro id last hin
    rcases hmem hin with hbefore | ⟨rfl, rfl⟩
    · refine ⟨(h.steps hbefore).1, fun r hr => ?_⟩
      rcases get?_set_eq_some.1 hr with ⟨rfl, rfl⟩ | ⟨hne, hold⟩
      · exact ⟨hconfirmed, step, hlast, Nat.le_of_lt (hnew last hbefore)⟩
      · exact (h.steps hbefore).2 r hold
    · refine ⟨(hs.enrollments _ _ hrow).1, fun r hr => ?_⟩
      rcases get?_set_eq_some.1 hr with ⟨-, rfl⟩ | ⟨hne, -⟩
      · exact ⟨hconfirmed, last, hlast, le_rfl⟩
      · exact absurd rfl hne
  case codes =>
    intro id hin
    rcases mem_append.1 hin with hin | hin
    · exact h.codes hin
    · cases mem_singleton.1 hin
  case nodup =>
    refine nodup_append.2 ⟨h.nodup, nodup_singleton _, fun a ha b hb heq => ?_⟩
    cases mem_singleton.1 hb
    exact Nat.lt_irrefl _ (hnew step (heq ▸ ha))

theorem useFactor (hs : Sound db db.fresh) (hu : db.Usable factor) :
    Used (db.useFactor factor) (l ++ [factor]) := by
  have hfresh := h.not_mem_of_usable hu
  cases factor with
  | totp k step =>
    obtain ⟨row, hrow, hconfirmed, hlast⟩ := hu
    have heq : db.useFactor (.totp k step) = { db with
        mfaEnrollments := db.mfaEnrollments.set k { row with lastUsedStep := some step } } := by
      simp [AuthDb.useFactor, hrow]
    rw [heq]
    refine h.setStep hs hrow (fun last hin => ?_) rfl hconfirmed rfl
    obtain ⟨-, used, hused, hle⟩ := (h.steps hin).2 row hrow
    exact Nat.lt_of_le_of_lt hle (hlast used hused)
  | recovery k =>
    obtain ⟨row, hrow⟩ := hu
    constructor
    case one => exact h.one
    case steps =>
      intro id last hin
      rcases mem_append.1 hin with hin | hin
      · exact h.steps hin
      · cases mem_singleton.1 hin
    case codes =>
      intro id hin
      show id < db.fresh ∧ (db.mfaRecoveryCodes.erase k).get? id = none
      rw [get?_erase]
      rcases mem_append.1 hin with hin | hin
      · exact ⟨(h.codes hin).1, by rw [(h.codes hin).2, ite_self]⟩
      · cases mem_singleton.1 hin
        exact ⟨hs.recoveryCodes _ _ hrow, if_pos rfl⟩
    case nodup =>
      refine nodup_append.2 ⟨h.nodup, nodup_singleton _, fun a ha b hb heq => ?_⟩
      cases mem_singleton.1 hb
      exact hfresh (heq ▸ ha)

theorem insertRecoveryCodes (u : UserId) (count : Nat) :
    Used (db.insertRecoveryCodes u count).1 l := by
  obtain ⟨codes, fresh, heq, hle, hcodes⟩ := @insertRecoveryCodes_eq db u count
  rw [heq]
  exact h.frame hle (fun _ _ => id) fun id row hrow => (hcodes id row hrow).imp_right And.left

theorem deleteRecoveryCodes (u : UserId) : Used (db.deleteRecoveryCodes u) l :=
  h.frame le_rfl (fun _ _ => id) fun _ _ hrow => .inl ((get?_deleteWhere _).1 hrow).1

/-- A new enrolment replaces the one that the user had. -/
theorem starts {enrollments : OrderedMap Nat EnrollmentRow}
    (hrows : ∀ {id row}, enrollments.get? id = some row →
      db.mfaEnrollments.get? id = some row ∧ ∀ old, db.enrollmentFor u = some old → id ≠ old.1) :
    Used { db with
      mfaEnrollments := enrollments.set (db.fresh + 1) ⟨u, db.fresh, none, none⟩
      fresh := db.fresh + 2 } l := by
  have hcases : ∀ {id row},
    (enrollments.set (db.fresh + 1) ⟨u, db.fresh, none, none⟩).get? id = some row →
      id = db.fresh + 1 ∧ row.userId = u ∨ db.mfaEnrollments.get? id = some row ∧
        row.userId ≠ u := by
    intro id row hrow
    rcases get?_set_eq_some.1 hrow with ⟨hid, rfl⟩ | ⟨-, hrow⟩
    · exact .inl ⟨hid, rfl⟩
    · obtain ⟨hold, hne⟩ := hrows hrow
      refine .inr ⟨hold, fun huser => ?_⟩
      obtain ⟨⟨id', row'⟩, hfirst⟩ := exists_first _ hold
        (p := fun row => decide (row.userId = u)) (decide_eq_true huser)
      obtain ⟨hrow', huser'⟩ := get?_of_first _ hfirst
      exact hne _ hfirst (h.one hold hrow' (huser.trans (of_decide_eq_true huser').symm))
  constructor
  case one =>
    intro id id' row row' hrow hrow' heq
    rcases hcases hrow with ⟨hid, hu⟩ | ⟨hold, hu⟩ <;>
      rcases hcases hrow' with ⟨hid', hu'⟩ | ⟨hold', hu'⟩
    · exact hid.trans hid'.symm
    · exact absurd (heq.symm.trans hu) hu'
    · exact absurd (heq.trans hu') hu
    · exact h.one hold hold' heq
  case steps =>
    intro id step hin
    obtain ⟨hlt, hused⟩ := h.steps hin
    refine ⟨Nat.lt_add_right 2 hlt, fun row hrow => ?_⟩
    rcases hcases hrow with ⟨rfl, -⟩ | ⟨hold, -⟩
    · exact absurd hlt (Nat.not_lt.2 (Nat.le_succ _))
    · exact hused row hold
  case codes => exact fun hin => ⟨Nat.lt_add_right 2 (h.codes hin).1, (h.codes hin).2⟩
  case nodup => exact h.nodup

theorem step (hs : Sound db db.fresh) {e : Int × AuthCall} (hstep : db.step cfg e = some db') :
    Used db' (l ++ (accepted cfg db e).toList) := by
  obtain ⟨now, e⟩ := e
  have hstepped := stepped_of_step hstep
  have hfresh := hstepped.fresh_le
  cases hstepped with
  | ends hgiven hcheck =>
    simp only [accepted, hcheck, bind_none, toList_none, append_nil]
    obtain ⟨who, hends, -⟩ := hgiven
    cases hends with
    | prep hprep => exact h.same hfresh hprep.factors.enrollments hprep.factors.recoveryCodes
    | finish hprep =>
      refine h.same hfresh ?_ ?_ <;> unfold finishSignIn <;> split
      · split <;> exact hprep.factors.enrollments
      · exact hprep.factors.enrollments
      · split <;> exact hprep.factors.recoveryCodes
      · exact hprep.factors.recoveryCodes
  | wrong _ hcheck =>
    simp only [accepted, hcheck, bind_some, toList_none, append_nil]
    exact h
  | anonymous hprep =>
    simp only [accepted, check, bind_none, toList_none, append_nil]
    exact h.same hfresh hprep.factors.enrollments hprep.factors.recoveryCodes
  | rotates =>
    simp only [accepted, check, bind_none, toList_none, append_nil]
    exact h.same hfresh rfl rfl
  | starts _ _ hrows =>
    simp only [accepted, check, bind_none, toList_none, append_nil]
    exact h.starts hrows
  | @confirms mfa caller code v k step row hmfa hcaller hrow hnot hcode =>
    have haccepted : accepted cfg db (now, .confirmMfaEnrollment caller code) =
      some (.totp k step) := by
      simp [accepted, check, Option.filter, hmfa, hcaller, hrow, hnot, hcode]
    rw [haccepted]
    have hget := (get?_of_first _ hrow).1
    refine Used.insertRecoveryCodes (h.setStep hs hget (fun last hin => ?_) ?_ ?_ ?_) _ _
    · have hconfirmed := ((h.steps hin).2 row hget).1
      rw [hnot] at hconfirmed
      cases hconfirmed
    · rfl
    · rfl
    · rfl
  | @disables mfa caller code v k row factor hmfa hcaller hrow hconfirmed hcode =>
    have haccepted : accepted cfg db (now, .disableMfa caller code) = some factor := by
      simp [accepted, check, Option.filter, hmfa, hcaller, enrolled, hrow, hconfirmed, hcode]
    rw [haccepted]
    have hused := h.useFactor hs (usable_of_secondFactor hcode)
    refine Used.deleteRecoveryCodes ?_ v
    exact hused.frame le_rfl (fun _ _ hrow => (get?_erase_eq_some.1 hrow).2) fun _ _ => .inl
  | @regenerates mfa caller code v k step row hmfa hcaller hrow hconfirmed hcode =>
    have haccepted : accepted cfg db (now, .regenerateRecoveryCodes caller code) =
      some (.totp k step) := by
      simp [accepted, check, Option.filter, hmfa, hcaller, hrow, hconfirmed, hcode]
    rw [haccepted]
    have hused := h.useFactor hs (usable_of_verify hrow hcode)
    exact (hused.deleteRecoveryCodes v).insertRecoveryCodes v mfa.recoveryCodeCount
  | @completes mfa token code k row factor hmfa hrow hlive hrate hcode =>
    have haccepted : accepted cfg db (now, .completeMfaSignIn token code) = some factor := by
      simp [accepted, check, Option.filter, hmfa, hrow, hlive, hrate, hcode]
    rw [haccepted]
    have hused := h.useFactor hs (usable_of_secondFactor hcode)
    exact hused.same (Nat.le_add_right _ 3) rfl rfl
  | @rejects mfa token code k row hmfa hrow hlive hrate hcode =>
    have haccepted : accepted cfg db (now, .completeMfaSignIn token code) = none := by
      simp [accepted, check, hmfa, hrow, hcode]
    rw [haccepted, toList_none, append_nil]
    exact h.same hfresh rfl rfl

end Used

theorem enrolled_of_confirmed (h : Used db l) (hc : db.Confirmed u) : db.enrolled u = true := by
  obtain ⟨id, row, hrow, huser, hconfirmed⟩ := hc
  obtain ⟨⟨id', row'⟩, hfirst⟩ := exists_first _ hrow
    (p := fun row => decide (row.userId = u)) (decide_eq_true huser)
  obtain ⟨hrow', huser'⟩ := get?_of_first _ hfirst
  obtain rfl := h.one hrow hrow' (huser.trans (of_decide_eq_true huser').symm)
  rw [hrow] at hrow'
  cases hrow'
  simp [enrolled, enrollmentFor, hfirst, hconfirmed]

/-- Only `completeMfaSignIn` makes a session for a user with a confirmed enrolment, with a factor of
that user, and a factor is accepted once. -/
theorem session_needs_factor {mfa : MfaConfig} {es : List (Int × AuthCall)}
    (hmfa : cfg.mfa = some mfa) (hrun : run (step cfg) .empty es = some db) :
    (∀ e db' k row, db.step cfg e = some db' → db.sessions.get? k = none →
      db'.sessions.get? k = some row → db.Confirmed row.userId →
        ∃ token code factor, e.2 = .completeMfaSignIn token code ∧
          check cfg db e = some (row.userId, some factor)) ∧
      (factors cfg es).Nodup := by
  have hs := Sound.of_run hrun
  have hused := (outputs_invariant (I := fun db l => Sound db db.fresh ∧ Used db l)
    (fun _ _ _ _ h hs => ⟨h.1.step hs, h.2.step h.1 hs⟩) ⟨.empty, .empty⟩ hrun).2
  refine ⟨?_, hused.nodup⟩
  rintro ⟨now, e⟩ db' k row hstep hnone hsome hconfirmed
  -- a session that was there is not new, so it must have been minted
  have hold : ∀ {sessions : OrderedMap Nat SessionRow},
      (∀ id r, sessions.get? id = some r → db.sessions.get? id = some r) →
        sessions.get? k ≠ some row := by
    intro sessions hsub hrow
    rw [hsub k row hrow] at hnone
    cases hnone
  have hmint : ∀ {db₁ : AuthDb} {v : UserId},
      (∀ id r, db₁.sessions.get? id = some r → db.sessions.get? id = some r) →
      (db₁.mintSession cfg now v).1.sessions.get? k = some row → row.userId = v := by
    intro db₁ v hsub hrow
    rcases get?_set_eq_some.1 hrow with ⟨-, rfl⟩ | ⟨-, hrow⟩
    · rfl
    · exact absurd hrow (hold hsub)
  cases stepped_of_step hstep with
  | ends hgiven =>
    obtain ⟨who, hends, -⟩ := hgiven
    cases hends with
    | prep hprep => exact absurd hsome (hold fun _ _ => hprep.sessions)
    | @finish db₁ v hprep =>
      unfold finishSignIn at hsome
      rw [hmfa] at hsome
      dsimp only at hsome
      split at hsome
      · exact absurd hsome (hold fun _ _ => hprep.sessions)
      · rename_i hnot
        rw [hmint (fun _ _ => hprep.sessions) hsome] at hconfirmed
        have henrolled := enrolled_of_confirmed hused hconfirmed
        rw [enrolled, enrollmentFor, ← hprep.factors.enrollments] at henrolled
        exact absurd henrolled hnot
  | wrong | starts | rejects => exact absurd hsome (hold fun _ _ => id)
  | anonymous hprep hge =>
    rw [hmint (fun _ _ => hprep.sessions) hsome] at hconfirmed
    obtain ⟨id, enrollment, henrollment, huser, -⟩ := hconfirmed
    have hlt := (hs.enrollments _ _ henrollment).2
    rw [huser] at hlt
    exact absurd hlt (Nat.not_lt.2 hge)
  | rotates hrow =>
    rcases get?_set_eq_some.1 hsome with ⟨rfl, -⟩ | ⟨-, hsome⟩
    · cases hnone.symm.trans (get?_of_first _ hrow).1
    · exact absurd hsome (hold fun _ _ => id)
  | confirms | regenerates =>
    obtain ⟨codes, fresh, heq, -⟩ := insertRecoveryCodes_eq _ _
    rw [heq] at hsome
    exact absurd hsome (hold fun _ _ => id)
  | disables => exact absurd hsome (hold fun _ _ hrow => sessions_useFactor _ ▸ hrow)
  | @completes mfa' token code id challenge factor hmfa' hrow hlive hrate hcode =>
    rw [hmint (fun _ _ hrow => sessions_useFactor _ ▸ hrow) hsome]
    exact ⟨token, code, factor, rfl, by simp [check, hmfa', hrow, hlive, hrate, hcode]⟩

namespace FactorExample

/-- A code is its own step, and no recovery code can be guessed. -/
def mfa : MfaConfig where
  recoveryCodeCount := 1
  challengeTtlMs := 300000
  mfaAttempts := 5
  verifyAttemptsPerWindow := 1
  verifyWindowMs := 900000
  verifyTotp := fun _ code _ => if code = (js "bad") then none else some code.length
  recoveryCodeHash := fun _ => 0

def config : AuthConfig := { AuthConfig.defaults with mfa := some mfa }

/-- The user 0 signs up with the token 2 and confirms an enrolment. -/
def enrolment : List (Int × AuthCall) :=
  [(0, .signUp none (js "a@x") (js "p")), (1000, .startMfaEnrollment (some 2)),
    (2000, .confirmMfaEnrollment (some 2) (js "1"))]

/-- The user signs in again; the pending token is 9. -/
def secondSignIn : List (Int × AuthCall) := enrolment ++ [(3000, .signIn (js "a@x") (js "p"))]

end FactorExample

open FactorExample in
theorem session_needs_factor_sign_in :
    ∃ db db' row, run (step config) .empty secondSignIn = some db ∧
    db.step config (4000, .completeMfaSignIn 9 (js "22")) = some db' ∧
      db'.sessions.get? 13 = some row ∧
    db.Confirmed row.userId ∧ ∃ token code factor,
      AuthCall.completeMfaSignIn 9 (js "22") = .completeMfaSignIn token code ∧
      check config db (4000, .completeMfaSignIn 9 (js "22")) = some (row.userId, some factor) := by
  obtain ⟨db, hdb, db', hdb', hnone, ⟨row, hrow, hu⟩, enrollment, henrollment, huser, hconfirmed⟩ :
      ∃ db, run (step config) .empty secondSignIn = some db ∧
        ∃ db', db.step config (4000, .completeMfaSignIn 9 (js "22")) = some db' ∧
          db.sessions.get? 13 = none ∧ (∃ row, db'.sessions.get? 13 = some row ∧ row.userId = 0) ∧
          ∃ row, db.mfaEnrollments.get? 6 = some row ∧ row.userId = 0 ∧
            row.confirmedAt.isSome = true := by
    decide +kernel
  have hc : db.Confirmed row.userId := ⟨6, enrollment, henrollment, huser.trans hu.symm, hconfirmed⟩
  exact ⟨db, db', row, hdb, hdb', hrow, hc,
    (session_needs_factor rfl hdb).1 _ db' 13 row hdb' hnone hrow hc⟩

end Helipod.AuthDb
