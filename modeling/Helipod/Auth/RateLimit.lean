import Helipod.Auth.SecondFactor

/-!
# Wrong second factors in a window

`completeMfaSignIn` counts the wrong codes of a user in windows of `verifyWindowMs`: the first wrong
code opens a window, and the next one after its end opens the next. An accepted code forgets them.
`disableMfa` and `regenerateRecoveryCodes` check codes too, and count nothing.

Results: `wrong_codes_bounded`, `unlimited_wrong_codes`.
-/

namespace Helipod.AuthDb

open Runs List Option

variable {cfg : AuthConfig} {db db' : AuthDb} {now : Int} {u : UserId}

/-- A code was checked for a user at a time. -/
inductive Attempt where
  | wrong (userId : UserId) (time : Int)
  | signedIn (userId : UserId)
  deriving DecidableEq

/-- Wrong codes at any function, and the codes that `completeMfaSignIn` accepts. -/
def attempt (cfg : AuthConfig) (db : AuthDb) (e : Int × AuthCall) : Option Attempt :=
  match check cfg db e with
  | some (u, none) => some (.wrong u e.1)
  | some (u, some _) =>
    match e.2 with
    | .completeMfaSignIn _ _ => some (.signedIn u)
    | _ => none
  | none => none

def attempts (cfg : AuthConfig) (es : List (Int × AuthCall)) : List Attempt :=
  outputs (step cfg) (attempt cfg) .empty es

/-- The windows of a user, the last one first, with their start and the number of wrong codes. -/
def recordAttempt (windowMs : Int) (u : UserId) (windows : List (Int × Nat)) : Attempt →
    List (Int × Nat)
  | .signedIn v => if v = u then [] else windows
  | .wrong v time =>
    if v = u then
      match windows with
      | [] => [(time, 1)]
      | (start, count) :: before =>
        if time - start < windowMs then (start, count + 1) :: before
        else (time, 1) :: (start, count) :: before
    else windows

/-- The windows since the last sign-in with a second factor. -/
def windowsOf (windowMs : Int) (u : UserId) (l : List Attempt) : List (Int × Nat) :=
  l.foldl (recordAttempt windowMs u) []

/-- The mutation checks no wrong code, or it is `completeMfaSignIn`. -/
def LimitedCheck (cfg : AuthConfig) (db : AuthDb) (e : Int × AuthCall) : Prop :=
  match e.2 with
  | .completeMfaSignIn _ _ => True
  | _ => (check cfg db e).all (fun c => c.2.isSome) = true

instance (cfg : AuthConfig) (db : AuthDb) (e : Int × AuthCall) :
    Decidable (LimitedCheck cfg db e) := by
  unfold LimitedCheck
  split <;> infer_instance

/-- The counter of a user is its last window, and no window is over the cap. -/
def Counted (mfa : MfaConfig) (db : AuthDb) (l : List Attempt) : Prop :=
  ∀ u, db.authCounters.get? (.mfaVerify u) =
      (windowsOf mfa.verifyWindowMs u l).head?.map (fun w => ⟨w.1, w.2⟩) ∧
    ∀ w ∈ windowsOf mfa.verifyWindowMs u l, w.2 ≤ mfa.verifyAttemptsPerWindow

theorem windowsOf_snoc {windowMs : Int} {l : List Attempt} {a : Attempt} :
    windowsOf windowMs u (l ++ [a]) = recordAttempt windowMs u (windowsOf windowMs u l) a := by
  rw [windowsOf, foldl_append]
  rfl

namespace Counted

variable {mfa : MfaConfig} {l : List Attempt}

theorem same (h : Counted mfa db l)
    (hcounters : ∀ u, db'.authCounters.get? (.mfaVerify u) = db.authCounters.get? (.mfaVerify u)) :
    Counted mfa db' l := fun u => ⟨(hcounters u).trans (h u).1, (h u).2⟩

theorem silent (h : Counted mfa db l) {e : Int × AuthCall} (hnone : attempt cfg db e = none)
    (hcounters : ∀ u, db'.authCounters.get? (.mfaVerify u) = db.authCounters.get? (.mfaVerify u)) :
    Counted mfa db' (l ++ (attempt cfg db e).toList) := by
  rw [hnone, toList_none, append_nil]
  exact h.same hcounters

theorem signedIn (h : Counted mfa db l) {v : UserId}
    (hcounters : db'.authCounters = db.authCounters.erase (.mfaVerify v)) :
    Counted mfa db' (l ++ [.signedIn v]) := by
  intro u
  rw [windowsOf_snoc, hcounters, OrderedMap.get?_erase]
  by_cases huv : v = u
  · subst huv
    simp [recordAttempt]
  · have hne : CounterName.mfaVerify v ≠ .mfaVerify u := fun heq =>
      huv (CounterName.mfaVerify.inj heq)
    rw [if_neg hne, recordAttempt, if_neg huv]
    exact h u

theorem rejects (h : Counted mfa db l) (hcap : 1 ≤ mfa.verifyAttemptsPerWindow) {k : Nat}
    {row : MfaChallengeRow} (hrate : db.rateLimited now mfa row.userId = false) :
    Counted mfa (db.wrongFactor now mfa k row) (l ++ [.wrong row.userId now]) := by
  intro u
  rw [windowsOf_snoc]
  by_cases huv : row.userId = u
  · subst huv
    obtain ⟨hcounter, hbound⟩ := h row.userId
    cases hwindows : windowsOf mfa.verifyWindowMs row.userId l with
    | nil =>
      rw [hwindows] at hcounter
      refine ⟨?_, by simpa [recordAttempt] using hcap⟩
      have hnone : db.authCounters.get? (.mfaVerify row.userId) = none := hcounter
      simp [wrongFactor, hnone, recordAttempt]
    | cons w before =>
      obtain ⟨start, count⟩ := w
      rw [hwindows] at hcounter hbound
      have hsome : db.authCounters.get? (.mfaVerify row.userId) = some ⟨start, count⟩ := hcounter
      by_cases hin : now - start < mfa.verifyWindowMs
      · have hlt : count < mfa.verifyAttemptsPerWindow := by
          simpa [rateLimited, hsome, hin] using hrate
        refine ⟨by simp [wrongFactor, hsome, hin, recordAttempt], fun w hw => ?_⟩
        simp only [recordAttempt, if_pos hin] at hw
        rcases mem_cons.1 hw with rfl | hw
        · exact hlt
        · exact hbound w (mem_cons_of_mem _ hw)
      · refine ⟨by simp [wrongFactor, hsome, hin, recordAttempt], fun w hw => ?_⟩
        simp only [recordAttempt, if_neg hin] at hw
        rcases mem_cons.1 hw with rfl | hw
        · exact hcap
        · exact hbound w hw
  · have hne : CounterName.mfaVerify row.userId ≠ .mfaVerify u := fun heq =>
      huv (CounterName.mfaVerify.inj heq)
    have hsame : recordAttempt mfa.verifyWindowMs u (windowsOf mfa.verifyWindowMs u l)
        (.wrong row.userId now) = windowsOf mfa.verifyWindowMs u l := by simp [recordAttempt, huv]
    rw [hsame]
    refine ⟨Eq.trans ?_ (h u).1, (h u).2⟩
    unfold wrongFactor
    dsimp only
    split
    · exact OrderedMap.get?_set_ne _ hne
    · split <;> exact OrderedMap.get?_set_ne _ hne

theorem step (h : Counted mfa db l) (hmfa : cfg.mfa = some mfa)
    (hcap : 1 ≤ mfa.verifyAttemptsPerWindow)
    {e : Int × AuthCall} (hlimited : LimitedCheck cfg db e) (hstep : db.step cfg e = some db') :
    Counted mfa db' (l ++ (attempt cfg db e).toList) := by
  obtain ⟨now, e⟩ := e
  cases stepped_of_step hstep with
  | ends hgiven hcheck =>
    simp only [attempt, hcheck, toList_none, append_nil]
    obtain ⟨who, hends, -⟩ := hgiven
    cases hends with
    | prep hprep => exact h.same hprep.factors.counters
    | finish hprep =>
      refine h.same ?_
      unfold finishSignIn
      split
      · split <;> exact hprep.factors.counters
      · exact hprep.factors.counters
  | wrong userId hcheck hgiven he =>
    -- excluded by the guard
    have hall : (check cfg db (now, e)).all (fun c => c.2.isSome) = true := by
      cases e with
      | completeMfaSignIn token code => exact absurd rfl (he token code)
      | _ => exact hlimited
    rw [hcheck] at hall
    cases hall
  | anonymous hprep =>
    simp only [attempt, check, toList_none, append_nil]
    exact h.same hprep.factors.counters
  | rotates | starts =>
    simp only [attempt, check, toList_none, append_nil]
    exact h.same fun _ => rfl
  | @confirms mfa' caller code v k step row hmfa' hcaller hrow hrest hcode
  | @regenerates mfa' caller code v k step row hmfa' hcaller hrow hrest hcode =>
    refine h.silent (by simp [attempt, check, Option.filter, hmfa', hcaller, hrow, hrest, hcode]) ?_
    obtain ⟨codes, fresh, heq, -⟩ := insertRecoveryCodes_eq _ _
    rw [heq]
    exact fun _ => rfl
  | @disables mfa' caller code v k row factor hmfa' hcaller hrow hconfirmed hcode =>
    refine h.silent ?_ ?_
    · simp [attempt, check, Option.filter, hmfa', hcaller, enrolled, hrow, hconfirmed, hcode]
    · cases factor <;> exact fun _ => rfl
  | @completes mfa' token code k row factor hmfa' hrow hlive hrate hcode =>
    have hattempt : attempt cfg db (now, .completeMfaSignIn token code) =
      some (.signedIn row.userId) := by
      simp [attempt, check, Option.filter, hmfa', hrow, hlive, hrate, hcode]
    rw [hattempt]
    refine h.signedIn ?_
    cases factor <;> rfl
  | @rejects mfa' token code k row hmfa' hrow hlive hrate hcode =>
    have hattempt : attempt cfg db (now, .completeMfaSignIn token code) =
      some (.wrong row.userId now) := by
      simp [attempt, check, Option.filter, hmfa', hrow, hlive, hrate, hcode]
    rw [hattempt]
    rw [hmfa] at hmfa'
    cases hmfa'
    exact h.rejects hcap hrate

end Counted

/-- Where wrong codes are only checked by `completeMfaSignIn`, and the cap is not zero, no window of
a user has more wrong codes than the cap. -/
theorem wrong_codes_bounded {mfa : MfaConfig} {es : List (Int × AuthCall)}
    (hmfa : cfg.mfa = some mfa) (hcap : 1 ≤ mfa.verifyAttemptsPerWindow)
    (hlimited : Guarded (step cfg) (LimitedCheck cfg) .empty es)
    (hrun : run (step cfg) .empty es = some db) (u : UserId) :
    ∀ w ∈ windowsOf mfa.verifyWindowMs u (attempts cfg es), w.2 ≤ mfa.verifyAttemptsPerWindow := by
  have h : Counted mfa db ([] ++ attempts cfg es) := outputs_invariant_of_guarded
    (fun _ _ _ _ h hg hs => h.step hmfa hcap hg hs) (fun _ => ⟨rfl, by rintro w ⟨⟩⟩) hlimited hrun
  exact (h u).2

open FactorExample in
/-- The first wrong code is counted, the second is refused unchecked. -/
theorem wrong_codes_bounded_sign_in : ∃ db,
    run (step config) .empty (secondSignIn ++
      [(4000, .completeMfaSignIn 9 (js "bad")),
        (5000, .completeMfaSignIn 9 (js "bad"))]) = some db ∧
    ∀ w ∈ windowsOf mfa.verifyWindowMs 0 (attempts config (secondSignIn ++
      [(4000, .completeMfaSignIn 9 (js "bad")), (5000, .completeMfaSignIn 9 (js "bad"))])),
        w.2 ≤ 1 := by
  refine exists_some_imp (fun _ => True) (by decide +kernel) fun db hrun _ => ?_
  exact wrong_codes_bounded rfl (by decide) (by decide +kernel) hrun 0

open FactorExample in
/-- The limit is one wrong code in 15 minutes; `disableMfa` checks two within a second. -/
theorem unlimited_wrong_codes :
    (run (step config) .empty (enrolment ++
      [(3000, .disableMfa (some 2) (js "bad")),
        (4000, .disableMfa (some 2) (js "bad"))])).isSome = true ∧
    windowsOf mfa.verifyWindowMs 0 (attempts config (enrolment ++
      [(3000, .disableMfa (some 2) (js "bad")), (4000, .disableMfa (some 2) (js "bad"))])) =
        [(3000, 2)] ∧
    mfa.verifyAttemptsPerWindow = 1 := by
  decide +kernel

end Helipod.AuthDb
