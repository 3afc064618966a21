import Helipod.Auth.Rotation

/-!
# The end of a session

`refresh` refuses a session after `absoluteExpiresAt`, which is fixed when the session is minted.
The access token it mints before that expires `accessTtlMs` later, whatever the ceiling is.

Results: `dies_at_ceiling_iff`, `revoked_session_stays_revoked`.
-/

namespace Helipod.AuthDb

open Runs OrderedMap

variable {cfg : AuthConfig} {db db' : AuthDb} {now : Int} {id : Nat} {row row' : SessionRow}
  {e : AuthCall} {es fs : List (Int × AuthCall)}

/-- The tokens of a session are made together, and the access token lives for `accessTtlMs`. -/
def Made (cfg : AuthConfig) (db : AuthDb) : Prop := db.sessions.All fun _ row =>
  row.refreshTokenHash = row.tokenHash + 1 ∧ row.expiresAt = row.lastRefreshAt + cfg.accessTtlMs

theorem Made.of_run (hrun : run (step cfg) .empty es = some db) : Made cfg db := by
  refine run_invariant (fun m e m' (h : Made cfg m) hs id row hrow => ?_)
    (fun _ _ hrow => by cases hrow) hrun
  obtain ⟨changed, hc⟩ := changes_of_step hs
  rcases hc.rows hrow with ⟨-, hrow⟩ | ⟨-, htokens, -, -, hexpires, -⟩
  · exact h id row hrow
  · exact ⟨htokens, hexpires⟩

/-- The ceiling of a session never moves. -/
theorem ceiling_of_run (hid : id < db.fresh) (hrow : db.sessions.get? id = some row)
    (hrun : run (step cfg) db fs = some db') (hrow' : db'.sessions.get? id = some row') :
    row'.absoluteExpiresAt = row.absoluteExpiresAt := by
  have hkept := run_invariant (I := fun db' => id < db'.fresh ∧ ∀ {row'},
    db'.sessions.get? id = some row' → row'.absoluteExpiresAt = row.absoluteExpiresAt) ?_
      ⟨hid, ?_⟩ hrun
  · exact hkept.2 hrow'
  · rintro m e m' ⟨hid, hkept⟩ hs
    obtain ⟨changed, hc⟩ := changes_of_step hs
    refine ⟨Nat.lt_of_lt_of_le hid hc.fresh, fun hrow => ?_⟩
    rcases hc.rows hrow with ⟨-, hrow⟩ | ⟨-, -, -, -, -, ⟨-, hnew, -⟩ | ⟨old, hold, rfl, -⟩⟩
    · exact hkept hrow
    · exact absurd hid (Nat.not_lt.2 hnew)
    · exact (hkept hold :)
  · intro row' hrow'
    cases hrow.symm.trans hrow'
    rfl

/-- A session that is there at one time of a run, and its row at a later time: no refresh of it
succeeds after its ceiling, and no token of it resolves to it after the ceiling and the run, if and
only if the last access token expires before the ceiling or the end of the run. -/
theorem dies_at_ceiling_iff (hrun : run (step cfg) .empty es = some db)
    (hrow : db.sessions.get? id = some row) (hrun' : run (step cfg) db fs = some db')
    (hrow' : db'.sessions.get? id = some row') :
    (∀ now token after minted, db'.refresh cfg now token = .ok (after, .ok minted) →
      minted.sessionId = id → now ≤ row.absoluteExpiresAt) ∧
    ((∀ now token, (∀ e ∈ es ++ fs, e.1 ≤ now) → row.absoluteExpiresAt < now →
        (db'.currentSessionOf now (some token)).map Prod.fst ≠ some id) ↔
      (row.absoluteExpiresAt < row'.lastRefreshAt + cfg.accessTtlMs →
        ∃ e ∈ es ++ fs, row'.lastRefreshAt + cfg.accessTtlMs < e.1)) := by
  have hall : run (step cfg) .empty (es ++ fs) = some db' := by rw [run_append, hrun]; exact hrun'
  have hceiling := ceiling_of_run ((Remembers.of_run hrun).issued hrow).1 hrow hrun' hrow'
  have hexpires := (Made.of_run hall _ _ hrow').2
  constructor
  · intro now token after minted hrefresh hid
    unfold AuthDb.refresh at hrefresh
    split at hrefresh
    · rename_i id' found hfirst
      split at hrefresh
      · cases hrefresh
      rename_i hle
      split at hrefresh
      · cases hrefresh
      cases hrefresh
      cases hid
      cases hrow'.symm.trans (get?_of_first _ hfirst).1
      exact hceiling ▸ Int.not_lt.1 hle
    split at hrefresh
    · split at hrefresh <;> cases hrefresh
    · cases hrefresh
  · rw [← hceiling, ← hexpires]
    constructor
    · intro hnone hlt
      by_contra hend
      obtain ⟨⟨found, _⟩, hfound⟩ := exists_first _ hrow'
        (p := fun r => r.tokenHash = row'.tokenHash) (decide_eq_true rfl)
      obtain ⟨hget, htoken⟩ := get?_of_first _ hfound
      have hmade := fun {id row} hrow => (Made.of_run hall id row hrow).1
      obtain rfl := (Remembers.of_run hall).current hget hrow'
        (by rw [hmade hget, hmade hrow', of_decide_eq_true htoken])
      cases hget.symm.trans hrow'
      refine hnone row'.expiresAt row'.tokenHash (fun e he => Int.not_lt.1 fun hlate => ?_) hlt ?_
      · exact hend ⟨e, he, hlate⟩
      · simp [currentSessionOf, resolveSession, hfound]
    · intro hend now token hnow hlt hresolves
      obtain ⟨⟨_, found⟩, hsession, rfl⟩ := Option.map_eq_some_iff.1 hresolves
      obtain ⟨hfirst, hlive⟩ := Option.filter_eq_some_iff.1 hsession
      have hfirst : db'.sessions.first (fun r => r.tokenHash = token) = some (_, found) := hfirst
      cases hrow'.symm.trans (get?_of_first _ hfirst).1
      have hle : now ≤ row'.expiresAt := of_decide_eq_true hlive
      obtain ⟨e, he, hlate⟩ := hend (Int.lt_of_lt_of_le hlt hle)
      have := hnow e he
      omega

open RotationExample in
/-- A session that is refreshed once, long before its ceiling. -/
theorem dies_at_ceiling_iff_refreshed : ∃ db row,
    run (step config) .empty rotatedOnce = some db ∧ db.sessions.get? 3 = some row ∧
    row.lastRefreshAt = 1000 ∧ ∀ now token, 1000 ≤ now → row.absoluteExpiresAt < now →
      (db.currentSessionOf now (some token)).map Prod.fst ≠ some 3 := by
  simp only [exists_and_left]
  refine exists_some_imp (fun db => ∃ row, db.sessions.get? 3 = some row ∧
    row.lastRefreshAt = 1000 ∧
    row.lastRefreshAt + config.accessTtlMs ≤ row.absoluteExpiresAt) (by decide +kernel) ?_
  rintro db hrun ⟨row, hrow, hrefreshed, hlast⟩
  have h := (@dies_at_ceiling_iff config db db 3 row row _ [] hrun hrow rfl hrow).2.2
  refine ⟨row, hrow, hrefreshed, fun now token hnow =>
    h (fun hlt => absurd hlast (Int.not_le.2 hlt)) now token ?_⟩
  simp [rotatedOnce]
  omega

open RotationExample in
/-- Refreshed until its ceiling after 90 days, the session is live for another hour. -/
theorem resolves_after_ceiling : ∃ db, run (step config) .empty [(0, .signInAnonymously none),
      (2592000000, .refresh 2), (5184000000, .refresh 5), (7776000000, .refresh 7)] = some db ∧
    (db.sessions.get? 3).map (·.absoluteExpiresAt) = some 7776000000 ∧
    db.getUserId 7779600000 8 = some 0 := by
  decide +kernel

/-! ## Revoked sessions -/

/-- The access token, the refresh token or the remembered one of `row'` is one of `row`. -/
def SharesToken (row row' : SessionRow) : Prop := row'.tokenHash = row.tokenHash ∨
  row'.refreshTokenHash = row.refreshTokenHash ∨
    row'.prevRefreshTokenHash = some row.refreshTokenHash

/-- The tokens of `row` are of no other session than `id`. -/
structure Owns (db : AuthDb) (id : Nat) (row : SessionRow) : Prop where
  issued : id < db.fresh ∧ row.refreshTokenHash < db.fresh
  made : row.refreshTokenHash = row.tokenHash + 1
  only : db.sessions.All fun id' row' => SharesToken row row' → id' = id

theorem Owns.of_run (hrun : run (step cfg) .empty es = some db)
    (hrow : db.sessions.get? id = some row) : db.Owns id row := by
  have hmade := Made.of_run hrun
  have h := Remembers.of_run hrun
  refine ⟨h.issued hrow, (hmade _ _ hrow).1, fun id' row' hrow' hshared => ?_⟩
  rcases hshared with heq | heq | heq
  · exact h.current hrow' hrow (by rw [(hmade _ _ hrow').1, (hmade _ _ hrow).1, heq])
  · exact h.current hrow' hrow heq
  · -- what is remembered was rotated out, so it is not the refresh token of a session
    have hlast := h.last hrow'
    rw [heq] at hlast
    have hmem := (List.mem_filter.1 (List.mem_of_getLast? hlast)).1
    exact absurd rfl (h.rotated hmem hrow)

theorem Owns.step (h : db.Owns id row) {e : Int × AuthCall} (hs : db.step cfg e = some db') :
    db'.Owns id row := by
  obtain ⟨changed, hc⟩ := changes_of_step hs
  refine ⟨h.issued.imp (Nat.lt_of_lt_of_le · hc.fresh) (Nat.lt_of_lt_of_le · hc.fresh), h.made,
    fun id' row' hrow' hshared => ?_⟩
  rcases hc.rows hrow' with ⟨-, hrow'⟩ | ⟨-, htokens, hnew, -, -, hkind⟩
  · exact h.only _ _ hrow' hshared
  · have hne : row'.refreshTokenHash ≠ row.refreshTokenHash := fun heq =>
      absurd h.issued.2 (Nat.not_lt.2 (heq ▸ hnew))
    rcases hshared with heq | heq | heq
    · exact absurd (by rw [htokens, heq, h.made]) hne
    · exact absurd heq hne
    · rcases hkind with ⟨-, -, -, hprev⟩ | ⟨old, hold, rfl, -⟩
      · cases hprev.symm.trans heq
      · exact h.only _ _ hold (.inr (.inl (Option.some.inj heq)))

theorem gone_step (hid : id < db.fresh) (hgone : db.sessions.get? id = none) {e : Int × AuthCall}
    (hs : db.step cfg e = some db') : db'.sessions.get? id = none := by
  obtain ⟨changed, hc⟩ := changes_of_step hs
  cases hrow : db'.sessions.get? id with
  | none => rfl
  | some row =>
    rcases hc.rows hrow with ⟨-, hrow⟩ | ⟨-, -, -, -, -, ⟨-, hnew, -⟩ | ⟨old, hold, -⟩⟩
    · cases hgone.symm.trans hrow
    · exact absurd hid (Nat.not_lt.2 hnew)
    · cases hgone.symm.trans hold

/-- A session that is gone does not come back, whoever signs in, and the tokens that it had at any
time neither resolve nor refresh. -/
theorem revoked_session_stays_revoked {db₁ db₂ : AuthDb} {gs : List (Int × AuthCall)}
    (hrun : run (step cfg) .empty es = some db) (hrow : db.sessions.get? id = some row)
    (hrun₁ : run (step cfg) db fs = some db₁) (hgone : db₁.sessions.get? id = none)
    (hrun₂ : run (step cfg) db₁ gs = some db₂) :
    db₂.sessions.get? id = none ∧ ∀ now, db₂.getUserId now row.tokenHash = none ∧
      db₂.refresh cfg now row.refreshTokenHash = .error "invalid refresh token" := by
  have howns := run_invariant (I := fun db => db.Owns id row) (fun _ _ _ h hs => h.step hs)
    (.of_run hrun hrow) hrun₁
  obtain ⟨howns, hgone⟩ := run_invariant (I := fun db => db.Owns id row ∧
    db.sessions.get? id = none)
    (fun _ _ _ h hs => ⟨h.1.step hs, gone_step h.1.issued.1 h.2 hs⟩) ⟨howns, hgone⟩ hrun₂
  have hnone : db₂.sessions.All fun _ row' => ¬ SharesToken row row' := by
    intro id' row' hrow' hshared
    rw [howns.only _ _ hrow' hshared, hgone] at hrow'
    cases hrow'
  have haccess : (db₂.sessions.first fun r => r.tokenHash = row.tokenHash) = none :=
    (first_eq_none _).2 fun _ _ hrow' => decide_eq_false fun heq => hnone _ _ hrow' (.inl heq)
  have hrefresh : (db₂.sessions.first fun r => r.refreshTokenHash = row.refreshTokenHash) = none :=
    (first_eq_none _).2 fun _ _ hrow' => decide_eq_false fun heq =>
      hnone _ _ hrow' (.inr (.inl heq))
  have hprev : (db₂.sessions.first fun r =>
    r.prevRefreshTokenHash = some row.refreshTokenHash) = none :=
    (first_eq_none _).2 fun _ _ hrow' => decide_eq_false fun heq =>
      hnone _ _ hrow' (.inr (.inr heq))
  refine ⟨hgone, fun now => ⟨?_, ?_⟩⟩
  · simp [getUserId, callerId, currentSessionOf, resolveSession, haccess]
  · simp [AuthDb.refresh, hrefresh, hprev]

open RotationExample in
/-- A session is signed out of, then another user signs in. -/
theorem revoked_session_stays_revoked_sign_out : ∃ db,
    run (step config) .empty [(0, .signInAnonymously none)] = some db ∧ ∃ db',
      run (step config) db [(1, .signOut 1), (2, .signInAnonymously none)] = some db' ∧
        ∀ now, db'.refresh config now 2 = .error "invalid refresh token" := by
  refine exists_some_imp (fun db => ∃ row, db.sessions.get? 3 = some row ∧
    row.refreshTokenHash = 2 ∧
    ∃ db', run (step config) db [(1, .signOut 1), (2, .signInAnonymously none)] = some db' ∧
      db'.sessions.get? 3 = none) (by decide +kernel) ?_
  rintro db hrun ⟨row, hrow, htoken, db', hrun', hgone⟩
  exact ⟨db', hrun', fun now =>
    htoken ▸ ((revoked_session_stays_revoked hrun hrow hrun' hgone run_nil).2 now).2⟩

end Helipod.AuthDb
