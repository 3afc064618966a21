import Helipod.Auth.Steps

/-!
# Reuse of refresh tokens

A session remembers the hash of the refresh token that was rotated out last, and nothing of the
ones before. `refresh` takes the reuse of a remembered token after the grace window as theft and
deletes the session.

Results: `reused_token_revokes`, `older_token_not_detected`.
-/

namespace Helipod.AuthDb

open Runs OrderedMap List

variable {cfg : AuthConfig} {db db₁ db' : AuthDb} {now : Int}

/-- A token was rotated out of a session at a time. -/
structure RotatedOut where
  session : Nat
  token : Token
  at' : Int
  deriving DecidableEq

/-- The rotation that a mutation makes. -/
def rotation (cfg : AuthConfig) (db : AuthDb) (e : Int × AuthCall) : Option RotatedOut :=
  match e.2 with
  | .refresh token =>
    match db.refresh cfg e.1 token with
    | .ok (_, .ok minted) => some ⟨minted.sessionId, token, e.1⟩
    | _ => none
  | _ => none

/-- The rotations of a run from the empty database. -/
def rotations (cfg : AuthConfig) (es : List (Int × AuthCall)) : List RotatedOut :=
  outputs (step cfg) (rotation cfg) .empty es

def ofSession (id : Nat) (l : List RotatedOut) : List RotatedOut := l.filter fun r => r.session = id

/-! ## Sessions after a mutation -/

/-- Rows may go, no row changes. -/
structure Shrinks (db db₁ : AuthDb) : Prop where
  sessions : ∀ {id row}, db₁.sessions.get? id = some row → db.sessions.get? id = some row
  fresh : db.fresh ≤ db₁.fresh

theorem Prep.shrinks {who : Option (UserId × JsString)} (h : Prep db who db₁) : Shrinks db db₁ :=
  ⟨h.sessions, h.fresh⟩

/-- Other mutations than `refresh` delete sessions and mint at most one, at the end. -/
theorem sessions_of_stepped {e : AuthCall} (h : Stepped cfg now db e db')
    (hnot : ∀ token, e ≠ .refresh token) : Shrinks db db' ∨
      ∃ db₁ userId, Shrinks db db₁ ∧ db'.sessions = (db₁.mintSession cfg now userId).1.sessions ∧
        db'.fresh = db₁.fresh + 3 := by
  have hfresh := h.fresh_le
  cases h with
  | ends h =>
    obtain ⟨who, h, -⟩ := h
    cases h with
    | prep h => exact .inl h.shrinks
    | finish h =>
      unfold finishSignIn at hfresh ⊢
      split
      · split
        · exact .inl ⟨h.sessions, Nat.le_trans h.fresh (Nat.le_add_right _ 2)⟩
        · exact .inr ⟨_, _, h.shrinks, rfl, rfl⟩
      · exact .inr ⟨_, _, h.shrinks, rfl, rfl⟩
  | wrong | starts | rejects => exact .inl ⟨id, hfresh⟩
  | anonymous h => exact .inr ⟨_, _, h.shrinks, rfl, rfl⟩
  | rotates => exact absurd rfl (hnot _)
  | confirms | regenerates =>
    refine .inl ⟨?_, hfresh⟩
    obtain ⟨codes, fresh, heq, -⟩ := insertRecoveryCodes_eq _ _
    rw [heq]
    exact id
  | disables => exact .inl ⟨fun hrow => sessions_useFactor _ ▸ hrow, hfresh⟩
  | completes =>
    exact .inr ⟨_, _, ⟨fun hrow => sessions_useFactor _ ▸ hrow,
      Nat.le_of_eq (fresh_useFactor _).symm⟩, rfl, rfl⟩

/-- At most one session is new or rotated, and it has new tokens. -/
structure Changes (cfg : AuthConfig) (now : Int) (db db' : AuthDb) (out : Option RotatedOut)
    (changed : Option Nat) : Prop where
  fresh : db.fresh ≤ db'.fresh
  rows : ∀ {id row}, db'.sessions.get? id = some row →
    changed ≠ some id ∧ db.sessions.get? id = some row ∨
    changed = some id ∧ row.refreshTokenHash = row.tokenHash + 1 ∧ db.fresh ≤ row.refreshTokenHash ∧
      row.refreshTokenHash < db'.fresh ∧ row.expiresAt = row.lastRefreshAt + cfg.accessTtlMs ∧
      (out = none ∧ db.fresh ≤ id ∧ id < db'.fresh ∧ row.prevRefreshTokenHash = none ∨
        ∃ old, db.sessions.get? id = some old ∧ row = db.rotated cfg now old ∧
          out = some ⟨id, old.refreshTokenHash, now⟩)
  rotated : ∀ {r}, out = some r → changed = some r.session ∧
    ∃ old, db.sessions.get? r.session = some old ∧ old.refreshTokenHash = r.token

theorem Shrinks.changes (h : Shrinks db db₁) : Changes cfg now db db₁ none none where
  fresh := h.fresh
  rows hrow := .inl ⟨Option.some_ne_none _ ∘ Eq.symm, h.sessions hrow⟩
  rotated hr := by cases hr

theorem changes_of_refresh {token : Token} : ∃ changed,
    Changes cfg now db ((db.refresh cfg now token).after db)
      (rotation cfg db (now, .refresh token)) changed := by
  have hsame : Changes cfg now db db none none := Shrinks.changes ⟨id, Nat.le_refl _⟩
  simp only [rotation]
  unfold AuthDb.refresh
  split
  · rename_i id row hfirst
    obtain ⟨hrow, htoken⟩ := get?_of_first _ hfirst
    split
    · exact ⟨none, hsame⟩
    split
    · exact ⟨none, hsame⟩
    obtain rfl := of_decide_eq_true htoken
    refine ⟨some id, Nat.le_add_right _ 2, fun {id' row'} hrow' => ?_, fun {r} hr => ?_⟩
    · rcases get?_set_eq_some.1 hrow' with ⟨rfl, rfl⟩ | ⟨hne, hrow'⟩
      · exact .inr ⟨rfl, rfl, Nat.le_succ _, Nat.lt_succ_self _, rfl, .inr ⟨row, hrow, rfl, rfl⟩⟩
      · exact .inl ⟨fun heq => hne (Option.some.inj heq).symm, hrow'⟩
    · cases hr
      exact ⟨rfl, row, hrow, rfl⟩
  split
  · split
    · exact ⟨none, hsame⟩
    · exact ⟨none, prep_eraseSession.shrinks.changes⟩
  · exact ⟨none, hsame⟩

theorem changes_of_step {e : Int × AuthCall} (hs : db.step cfg e = some db') :
    ∃ changed, Changes cfg e.1 db db' (rotation cfg db e) changed := by
  obtain ⟨now, e⟩ := e
  by_cases he : ∃ token, e = .refresh token
  · obtain ⟨token, rfl⟩ := he
    cases hs
    exact changes_of_refresh
  have hnot : ∀ token, e ≠ .refresh token := fun token heq => he ⟨token, heq⟩
  have hnone : rotation cfg db (now, e) = none := by
    cases e with
    | refresh token => exact absurd rfl (hnot token)
    | _ => rfl
  rw [hnone]
  rcases sessions_of_stepped (stepped_of_step hs) hnot with h | ⟨db₁, userId, h, hsessions, hfresh⟩
  · exact ⟨none, h.changes⟩
  refine ⟨some (db₁.fresh + 2), by have := h.fresh; omega, fun {id row} hrow => ?_,
    fun hr => by cases hr⟩
  rw [hsessions] at hrow
  rw [hfresh]
  rcases get?_set_eq_some.1 hrow with ⟨rfl, rfl⟩ | ⟨hne, hrow⟩
  · have hle := h.fresh
    exact .inr ⟨rfl, rfl, Nat.le_succ_of_le hle, Nat.lt_add_right 1 (Nat.lt_succ_self _), rfl,
      .inl ⟨rfl, Nat.le_add_right_of_le hle, Nat.lt_succ_self _, rfl⟩⟩
  · exact .inl ⟨fun heq => hne (Option.some.inj heq).symm, h.sessions hrow⟩

/-! ## The tokens of a run -/

/-- A token is issued once, and a session remembers the last token that was rotated out of it. -/
structure Remembers (db : AuthDb) (l : List RotatedOut) : Prop where
  issued : ∀ {id row}, db.sessions.get? id = some row → id < db.fresh ∧
    row.refreshTokenHash < db.fresh
  current : ∀ {id id' row row'}, db.sessions.get? id = some row → db.sessions.get? id' = some row' →
    row.refreshTokenHash = row'.refreshTokenHash → id = id'
  past : ∀ {r}, r ∈ l → r.session < db.fresh ∧ r.token < db.fresh
  rotated : ∀ {r id row}, r ∈ l → db.sessions.get? id = some row → row.refreshTokenHash ≠ r.token
  once : ∀ {r r'}, r ∈ l → r' ∈ l → r.token = r'.token → r = r'
  last : ∀ {id row}, db.sessions.get? id = some row →
    (ofSession id l).getLast? = row.prevRefreshTokenHash.map fun token =>
      ⟨id, token, row.lastRefreshAt⟩

namespace Remembers

variable {l : List RotatedOut}

theorem empty : Remembers .empty [] where
  issued hrow := by cases hrow
  current hrow := by cases hrow
  past hr := by cases hr
  rotated hr := by cases hr
  once hr := by cases hr
  last hrow := by cases hrow

variable (h : Remembers db l)
include h

theorem step {e : Int × AuthCall} (hs : db.step cfg e = some db') :
    Remembers db' (l ++ (rotation cfg db e).toList) := by
  obtain ⟨changed, hc⟩ := changes_of_step hs
  generalize rotation cfg db e = out at hc
  have hmem : ∀ {r}, r ∈ l ++ out.toList → r ∈ l ∨ out = some r := fun hr =>
    (mem_append.1 hr).imp_right Option.mem_toList.1
  have hpast : ∀ {r}, r ∈ l ++ out.toList → r.session < db.fresh ∧ r.token < db.fresh := by
    intro r hr
    rcases hmem hr with hr | hr
    · exact h.past hr
    · obtain ⟨-, old, hold, htoken⟩ := hc.rotated hr
      exact htoken ▸ h.issued hold
  constructor
  case issued =>
    intro id row hrow
    rcases hc.rows hrow with ⟨-, hrow⟩ | ⟨-, -, -, hlt, -, ⟨-, -, hid, -⟩ | ⟨old, hold, -⟩⟩
    · exact (h.issued hrow).imp (Nat.lt_of_lt_of_le · hc.fresh) (Nat.lt_of_lt_of_le · hc.fresh)
    · exact ⟨hid, hlt⟩
    · exact ⟨Nat.lt_of_lt_of_le (h.issued hold).1 hc.fresh, hlt⟩
  case current =>
    intro id id' row row' hrow hrow' heq
    rcases hc.rows hrow with ⟨-, hrow⟩ | ⟨hid, -, hnew, -⟩ <;>
      rcases hc.rows hrow' with ⟨-, hrow'⟩ | ⟨hid', -, hnew', -⟩
    · exact h.current hrow hrow' heq
    · exact absurd (heq ▸ (h.issued hrow).2) (Nat.not_lt.2 hnew')
    · exact absurd (heq ▸ (h.issued hrow').2) (Nat.not_lt.2 hnew)
    · exact Option.some.inj (hid.symm.trans hid')
  case past =>
    intro r hr
    exact (hpast hr).imp (Nat.lt_of_lt_of_le · hc.fresh) (Nat.lt_of_lt_of_le · hc.fresh)
  case rotated =>
    intro r id row hr hrow heq
    rcases hc.rows hrow with ⟨hne, hrow⟩ | ⟨-, -, hnew, -⟩
    · rcases hmem hr with hr | hr
      · exact h.rotated hr hrow heq
      · obtain ⟨hid, old, hold, htoken⟩ := hc.rotated hr
        exact hne (h.current hold hrow (htoken.trans heq.symm) ▸ hid)
    · exact absurd (hpast hr).2 (Nat.not_lt.2 (heq ▸ hnew))
  case once =>
    intro r r' hr hr' heq
    rcases hmem hr with hr | hr <;> rcases hmem hr' with hr' | hr'
    · exact h.once hr hr' heq
    · obtain ⟨-, old, hold, htoken⟩ := hc.rotated hr'
      exact absurd (htoken.trans heq.symm) (h.rotated hr hold)
    · obtain ⟨-, old, hold, htoken⟩ := hc.rotated hr
      exact absurd (htoken.trans heq) (h.rotated hr' hold)
    · exact Option.some.inj (hr.symm.trans hr')
  case last =>
    intro id row hrow
    rw [ofSession, filter_append]
    rcases hc.rows hrow with ⟨hne, hrow⟩ | ⟨-, -, -, -, -,
      ⟨rfl, hnew, -, hprev⟩ | ⟨old, -, rfl, rfl⟩⟩
    · have hnone : out.toList.filter (fun r => r.session = id) = [] :=
        filter_eq_nil_iff.2 fun r hr heq =>
        hne (of_decide_eq_true heq ▸ (hc.rotated (Option.mem_toList.1 hr)).1)
      rw [hnone, append_nil]
      exact h.last hrow
    · -- nothing was rotated out of a session that is new
      have hnone : l.filter (fun r => r.session = id) = [] := filter_eq_nil_iff.2 fun r hr heq =>
        absurd (h.past hr).1 (Nat.not_lt.2 (of_decide_eq_true heq ▸ hnew))
      rw [hnone, hprev]
      rfl
    · simp [AuthDb.rotated]

/-- The token rotated out last is remembered by the session, and no other is by any. -/
theorem first_prev {r : RotatedOut} (hr : r ∈ l) {id : Nat} {row : SessionRow}
    (hfirst : (db.sessions.first fun row => row.prevRefreshTokenHash = some r.token) =
    some (id, row)) :
    (ofSession r.session l).getLast? = some r ∧ id = r.session ∧ row.lastRefreshAt = r.at' := by
  obtain ⟨hrow, hprev⟩ := get?_of_first _ hfirst
  have hlast := h.last hrow
  rw [of_decide_eq_true hprev] at hlast
  have hmem := (mem_filter.1 (mem_of_getLast? hlast)).1
  have heq : r = ⟨id, r.token, row.lastRefreshAt⟩ := h.once hr hmem rfl
  have hid : id = r.session := (congrArg RotatedOut.session heq).symm
  exact ⟨by rw [← hid, hlast, Option.map_some, ← heq], hid, (congrArg RotatedOut.at' heq).symm⟩

omit h in
theorem of_run {es : List (Int × AuthCall)} (hrun : run (AuthDb.step cfg) .empty es = some db) :
    Remembers db (rotations cfg es) :=
  outputs_invariant (fun _ _ _ _ h hs => h.step hs) .empty hrun

end Remembers

/-! ## Reuse -/

/-- A token that was rotated out longer ago than the grace window: the one rotated out last revokes
the session, and an earlier one is refused like a token that was never issued. -/
theorem reused_token_revokes {es : List (Int × AuthCall)} {r : RotatedOut}
    (hrun : run (step cfg) .empty es = some db) (hr : r ∈ rotations cfg es)
    (hgrace : cfg.refreshGraceMs < now - r.at') :
    if (ofSession r.session (rotations cfg es)).getLast? = some r then
      ((db.refresh cfg now r.token).after db).sessions.get? r.session = none
    else db.refresh cfg now r.token = .error "invalid refresh token" := by
  have h := Remembers.of_run hrun
  have hcurrent : (db.sessions.first fun row => row.refreshTokenHash = r.token) = none :=
    (first_eq_none _).2 fun id row hrow => decide_eq_false (h.rotated hr hrow)
  cases hprev : db.sessions.first fun row => row.prevRefreshTokenHash = some r.token with
  | none =>
    have hinvalid : db.refresh cfg now r.token = .error "invalid refresh token" := by
      simp [AuthDb.refresh, hcurrent, hprev]
    split
    · rename_i hlast
      rw [hinvalid]
      -- a session that is there remembers the token
      by_contra hne
      obtain ⟨row, hrow⟩ := Option.ne_none_iff_exists'.1 hne
      have hrow' := h.last hrow
      rw [hlast] at hrow'
      obtain ⟨token, htoken, heq⟩ := Option.map_eq_some_iff.1 hrow'.symm
      rw [← heq] at hprev
      have := (first_eq_none _).1 hprev _ row hrow
      simp [htoken] at this
    · exact hinvalid
  | some found =>
    obtain ⟨hlast, hid, hat⟩ := h.first_prev hr hprev
    rw [if_pos hlast, AuthDb.refresh, hcurrent]
    simp only [hprev]
    rw [if_neg (by omega)]
    show (db.sessions.erase found.1).get? r.session = none
    rw [hid, get?_erase, if_pos rfl]

namespace RotationExample

def config : AuthConfig := AuthConfig.defaults

/-- A session with the refresh token 2, which is rotated out. -/
def rotatedOnce : List (Int × AuthCall) := [(0, .signInAnonymously none), (1000, .refresh 2)]

end RotationExample

open RotationExample in
theorem reused_token_revokes_once : ∃ db, run (step config) .empty rotatedOnce = some db ∧
    ((db.refresh config 40000 2).after db).sessions.get? 3 = none := by
  refine exists_some_imp (fun _ => True) (by decide +kernel) fun db hrun _ => ?_
  have h := @reused_token_revokes config db 40000 rotatedOnce ⟨3, 2, 1000⟩ hrun
    (by decide +kernel) (by decide)
  rwa [if_pos (by decide +kernel)] at h

open RotationExample in
/-- The token 2 is rotated out, then the token 5; the reuse of 2 is not detected. -/
theorem older_token_not_detected : ∃ es r, ∃ now : Int, r ∈ rotations config es ∧
    config.refreshGraceMs < now - r.at' ∧
    (run (step config) .empty es).any (fun db =>
      (((db.refresh config now r.token).after db).sessions.get? r.session).isSome) = true :=
  ⟨rotatedOnce ++ [(2000, .refresh 5)], ⟨3, 2, 1000⟩, 40000, by decide +kernel,
    by decide, by decide +kernel⟩

end Helipod.AuthDb
