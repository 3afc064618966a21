import Helipod.Client.Promises

/-!
# The identity gate of the drain

A mutation that was queued while one token was set must not be sent on a connection that has
another. `mutation` stamps an entry with the fingerprint that the client has cached, and
`flushChunk` compares it with the cached one. The cache follows the token only when a digest is
done, while the `SetAuth` frame goes out at once.

The frames of a connection are kept newest first, so the token in force where a frame stands is the
one of the first `SetAuth` after it in the list.

Results: `drain_respects_identity`, `flush_before_digest`.
-/

namespace Helipod

open Runs SessionIdentity Reconciler List

/-! ## Fingerprints -/

namespace SessionIdentity

variable {cfg : OutboxConfig} {s : SessionIdentity}

/-- The cached fingerprint is that of the last token. -/
def InStep (cfg : OutboxConfig) (s : SessionIdentity) : Prop :=
  s.outboxFingerprint = fingerprintOf cfg s.lastAuthToken

instance (cfg : OutboxConfig) (s : SessionIdentity) : Decidable (s.InStep cfg) :=
  inferInstanceAs (Decidable (_ = _))

theorem fingerprintOf_inj (hinj : Function.Injective cfg.sha256Hex)
    (hanon : ∀ s, cfg.sha256Hex s ≠ "anon") {a b : Option String} (ha : a ≠ some "")
    (hb : b ≠ some "") (h : fingerprintOf cfg a = fingerprintOf cfg b) : a = b := by
  cases a with
  | none =>
    cases b with
    | none => rfl
    | some b =>
      rw [fingerprintOf, fingerprintOf, if_neg fun heq => hb (by rw [heq])] at h
      exact absurd h.symm (hanon b)
  | some a =>
    rw [fingerprintOf, if_neg fun heq => ha (by rw [heq])] at h
    cases b with
    | none => exact absurd h (hanon a)
    | some b =>
      rw [fingerprintOf, if_neg fun heq => hb (by rw [heq])] at h
      rw [hinj h]

/-- The token that is set stays the same, and whether one was ever set. -/
structure SameToken (s' s : SessionIdentity) : Prop where
  hasSetAuth : s'.hasSetAuth = s.hasSetAuth
  lastAuthToken : s'.lastAuthToken = s.lastAuthToken

theorem sameToken_followToken (digest : String → Digest) (s : SessionIdentity) :
    (s.followToken digest).SameToken s := by
  rw [followToken]
  split
  · exact ⟨rfl, rfl⟩
  · split <;> exact ⟨rfl, rfl⟩

theorem sameToken_setAuth (cfg : OutboxConfig) (token : Option String) (s : SessionIdentity) :
    (s.setAuth cfg token).SameToken { s with hasSetAuth := true, lastAuthToken := token } := by
  rw [setAuth]
  split
  · exact sameToken_followToken _ _
  · exact ⟨rfl, rfl⟩

theorem sameToken_digestDone (cfg : OutboxConfig) (d : Digest) (s : SessionIdentity) :
    (s.digestDone cfg d).SameToken s := by
  cases d with
  | token token | fallback token | session key =>
    rw [digestDone]
    split <;> exact ⟨rfl, rfl⟩

theorem sameToken_setSessionFingerprint (cfg : OutboxConfig) (sessionId : Option String)
    (s : SessionIdentity) : (s.setSessionFingerprint cfg sessionId).SameToken s := by
  unfold setSessionFingerprint
  split
  · exact ⟨rfl, rfl⟩
  · cases sessionId with
    | none =>
      obtain ⟨hset, hlast⟩ := sameToken_followToken .fallback
        { s with sessionFingerprintKey := none }
      exact ⟨hset, hlast⟩
    | some id => exact ⟨rfl, rfl⟩

end SessionIdentity

/-! ## Frames -/

/-- The token of the last `SetAuth` of a connection; there is none before the first. -/
def tokenInForce : List ClientFrame → Option String
  | [] => none
  | .setAuth token :: _ => token
  | .connect _ _ :: frames | .mutation _ :: frames | .mutationBatch _ :: frames =>
    tokenInForce frames

/-- Each mutation of a batch was enqueued under the token in force where the batch stands. -/
def BatchesUnderToken : List ClientFrame → Prop
  | [] => True
  | .mutationBatch entries :: frames =>
    (∀ e ∈ entries, e.enqueuedUnder = tokenInForce frames) ∧ BatchesUnderToken frames
  | .setAuth _ :: frames | .connect _ _ :: frames | .mutation _ :: frames =>
    BatchesUnderToken frames

instance decidableBatchesUnderToken : ∀ frames, Decidable (BatchesUnderToken frames)
  | [] => inferInstanceAs (Decidable True)
  | .mutationBatch _ :: frames =>
    have := decidableBatchesUnderToken frames
    inferInstanceAs (Decidable (_ ∧ BatchesUnderToken frames))
  | .setAuth _ :: frames | .connect _ _ :: frames | .mutation _ :: frames =>
    decidableBatchesUnderToken frames

/-- The fingerprint of an entry or record is that of the token it was enqueued under. -/
def Stamped (cfg : OutboxConfig) (fingerprint token : Option String) : Prop :=
  fingerprint = some (SessionIdentity.fingerprintOf cfg token) ∧ token ≠ some ""

namespace Tab

variable {cfg : OutboxConfig} {updaters : Updaters} {gone : ClientMutationRef → Prop} {t s : Tab}

/-- The cached fingerprint is in step with the last token when a mutation is enqueued and when a
chunk is flushed, and no token is empty. What is read from the store was stamped so, and a reset
finds no mutation that bypassed the outbox. -/
def GateGuard (cfg : OutboxConfig) (t : Tab) : TabEvent → Prop
  | .mutation _ _ _ transient _ => transient = true ∨ t.identity.InStep cfg
  | .setAuth token => token ≠ some ""
  | .hydrateRead entries | .mirrorRead entries =>
    ∀ e ∈ entries, Stamped cfg e.identityFingerprint e.enqueuedUnder
  | .connectAck _ known _ _ _ => known = true ∨ ∀ e ∈ t.log.values, e.ref ≠ none
  | .drain => t.identity.InStep cfg
  | _ => True

/-- What the guarded runs keep. -/
structure GateKept (cfg : OutboxConfig) (t : Tab) : Prop where
  token : t.identity.lastAuthToken ≠ some ""
  unset : t.identity.hasSetAuth = false → t.identity.lastAuthToken = none
  stamped : ∀ {k e}, t.log.get? k = some e → e.ref ≠ none →
    Stamped cfg e.identityFingerprint e.enqueuedUnder
  hydrateRead : ∀ {entries}, t.hydration = .read entries →
    ∀ e ∈ entries, Stamped cfg e.identityFingerprint e.enqueuedUnder
  mirrorRead : ∀ {entries}, t.mirrorRead = some entries →
    ∀ e ∈ entries, Stamped cfg e.identityFingerprint e.enqueuedUnder
  silent : t.closed = true → t.sent = []
  inForce : t.closed = false → tokenInForce t.sent = t.identity.lastAuthToken
  batches : ∀ frames ∈ t.sent :: t.sentBefore, BatchesUnderToken frames

namespace GateKept

theorem create (cfg : OutboxConfig) (clientId : String) : GateKept cfg (Tab.create clientId) where
  token := by simp [Tab.create]
  unset _ := rfl
  stamped h := by simp [Tab.create, Reconciler.initial, log] at h
  hydrateRead h := by cases h
  mirrorRead h := by cases h
  silent _ := rfl
  inForce _ := rfl
  batches := by simp [Tab.create, BatchesUnderToken]

section

variable (h : GateKept cfg t)
include h

theorem settles (hs : Settles gone t s) : GateKept cfg s where
  token := hs.identity ▸ h.token
  unset := hs.identity ▸ h.unset
  stamped {k e'} he' href := by
    obtain ⟨e, he, hsame, -⟩ := hs.entry he'
    rw [hsame.identityFingerprint, hsame.enqueuedUnder]
    exact h.stamped he (hsame.ref ▸ href)
  hydrateRead := hs.hydration ▸ h.hydrateRead
  mirrorRead := hs.mirrorRead ▸ h.mirrorRead
  silent hc := by
    rw [hs.sent]
    exact h.silent (hs.closed ▸ hc)
  inForce hc := by
    rw [hs.sent, hs.identity]
    exact h.inForce (hs.closed ▸ hc)
  batches := by
    rw [hs.sent, hs.sentBefore]
    exact h.batches

theorem quiet (same : (s.log, s.identity, s.hydration, s.mirrorRead, s.closed, s.sent,
    s.sentBefore) =
      (t.log, t.identity, t.hydration, t.mirrorRead, t.closed, t.sent, t.sentBefore)) :
    GateKept cfg s := by
  simp only [Prod.mk.injEq] at same
  obtain ⟨log, identity, hydration, mirrorRead, closed, sent, sentBefore⟩ := same
  exact {
    token := identity ▸ h.token
    unset := identity ▸ h.unset
    stamped := log ▸ h.stamped
    hydrateRead := hydration ▸ h.hydrateRead
    mirrorRead := mirrorRead ▸ h.mirrorRead
    silent := by
      rw [closed, sent]
      exact h.silent
    inForce := by
      rw [closed, sent, identity]
      exact h.inForce
    batches := by
      rw [sent, sentBefore]
      exact h.batches }

theorem onIdentity {f : SessionIdentity → SessionIdentity}
    (hf : (f t.identity).SameToken t.identity) : GateKept cfg (t.onIdentity f) :=
  { h with
    token := hf.lastAuthToken ▸ h.token
    unset := fun hunset => hf.lastAuthToken.trans (h.unset (hf.hasSetAuth ▸ hunset))
    inForce := fun hopen => (h.inForce hopen).trans hf.lastAuthToken.symm }

variable {requestId : Nat}

theorem modify {f : PendingMutation → PendingMutation}
    (hf : ∀ e, t.log.get? requestId = some e → (f e).ref ≠ none →
      Stamped cfg (f e).identityFingerprint (f e).enqueuedUnder) :
    GateKept cfg (t.onReconciler (.modify requestId f)) :=
  { h with
    stamped := fun {k e'} he' href => by
      rw [show (t.onReconciler (.modify requestId f)).log.get? k =
        if requestId = k then (t.log.get? k).map f else t.log.get? k from
          MutationLog.get?_modify _ _ _ _] at he'
      split at he'
      · rename_i hk
        obtain ⟨e, he, rfl⟩ := Option.map_eq_some_iff.1 he'
        exact hf e (hk ▸ he) href
      · exact h.stamped he' href }

theorem addEntry {entry : PendingMutation}
    (hentry : entry.ref ≠ none → Stamped cfg entry.identityFingerprint entry.enqueuedUnder) :
    GateKept cfg (t.addEntry entry) :=
  { h with
    stamped := fun {k e} he href => by
      rw [get?_addEntry] at he
      split at he
      · cases he
        exact hentry href
      · exact h.stamped he href }

end

theorem foldl {α : Type*} {f : Tab → α → Tab} {l : List α}
    (hf : ∀ t, ∀ a ∈ l, GateKept cfg t → GateKept cfg (f t a)) :
    ∀ t, GateKept cfg t → GateKept cfg (l.foldl f t) :=
  fun _ h => foldlRecOn l f h fun t h a ha => hf t a ha h

variable (h : GateKept cfg t)
include h

/-- A frame that is not `SetAuth`; a batch has to be under the token in force. -/
theorem send {frame : ClientFrame}
    (htoken : ∀ frames, tokenInForce (frame :: frames) = tokenInForce frames)
    (hbatch : t.closed = false → BatchesUnderToken (frame :: t.sent)) :
    GateKept cfg (t.send frame) := by
  rw [Tab.send]
  split
  · exact h
  · rename_i hopen
    have hopen : t.closed = false := by simpa using hopen
    exact { h with
      silent := fun hc => absurd (hopen.symm.trans hc) (by simp)
      inForce := fun hc => (htoken _).trans (h.inForce hc)
      batches := forall_mem_cons.2 ⟨hbatch hopen, (forall_mem_cons.1 h.batches).2⟩ }

/-! ## Handlers -/

variable {e : PendingMutation}

theorem sendMutation : GateKept cfg (t.sendMutation requestId e) := by
  have hmodify : GateKept cfg
      (t.onReconciler (.modify requestId fun e => { e with status := .inflight })) :=
    h.modify fun e he href => show Stamped cfg e.identityFingerprint e.enqueuedUnder from
      h.stamped he href
  have hsend : GateKept cfg (Tab.send (.mutation (batchEntry requestId e)) _) :=
    hmodify.send (fun _ => rfl) fun _ => (forall_mem_cons.1 h.batches).1
  exact hsend.quiet rfl

theorem issue {entry : PendingMutation} {direct : Bool} :
    GateKept cfg (t.issue requestId entry direct) := by
  have hawait : GateKept cfg
    { t with pendingMutationCallbacks := requestId :: t.pendingMutationCallbacks } := h.quiet rfl
  rw [Tab.issue]
  cases direct with
  | true =>
    cases entry.ref with
    | none => exact hawait.sendMutation
    | some ref => exact hawait.sendMutation.quiet rfl
  | false =>
    cases entry.ref with
    | none => exact hawait
    | some ref => exact hawait.quiet rfl

theorem mutation {call : Nat} {udfPath : String} {update transient : Bool} {now : Nat}
    (hpromises : PromisesKept t) (hguard : transient = true ∨ t.identity.InStep cfg) :
    GateKept cfg (t.mutation cfg updaters call udfPath update transient now) := by
  have hfresh : t.nextRequestId ∉ t.pendingMutationCallbacks := fun hk =>
    lt_irrefl _ (hpromises.known (.inr (.inl hk)))
  have henter : GateKept cfg
    (t.enter (t.newEntry call udfPath update (cfg.outbox && !transient) now)
      (cfg.outbox && !transient)) := by
    refine (h.addEntry fun href => ?_).quiet rfl
    -- a mutation with a number is stamped with the cached fingerprint
    have huse : (cfg.outbox && !transient) = true := by
      by_contra hno
      exact href (if_neg hno)
    have hstep : t.identity.InStep cfg := hguard.resolve_left (by rintro rfl; simp at huse)
    refine ⟨?_, h.token⟩
    rw [newEntry, huse]
    exact congrArg some hstep
  rcases mutation_cases (fun _ => False) hfresh with
    heq | hs | ⟨s, e, hs, -, -, -, -, heq⟩
  · rwa [heq]
  · exact henter.settles hs
  · rw [heq]
    exact (henter.settles hs).issue

theorem addHydratedEntry {e : OutboxEntry}
    (he : Stamped cfg e.identityFingerprint e.enqueuedUnder) :
    GateKept cfg (t.addHydratedEntry cfg updaters e) := by
  rcases settles_addHydratedEntry (fun _ => False) with ⟨hs, -⟩ | ⟨-, heq⟩ | ⟨-, hs⟩
  · exact h.settles hs
  · rwa [heq]
  · have hadd : GateKept cfg (t.addEntry (hydratedEntry cfg e)) := h.addEntry fun _ => he
    exact hadd.settles hs

theorem addActive {entries : List OutboxEntry}
    (hentries : ∀ e ∈ entries, Stamped cfg e.identityFingerprint e.enqueuedUnder) :
    GateKept cfg (t.addActive cfg updaters entries) :=
  foldl (fun _ e he h => h.addHydratedEntry (hentries e (mem_of_mem_filter he))) _ h

theorem rekey {now : Nat} (hnumbered : ∀ {k e}, t.log.get? k = some e → e.ref ≠ none) :
    GateKept cfg (t.rekey now requestId e) ∧
      ∀ {k e'}, (t.rekey now requestId e).log.get? k = some e' → e'.ref ≠ none := by
  rw [Tab.rekey]
  obtain ⟨t', ht', hdequeue, hlog⟩ : ∃ t', (e.ref.elim t fun ref =>
    (t.retire ref).outboxDequeue ref) =
      t' ∧ GateKept cfg t' ∧ t'.log = t.log := by
    cases e.ref with
    | none => exact ⟨_, rfl, h, rfl⟩
    | some ref => exact ⟨_, rfl, h.quiet rfl, rfl⟩
  rw [ht']
  let f : PendingMutation → PendingMutation := fun e => { e with
    ref := some ⟨t'.outboxClientId, t'.outboxNextSeq⟩, order := t'.nextOutboxOrder now }
  have hmodify : GateKept cfg (t'.onReconciler (.modify requestId f)) :=
    hdequeue.modify fun e he _ => show Stamped cfg e.identityFingerprint e.enqueuedUnder from
      hdequeue.stamped he (hnumbered (hlog ▸ he))
  refine ⟨hmodify.quiet rfl, fun {k e'} he' => ?_⟩
  rw [show (t'.renumber now requestId e).log.get? k =
    if requestId = k then (t'.log.get? k).map f else t'.log.get? k from
      MutationLog.get?_modify _ _ _ _, hlog] at he'
  split at he'
  · obtain ⟨e, -, rfl⟩ := Option.map_eq_some_iff.1 he'
    simp
  · exact hnumbered he'

theorem onClientReset {fresh : String} {now : Nat} (hnumbered : ∀ e ∈ t.log.values, e.ref ≠ none) :
    GateKept cfg (t.onClientReset updaters fresh now) := by
  have hfold : ∀ (l : List (Nat × PendingMutation)) (s : Tab), GateKept cfg s →
      (∀ {k e}, s.log.get? k = some e → e.ref ≠ none) →
      GateKept cfg (l.foldl (resetEntry updaters now) s) := by
    intro l
    induction l with
    | nil => exact fun s h _ => h
    | cons p l ih =>
      intro s h hnumbered
      rcases resetEntry_cases (fun _ => False) (t := s) (p := p) with hs | ⟨-, heq⟩
      · refine ih _ (h.settles hs) fun {k e'} he' => ?_
        obtain ⟨e, he, hsame, -⟩ := hs.entry he'
        exact hsame.ref ▸ hnumbered he
      · rw [foldl_cons, heq]
        obtain ⟨hkept, hnumbered⟩ := h.rekey hnumbered
        exact ih _ hkept hnumbered
  refine hfold _ _ (h.quiet rfl) fun {k e} he => hnumbered e ?_
  exact mem_map.2 ⟨(k, e), (OrderedMap.get?_eq_some_iff _).1 he, rfl⟩

theorem initiateHandshake {expect : Bool} :
    GateKept cfg (t.initiateHandshake cfg updaters expect) := by
  rcases settles_initiateHandshake (fun _ => False) with heq | ⟨s, hs, heq⟩
  · rwa [heq]
  · rw [heq]
    have hsend : GateKept cfg (s.send (.connect (outboxHeldFromLog s.log)
        (outboxAckedThrough (outboxHeldFromLog s.log)))) :=
      (h.settles hs).send (fun _ => rfl) fun _ => (forall_mem_cons.1 (h.settles hs).batches).1
    exact hsend.quiet rfl

theorem setAuth {token : Option String} (htoken : token ≠ some "") :
    GateKept cfg (t.setAuth cfg token) := by
  obtain ⟨hset, hlast⟩ := sameToken_setAuth cfg token t.identity
  obtain ⟨hsent, hbefore⟩ := forall_mem_cons.1 h.batches
  have hunset : (t.identity.setAuth cfg token).hasSetAuth ≠ false := by simp [hset]
  rw [Tab.setAuth, Tab.send]
  split
  · rename_i hclosed
    exact { h with
      token := hlast ▸ htoken
      unset := fun hno => absurd hno hunset
      inForce := fun hopen => absurd (hclosed.symm.trans hopen) (by simp) }
  · rename_i hopen
    exact { h with
      token := hlast ▸ htoken
      unset := fun hno => absurd hno hunset
      silent := fun hclosed => absurd hclosed hopen
      inForce := fun _ => hlast.symm
      batches := forall_mem_cons.2 ⟨hsent, hbefore⟩ }

/-- The frames of a connection that was opened again begin with the token. -/
theorem replayAuth (hclosed : t.closed = true) :
    GateKept cfg { t with closed := false }.replayAuth := by
  have hsent := h.silent hclosed
  have hbefore := (forall_mem_cons.1 h.batches).2
  rw [Tab.replayAuth]
  split
  · exact { h with
      silent := fun h => by cases h
      inForce := fun _ => rfl
      batches := forall_mem_cons.2 ⟨by rw [hsent]; trivial, hbefore⟩ }
  · rename_i hunset
    exact { h with
      silent := fun h => by cases h
      inForce := fun _ => by
        rw [hsent]
        exact (h.unset (by simpa using hunset)).symm }

theorem onTransportReopened {expect : Bool} (hclosed : t.closed = true) :
    GateKept cfg (t.onTransportReopened cfg updaters expect) := by
  have hauth := h.replayAuth hclosed
  rw [Tab.onTransportReopened]
  split
  · exact hauth.initiateHandshake
  · exact foldl (fun _ _ _ h => h.sendMutation) _ hauth

/-- A close hangs up, so there are no frames until the connection is back. -/
theorem hangUp (hs : Settles gone { t with closed := true } s) : GateKept cfg s.hangUp where
  token := hs.identity ▸ h.token
  unset := hs.identity ▸ h.unset
  stamped {k e'} he' href := by
    obtain ⟨e, he, hsame, -⟩ := hs.entry he'
    rw [hsame.identityFingerprint, hsame.enqueuedUnder]
    exact h.stamped he (hsame.ref ▸ href)
  hydrateRead := hs.hydration ▸ h.hydrateRead
  mirrorRead := hs.mirrorRead ▸ h.mirrorRead
  silent _ := rfl
  inForce hc := absurd (hs.closed.symm.trans hc) (by simp)
  batches := by
    show ∀ frames ∈ [] :: s.sent :: s.sentBefore, BatchesUnderToken frames
    rw [hs.sent, hs.sentBefore]
    exact forall_mem_cons.2 ⟨trivial, h.batches⟩

/-- What a flush sends was enqueued under the token in force. -/
theorem flushChunk (hinj : Function.Injective cfg.sha256Hex) (hanon : ∀ s, cfg.sha256Hex s ≠ "anon")
    (hstep : t.identity.InStep cfg) : GateKept cfg (t.flushChunk cfg updaters) := by
  obtain ⟨s, chunk, hs, hchunk, heq | heq⟩ := flushChunk_cases cfg updaters (fun _ => False) t
  · rw [heq]
    exact h.settles hs
  · rw [heq]
    have hkept := h.settles hs
    have hsend : GateKept cfg
      (s.send (.mutationBatch (chunk.map fun p => batchEntry p.1 p.2))) := by
      refine hkept.send (fun _ => rfl) fun hopen => ⟨?_, (forall_mem_cons.1 hkept.batches).1⟩
      rw [hkept.inForce hopen, hs.identity]
      rintro _ he
      obtain ⟨p, hp, rfl⟩ := mem_map.1 he
      obtain ⟨hdrain, hgate⟩ := hchunk p hp
      obtain ⟨hget, href, -⟩ := mem_drainableEntries.1 hdrain
      obtain ⟨hstamp, htoken⟩ := h.stamped hget href
      rw [hstamp, hstep] at hgate
      exact fingerprintOf_inj hinj hanon htoken h.token
        (Option.some.inj (hgate.resolve_left (by simp)))
    exact hsend.quiet rfl

theorem writeDone {ok : Bool} : GateKept cfg (t.writeDone ok) := by
  have htail : GateKept cfg { t with writes := t.writes.tail } := h.quiet rfl
  rw [Tab.writeDone]
  split
  · split
    · exact htail.modify fun e he href => show Stamped cfg
        e.identityFingerprint e.enqueuedUnder from h.stamped he href
    · exact htail
  · exact htail

/-- The leader's read goes on. -/
theorem reading {hydration : Hydration} {leader : Bool}
    (hread : ∀ {entries}, hydration = .read entries →
      ∀ e ∈ entries, Stamped cfg e.identityFingerprint e.enqueuedUnder) :
    GateKept cfg { t with leader := leader, hydration := hydration } :=
  { h with
    hydrateRead := hread }

theorem step {ev : TabEvent} (hpromises : PromisesKept t) (hinj : Function.Injective cfg.sha256Hex)
    (hanon : ∀ s, cfg.sha256Hex s ≠ "anon") (hguard : GateGuard cfg t ev)
    (hstep : t.step cfg updaters ev = some s) : GateKept cfg s := by
  cases stepped_of_step hstep with
  | settled _ hs => exact h.settles hs
  | mutation => exact h.mutation hpromises hguard
  | setAuth => exact h.setAuth hguard
  | setSessionFingerprint =>
    exact h.onIdentity (sameToken_setSessionFingerprint _ _ _)
  | digestDone => exact h.onIdentity (sameToken_digestDone _ _ _)
  | closed _ hs => exact h.hangUp hs
  | reopened hclosed => exact h.onTransportReopened hclosed
  | reset =>
    refine GateKept.onClientReset ?_ (hguard.resolve_left (by simp))
    exact h.quiet rfl
  | becomeLeader | handshakeDone => exact h.reading fun hread => by cases hread
  | hydrateRead => exact h.reading fun hread => by cases hread; exact hguard
  | hydrated hread =>
      exact GateKept.addActive (h.reading fun hread => by cases hread) (h.hydrateRead hread)
  | handshake => exact GateKept.initiateHandshake (h.reading fun hread => by cases hread)
  | mirrorRead =>
    exact { h with
      mirrorRead := fun hread => by cases hread; exact hguard }
  | mirrored hread =>
    have hnone : GateKept cfg { t with mirrorRead := none } := { h with
      mirrorRead := fun hread => by cases hread }
    exact (hnone.addActive (h.mirrorRead hread)).settles
      (PromisesKept.settles_mirrorFromStore (hpromises.quiet rfl))
  | drain => exact h.flushChunk hinj hanon hguard
  | writeDone => exact h.writeDone

end GateKept

/-! ## What a flush rejects -/

/-- The error of a mutation that was queued under another identity. -/
def identityError (udfPath : String) : OutboxEntryError :=
  ⟨identityMessage udfPath, some offlineIdentityChanged⟩

/-- From `t` to `s` the mutation `p` was settled because of its identity: its entry is gone, its
promise was rejected and its record is marked, the latter unless a throwing update had taken the
entry before. -/
structure RejectedForIdentity (t s : Tab) (p : Nat × PendingMutation) : Prop where
  gone : s.log.get? p.1 = none
  settled : p.1 ∉ s.pendingMutationCallbacks
  rejected : p.1 ∈ t.pendingMutationCallbacks → (p.1, .rejected (identityMessage p.2.udfPath)
    (some offlineIdentityChanged)) ∈ s.settlements
  marked : p.1 ∈ s.reconciler.thrown ∨ ∀ ref, p.2.ref = some ref →
    .updateStatus ref .failed (some (identityError p.2.udfPath)) ∈ s.writes

section

variable {p : Nat × PendingMutation} {requestId : Nat} {k : Nat}

theorem get?_onMutationFailure_self (r : Reconciler) :
    (r.onMutationFailure updaters requestId).log.get? requestId = none := by
  rw [Reconciler.onMutationFailure]
  split
  · rw [Reconciler.rebuild, get?_replay, Reconciler.delete, OrderedMap.get?_erase,
      if_pos rfl]
    rfl
  · rename_i hhas
    simpa using hhas

theorem get?_onMutationFailure_ne {r : Reconciler} (hk : k ≠ requestId)
    (he : r.log.get? k = some e) :
    (∃ e', (r.onMutationFailure updaters requestId).log.get? k = some e' ∧ e'.Same e) ∨
      k ∈ (r.onMutationFailure updaters requestId).thrown := by
  rw [Reconciler.onMutationFailure]
  split
  · have hget : (r.delete requestId).log.get? k = some e := by
      rw [Reconciler.delete, OrderedMap.get?_erase, if_neg hk.symm, he]
    cases hupdate : e.update with
    | false =>
      refine .inl ⟨e, ?_, .rfl⟩
      rw [Reconciler.rebuild, get?_replay, hget]
      simp [hupdate]
    | true =>
      cases htouched : updaters (r.delete requestId).passes k with
      | none =>
        exact .inr (mem_append_left _ ((mem_throwing _).2 ⟨e, hget, hupdate, htouched⟩))
      | some touched =>
        refine .inl ⟨{ e with touched := touched }, ?_, ⟨rfl, rfl, rfl, rfl⟩⟩
        rw [Reconciler.rebuild, get?_replay, hget]
        simp [hupdate, htouched]
  · exact .inl ⟨e, he, .rfl⟩

variable {code : Option String} {message : String}

theorem reconciler_settlePending {o : Settlement} :
    (t.settlePending requestId o).reconciler = t.reconciler := by
  rw [settlePending]
  split <;> rfl

theorem reconciler_settleTerminal (t : Tab) (requestId : Nat) (code : Option String)
    (message : String) : (t.settleTerminal updaters requestId code message).reconciler =
    t.reconciler.onMutationFailure updaters requestId := by
  rw [settleTerminal, rejectPending]
  cases href : t.refOf requestId with
  | none | some ref =>
    show Reconciler.onMutationFailure updaters requestId
      ((t.retireRequest requestId).settlePending requestId _).reconciler = _
    rw [reconciler_settlePending, retireRequest, href]
    rfl

theorem thrown_settleTerminal (hk : k ∈ t.reconciler.thrown) :
    k ∈ (t.settleTerminal updaters requestId code message).reconciler.thrown :=
  (show Settles (fun _ => False) t (t.settleTerminal updaters requestId code message) from
    settles_settleTerminal).thrown_mono hk

theorem settlePending_retire {ref : ClientMutationRef} {o : Settlement} :
    (t.retire ref).settlePending requestId o = (t.settlePending requestId o).retire ref := by
  rw [settlePending, settlePending, apply_ite (retire ref)]
  rfl

theorem pending_settleTerminal (updaters : Updaters) (t : Tab) (requestId : Nat)
    (code : Option String) (message : String) :
    (t.settleTerminal updaters requestId code message).pendingMutationCallbacks =
        (t.settlePending requestId (.rejected message code)).pendingMutationCallbacks ∧
      (t.settleTerminal updaters requestId code message).settlements =
        (t.settlePending requestId (.rejected message code)).settlements := by
  rw [settleTerminal, rejectPending, retireRequest]
  cases t.refOf requestId with
  | none => exact ⟨rfl, rfl⟩
  | some ref =>
    dsimp only [Option.elim]
    rw [settlePending_retire]
    exact ⟨rfl, rfl⟩

theorem rejectedForIdentity_settleTerminal
    (hp : (∃ e, t.log.get? p.1 = some e ∧ e.Same p.2) ∨ p.1 ∈ t.reconciler.thrown) :
    RejectedForIdentity t (t.settleTerminal updaters p.1 (some offlineIdentityChanged)
      (identityMessage p.2.udfPath)) p := by
  obtain ⟨hcallbacks, hsettlements⟩ := pending_settleTerminal updaters t p.1
    (some offlineIdentityChanged) (identityMessage p.2.udfPath)
  refine ⟨?_, ?_, fun hk => ?_, ?_⟩
  · rw [log, reconciler_settleTerminal]
    exact get?_onMutationFailure_self _
  · rw [hcallbacks]
    exact notMem_settlePending
  · rw [hsettlements, settlePending, if_pos hk]
    exact mem_cons_self
  · rcases hp with ⟨e, he, hsame⟩ | hthrown
    · refine .inr fun ref href => ?_
      have hrefOf : t.refOf p.1 = some ref := by rw [refOf, he, Option.bind_some, hsame.ref, href]
      rw [settleTerminal, hrefOf]
      exact mem_append_right _ (mem_singleton.2 rfl)
    · exact .inl (thrown_settleTerminal hthrown)

theorem mem_pending_settleTerminal (hk : k ≠ requestId) :
    k ∈ (t.settleTerminal updaters requestId code message).pendingMutationCallbacks ↔
      k ∈ t.pendingMutationCallbacks := by
  rw [(pending_settleTerminal _ _ _ _ _).1, settlePending]
  split
  · simp [hk]
  · exact Iff.rfl

theorem RejectedForIdentity.settles {s' : Tab} (h : RejectedForIdentity t s p)
    (hs : Settles gone s s') : RejectedForIdentity t s' p where
  gone := by
    by_contra hne
    obtain ⟨e', he'⟩ := Option.ne_none_iff_exists'.1 hne
    obtain ⟨e, he, -⟩ := hs.entry he'
    exact absurd (h.gone.symm.trans he) (by simp)
  settled := fun hk => h.settled (hs.callbacks hk)
  rejected := fun hk => hs.settlements (h.rejected hk)
  marked := h.marked.imp (fun hk => hs.thrown_mono hk) fun hmark ref href => by
    obtain ⟨ws, hws, -⟩ := hs.writes
    rw [hws]
    exact mem_append_left _ (hmark ref href)

theorem RejectedForIdentity.sendBatch {chunk : List (Nat × PendingMutation)}
    (h : RejectedForIdentity t s p) : RejectedForIdentity t (s.sendBatch chunk) p := by
  rw [Tab.sendBatch, Tab.send]
  split
  · exact ⟨h.gone, h.settled, h.rejected, h.marked⟩
  · exact ⟨h.gone, h.settled, h.rejected, h.marked⟩

theorem RejectedForIdentity.of_pending {t' : Tab} (h : RejectedForIdentity t' s p)
    (hk : p.1 ∈ t.pendingMutationCallbacks → p.1 ∈ t'.pendingMutationCallbacks) :
    RejectedForIdentity t s p :=
  { h with rejected := fun hmem => h.rejected (hk hmem) }

/-- The loop of a flush rejects each mutation of another identity that it comes to before the chunk
is full. -/
theorem rejectedForIdentity_collectChunk (cfg : OutboxConfig) (updaters : Updaters)
    {fingerprint : String} (l : List (Nat × PendingMutation)) :
    ∀ (chunk : List (Nat × PendingMutation)) (t : Tab), (l.map Prod.fst).Nodup → p ∈ l →
      p.2.identityFingerprint.isSome = true → p.2.identityFingerprint ≠ some fingerprint →
      ((∃ e, t.log.get? p.1 = some e ∧ e.Same p.2) ∨ p.1 ∈ t.reconciler.thrown) →
      cfg.chunkSize ≤ (t.collectChunk cfg updaters fingerprint l chunk).2.length ∨
        RejectedForIdentity t (t.collectChunk cfg updaters fingerprint l chunk).1 p := by
  induction l with
  | nil => exact fun _ _ _ hp => by cases hp
  | cons q l ih =>
    intro chunk t hnodup hp hsome hne hentry
    obtain ⟨requestId, e⟩ := q
    rw [map_cons, nodup_cons] at hnodup
    rw [collectChunk]
    split
    · exact .inl ‹_›
    · rcases mem_cons.1 hp with rfl | hp
      · -- the mutation itself: it does not pass the gate
        rw [if_pos (by simp [hsome, hne])]
        exact .inr ((rejectedForIdentity_settleTerminal hentry).settles
          (settles_collectChunk cfg updaters (fun _ => False) _ l chunk _).1)
      · have hk : p.1 ≠ requestId := fun heq =>
          hnodup.1 (heq ▸ mem_map.2 ⟨p, hp, rfl⟩)
        split
        · -- another one that does not pass
          refine (ih chunk _ hnodup.2 hp hsome hne ?_).imp_right fun h =>
            h.of_pending (mem_pending_settleTerminal hk).2
          rcases hentry with ⟨e', he', hsame⟩ | hthrown
          · rw [log, reconciler_settleTerminal]
            refine (get?_onMutationFailure_ne hk he').imp_left ?_
            rintro ⟨e'', he'', hsame'⟩
            exact ⟨e'', he'', hsame'.trans hsame⟩
          · exact .inr (thrown_settleTerminal hthrown)
        · -- another one that passes
          split
          · exact ih chunk t hnodup.2 hp hsome hne hentry
          · refine (ih _ _ hnodup.2 hp hsome hne ?_).imp_right fun h => h.of_pending id
            refine hentry.imp_left ?_
            rintro ⟨e', he', hsame⟩
            refine ⟨e', ?_, hsame⟩
            rw [show (t.setStatus requestId _ .inflight .inflight).log.get? p.1 =
              if requestId = p.1 then (t.log.get? p.1).map _ else t.log.get? p.1 from
                MutationLog.get?_modify _ _ _ _, if_neg hk.symm, he']

theorem nodup_drainableEntries : (t.drainableEntries.map Prod.fst).Nodup := by
  rw [drainableEntries, ((perm_insertionSort _ _).map Prod.fst).nodup_iff]
  exact t.log.nodup.sublist (filter_sublist.map Prod.fst)

/-- A flush rejects each mutation of another identity, unless the chunk is full before. -/
theorem rejectedForIdentity_flushChunk (hp : p ∈ t.drainableEntries)
    (hsome : p.2.identityFingerprint.isSome = true)
    (hne : p.2.identityFingerprint ≠ some t.identity.outboxFingerprint) :
    cfg.chunkSize ≤ ((t.flushChunk cfg updaters).active.getD []).length ∨
      RejectedForIdentity t (t.flushChunk cfg updaters) p := by
  obtain ⟨hs, hchunk⟩ := settles_collectChunk cfg updaters (fun _ => False)
    t.identity.outboxFingerprint t.drainableEntries [] t
  have hcases := rejectedForIdentity_collectChunk cfg updaters t.drainableEntries [] t
    nodup_drainableEntries hp hsome hne
    (.inl ⟨p.2, (mem_drainableEntries.1 hp).1, .rfl⟩)
  rw [flushChunk]
  generalize t.collectChunk cfg updaters t.identity.outboxFingerprint t.drainableEntries [] = r
    at hs hchunk hcases ⊢
  split
  · rename_i hempty
    refine hcases.imp_left fun hfull => le_trans hfull ?_
    rw [isEmpty_iff.1 hempty]
    exact Nat.zero_le _
  · refine hcases.imp (fun hfull => ?_) fun h => ?_
    · -- every mutation of the chunk has a number, so the chunk in flight is as long
      have hlength : (r.2.filterMap fun p => p.2.ref.map fun ref =>
          (⟨p.1, ref, p.2.udfPath⟩ : ChunkEntry)).length = r.2.length := by
        rw [length_filterMap_eq_countP, countP_eq_length]
        intro q hq
        have hdrain := ((hchunk q hq).resolve_left not_mem_nil).1
        simpa [Option.isSome_iff_ne_none] using (mem_drainableEntries.1 hdrain).2.1
      exact le_of_le_of_eq hfull hlength.symm
    · exact h.sendBatch

end

/-! ## Runs -/

instance (cfg : OutboxConfig) (fingerprint token : Option String) :
    Decidable (Stamped cfg fingerprint token) :=
  inferInstanceAs (Decidable (_ ∧ _))

instance (cfg : OutboxConfig) (t : Tab) (ev : TabEvent) : Decidable (GateGuard cfg t ev) := by
  unfold GateGuard
  split <;> infer_instance

theorem gateKept_run (hinj : Function.Injective cfg.sha256Hex)
    (hanon : ∀ s, cfg.sha256Hex s ≠ "anon") {clientId : String} {es : List TabEvent}
    (hg : Guarded (step cfg updaters) (GateGuard cfg) (create clientId) es)
    (hr : run (step cfg updaters) (create clientId) es = some t) : GateKept cfg t ∧
    PromisesKept t :=
  run_invariant_of_guarded (I := fun t => GateKept cfg t ∧ PromisesKept t)
    (fun _ _ _ h hguard hstep => ⟨h.1.step h.2 hinj hanon hguard hstep, h.2.step hstep⟩)
    ⟨.create cfg clientId, .create clientId⟩ hg hr

/-! ## When the fingerprint is in step -/

/-- In the runs that enqueue and flush only with the fingerprint in step: every mutation of a drain
chunk was enqueued under the token in force when the chunk was sent, and a flush settles each queued
mutation of another token, unless the chunk is full before. -/
theorem drain_respects_identity (hinj : Function.Injective cfg.sha256Hex)
    (hanon : ∀ s, cfg.sha256Hex s ≠ "anon") {clientId : String} {es : List TabEvent}
    (hg : Guarded (step cfg updaters) (GateGuard cfg) (create clientId) es)
    (hr : run (step cfg updaters) (create clientId) es = some t) :
    (∀ frames ∈ t.sent :: t.sentBefore, BatchesUnderToken frames) ∧
      ∀ s, t.step cfg updaters .drain = some s → t.identity.InStep cfg →
        ∀ p ∈ t.drainableEntries, p.2.enqueuedUnder ≠ t.identity.lastAuthToken →
          cfg.chunkSize ≤ (s.active.getD []).length ∨ RejectedForIdentity t s p := by
  obtain ⟨hkept, -⟩ := gateKept_run hinj hanon hg hr
  refine ⟨hkept.batches, fun s hstep hinStep p hp hother => ?_⟩
  obtain ⟨-, hs⟩ := Option.ite_none_right_eq_some.1 hstep
  cases hs
  obtain ⟨hget, href, -⟩ := mem_drainableEntries.1 hp
  obtain ⟨hstamp, htoken⟩ := hkept.stamped hget href
  refine rejectedForIdentity_flushChunk hp (by rw [hstamp]; rfl) fun heq => hother ?_
  rw [hstamp, hinStep] at heq
  exact fingerprintOf_inj hinj hanon htoken hkept.token (Option.some.inj heq)

/-! ## A flush before the digest -/

/-- An outbox, and a digest without collisions. -/
def gateConfig : OutboxConfig := ⟨true, 1000, 50, false, fun _ => false, fun s => "#" ++ s⟩

theorem gateConfig_injective : Function.Injective gateConfig.sha256Hex := by
  intro a b h
  exact (String.append_right_inj _).1 h

theorem gateConfig_ne_anon (s : String) : gateConfig.sha256Hex s ≠ "anon" := by
  intro h
  have := congrArg String.toList h
  simp [gateConfig] at this

def gateUpdaters : Updaters := fun _ _ => some true

/-- Signed in as A; a mutation is made while the connection is down and kept; the connection and the
drain are ready again. -/
def gateRun : List TabEvent :=
  [.setAuth (some "A"), .digestDone (.token "A"), .becomeLeader, .hydrateRead [], .hydrated,
    .ensureInitialHandshake false, .transportClosed, .mutation 0 "items:add" false false 1,
    .writeDone true, .transportReopened false, .connectAck 0 true [] "" 2, .setAuth (some "B")]

def gateTab (es : List TabEvent) : Tab :=
  (run (step gateConfig gateUpdaters) (create "c") es).getD (create "c")

/-- The digest of B is not done, so the gate compares with the fingerprint of A: the mutation of A
goes out after the `SetAuth` of B. -/
theorem flush_before_digest :
    run (step gateConfig gateUpdaters) (create "c") (gateRun ++ [.drain]) =
        some (gateTab (gateRun ++ [.drain])) ∧
      (gateTab (gateRun ++ [.drain])).sent = [.mutationBatch [⟨0, 0, some "A", some ⟨"c", 0⟩⟩],
        .setAuth (some "B"), .connect [⟨"c", 0⟩] [], .setAuth (some "A")] ∧
      ¬BatchesUnderToken (gateTab (gateRun ++ [.drain])).sent := by
  refine ⟨rfl, ?_, ?_⟩ <;> decide +kernel

/-- With the digest of B done, the flush rejects the mutation of A. -/
theorem drain_respects_identity_rejects :
    let t := gateTab (gateRun ++ [.digestDone (.token "B")])
    Guarded (step gateConfig gateUpdaters) (GateGuard gateConfig) (create "c")
        (gateRun ++ [.digestDone (.token "B")]) ∧
      t.drainableEntries.map (fun p => p.2.enqueuedUnder) = [some "A"] ∧
      t.identity.lastAuthToken = some "B" ∧
      (∀ frames ∈ t.sent :: t.sentBefore, BatchesUnderToken frames) ∧
      ∀ s, t.step gateConfig gateUpdaters .drain = some s → t.identity.InStep gateConfig →
        ∀ p ∈ t.drainableEntries, p.2.enqueuedUnder ≠ t.identity.lastAuthToken →
          gateConfig.chunkSize ≤ (s.active.getD []).length ∨ RejectedForIdentity t s p := by
  refine (and_iff_left_of_imp fun hg => ⟨by decide +kernel, by decide +kernel, ?_⟩).2
    (by decide +kernel)
  exact drain_respects_identity gateConfig_injective gateConfig_ne_anon hg rfl

end Tab

end Helipod
