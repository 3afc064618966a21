import Helipod.Client.Settling

/-!
# The steps of a tab

What each step of a tab does, said once: it settles mutations, or it settles them and then hangs up
or sends a frame, or it adds an entry to the log and settles. The proofs about tabs take a step
apart with the lemmas of this file and do not unfold the handlers.

Results:
* `settles_of_step`: the events that only settle mutations.
* `settles_onTransportClosed`, `settles_initiateHandshake`, `settles_mirrorLog`,
  `settles_collectChunk`, `resetEntry_cases`: the parts of the others.
* `settles_addHydratedEntry`, `mutation_cases`: how an entry comes into the log.
* `stepped_of_step`: all steps.
-/

namespace Helipod

open OrderedMap List Option

/-- Events that only settle mutations. -/
def TabEvent.settlesOnly : TabEvent → Bool
  | .transition _ | .mutationResponse _ _ _ | .gateTimeout _ | .crossTabSettle _ | .resume => true
  | .connectAck _ known _ _ _ => known
  | _ => false

namespace Tab

variable {updaters : Updaters} {gone : ClientMutationRef → Prop} {t s : Tab} {k requestId : Nat}

/-! ## Steps -/

/-- Which numbers the outside makes the tab let go of: a message says so, a read does not have them
among the active records, or the connection closed on them before they could be parked. -/
def goneAt (t : Tab) : TabEvent → ClientMutationRef → Prop
  | .transportClosed, ref | .close, ref =>
    ∃ k e, t.log.get? k = some e ∧ closeDisposition t.outboxArmed e = .reject ∧ e.ref = some ref
  | .crossTabSettle b, ref => ref = b.ref
  | .mirrored, ref =>
    (storedFor (t.mirrorRead.getD []) ref).any (·.status.isActive) = false
  | _, _ => False

variable {cfg : OutboxConfig}

theorem settles_of_step {ev : TabEvent} (h : t.step cfg updaters ev = some s)
    (hev : ev.settlesOnly = true) : Settles (t.goneAt ev) t s := by
  cases ev with
  | transition endTs =>
    obtain ⟨-, h⟩ := ite_none_left_eq_some.1 h
    cases h
    exact settles_onTransition
  | mutationResponse request result stops =>
    rw [step] at h
    split at h
    · obtain ⟨-, h⟩ := ite_none_left_eq_some.1 h
      cases h
      exact settles_onMutationResponse.after_quiet (fun _ => id) rfl
    · cases h
  | connectAck request known results fresh now =>
    rw [step] at h
    split at h
    · obtain ⟨-, h⟩ := ite_none_left_eq_some.1 h
      cases h
      obtain rfl : known = true := hev
      exact (Settles.foldl (fun _ _ => settles_settleVerdict) _ _).after_quiet (fun _ => id) rfl
    · cases h
  | gateTimeout requestId =>
    cases h
    exact settles_onGateTimeout
  | crossTabSettle b =>
    obtain ⟨-, h⟩ := ite_none_left_eq_some.1 h
    cases h
    exact settles_onCrossTabSettle
  | resume =>
    cases h
    exact .quiet (fun _ => id) rfl
  | _ => cases hev

/-- Reverting a chunk leaves no entry with another status than it had, except for unsent ones. -/
theorem get?_revertActive {e' : PendingMutation} (h : t.revertActive.log.get? k = some e') :
    e'.status = .unsent ∨ t.log.get? k = some e' := by
  have hfold : ∀ (l : List ChunkEntry) (s : Tab),
      (l.foldl (fun t c => t.setStatus c.requestId c.ref .unsent .unsent) s).log.get? k = some e' →
        e'.status = .unsent ∨ s.log.get? k = some e' := by
    intro l
    induction l with
    | nil => exact fun s h => .inr h
    | cons c l ih =>
      intro s h
      refine (ih _ h).elim .inl fun h => ?_
      rw [show (s.setStatus c.requestId c.ref .unsent .unsent).log.get? k =
        if c.requestId = k then (s.log.get? k).map fun e => { e with status := .unsent }
        else s.log.get? k from MutationLog.get?_modify _ _ _ _] at h
      split at h
      · obtain ⟨e, -, rfl⟩ := map_eq_some_iff.1 h
        exact .inl rfl
      · exact .inr h
  exact hfold _ { t with active := none } h

@[simp] theorem outboxArmed_revertActive : t.revertActive.outboxArmed = t.outboxArmed := by
  have hfold : ∀ (l : List ChunkEntry) (s : Tab),
      (l.foldl (fun t c => t.setStatus c.requestId c.ref .unsent .unsent) s).outboxArmed =
        s.outboxArmed := by
    intro l
    induction l with
    | nil => exact fun _ => rfl
    | cons c l ih => exact fun s => ih _
  exact hfold _ _

theorem settles_revertActive_closeEntries :
    Settles (t.goneAt .transportClosed) t (t.revertActive.closeEntries updaters) := by
  refine settles_revertActive.trans (settles_closeEntries fun {k e ref} he hreject href => ?_)
  rw [outboxArmed_revertActive] at hreject
  rcases get?_revertActive he with hunsent | he
  · rw [closeDisposition, hunsent] at hreject
    cases hreject
  · exact ⟨k, e, he, hreject, href⟩

theorem settles_onTransportClosed (updaters : Updaters) (t : Tab) :
    ∃ s, Settles (t.goneAt .transportClosed) { t with closed := true } s ∧
      t.onTransportClosed updaters = s.hangUp :=
  ⟨_, (settles_revertActive_closeEntries
    (t := { t with closed := true, outboxConnectSent := false })).after_quiet
      (fun _ => id) rfl, rfl⟩

theorem settles_close (updaters : Updaters) (t : Tab) :
    ∃ s, Settles (t.goneAt .transportClosed) { t with closed := true } s ∧
      t.close updaters = s.hangUp := by
  obtain ⟨s, hs, heq⟩ := settles_onTransportClosed updaters
    { t with stopped := true, leader := false, active := none }
  exact ⟨s, hs.after_quiet (fun _ => id) rfl, heq⟩

theorem settles_initiateHandshake (gone : ClientMutationRef → Prop) {expect : Bool} :
    t.initiateHandshake cfg updaters expect = t ∨
      ∃ s, Settles gone t s ∧ t.initiateHandshake cfg updaters expect = s.sendConnect := by
  rw [initiateHandshake]
  split
  · exact .inl rfl
  · exact .inr ⟨_, .after_quiet settles_beginBaselineAwait (by exact fun _ => id) (by rfl), rfl⟩

theorem settles_mirrorLog {entries : List OutboxEntry} {l : List (Nat × PendingMutation)}
    (hl : ∀ p ∈ l, p.1 < t.nextRequestId) :
    Settles (fun ref => (storedFor entries ref).any (·.status.isActive) = false) t
      (l.foldl (mirrorEntry updaters entries) t) := by
  induction l generalizing t with
  | nil => exact .refl
  | cons p l ih =>
    have hp := settles_mirrorEntry updaters entries (hl p mem_cons_self)
    exact hp.trans (ih fun q hq => hp.nextRequestId ▸ hl q (mem_cons_of_mem _ hq))

theorem mem_drainableEntries {p : Nat × PendingMutation} : p ∈ t.drainableEntries ↔
    t.log.get? p.1 = some p.2 ∧ p.2.ref ≠ none ∧ p.2.durable = true ∧
      p.2.status.isQueued = true := by
  rw [drainableEntries, (perm_insertionSort _ _).mem_iff, mem_filter,
    get?_eq_some_iff]
  simp [isSome_iff_ne_none, and_assoc]

/-- The loop of a flush settles, and takes mutations that pass the gate. -/
theorem settles_collectChunk (cfg : OutboxConfig) (updaters : Updaters)
    (gone : ClientMutationRef → Prop) (fingerprint : String) (l : List (Nat × PendingMutation)) :
    ∀ (chunk : List (Nat × PendingMutation)) (t : Tab),
      Settles gone t (t.collectChunk cfg updaters fingerprint l chunk).1 ∧
        ∀ p ∈ (t.collectChunk cfg updaters fingerprint l chunk).2, p ∈ chunk ∨ p ∈ l ∧
          (p.2.identityFingerprint = none ∨ p.2.identityFingerprint = some fingerprint) := by
  induction l with
  | nil => exact fun chunk t => ⟨.refl, fun p => Or.inl⟩
  | cons q l ih =>
    intro chunk t
    obtain ⟨requestId, e⟩ := q
    rw [collectChunk]
    split
    · exact ⟨.refl, fun p => Or.inl⟩
    · split
      · obtain ⟨hs, hchunk⟩ := ih chunk (t.settleTerminal updaters requestId
          (some offlineIdentityChanged) (identityMessage e.udfPath))
        exact ⟨settles_settleTerminal.trans hs, fun p hp => (hchunk p hp).imp_right
          (And.imp_left (mem_cons_of_mem _))⟩
      · rename_i hgate
        have hpass : e.identityFingerprint = none ∨ e.identityFingerprint = some fingerprint := by
          cases hf : e.identityFingerprint with
          | none => exact .inl rfl
          | some f => exact .inr (by simpa [hf] using hgate)
        split
        · obtain ⟨hs, hchunk⟩ := ih chunk t
          exact ⟨hs, fun p hp => (hchunk p hp).imp_right
            (And.imp_left (mem_cons_of_mem _))⟩
        · rename_i ref href
          obtain ⟨hs, hchunk⟩ := ih (chunk ++ [(requestId, e)])
            (t.setStatus requestId ref .inflight .inflight)
          refine ⟨(settles_setStatus rfl rfl).trans hs, fun p hp => ?_⟩
          rcases hchunk p hp with hp | ⟨hp, hp'⟩
          · refine (mem_append.1 hp).imp_right fun hp => ?_
            obtain rfl := mem_singleton.1 hp
            exact ⟨mem_cons_self, hpass⟩
          · exact .inr ⟨mem_cons_of_mem _ hp, hp'⟩

/-- A flush settles, and sends what has passed the gate, if anything has. -/
theorem flushChunk_cases (cfg : OutboxConfig) (updaters : Updaters)
    (gone : ClientMutationRef → Prop) (t : Tab) : ∃ s chunk, Settles gone t s ∧
      (∀ p ∈ chunk, p ∈ t.drainableEntries ∧ (p.2.identityFingerprint = none ∨
        p.2.identityFingerprint = some t.identity.outboxFingerprint)) ∧
      (t.flushChunk cfg updaters = s ∨ t.flushChunk cfg updaters = s.sendBatch chunk) := by
  obtain ⟨hs, hchunk⟩ := settles_collectChunk cfg updaters gone t.identity.outboxFingerprint
    t.drainableEntries [] t
  refine ⟨_, _, hs, fun p hp => (hchunk p hp).resolve_left not_mem_nil, ?_⟩
  rw [flushChunk]
  split
  · exact .inl rfl
  · exact .inr rfl

theorem resetEntry_cases (gone : ClientMutationRef → Prop) {now : Nat} {p : Nat × PendingMutation} :
    Settles gone t (t.resetEntry updaters now p) ∨
      ((t.log.get? p.1).getD p.2).status = .unsent ∧
        t.resetEntry updaters now p = t.rekey now p.1 ((t.log.get? p.1).getD p.2) := by
  rw [resetEntry]
  generalize he : (t.log.get? p.1).getD p.2 = e
  cases hstatus : e.status with
  | unsent => exact .inr ⟨rfl, rfl⟩
  | parked =>
    refine .inl (settles_resetParked fun e' he' => ?_)
    rw [he', getD_some] at he
    rw [he]
  | inflight | completed commitTs => exact .inl .refl

/-! ## New mutations -/

/-- The log gets an entry under the next request id. -/
def addEntry (entry : PendingMutation) (t : Tab) : Tab :=
  { t with
    reconciler := { t.reconciler with log := t.log.set t.nextRequestId entry }
    nextRequestId := t.nextRequestId + 1 }

/-- The same for a call of `mutation`, which may take a number. -/
def enter (entry : PendingMutation) (useOutbox : Bool) (t : Tab) : Tab :=
  { t.addEntry entry with
    outboxNextSeq := if useOutbox then t.outboxNextSeq + 1 else t.outboxNextSeq
    outboxOrderCounter := if useOutbox then entry.order else t.outboxOrderCounter }

@[simp] theorem get?_addEntry {entry : PendingMutation} :
    (t.addEntry entry).log.get? k = if t.nextRequestId = k then some entry else t.log.get? k :=
  get?_set _

theorem settles_addHydratedEntry (gone : ClientMutationRef → Prop) {e : OutboxEntry} :
    Settles gone t (t.addHydratedEntry cfg updaters e) ∧
      e.ref ∈ (t.addHydratedEntry cfg updaters e).retired ∨
    t.findOutboxEntry e.ref ≠ none ∧ t.addHydratedEntry cfg updaters e = t ∨
    t.findOutboxEntry e.ref = none ∧ Settles gone (t.addEntry (hydratedEntry cfg e))
      (t.addHydratedEntry cfg updaters e) := by
  rw [addHydratedEntry]
  split
  · refine .inl ⟨?_, mem_cons_self⟩
    exact settles_retire.trans (settles_outboxMarkFailed _ _ mem_cons_self)
  · split
    · rename_i hfind
      exact .inr (.inl ⟨by simpa [isSome_iff_ne_none] using hfind, rfl⟩)
    · rename_i hfind
      refine .inr (.inr ⟨by simpa using hfind, ?_⟩)
      have hadd : t.reconciler.addHydrated updaters t.nextRequestId (hydratedEntry cfg e) =
          if (hydratedEntry cfg e).update then
            (t.addEntry (hydratedEntry cfg e)).reconciler.rebuild updaters
          else (t.addEntry (hydratedEntry cfg e)).reconciler := rfl
      rw [onReconciler, hadd]
      split
      · exact (settles_rebuild (t := t.addEntry (hydratedEntry cfg e))).trans
          (.quiet (fun _ => id) rfl)
      · exact .quiet (fun _ => id) rfl

/-- A pass that takes back the entry of a call without a promise: its own update threw. -/
theorem settles_takeBack {entry : PendingMutation} {refs : List ClientMutationRef}
    (hget : t.log.get? requestId = some entry) (hcallbacks : requestId ∉ t.pendingMutationCallbacks)
    (hrefs : ∀ ref, entry.ref = some ref → ref ∈ refs) :
    Settles gone t { t with
      reconciler := { t.reconciler.rebuild updaters with
        thrown := (t.reconciler.throwing updaters).filter (· ≠ requestId) ++ t.reconciler.thrown }
      retired := refs ++ t.retired } := by
  have h : Settles gone t (t.onReconciler (.rebuild updaters)) := settles_rebuild
  have hsub : t.retired ⊆ refs ++ t.retired := subset_append_right _ _
  have hmem : ∀ {k}, k ∈ (t.reconciler.throwing updaters).filter (· ≠ requestId) ++
      t.reconciler.thrown → k ∈ (t.reconciler.rebuild updaters).thrown := fun hk =>
    mem_append.2 ((mem_append.1 hk).imp_left mem_of_mem_filter)
  exact { h with
    entry := fun he => by
      obtain ⟨e, hget, hsame, hdone⟩ := h.entry he
      exact ⟨e, hget, hsame, fun hc => (hdone hc).imp_right fun hd => hd.mono (fun _ => id) hsub⟩
    leaves := fun {k e} he hnone => by
      rcases h.leaves he hnone with ht | hc | hp | hd
      · by_cases hk : k = requestId
        · subst hk
          obtain rfl : entry = e := Option.some.inj (hget.symm.trans he)
          exact .inr (.inr (.inr ⟨hcallbacks, fun ref href =>
            .inl (mem_append_left _ (hrefs ref href))⟩))
        · refine .inl ((mem_append.1 ht).elim (fun ht => ?_) (mem_append_right _))
          exact mem_append_left _ (mem_filter.2 ⟨ht, decide_eq_true hk⟩)
      · exact .inr (.inl hc)
      · exact .inr (.inr (.inl hp))
      · exact .inr (.inr (.inr (hd.mono (fun _ => id) hsub)))
    thrown := fun hk => h.thrown (hmem hk)
    thrown_mono := subset_append_right _ _
    drops := Or.inl
    retired := hsub
    writes := ⟨[], by simp⟩
    posted := Or.inl }

/-- What `mutation` does, in a tab where the next request id is not in use: nothing, or it adds an
entry and takes it back, or the entry stays and the call goes out. -/
theorem mutation_cases (gone : ClientMutationRef → Prop) {call : Nat} {udfPath : String}
    {update transient : Bool} {now : Nat} (hfresh : t.nextRequestId ∉ t.pendingMutationCallbacks) :
    let useOutbox := cfg.outbox && !transient
    let entry := t.newEntry call udfPath update useOutbox now
    let t' := t.mutation cfg updaters call udfPath update transient now
    t' = t ∨ Settles gone (t.enter entry useOutbox) t' ∨
      ∃ s e, Settles gone (t.enter entry useOutbox) s ∧ s.log.get? t.nextRequestId = some e ∧
        e.Same entry ∧ e.status = .unsent ∧ s.outboxPendingDrops = t.outboxPendingDrops ∧
        t' = s.issue t.nextRequestId entry (!(t.closed || (useOutbox && t.hasOutboxBacklog))) := by
  intro useOutbox entry t'
  by_cases hfull : (useOutbox && decide (cfg.maxQueueSize ≤ t.outboxQueueDepth)) = true
  · exact .inl (if_pos hfull)
  refine .inr ?_
  let r := (t.enter entry useOutbox).reconciler
  have hinitiate : ∀ r' threw, t.reconciler.initiate updaters t.nextRequestId entry = (r', threw) →
      t' = if threw then { t.enter entry useOutbox with
          reconciler := r', retired := entry.ref.toList ++ t.retired }
        else { t.enter entry useOutbox with reconciler := r' }.issue t.nextRequestId entry
          (!(t.closed || (useOutbox && t.hasOutboxBacklog))) := by
    intro r' threw heq
    let initiated := t.reconciler.initiate updaters t.nextRequestId entry
    have hopen : t' = if initiated.2 then { t.enter entry useOutbox with
          reconciler := initiated.1, retired := entry.ref.toList ++ t.retired }
        else { t.enter entry useOutbox with reconciler := initiated.1 }.issue t.nextRequestId entry
          (!(t.closed || (useOutbox && t.hasOutboxBacklog))) := if_neg hfull
    have hinitiated : initiated = (r', threw) := heq
    rw [hopen, hinitiated]
  by_cases hupdate : entry.update = true
  · have heq : t.reconciler.initiate updaters t.nextRequestId entry =
        ({ r.rebuild updaters with
            thrown := (r.throwing updaters).filter (· ≠ t.nextRequestId) ++ r.thrown },
          decide (t.nextRequestId ∈ r.throwing updaters)) := if_pos hupdate
    have hrebuild : Settles gone (t.enter entry useOutbox)
        ((t.enter entry useOutbox).onReconciler (.rebuild updaters)) := settles_rebuild
    by_cases hthrew : t.nextRequestId ∈ r.throwing updaters
    · refine .inl ?_
      rw [hinitiate _ _ heq, if_pos (decide_eq_true hthrew)]
      exact settles_takeBack (get?_set_self _) hfresh fun ref href => by simp [href]
    · have hfilter : (r.throwing updaters).filter (· ≠ t.nextRequestId) = r.throwing updaters := by
        refine filter_eq_self.2 fun k hk => ?_
        rw [decide_eq_true_eq]
        exact fun heq => hthrew (heq ▸ hk)
      rw [hfilter] at heq
      -- the update did not throw, so the pass leaves the new entry where it is
      have hget : r.log.get? t.nextRequestId = some entry := get?_set_self _
      obtain ⟨touched, htouched⟩ : ∃ touched, updaters r.passes t.nextRequestId = some touched :=
        ne_none_iff_exists'.1 fun hnone =>
          hthrew ((Reconciler.mem_throwing _).2 ⟨entry, hget, hupdate, hnone⟩)
      refine .inr ⟨_, { entry with touched := touched }, hrebuild, ?_,
        ⟨rfl, rfl, rfl, rfl⟩, rfl, rfl, ?_⟩
      · show (r.replay updaters).get? t.nextRequestId = _
        rw [Reconciler.get?_replay, hget, bind_some, if_pos hupdate, htouched]
        rfl
      · rw [hinitiate _ _ heq, if_neg (by simpa using hthrew)]
        rfl
  · have heq : t.reconciler.initiate updaters t.nextRequestId entry = (r, false) := if_neg hupdate
    exact .inr ⟨_, entry, .refl, get?_set_self _, .rfl, rfl, rfl, hinitiate _ _ heq⟩

/-! ## All steps -/

/-- What a step can do. -/
inductive Stepped (cfg : OutboxConfig) (updaters : Updaters) (t : Tab) : TabEvent → Tab → Prop
  | settled {ev s} : ev.settlesOnly = true → Settles (t.goneAt ev) t s → Stepped cfg updaters t ev s
  | mutation {call udfPath update transient now} :
      Stepped cfg updaters t (.mutation call udfPath update transient now)
        (t.mutation cfg updaters call udfPath update transient now)
  | setAuth {token} : Stepped cfg updaters t (.setAuth token) (t.setAuth cfg token)
  | setSessionFingerprint {sessionId} : Stepped cfg updaters t (.setSessionFingerprint sessionId)
      (t.onIdentity (.setSessionFingerprint cfg sessionId))
  | digestDone {d} : d ∈ t.identity.digests →
      Stepped cfg updaters t (.digestDone d) (t.onIdentity (.digestDone cfg d))
  | closed {ev s} : ev = .transportClosed ∨ ev = .close →
      Settles (t.goneAt ev) { t with closed := true } s → Stepped cfg updaters t ev s.hangUp
  | reopened {expect} : t.closed = true → Stepped cfg updaters t (.transportReopened expect)
      (t.onTransportReopened cfg updaters expect)
  | reset {request results fresh now} :
      Stepped cfg updaters t (.connectAck request false results fresh now)
        ({ t with openRequests := t.openRequests.eraseIdx request,
                  outboxArmed := true }.onClientReset updaters fresh now)
  | becomeLeader : t.hydration = .waiting → Stepped cfg updaters t .becomeLeader
      { t with leader := true, hydration := .reading }
  | hydrateRead {entries} : t.hydration = .reading → Stepped cfg updaters t (.hydrateRead entries)
      { t with hydration := .read entries }
  | hydrated {entries} : t.hydration = .read entries → Stepped cfg updaters t .hydrated
      ({ t with hydration := .pruning }.addActive cfg updaters entries)
  | handshakeDone {expect} : t.hydration = .pruning →
      Stepped cfg updaters t (.ensureInitialHandshake expect) { t with hydration := .done }
  | handshake {expect} : t.hydration = .pruning →
      Stepped cfg updaters t (.ensureInitialHandshake expect)
        ({ t with hydration := .done }.initiateHandshake cfg updaters expect)
  | mirrorRead {entries} : t.mirrorRead = none → Stepped cfg updaters t (.mirrorRead entries)
      { t with mirrorRead := some entries }
  | mirrored {entries} : t.mirrorRead = some entries → Stepped cfg updaters t .mirrored
      ({ t with mirrorRead := none }.mirrorFromStore cfg updaters entries)
  | drain : t.canDrain = true → Stepped cfg updaters t .drain (t.flushChunk cfg updaters)
  | writeDone {ok w ws} : t.writes = w :: ws →
      Stepped cfg updaters t (.writeDone ok) (t.writeDone ok)

theorem stepped_of_step {ev : TabEvent} (h : t.step cfg updaters ev = some s) :
    Stepped cfg updaters t ev s := by
  by_cases hev : ev.settlesOnly = true
  · exact .settled hev (settles_of_step h hev)
  cases ev with
  | mutation call udfPath update transient now =>
    cases h
    exact .mutation
  | setAuth token =>
    cases h
    exact .setAuth
  | setSessionFingerprint sessionId =>
    cases h
    exact .setSessionFingerprint
  | digestDone d =>
    obtain ⟨hmem, h⟩ := ite_none_right_eq_some.1 h
    cases h
    exact .digestDone hmem
  | transportClosed =>
    obtain ⟨-, h⟩ := ite_none_left_eq_some.1 h
    cases h
    obtain ⟨s, hs, heq⟩ := settles_onTransportClosed updaters t
    rw [heq]
    exact .closed (.inl rfl) hs
  | transportReopened expect =>
    obtain ⟨hclosed, h⟩ := ite_none_right_eq_some.1 h
    cases h
    exact .reopened hclosed.1
  | close =>
    cases h
    obtain ⟨s, hs, heq⟩ := settles_close updaters t
    rw [heq]
    exact .closed (.inr rfl) hs
  | connectAck request known results fresh now =>
    obtain rfl : known = false := by simpa [TabEvent.settlesOnly] using hev
    rw [step] at h
    split at h
    · obtain ⟨-, h⟩ := ite_none_left_eq_some.1 h
      cases h
      exact .reset
    · cases h
  | becomeLeader =>
    obtain ⟨hwaiting, h⟩ := ite_none_right_eq_some.1 h
    cases h
    exact .becomeLeader hwaiting.2.2
  | hydrateRead entries =>
    obtain ⟨hreading, h⟩ := ite_none_right_eq_some.1 h
    cases h
    exact .hydrateRead hreading
  | hydrated =>
    rw [step] at h
    split at h
    · rename_i entries hread
      cases h
      exact .hydrated hread
    · cases h
  | ensureInitialHandshake expect =>
    obtain ⟨hpruning, h⟩ := ite_none_right_eq_some.1 h
    cases h
    split
    · exact .handshakeDone hpruning
    · exact .handshake hpruning
  | mirrorRead entries =>
    obtain ⟨hnone, h⟩ := ite_none_right_eq_some.1 h
    cases h
    exact .mirrorRead hnone.2
  | mirrored =>
    obtain ⟨entries, hread, rfl⟩ := map_eq_some_iff.1 h
    exact .mirrored hread
  | drain =>
    obtain ⟨hdrain, h⟩ := ite_none_right_eq_some.1 h
    cases h
    exact .drain hdrain
  | writeDone ok =>
    obtain ⟨hwrites, h⟩ := ite_none_left_eq_some.1 h
    cases h
    obtain ⟨w, ws, hw⟩ := exists_cons_of_ne_nil (by simpa using hwrites)
    exact .writeDone hw
  | _ => exact absurd rfl hev

end Tab

end Helipod
