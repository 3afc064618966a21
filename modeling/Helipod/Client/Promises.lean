import Helipod.Client.TabSteps

/-!
# Pending promises

A promise that `mutation` returned ends when the mutation is answered, or when the client gives the
mutation up. Until then the mutation should be in the log or on its way: an entry is what is sent
again, parked or rejected, and a request that is open gets a response.

Entries also leave the log for the sake of their layers, when an optimistic update throws on a later
pass. That path does not look at the promise.

Results:
* `pending_hasEntry_or_response_iff`, `replay_throw_loses_promise`
* `PromisesKept.step`: in every run a pending promise has its entry, unless the update of the entry
  threw on a replay.
-/

namespace Helipod

open Runs

namespace Tab

/-- A response to the request is due on the open connection. -/
def ResponseToCome (t : Tab) (requestId : Nat) : Prop :=
  ∃ r ∈ t.openRequests, requestId ∈ r.requestIds

instance (t : Tab) (requestId : Nat) : Decidable (t.ResponseToCome requestId) :=
  inferInstanceAs (Decidable (∃ r ∈ t.openRequests, requestId ∈ r.requestIds))

/-- What a run keeps about promises and entries. -/
structure PromisesKept (t : Tab) : Prop where
  known : ∀ {k}, (t.log.get? k ≠ none ∨ k ∈ t.pendingMutationCallbacks ∨ k ∈ t.reconciler.thrown ∨
    k ∈ t.outboxPendingDrops) → k < t.nextRequestId
  /-- A pending promise has its entry, unless the update threw. -/
  kept : ∀ {k}, k ∈ t.pendingMutationCallbacks → t.log.get? k = none → k ∈ t.reconciler.thrown
  /-- Its entry is not completed, and no drop of it is due. -/
  waiting : ∀ {k e}, k ∈ t.pendingMutationCallbacks → t.log.get? k = some e →
    e.status.isCompleted = false
  notDue : ∀ {k}, k ∈ t.outboxPendingDrops → k ∉ t.pendingMutationCallbacks
  thrown : ∀ {k}, k ∈ t.reconciler.thrown → t.log.get? k = none

variable {cfg : OutboxConfig} {updaters : Updaters} {gone : ClientMutationRef → Prop} {t s : Tab}

namespace PromisesKept

theorem create (clientId : String) : PromisesKept (Tab.create clientId) where
  known h := by simp [Tab.create, Reconciler.initial, log] at h
  kept h := by cases h
  waiting h := by cases h
  notDue h := by cases h
  thrown h := by cases h

section

variable (h : PromisesKept t)
include h

theorem quiet
    (same : (s.reconciler, s.pendingMutationCallbacks, s.outboxPendingDrops, s.nextRequestId) =
      (t.reconciler, t.pendingMutationCallbacks, t.outboxPendingDrops, t.nextRequestId)) :
    PromisesKept s := by
  simp only [Prod.mk.injEq] at same
  obtain ⟨reconciler, callbacks, drops, nextRequestId⟩ := same
  constructor
  · simpa [log, reconciler, callbacks, drops, nextRequestId] using @h.known
  · simpa [log, reconciler, callbacks] using @h.kept
  · simpa [log, reconciler, callbacks] using @h.waiting
  · simpa [drops, callbacks] using @h.notDue
  · simpa [log, reconciler] using @h.thrown

/-- Settling keeps promises: whatever leaves the log for another reason than a throw has no promise
left. -/
theorem settles (hs : Settles gone t s) : PromisesKept s where
  known {k} hk := by
    rw [hs.nextRequestId]
    have hlog : s.log.get? k ≠ none → k < t.nextRequestId := fun hne =>
      (hs.known (.inr hne)).elim id fun hne => h.known (.inl hne)
    rcases hk with hk | hk | hk | hk
    · exact hlog hk
    · exact h.known (.inr (.inl (hs.callbacks hk)))
    · rcases hs.thrown hk with hk | ⟨hk, -⟩
      · exact h.known (.inr (.inr (.inl hk)))
      · exact h.known (.inl hk)
    · rcases hs.drops hk with hk | ⟨hk | hk, -⟩
      · exact h.known (.inr (.inr (.inr hk)))
      · exact hk
      · exact h.known (.inl hk)
  kept {k} hk hnone := by
    cases he : t.log.get? k with
    | none => exact hs.thrown_mono (h.kept (hs.callbacks hk) he)
    | some e =>
      rcases hs.leaves he hnone with ht | hc | hp | hd
      · exact ht
      · exact absurd ((h.waiting (hs.callbacks hk) he).symm.trans hc) (by simp)
      · exact absurd (hs.callbacks hk) (h.notDue hp)
      · exact absurd hk hd.1
  waiting {k e'} hk he' := by
    obtain ⟨e, he, -, hdone⟩ := hs.entry he'
    by_contra hc
    rcases hdone (by simpa using hc) with hc | hd
    · exact absurd ((h.waiting (hs.callbacks hk) he).symm.trans hc) (by simp)
    · exact hd.1 hk
  notDue {k} hk := by
    rcases hs.drops hk with hk | ⟨-, hk, -⟩
    · exact fun hk' => h.notDue hk (hs.callbacks hk')
    · exact hk
  thrown {k} hk := by
    rcases hs.thrown hk with hk | ⟨-, hk⟩
    · by_contra hne
      obtain ⟨e', he'⟩ := Option.ne_none_iff_exists'.1 hne
      obtain ⟨e, he, -⟩ := hs.entry he'
      exact absurd ((h.thrown hk).symm.trans he) (by simp)
    · exact hk

variable {requestId : Nat}

theorem modify {f : PendingMutation → PendingMutation}
    (hf : ∀ e, (f e).status.isCompleted = true → e.status.isCompleted = true) :
    PromisesKept (t.onReconciler (.modify requestId f)) := by
  have hget : ∀ k, (t.onReconciler (.modify requestId f)).log.get? k =
      if requestId = k then (t.log.get? k).map f else t.log.get? k :=
    fun k => MutationLog.get?_modify _ _ _ _
  have hnone : ∀ k, (t.onReconciler (.modify requestId f)).log.get? k = none ↔
      t.log.get? k = none := by
    intro k
    rw [hget]
    split
    · exact Option.map_eq_none_iff
    · exact Iff.rfl
  exact {
    known := fun {k} hk => h.known (by rwa [ne_eq, hnone] at hk)
    kept := fun hk he => h.kept hk ((hnone _).1 he)
    waiting := fun {k e'} hk he' => by
      rw [hget] at he'
      split at he'
      · obtain ⟨e, he, rfl⟩ := Option.map_eq_some_iff.1 he'
        by_contra hc
        exact absurd ((h.waiting hk he).symm.trans (hf e (by simpa using hc))) (by simp)
      · exact h.waiting hk he'
    notDue := h.notDue
    thrown := fun hk => (hnone _).2 (h.thrown hk) }

theorem addEntry (entry : PendingMutation) :
    PromisesKept (t.addEntry entry) where
  known {k} hk := by
    show k < t.nextRequestId + 1
    by_cases heq : t.nextRequestId = k
    · omega
    · refine Nat.lt_succ_of_lt (h.known ?_)
      rwa [get?_addEntry, if_neg heq] at hk
  kept {k} hk hnone := by
    rw [get?_addEntry] at hnone
    split at hnone
    · cases hnone
    · exact h.kept hk hnone
  waiting {k e} hk he := by
    rw [get?_addEntry, if_neg (h.known (.inr (.inl hk))).ne'] at he
    exact h.waiting hk he
  notDue := h.notDue
  thrown {k} hk := by
    rw [get?_addEntry, if_neg (h.known (.inr (.inr (.inl hk)))).ne']
    exact h.thrown hk

variable {e : PendingMutation}

/-- A promise may become pending for an entry that waits, if no drop of it is due. -/
theorem await (hget : t.log.get? requestId = some e) (hstatus : e.status.isCompleted = false)
    (hdue : requestId ∉ t.outboxPendingDrops) :
    PromisesKept
      { t with pendingMutationCallbacks := requestId :: t.pendingMutationCallbacks } where
  known {k} hk := by
    refine h.known ?_
    rcases hk with hk | hk | hk
    · exact .inl hk
    · rcases List.mem_cons.1 hk with rfl | hk
      · exact .inl (by simp [hget])
      · exact .inr (.inl hk)
    · exact .inr (.inr hk)
  kept {k} hk hnone := by
    rcases List.mem_cons.1 hk with rfl | hk
    · exact absurd (hget.symm.trans hnone) (by simp)
    · exact h.kept hk hnone
  waiting {k e'} hk he := by
    rcases List.mem_cons.1 hk with rfl | hk
    · rwa [← Option.some.inj (hget.symm.trans he)]
    · exact h.waiting hk he
  notDue {k} hk hmem := by
    rcases List.mem_cons.1 hmem with rfl | hmem
    · exact hdue hk
    · exact h.notDue hk hmem
  thrown := h.thrown

theorem elim {α : Type*} {o : Option α} {f : α → Tab}
    (hf : ∀ a, o = some a → PromisesKept (f a)) : PromisesKept (o.elim t f) := by
  cases o with
  | none => exact h
  | some a => exact hf a rfl

end

theorem foldl {α : Type*} {f : Tab → α → Tab} (hf : ∀ t a, PromisesKept t → PromisesKept (f t a))
    (l : List α) : ∀ t, PromisesKept t → PromisesKept (l.foldl f t) :=
  fun _ h => List.foldlRecOn l f h fun t h a _ => hf t a h

/-! ## Handlers -/

theorem send {frame : ClientFrame} (h : PromisesKept t) : PromisesKept (t.send frame) := by
  rw [Tab.send]
  split
  · exact h
  · exact h.quiet rfl

theorem sendMutation (h : PromisesKept t) : PromisesKept (t.sendMutation requestId e) := by
  have hmodify : PromisesKept
      (t.onReconciler (.modify requestId fun e => { e with status := .inflight })) :=
    h.modify fun e hc => by cases hc
  have hsend : PromisesKept (Tab.send (.mutation (batchEntry requestId e)) _) := hmodify.send
  exact hsend.quiet rfl

theorem startWrite {w : OutboxWrite} (h : PromisesKept t) : PromisesKept (t.startWrite w) :=
  h.quiet rfl

theorem issue {entry : PendingMutation} {direct : Bool} (h : PromisesKept t)
    (hget : t.log.get? requestId = some e) (hstatus : e.status.isCompleted = false)
    (hdue : requestId ∉ t.outboxPendingDrops) : PromisesKept (t.issue requestId entry direct) := by
  have hawait := h.await hget hstatus hdue
  cases direct with
  | true => exact hawait.sendMutation.elim fun _ _ => hawait.sendMutation.startWrite
  | false => exact hawait.elim fun _ _ => hawait.startWrite

variable {now : Nat}

theorem mutation {call : Nat} {udfPath : String} {update transient : Bool} (h : PromisesKept t) :
    PromisesKept (t.mutation cfg updaters call udfPath update transient now) := by
  have hfresh : t.nextRequestId ∉ t.pendingMutationCallbacks := fun hk =>
    lt_irrefl _ (h.known (.inr (.inl hk)))
  have henter : ∀ entry useOutbox, PromisesKept (t.enter entry useOutbox) := fun entry _ =>
    (h.addEntry entry).quiet rfl
  rcases mutation_cases (fun _ => False) hfresh with
    heq | hs | ⟨s, e, hs, hget, -, hstatus, hdrops, heq⟩
  · rwa [heq]
  · exact (henter _ _).settles hs
  · rw [heq]
    have hdue : t.nextRequestId ∉ s.outboxPendingDrops := fun hk =>
      lt_irrefl _ (h.known (.inr (.inr (.inr (hdrops ▸ hk)))))
    exact ((henter _ _).settles hs).issue hget (by rw [hstatus]; rfl) hdue

theorem addHydratedEntry {e : OutboxEntry} (h : PromisesKept t) :
    PromisesKept (t.addHydratedEntry cfg updaters e) := by
  rcases settles_addHydratedEntry (fun _ => False) with ⟨hs, -⟩ | ⟨-, heq⟩ | ⟨-, hs⟩
  · exact h.settles hs
  · rwa [heq]
  · exact (h.addEntry _).settles hs

variable {entries : List OutboxEntry}

theorem addActive (h : PromisesKept t) : PromisesKept (t.addActive cfg updaters entries) :=
  foldl (fun _ _ h => h.addHydratedEntry) _ _ h

theorem rekey (h : PromisesKept t) : PromisesKept (t.rekey now requestId e) := by
  have hdequeue : PromisesKept (e.ref.elim t fun ref => (t.retire ref).outboxDequeue ref) :=
    h.elim fun ref _ => (show PromisesKept (t.retire ref) from h.quiet rfl).startWrite
  rw [Tab.rekey]
  generalize (e.ref.elim t fun ref => (t.retire ref).outboxDequeue ref) = t' at hdequeue
  have hmodify : PromisesKept (t'.onReconciler (.modify requestId fun e => { e with
      ref := some ⟨t'.outboxClientId, t'.outboxNextSeq⟩, order := t'.nextOutboxOrder now })) :=
    hdequeue.modify fun _ => id
  exact hmodify.quiet (s := t'.renumber now requestId e) rfl

theorem resetEntry {p : Nat × PendingMutation} (h : PromisesKept t) :
    PromisesKept (t.resetEntry updaters now p) := by
  rcases resetEntry_cases (fun _ => False) with hs | ⟨-, heq⟩
  · exact h.settles hs
  · rw [heq]
    exact h.rekey

/-! ## Runs -/

theorem onClientReset {fresh : String} (h : PromisesKept t) :
    PromisesKept (t.onClientReset updaters fresh now) :=
  foldl (fun _ _ h => h.resetEntry) _ _ (h.quiet rfl)

theorem sendConnect (h : PromisesKept t) : PromisesKept t.sendConnect := by
  have hsend : PromisesKept (t.send (.connect (outboxHeldFromLog t.log)
    (outboxAckedThrough (outboxHeldFromLog t.log)))) := h.send
  exact hsend.quiet rfl

theorem initiateHandshake {expect : Bool} (h : PromisesKept t) :
    PromisesKept (t.initiateHandshake cfg updaters expect) := by
  rcases settles_initiateHandshake (fun _ => False) with heq | ⟨s, hs, heq⟩
  · rwa [heq]
  · rw [heq]
    exact (h.settles hs).sendConnect

theorem replayAuth (h : PromisesKept t) : PromisesKept t.replayAuth := by
  rw [Tab.replayAuth]
  split
  · exact h.send
  · exact h

theorem onTransportReopened {expect : Bool} (h : PromisesKept t) :
    PromisesKept (t.onTransportReopened cfg updaters expect) := by
  have hauth : PromisesKept { t with closed := false }.replayAuth :=
    PromisesKept.replayAuth (h.quiet rfl)
  rw [Tab.onTransportReopened]
  split
  · exact hauth.initiateHandshake
  · exact foldl (fun _ _ h => h.sendMutation) _ _ hauth

theorem flushChunk (h : PromisesKept t) : PromisesKept (t.flushChunk cfg updaters) := by
  obtain ⟨s, chunk, hs, -, heq | heq⟩ := flushChunk_cases cfg updaters (fun _ => False) t
  · rw [heq]
    exact h.settles hs
  · rw [heq]
    have hsend : PromisesKept (s.send (.mutationBatch (chunk.map fun p => batchEntry p.1 p.2))) :=
      (h.settles hs).send
    exact hsend.quiet rfl

theorem writeDone {ok : Bool} (h : PromisesKept t) : PromisesKept (t.writeDone ok) := by
  have htail : PromisesKept { t with writes := t.writes.tail } := h.quiet rfl
  rw [Tab.writeDone]
  split
  · split
    · exact htail.modify fun _ => id
    · exact htail
  · exact htail

theorem settles_mirrorFromStore (h : PromisesKept t) :
    Settles (fun ref => (storedFor entries ref).any (·.status.isActive) = false)
      (t.addActive cfg updaters entries) (t.mirrorFromStore cfg updaters entries) :=
  settles_mirrorLog fun p hp =>
    (show PromisesKept (t.addActive cfg updaters entries) from h.addActive).known
      (.inl (by simp [(OrderedMap.get?_eq_some_iff _).2 hp]))

theorem mirrorFromStore (h : PromisesKept t) :
    PromisesKept (t.mirrorFromStore cfg updaters entries) :=
  h.addActive.settles h.settles_mirrorFromStore

theorem step {ev : TabEvent} (h : PromisesKept t) (hstep : t.step cfg updaters ev = some s) :
    PromisesKept s := by
  cases stepped_of_step hstep with
  | settled _ hs => exact h.settles hs
  | mutation => exact h.mutation
  | setAuth => exact PromisesKept.send (h.quiet rfl)
  | setSessionFingerprint | digestDone | becomeLeader | hydrateRead | handshakeDone | mirrorRead =>
    exact h.quiet rfl
  | closed _ hs =>
    have hclosed : PromisesKept { t with closed := true } := h.quiet rfl
    exact (hclosed.settles hs).quiet rfl
  | reopened => exact h.onTransportReopened
  | reset => exact PromisesKept.onClientReset (h.quiet rfl)
  | hydrated => exact PromisesKept.addActive (h.quiet rfl)
  | handshake => exact PromisesKept.initiateHandshake (h.quiet rfl)
  | mirrored => exact PromisesKept.mirrorFromStore (h.quiet rfl)
  | drain => exact h.flushChunk
  | writeDone => exact h.writeDone

end PromisesKept

/-- In every state that a client reaches, a pending promise has an entry in the log or a response to
come, if and only if its update has not thrown on a replay or a response is to come. -/
theorem pending_hasEntry_or_response_iff {clientId : String} {es : List TabEvent}
    (hr : run (step cfg updaters) (create clientId) es = some t) {k : Nat}
    (hk : k ∈ t.pendingMutationCallbacks) :
    t.log.has k = true ∨ t.ResponseToCome k ↔
      k ∉ t.reconciler.thrown ∨ t.ResponseToCome k := by
  have h : PromisesKept t := run_invariant (fun _ _ _ h hstep => h.step hstep) (.create clientId) hr
  refine or_congr_left ⟨fun hhas hthrown => ?_, fun hthrown => ?_⟩
  · simp [h.thrown hthrown] at hhas
  · rw [OrderedMap.has, Option.isSome_iff_ne_none]
    exact fun hnone => hthrown (h.kept hk hnone)

/-! ## A promise that is lost -/

/-- No outbox; the update of request 0 throws from the third pass on. -/
def lossyConfig : OutboxConfig := ⟨false, 1000, 50, false, fun _ => false, id⟩

def lossyUpdaters : Updaters := fun pass k => if k = 0 ∧ 2 ≤ pass then none else some true

/-- The connection is lost, two mutations are made, and the connection is back. -/
def lossyRun : List TabEvent :=
  [.transportClosed, .mutation 0 "items:add" true false 1, .mutation 1 "items:rename" true false 2,
    .transportReopened false]

def lossyTab : Tab :=
  ((run (step lossyConfig lossyUpdaters) (create "c") lossyRun).getD (create "c"))

theorem run_lossyRun :
    run (step lossyConfig lossyUpdaters) (create "c") lossyRun = some lossyTab := rfl

/-- The first promise is pending on an open connection, but its mutation is neither in the log nor
on the wire. -/
theorem replay_throw_loses_promise :
    run (step lossyConfig lossyUpdaters) (create "c") lossyRun = some lossyTab ∧
      lossyTab.closed = false ∧ 0 ∈ lossyTab.pendingMutationCallbacks ∧
      ¬(lossyTab.log.has 0 = true ∨ lossyTab.ResponseToCome 0) ∧
      lossyTab.sent = [.mutation ⟨1, 1, none, none⟩] := by
  refine ⟨run_lossyRun, rfl, ?_, ?_, ?_⟩ <;> decide +kernel

/-- The second promise of the same run. -/
theorem pending_hasEntry_or_response_rename :
    run (step lossyConfig lossyUpdaters) (create "c") lossyRun = some lossyTab ∧
      1 ∈ lossyTab.pendingMutationCallbacks ∧
      (lossyTab.log.has 1 = true ∨ lossyTab.ResponseToCome 1 ↔
        1 ∉ lossyTab.reconciler.thrown ∨ lossyTab.ResponseToCome 1) :=
  ⟨run_lossyRun, by decide +kernel,
    pending_hasEntry_or_response_iff run_lossyRun (by decide +kernel)⟩

end Tab

end Helipod
