import Helipod.Client.Outbox

/-!
# Settling mutations

Most of what a tab does only settles mutations: promises end, entries leave the log or change their
status, records are taken out of the store. `Tab.Settles` says what this can do to a tab, once for
all handlers: no mutation appears or changes its identity, and an entry leaves the log only for one
of four reasons.

Results:
* `Settles.trans`: settling composes.
* One lemma for each handler: `settles_settleTerminal`, `settles_settleApplied`,
  `settles_settleVerdict`, `settles_onTransition`, `settles_mirrorEntry` and so on.
-/

namespace Helipod

open Reconciler OrderedMap List Option

/-- Same call under the same number and the same identity. -/
structure PendingMutation.Same (e' e : PendingMutation) : Prop where
  call : e'.call = e.call
  enqueuedUnder : e'.enqueuedUnder = e.enqueuedUnder
  ref : e'.ref = e.ref
  identityFingerprint : e'.identityFingerprint = e.identityFingerprint

variable {e : PendingMutation}

theorem PendingMutation.Same.rfl : e.Same e := ⟨Eq.refl _, Eq.refl _, Eq.refl _, Eq.refl _⟩

variable {e' : PendingMutation}

theorem PendingMutation.Same.symm (h : e'.Same e) : e.Same e' :=
  ⟨h.call.symm, h.enqueuedUnder.symm, h.ref.symm, h.identityFingerprint.symm⟩

theorem PendingMutation.Same.trans {e'' : PendingMutation} (h : e''.Same e') (h' : e'.Same e) :
    e''.Same e :=
  ⟨h.call.trans h'.call, h.enqueuedUnder.trans h'.enqueuedUnder, h.ref.trans h'.ref,
    h.identityFingerprint.trans h'.identityFingerprint⟩

/-- A write that adds no record, and ends none that is waited for. -/
def OutboxWrite.Settling (retired : List ClientMutationRef) : OutboxWrite → Prop
  | .append _ _ => False
  | .updateStatus ref status _ => status.isActive = true ∨ ref ∈ retired
  | .dequeue ref => ref ∈ retired

theorem OutboxWrite.Settling.mono {retired retired' : List ClientMutationRef} {w : OutboxWrite}
    (h : w.Settling retired) (hsub : retired ⊆ retired') : w.Settling retired' := by
  cases w with
  | append requestId entry => exact h
  | updateStatus ref status error => exact h.imp_right fun h => hsub h
  | dequeue ref => exact hsub h

namespace Tab

/-- Nobody in the tab waits for the mutation: its promise is not pending and its number is retired,
or it is one of those the outside has `gone` through with. -/
def Discharged (gone : ClientMutationRef → Prop) (t : Tab) (requestId : Nat) (e : PendingMutation) :
    Prop :=
  requestId ∉ t.pendingMutationCallbacks ∧ ∀ ref, e.ref = some ref → ref ∈ t.retired ∨ gone ref

/-- A request of this tab. -/
def Known (t : Tab) (requestId : Nat) : Prop :=
  requestId < t.nextRequestId ∨ t.log.get? requestId ≠ none

/-- What settling speaks of, the drops that are due apart. -/
def spokenOf (t : Tab) :=
  (t.reconciler, t.pendingMutationCallbacks, t.settlements, t.retired, t.writes, t.posted,
    t.nextRequestId, t.outboxClientId, t.outboxNextSeq, t.identity, t.hydration, t.mirrorRead,
    t.closed, t.sent, t.sentBefore)

/-- What settling mutations can do to a tab. -/
structure Settles (gone : ClientMutationRef → Prop) (t s : Tab) : Prop where
  /-- No entry is new, and one that is newly completed is discharged. -/
  entry : ∀ {k e'}, s.log.get? k = some e' → ∃ e, t.log.get? k = some e ∧ e'.Same e ∧
    (e'.status.isCompleted = true → e.status.isCompleted = true ∨ s.Discharged gone k e)
  /-- An entry leaves because its update threw, because it was completed, because its drop was due,
  or because it is discharged. -/
  leaves : ∀ {k e}, t.log.get? k = some e → s.log.get? k = none →
    k ∈ s.reconciler.thrown ∨ e.status.isCompleted = true ∨ k ∈ t.outboxPendingDrops ∨
      s.Discharged gone k e
  thrown : ∀ {k}, k ∈ s.reconciler.thrown →
    k ∈ t.reconciler.thrown ∨ t.log.get? k ≠ none ∧ s.log.get? k = none
  thrown_mono : t.reconciler.thrown ⊆ s.reconciler.thrown
  drops : ∀ {k}, k ∈ s.outboxPendingDrops → k ∈ t.outboxPendingDrops ∨
    t.Known k ∧ k ∉ s.pendingMutationCallbacks ∧ ∀ e, s.log.get? k = some e → s.Discharged gone k e
  callbacks : s.pendingMutationCallbacks ⊆ t.pendingMutationCallbacks
  settlements : t.settlements ⊆ s.settlements
  retired : t.retired ⊆ s.retired
  writes : ∃ ws, s.writes = t.writes ++ ws ∧ ∀ w ∈ ws, w.Settling s.retired
  posted : ∀ {b}, b ∈ s.posted → b ∈ t.posted ∨ b.ref ∈ s.retired
  nextRequestId : s.nextRequestId = t.nextRequestId
  outboxClientId : s.outboxClientId = t.outboxClientId
  outboxNextSeq : s.outboxNextSeq = t.outboxNextSeq
  identity : s.identity = t.identity
  hydration : s.hydration = t.hydration
  mirrorRead : s.mirrorRead = t.mirrorRead
  closed : s.closed = t.closed
  sent : s.sent = t.sent
  sentBefore : s.sentBefore = t.sentBefore

variable {updaters : Updaters} {gone : ClientMutationRef → Prop} {t s u : Tab}

theorem Discharged.mono {k : Nat} (h : s.Discharged gone k e)
    (hcallbacks : u.pendingMutationCallbacks ⊆ s.pendingMutationCallbacks)
    (hretired : s.retired ⊆ u.retired) : u.Discharged gone k e :=
  ⟨fun hk => h.1 (hcallbacks hk), fun ref href => (h.2 ref href).imp_left fun h => hretired h⟩

theorem Discharged.of_same {k : Nat} (h : s.Discharged gone k e') (hsame : e'.Same e) :
    s.Discharged gone k e :=
  ⟨h.1, fun ref href => h.2 ref (hsame.ref.trans href)⟩

namespace Settles

/-- A change to what the relation does not speak of. -/
theorem quiet (drops : s.outboxPendingDrops ⊆ t.outboxPendingDrops)
    (same : s.spokenOf = t.spokenOf) :
    Settles gone t s := by
  simp only [spokenOf, Prod.mk.injEq] at same
  obtain ⟨reconciler, callbacks, settlements, retired, writes, posted, nextRequestId,
    outboxClientId, outboxNextSeq, identity, hydration, mirrorRead,
      closed, sent, sentBefore⟩ := same
  exact {
    entry := fun h => ⟨_, by rwa [log, ← reconciler], .rfl, Or.inl⟩
    leaves := fun h h' => by
      rw [log, reconciler] at h'
      exact absurd (h.symm.trans h') (by simp)
    thrown := fun h => .inl (reconciler ▸ h)
    thrown_mono := fun _ h => reconciler ▸ h
    drops := fun h => .inl (drops h)
    callbacks := fun _ h => callbacks ▸ h
    settlements := fun _ h => settlements ▸ h
    retired := fun _ h => retired ▸ h
    writes := ⟨[], by simp [writes]⟩
    posted := fun h => .inl (posted ▸ h)
    nextRequestId := nextRequestId
    outboxClientId := outboxClientId
    outboxNextSeq := outboxNextSeq
    identity := identity
    hydration := hydration
    mirrorRead := mirrorRead
    closed := closed
    sent := sent
    sentBefore := sentBefore }

theorem refl : Settles gone t t := quiet (fun _ => id) rfl

theorem discharged {k : Nat} (h : Settles gone t s)
    (hd : ∀ e, t.log.get? k = some e → t.Discharged gone k e) :
    ∀ e, s.log.get? k = some e → s.Discharged gone k e := by
  intro e he
  obtain ⟨e', he', hsame, -⟩ := h.entry he
  exact ((hd e' he').mono h.callbacks h.retired).of_same hsame.symm

theorem known {k : Nat} (h : Settles gone t s) (hk : s.Known k) : t.Known k := by
  refine hk.imp (fun hk => h.nextRequestId ▸ hk) fun hk => ?_
  obtain ⟨e', hs⟩ := ne_none_iff_exists'.1 hk
  obtain ⟨e, he, -⟩ := h.entry hs
  simp [he]

theorem trans (h : Settles gone t s) (h' : Settles gone s u) : Settles gone t u where
  entry {k e''} hget := by
    obtain ⟨e', hget', hsame', hdone'⟩ := h'.entry hget
    obtain ⟨e, hget, hsame, hdone⟩ := h.entry hget'
    refine ⟨e, hget, hsame'.trans hsame, fun hc => ?_⟩
    rcases hdone' hc with hc | hd
    · exact (hdone hc).imp_right fun hd => hd.mono h'.callbacks h'.retired
    · exact .inr (hd.of_same hsame)
  leaves {k e} hget hnone := by
    cases hs : s.log.get? k with
    | none =>
      rcases h.leaves hget hs with ht | hc | hp | hd
      · exact .inl (h'.thrown_mono ht)
      · exact .inr (.inl hc)
      · exact .inr (.inr (.inl hp))
      · exact .inr (.inr (.inr (hd.mono h'.callbacks h'.retired)))
    | some e' =>
      obtain ⟨e₀, hget', hsame, hdone⟩ := h.entry hs
      obtain rfl : e = e₀ := Option.some.inj (hget.symm.trans hget')
      rcases h'.leaves hs hnone with ht | hc | hp | hd
      · exact .inl ht
      · rcases hdone hc with hc | hd
        · exact .inr (.inl hc)
        · exact .inr (.inr (.inr (hd.mono h'.callbacks h'.retired)))
      · rcases h.drops hp with hp | ⟨-, -, hd⟩
        · exact .inr (.inr (.inl hp))
        · exact .inr (.inr (.inr (((hd e' hs).of_same hsame).mono h'.callbacks h'.retired)))
      · exact .inr (.inr (.inr (hd.of_same hsame)))
  thrown {k} hk := by
    rcases h'.thrown hk with hk | ⟨hs, hu⟩
    · rcases h.thrown hk with hk | ⟨ht, hs⟩
      · exact .inl hk
      · refine .inr ⟨ht, ?_⟩
        -- nothing new appears, so what has left stays away
        cases hu : u.log.get? k with
        | none => rfl
        | some e'' =>
          obtain ⟨e', hget, -⟩ := h'.entry hu
          exact absurd (hs.symm.trans hget) (by simp)
    · obtain ⟨e', hs⟩ := ne_none_iff_exists'.1 hs
      obtain ⟨e, hget, -⟩ := h.entry hs
      exact .inr ⟨by simp [hget], hu⟩
  thrown_mono := fun _ hk => h'.thrown_mono (h.thrown_mono hk)
  drops {k} hk := by
    rcases h'.drops hk with hk | hd
    · refine (h.drops hk).imp_right ?_
      rintro ⟨hknown, hcb, hd⟩
      exact ⟨hknown, fun hk => hcb (h'.callbacks hk), h'.discharged hd⟩
    · exact .inr ⟨h.known hd.1, hd.2⟩
  callbacks := fun _ hk => h.callbacks (h'.callbacks hk)
  settlements := fun _ hk => h'.settlements (h.settlements hk)
  retired := fun _ hk => h'.retired (h.retired hk)
  writes := by
    obtain ⟨ws, hws, hok⟩ := h.writes
    obtain ⟨ws', hws', hok'⟩ := h'.writes
    refine ⟨ws ++ ws', by rw [hws', hws, append_assoc], fun w hw => ?_⟩
    exact (mem_append.1 hw).elim (fun hw => (hok w hw).mono h'.retired) (hok' w)
  posted {b} hb := by
    rcases h'.posted hb with hb | hb
    · exact (h.posted hb).imp_right fun h => h'.retired h
    · exact .inr hb
  nextRequestId := h'.nextRequestId.trans h.nextRequestId
  outboxClientId := h'.outboxClientId.trans h.outboxClientId
  outboxNextSeq := h'.outboxNextSeq.trans h.outboxNextSeq
  identity := h'.identity.trans h.identity
  hydration := h'.hydration.trans h.hydration
  mirrorRead := h'.mirrorRead.trans h.mirrorRead
  closed := h'.closed.trans h.closed
  sent := h'.sent.trans h.sent
  sentBefore := h'.sentBefore.trans h.sentBefore

theorem after_quiet (h : Settles gone s u) (drops : s.outboxPendingDrops ⊆ t.outboxPendingDrops)
    (same : s.spokenOf = t.spokenOf) :
    Settles gone t u :=
  (quiet drops same).trans h

/-- What is done only if there is something to do it with. -/
theorem elim {α : Type*} {o : Option α} {f : α → Tab}
    (h : ∀ a, o = some a → Settles gone t (f a)) : Settles gone t (o.elim t f) := by
  cases o with
  | none => exact refl
  | some a => exact h a rfl

theorem ite {c : Prop} [Decidable c] {a b : Tab} (ha : c → Settles gone t a)
    (hb : ¬c → Settles gone t b) : Settles gone t (if c then a else b) := by
  split
  · exact ha ‹_›
  · exact hb ‹_›

theorem foldl {α : Type*} {f : Tab → α → Tab} (h : ∀ t a, Settles gone t (f t a)) (l : List α) :
    ∀ t, Settles gone t (l.foldl f t) := fun t =>
  foldlRecOn (motive := Settles gone t) l f refl fun s hs a _ => hs.trans (h s a)

end Settles

/-! ## Pieces -/

section

variable {k requestId : Nat} {ref : ClientMutationRef} {o : Settlement}
  {f : Reconciler → Reconciler} {p : Nat × PendingMutation} {result : MutationResult}

theorem settles_settlePending : Settles gone t (t.settlePending requestId o) := by
  rw [settlePending]
  split
  · exact { (Settles.refl : Settles gone t t) with
      entry := fun h => ⟨_, h, .rfl, Or.inl⟩
      leaves := fun h h' => absurd (h.symm.trans h') (by simp)
      drops := Or.inl
      callbacks := fun _ hk => mem_of_mem_filter hk
      settlements := fun _ hk => mem_cons_of_mem _ hk }
  · exact .refl

theorem notMem_settlePending :
    requestId ∉ (t.settlePending requestId o).pendingMutationCallbacks := by
  rw [settlePending]
  split
  · simp
  · assumption

@[simp] theorem log_settlePending : (t.settlePending requestId o).log = t.log := by
  rw [settlePending]
  split <;> rfl

@[simp] theorem retired_settlePending : (t.settlePending requestId o).retired = t.retired := by
  rw [settlePending]
  split <;> rfl

theorem settles_startWrite {w : OutboxWrite} (hw : w.Settling t.retired) :
    Settles gone t (t.startWrite w) :=
  { (Settles.refl : Settles gone t t) with
    writes := ⟨[w], rfl, fun _ hw' => mem_singleton.1 hw' ▸ hw⟩ }

theorem settles_retire : Settles gone t (t.retire ref) :=
  { (Settles.refl : Settles gone t t) with
    entry := fun h => ⟨_, h, .rfl, Or.inl⟩
    leaves := fun h h' => absurd (h.symm.trans h') (by simp)
    drops := Or.inl
    retired := fun _ hr => mem_cons_of_mem _ hr
    writes := ⟨[], by simp [retire]⟩
    posted := Or.inl }

theorem settles_onReconciler
    (hentry : ∀ k e', (f t.reconciler).log.get? k = some e' → ∃ e, t.log.get? k = some e ∧
      e'.Same e ∧ (e'.status.isCompleted = true → e.status.isCompleted = true ∨
        t.Discharged gone k e))
    (hleaves : ∀ k e, t.log.get? k = some e → (f t.reconciler).log.get? k = none →
      k ∈ (f t.reconciler).thrown ∨ e.status.isCompleted = true ∨ k ∈ t.outboxPendingDrops ∨
        t.Discharged gone k e)
    (hthrown : ∀ k ∈ (f t.reconciler).thrown,
      k ∈ t.reconciler.thrown ∨ t.log.get? k ≠ none ∧ (f t.reconciler).log.get? k = none)
    (hmono : t.reconciler.thrown ⊆ (f t.reconciler).thrown) :
    Settles gone t (t.onReconciler f) :=
  { (Settles.refl : Settles gone t t) with
    entry := fun h => hentry _ _ h
    leaves := fun h h' => hleaves _ _ h h'
    thrown := fun h => hthrown _ h
    thrown_mono := hmono
    drops := Or.inl }

theorem settles_rebuild : Settles gone t (t.onReconciler (.rebuild updaters)) := by
  refine settles_onReconciler (fun k e' h => ?_) (fun k e he h => ?_) (fun k h => ?_)
    fun k h => mem_append_right _ h
  · rw [Reconciler.rebuild, get?_replay, bind_eq_some_iff] at h
    obtain ⟨e, he, h⟩ := h
    refine ⟨e, he, ?_⟩
    split at h
    · obtain ⟨touched, -, rfl⟩ := map_eq_some_iff.1 h
      exact ⟨⟨rfl, rfl, rfl, rfl⟩, Or.inl⟩
    · cases h
      exact ⟨.rfl, Or.inl⟩
  · rw [Reconciler.rebuild, get?_replay, show t.reconciler.log.get? k = some e from he,
      bind_some] at h
    refine .inl (mem_append_left _ ((mem_throwing _).2 ⟨e, he, ?_⟩))
    split at h
    · exact ⟨‹_›, map_eq_none_iff.1 h⟩
    · cases h
  · refine (mem_append.1 h).symm.imp_right fun h => ?_
    obtain ⟨e, he, hupdate, hthrows⟩ := (mem_throwing _).1 h
    refine ⟨by simp [log, he], ?_⟩
    rw [Reconciler.rebuild, get?_replay, he]
    simp [hupdate, hthrows]

theorem settles_delete (h : ∀ e, t.log.get? requestId = some e → e.status.isCompleted = true ∨
      requestId ∈ t.outboxPendingDrops ∨ t.Discharged gone requestId e) :
    Settles gone t (t.onReconciler (.delete requestId)) := by
  have hget : ∀ k, (t.reconciler.delete requestId).log.get? k =
      if requestId = k then none else t.log.get? k := fun k => get?_erase _
  refine settles_onReconciler (fun k e' he => ?_) (fun k e he hnone => ?_) (fun k => Or.inl)
    fun k => id
  · rw [hget] at he
    split at he
    · cases he
    · exact ⟨e', he, .rfl, Or.inl⟩
  · rw [hget] at hnone
    split at hnone
    · rename_i hk
      exact .inr (hk ▸ h e (hk ▸ he))
    · exact absurd (he.symm.trans hnone) (by simp)

theorem settles_modify {f : PendingMutation → PendingMutation}
    (h : ∀ e, t.log.get? requestId = some e → (f e).Same e ∧
      ((f e).status.isCompleted = true → e.status.isCompleted = true ∨
        t.Discharged gone requestId e)) :
    Settles gone t (t.onReconciler (.modify requestId f)) := by
  have hget : ∀ k, (t.reconciler.modify requestId f).log.get? k =
      if requestId = k then (t.log.get? k).map f else t.log.get? k :=
    fun k => MutationLog.get?_modify _ _ _ _
  refine settles_onReconciler (fun k e' he => ?_) (fun k e he hnone => ?_) (fun k => Or.inl)
    fun k => id
  · rw [hget] at he
    split at he
    · rename_i hk
      obtain ⟨e, hget, rfl⟩ := map_eq_some_iff.1 he
      exact ⟨e, hget, hk ▸ h e (hk ▸ hget)⟩
    · exact ⟨e', he, .rfl, Or.inl⟩
  · rw [hget, he] at hnone
    split at hnone <;> cases hnone

/-- The end of an entry that is completed, due or discharged. -/
theorem settles_onMutationFailure (updaters : Updaters) (h : ∀ e, t.log.get? requestId = some e →
      e.status.isCompleted = true ∨ requestId ∈ t.outboxPendingDrops ∨
        t.Discharged gone requestId e) :
    Settles gone t (t.onReconciler (.onMutationFailure updaters requestId)) := by
  show Settles gone t { t with reconciler := Reconciler.onMutationFailure updaters requestId _ }
  rw [Reconciler.onMutationFailure]
  split
  · exact (settles_delete h).trans settles_rebuild
  · exact .refl

theorem settles_onMutationSuccess (updaters : Updaters) (ts : Option Nat)
    (h : ∀ e, t.log.get? requestId = some e → t.Discharged gone requestId e) :
    Settles gone t (t.onReconciler (.onMutationSuccess updaters requestId ts)) := by
  have hdelete := settles_delete fun e he => .inr (.inr (h e he))
  show Settles gone t { t with reconciler := Reconciler.onMutationSuccess updaters requestId ts _ }
  rw [Reconciler.onMutationSuccess]
  split
  · exact .refl
  · dsimp only
    split
    · exact hdelete
    · split
      · exact hdelete.trans settles_rebuild
      · exact settles_modify fun e he => ⟨⟨rfl, rfl, rfl, rfl⟩, fun _ => .inr (h e he)⟩

theorem settles_onGateTimeout :
    Settles gone t (t.onReconciler (.onGateTimeout updaters requestId)) := by
  show Settles gone t { t with reconciler := Reconciler.onGateTimeout updaters requestId _ }
  rw [Reconciler.onGateTimeout]
  split
  · rename_i e he
    split
    · rename_i hc
      refine (settles_delete fun e' he' => .inl ?_).trans settles_rebuild
      rwa [← Option.some.inj (he.symm.trans he')]
    · exact .refl
  · exact .refl

theorem settles_filterMap {g : PendingMutation → Option PendingMutation}
    (hlog : (f t.reconciler).log = t.log.filterMap fun _ => g)
    (hthrown : (f t.reconciler).thrown = t.reconciler.thrown)
    (hsome : ∀ {e e'}, g e = some e' → e'.Same e ∧
      (e'.status.isCompleted = true → e.status.isCompleted = true))
    (hnone : ∀ {k e}, t.log.get? k = some e → g e = none →
      e.status.isCompleted = true ∨ t.Discharged gone k e) :
    Settles gone t (t.onReconciler f) := by
  refine settles_onReconciler (fun k e' h => ?_) (fun k e he h => ?_)
    (fun k h => .inl (hthrown ▸ h)) fun k h => hthrown ▸ h
  · rw [hlog, get?_filterMap, bind_eq_some_iff] at h
    obtain ⟨e, he, h⟩ := h
    exact ⟨e, he, (hsome h).1, fun hc => .inl ((hsome h).2 hc)⟩
  · rw [hlog, get?_filterMap, he, bind_some] at h
    exact .inr ((hnone he h).imp_right .inr)

theorem settles_ingestTransition {endTs : Nat} :
    Settles gone t (t.onReconciler (.ingestTransition updaters endTs)) := by
  refine (settles_filterMap (f := fun r => { r with
      observedTs := max r.observedTs endTs
      log := r.log.filterMap fun _ => Reconciler.afterTransition (max r.observedTs endTs) })
    rfl rfl ?_ ?_).trans settles_rebuild
  · intro e e' h
    rw [Reconciler.afterTransition] at h
    split at h
    · split at h
      · cases h
      · cases h
        exact ⟨.rfl, id⟩
    · cases h
      exact ⟨.rfl, id⟩
  · intro k e _ h
    rw [Reconciler.afterTransition] at h
    split at h
    · rename_i hstatus
      exact .inl (by rw [hstatus]; rfl)
    · cases h

/-- A close, once the promises it rejects have ended. -/
theorem settles_closeSession {armed : Bool}
    (h : ∀ {k e}, t.log.get? k = some e → closeDisposition armed e = .reject →
      t.Discharged gone k e) :
    Settles gone t (t.onReconciler (.closeSession updaters armed)) := by
  refine (settles_filterMap (f := fun r => { r with
      log := r.log.filterMap fun _ => Reconciler.afterClose armed, observedTs := 0 })
    rfl rfl ?_ ?_).trans settles_rebuild
  · intro e e' h
    rw [Reconciler.afterClose] at h
    split at h
    · cases h
      exact ⟨.rfl, id⟩
    · cases h
      exact ⟨⟨rfl, rfl, rfl, rfl⟩, by simp [MutationStatus.isCompleted]⟩
    · cases h
    · cases h
  · intro k e he h'
    rw [Reconciler.afterClose] at h'
    split at h'
    · cases h'
    · cases h'
    · rename_i hreject
      exact .inr (h he hreject)
    · rename_i hdrop
      refine .inl ?_
      rw [closeDisposition] at hdrop
      split at hdrop
      · cases hdrop
      · cases hdrop
      · split at hdrop <;> cases hdrop
      · rename_i hstatus
        rw [hstatus]
        rfl

/-! ## Handlers -/

theorem settles_dropAfterBaseline (hknown : t.Known requestId)
    (hcallbacks : requestId ∉ t.pendingMutationCallbacks)
    (h : ∀ e, t.log.get? requestId = some e → t.Discharged gone requestId e) :
    Settles gone t (t.dropAfterBaseline updaters requestId) := by
  rw [dropAfterBaseline]
  split
  · refine { (Settles.refl : Settles gone t t) with
      drops := fun {k} hk => (mem_append.1 hk).imp_right fun hk => ?_ }
    obtain rfl := mem_singleton.1 hk
    exact ⟨hknown, hcallbacks, h⟩
  · exact settles_onMutationFailure updaters fun e he => .inr (.inr (h e he))

/-- A drop that was due in `t` may be made at any time after. -/
theorem Settles.drop (h : Settles gone t s) (hdue : requestId ∈ t.outboxPendingDrops) :
    Settles gone t (s.onReconciler (.onVerdictAfterBaseline updaters requestId)) := by
  -- make the drop due in `s` again, so that the rule for one step applies, and forget it after
  have hdrop : Settles gone { s with outboxPendingDrops := t.outboxPendingDrops }
      ({ s with outboxPendingDrops := t.outboxPendingDrops }.onReconciler
        (.onMutationFailure updaters requestId)) :=
    settles_onMutationFailure updaters fun _ _ => .inr (.inl hdue)
  have hs : Settles gone t { s with outboxPendingDrops := t.outboxPendingDrops } :=
    { h with entry := h.entry, leaves := h.leaves, drops := Or.inl }
  have hts := hs.trans hdrop
  exact { hts with
    drops := fun {k} hk => by
      exact (h.drops hk).imp_right fun hd => ⟨hd.1, hd.2.1, hdrop.discharged hd.2.2⟩ }

theorem settles_markBaselineAdopted : Settles gone t (t.markBaselineAdopted updaters) := by
  have hfold : ∀ (l : List Nat) s, Settles gone t s → (∀ k ∈ l, k ∈ t.outboxPendingDrops) →
      Settles gone t (l.foldl (fun t requestId =>
        t.onReconciler (.onVerdictAfterBaseline updaters requestId)) s) := by
    intro l
    induction l with
    | nil => exact fun s h _ => h
    | cons k l ih =>
      intro s h hl
      exact ih _ (h.drop (hl k mem_cons_self)) fun k' hk' => hl k' (mem_cons_of_mem _ hk')
  exact hfold _ _ (Settles.quiet (by simp) rfl) fun _ => id

theorem settles_beginBaselineAwait {expect : Bool} :
    Settles gone t (t.beginBaselineAwait updaters expect) := by
  rw [beginBaselineAwait]
  split
  · exact .quiet (fun _ => id) rfl
  · exact settles_markBaselineAdopted.after_quiet (fun _ => id) rfl

theorem settles_onTransition {endTs : Nat} : Settles gone t (t.onTransition updaters endTs) := by
  rw [onTransition]
  split
  · exact settles_ingestTransition.trans settles_markBaselineAdopted
  · exact settles_ingestTransition

theorem settles_setStatus {status : MutationStatus} {stored : OutboxEntryStatus}
    (hstatus : status.isCompleted = false) (hstored : stored.isActive = true) :
    Settles gone t (t.setStatus requestId ref status stored) := by
  refine Settles.trans
    (s := t.onReconciler (.modify requestId fun e => { e with status := status }))
    (settles_modify fun e _ => ⟨⟨rfl, rfl, rfl, rfl⟩, fun hc => ?_⟩)
    (settles_startWrite (w := .updateStatus ref stored none) (Or.inl hstored))
  exact absurd (hstatus.symm.trans hc) (by simp)

theorem settles_revertActive : Settles gone t t.revertActive :=
  (Settles.foldl (fun _ _ => settles_setStatus rfl rfl) _ _).after_quiet (fun _ => id) rfl

theorem log_retireRequest : (t.retireRequest requestId).log = t.log := by
  rw [retireRequest]
  cases t.refOf requestId <;> rfl

theorem settles_retireRequest : Settles gone t (t.retireRequest requestId) :=
  .elim fun _ _ => settles_retire

theorem mem_retired_retireRequest (h : t.refOf requestId = some ref) :
    ref ∈ (t.retireRequest requestId).retired := by
  rw [retireRequest, h]
  exact mem_cons_self

/-- The state a settlement of a request begins with: its number retired, its promise ended. -/
theorem discharged_of_retireRequest
    (he : ((t.retireRequest requestId).settlePending requestId o).log.get? requestId = some e) :
    ((t.retireRequest requestId).settlePending requestId o).Discharged gone requestId e := by
  rw [log_settlePending, log_retireRequest] at he
  refine ⟨notMem_settlePending, fun ref href => .inl ?_⟩
  rw [retired_settlePending]
  exact mem_retired_retireRequest (by rw [refOf, he]; exact href)

theorem settles_post {b : OutboxBroadcast} (h : b.ref ∈ t.retired) : Settles gone t (t.post b) :=
  { (Settles.refl : Settles gone t t) with
    posted := fun hb => (mem_cons.1 hb).symm.imp_right fun (hb : _ = b) => hb ▸ h }

theorem settles_outboxDequeue (h : ref ∈ t.retired) : Settles gone t (t.outboxDequeue ref) :=
  settles_startWrite (w := .dequeue ref) h

theorem settles_outboxMarkFailed (message : String) (code : Option String) (h : ref ∈ t.retired) :
    Settles gone t (t.outboxMarkFailed ref message code) :=
  settles_startWrite (w := .updateStatus ref .failed _) (Or.inr h)

theorem mem_retired_settlePending_retireRequest (h : t.refOf requestId = some ref) :
    ref ∈ ((t.retireRequest requestId).settlePending requestId o).retired := by
  rw [retired_settlePending]
  exact mem_retired_retireRequest h

theorem settles_settlePending_retireRequest (requestId : Nat) (o : Settlement) :
    Settles gone t ((t.retireRequest requestId).settlePending requestId o) :=
  settles_retireRequest.trans settles_settlePending

theorem settles_settleTerminal {code : Option String} {message : String} :
    Settles gone t (t.settleTerminal updaters requestId code message) := by
  rw [settleTerminal, rejectPending]
  refine (settles_settlePending_retireRequest requestId (.rejected message code)).trans ?_
  cases href : t.refOf requestId with
  | none => exact settles_onMutationFailure updaters fun e
      he => .inr (.inr (discharged_of_retireRequest he))
  | some ref =>
    have hretired := mem_retired_settlePending_retireRequest (o := .rejected message code) href
    have hmark : Settles gone _ _ := settles_outboxMarkFailed message code hretired
    refine hmark.trans (Settles.trans (settles_onMutationFailure updaters fun e he => ?_)
      (settles_post (hmark.retired hretired)))
    exact .inr (.inr (hmark.discharged (fun _ => discharged_of_retireRequest) e he))

theorem settles_dropApplied (updaters : Updaters) (replayed : Bool) (ts : Option Nat)
    (hknown : t.log.get? requestId ≠ none) (hcallbacks : requestId ∉ t.pendingMutationCallbacks)
    (h : ∀ e, t.log.get? requestId = some e → t.Discharged gone requestId e) :
    Settles gone t (if replayed then t.dropAfterBaseline updaters requestId
      else t.onReconciler (.onMutationSuccess updaters requestId ts)) := by
  split
  · exact settles_dropAfterBaseline (.inr hknown) hcallbacks h
  · exact settles_onMutationSuccess updaters ts h

theorem settles_settleApplied {replayed : Bool} {ts : Option Nat} :
    Settles gone t (t.settleApplied updaters requestId replayed ts) := by
  rw [settleApplied, resolvePending]
  refine (settles_settlePending_retireRequest requestId .resolved).trans ?_
  cases href : t.refOf requestId with
  | none =>
    refine .ite (fun _ => .refl) fun hhas => settles_dropApplied updaters replayed ts ?_
      notMem_settlePending fun _ => discharged_of_retireRequest
    simpa using hhas
  | some ref =>
    have hretired := mem_retired_settlePending_retireRequest (o := .resolved) href
    have hdequeue : Settles gone _ _ := settles_outboxDequeue hretired
    refine hdequeue.trans (.ite (fun _ => .refl) fun hhas => ?_)
    have hdrop : Settles gone _ _ := settles_dropApplied updaters replayed ts
      (by simpa using hhas)
      (fun h => notMem_settlePending (hdequeue.callbacks h))
      (hdequeue.discharged fun _ => discharged_of_retireRequest)
    exact hdrop.trans (settles_post (hdrop.retired (hdequeue.retired hretired)))

theorem settles_dropFromActive : Settles gone t (t.dropFromActive requestId) :=
  .quiet (fun _ => id) rfl

theorem settles_onDrainResponse {cfg : OutboxConfig} {c : ChunkEntry} :
    Settles gone t (t.onDrainResponse cfg updaters c result) := by
  match result with
  | .success _ ts replayed _ => exact settles_settleApplied.trans settles_dropFromActive
  | .failure _ (some code) =>
    exact .ite (fun _ => settles_revertActive.after_quiet (fun _ => id) rfl)
      fun _ => settles_settleTerminal.trans settles_dropFromActive
  | .failure _ none => exact settles_revertActive

theorem settles_onDirectResponse :
    Settles gone t (t.onDirectResponse updaters requestId result) := by
  cases result with
  | success value ts replayed valueMissing =>
    refine (settles_settlePending_retireRequest requestId .resolved).trans ?_
    have hdrop : Settles gone ((t.retireRequest requestId).settlePending requestId .resolved)
        (onReconciler (.onMutationSuccess updaters requestId ts) _) :=
      settles_onMutationSuccess updaters ts fun e he => discharged_of_retireRequest he
    refine hdrop.trans (.elim fun ref href => settles_outboxDequeue (hdrop.retired ?_))
    exact mem_retired_settlePending_retireRequest href
  | failure error code =>
    refine (settles_settlePending_retireRequest requestId (.rejected error code)).trans ?_
    have hdrop : Settles gone ((t.retireRequest requestId).settlePending requestId
        (.rejected error code)) (onReconciler (.onMutationFailure updaters requestId) _) :=
      settles_onMutationFailure updaters fun e he => .inr (.inr (discharged_of_retireRequest he))
    refine hdrop.trans (.elim fun ref href =>
      settles_outboxMarkFailed error code (hdrop.retired ?_))
    exact mem_retired_settlePending_retireRequest href

theorem settles_onMutationResponse {cfg : OutboxConfig} :
    Settles gone t (t.onMutationResponse cfg updaters requestId result) := by
  rw [onMutationResponse]
  split
  · exact settles_onDrainResponse
  · exact settles_onDirectResponse

/-! ## Verdicts -/

theorem get?_of_findOutboxEntry (h : t.findOutboxEntry ref = some p) :
    t.log.get? p.1 = some p.2 ∧ p.2.ref = some ref := by
  have href := find?_some h
  exact ⟨(get?_eq_some_iff _).2 (mem_of_find?_eq_some h), by simpa using href⟩

/-- The state a verdict begins with. -/
theorem discharged_of_findOutboxEntry (h : t.findOutboxEntry ref = some p)
    (he : ((t.retire ref).settlePending p.1 o).log.get? p.1 = some e) :
    ((t.retire ref).settlePending p.1 o).Discharged gone p.1 e := by
  obtain ⟨hget, href⟩ := get?_of_findOutboxEntry h
  rw [log_settlePending] at he
  obtain rfl : p.2 = e := Option.some.inj (hget.symm.trans he)
  refine ⟨notMem_settlePending, fun ref' href' => .inl ?_⟩
  rw [retired_settlePending, ← Option.some.inj (href.symm.trans href')]
  exact mem_cons_self

theorem settles_settleRejected {message : String} {code : Option String} :
    Settles gone t (t.settleRejected updaters ref message code) := by
  unfold settleRejected rejectPending
  have hretire : Settles gone t (t.retire ref) := settles_retire
  cases hfind : t.findOutboxEntry ref with
  | none => exact hretire.trans (settles_outboxMarkFailed message code mem_cons_self)
  | some p =>
    have hmark : Settles gone ((t.retire ref).settlePending p.1 (.rejected message code)) _ :=
      settles_outboxMarkFailed message code (by rw [retired_settlePending]; exact mem_cons_self)
    refine hretire.trans (settles_settlePending.trans (hmark.trans ?_))
    exact settles_onMutationFailure updaters fun e he =>
      .inr (.inr (hmark.discharged (fun _ => discharged_of_findOutboxEntry hfind) e he))

theorem settles_settleVerdict {v : ClientMutationVerdict} :
    Settles gone t (t.settleVerdict updaters v) := by
  rw [settleVerdict]
  cases v.verdict with
  | applied =>
    have hretire : Settles gone t (t.retire v.ref) := settles_retire
    cases hfind : t.findOutboxEntry v.ref with
    | none => exact hretire.trans (settles_outboxDequeue mem_cons_self)
    | some p =>
      have hdequeue : Settles gone ((t.retire v.ref).settlePending p.1 .resolved) _ :=
        settles_outboxDequeue (by rw [retired_settlePending]; exact mem_cons_self)
      refine hretire.trans (settles_settlePending.trans (hdequeue.trans ?_))
      have hget : ((t.retire v.ref).settlePending p.1 .resolved).log.get? p.1 = some p.2 := by
        rw [log_settlePending]
        exact (get?_of_findOutboxEntry hfind).1
      exact settles_dropAfterBaseline (.inr (ne_none_iff_exists'.2 ⟨_, hget⟩))
        (fun h => notMem_settlePending (hdequeue.callbacks h))
        (hdequeue.discharged fun _ => discharged_of_findOutboxEntry hfind)
  | failed | stale => exact settles_settleRejected
  | unknown => exact .refl

theorem settles_resetParked {o : Option ClientMutationRef}
    (h : ∀ e, t.log.get? requestId = some e → e.ref = o) :
    Settles gone t (t.resetParked updaters requestId o) := by
  cases o with
  | none =>
    refine settles_settlePending.trans (settles_onMutationFailure updaters fun e he => ?_)
    rw [log_settlePending] at he
    exact .inr (.inr ⟨notMem_settlePending, by simp [h e he]⟩)
  | some ref =>
    have hmark : Settles gone t ((t.retire ref).outboxMarkFailed ref resetMessage
        (some offlineClientReset)) :=
      settles_retire.trans (settles_outboxMarkFailed _ _ mem_cons_self)
    refine hmark.trans (settles_settlePending.trans
      (settles_onMutationFailure updaters fun e he => ?_))
    rw [log_settlePending] at he
    refine .inr (.inr ⟨notMem_settlePending, fun ref' href' => .inl ?_⟩)
    rw [retired_settlePending, Option.some.inj (href'.symm.trans (h e he))]
    exact mem_cons_self

/-! ## Closing -/

theorem settles_noteParked : Settles gone t (t.noteParked requestId) :=
  .elim fun ref _ => settles_startWrite (w := .updateStatus ref .parked none) (Or.inl rfl)

theorem settlePending_onReconciler :
    (t.onReconciler f).settlePending requestId o =
    (t.settlePending requestId o).onReconciler f := by
  rw [settlePending, settlePending, apply_ite (onReconciler f)]
  rfl

theorem foldl_settlePending_onReconciler (l : List Nat) : ∀ t : Tab,
      l.foldl (fun t k => t.settlePending k o) (t.onReconciler f) =
        (l.foldl (fun t k => t.settlePending k o) t).onReconciler f := by
  induction l with
  | nil => exact fun _ => rfl
  | cons k l ih =>
    intro t
    rw [foldl_cons, foldl_cons, settlePending_onReconciler, ih]

theorem notMem_foldl_settlePending {l : List Nat} (hk : k ∈ l) (t : Tab) :
    k ∉ (l.foldl (fun t k => t.settlePending k o) t).pendingMutationCallbacks := by
  induction l generalizing t with
  | nil => cases hk
  | cons k' l ih =>
    rcases mem_cons.1 hk with rfl | hk
    · have : Settles (fun _ => True) (t.settlePending k o)
          (l.foldl (fun t k => t.settlePending k o) _) :=
        Settles.foldl (fun _ _ => settles_settlePending) l _
      exact fun h => notMem_settlePending (this.callbacks h)
    · exact ih hk _

theorem log_foldl_settlePending (l : List Nat) (t : Tab) :
    (l.foldl (fun t k => t.settlePending k o) t).log = t.log := by
  induction l generalizing t with
  | nil => rfl
  | cons k l ih => rw [foldl_cons, ih, log_settlePending]

theorem settles_closeEntries
    (h : ∀ {k e ref}, t.log.get? k = some e → closeDisposition t.outboxArmed e = .reject →
      e.ref = some ref → gone ref) :
    Settles gone t (t.closeEntries updaters) := by
  rw [closeEntries]
  unfold rejectPending
  rw [foldl_settlePending_onReconciler]
  refine Settles.trans (Settles.foldl (fun _ _ => settles_settlePending) _ _) (Settles.trans
    (settles_closeSession fun {k e} he hreject => ⟨?_, fun ref href => .inr ?_⟩)
    (Settles.foldl (fun _ _ => settles_noteParked) _ _))
  · rw [log_foldl_settlePending] at he
    refine notMem_foldl_settlePending (mem_map.2 ⟨(k, e), mem_filter.2 ⟨?_, ?_⟩, rfl⟩) _
    · exact (get?_eq_some_iff _).1 he
    · simpa using hreject
  · rw [log_foldl_settlePending] at he
    exact h he hreject href

/-! ## Other tabs -/

theorem settles_mirrorEntry (updaters : Updaters) (entries : List OutboxEntry)
    (hp : p.1 < t.nextRequestId) :
    Settles (fun ref => (storedFor entries ref).any (·.status.isActive) = false) t
      (t.mirrorEntry updaters entries p) := by
  rw [mirrorEntry]
  generalize he : (t.log.get? p.1).getD p.2 = e
  cases href : e.ref with
  | none => exact .refl
  | some ref =>
    dsimp only
    split
    · exact .refl
    · rename_i hskip
      simp only [isMirroredEntry, Bool.or_eq_true, Bool.not_eq_true', not_or, Bool.not_eq_false,
        Bool.and_eq_true, decide_eq_true_eq, Bool.not_eq_true] at hskip
      obtain ⟨⟨⟨-, hcallbacks⟩, -⟩, hinactive⟩ := hskip
      have hd : ∀ e', t.log.get? p.1 = some e' → t.Discharged
          (fun ref => (storedFor entries ref).any (·.status.isActive) = false) p.1 e' := by
        intro e' he'
        rw [he', getD_some] at he
        subst he
        refine ⟨hcallbacks, fun ref' href' => .inr ?_⟩
        rwa [← Option.some.inj (href.symm.trans href')]
      exact .ite (fun _ => settles_onMutationFailure updaters fun e he => .inr (.inr (hd e he)))
        fun _ => settles_dropAfterBaseline (.inl hp) hcallbacks hd

theorem settles_onCrossTabSettle {b : OutboxBroadcast} :
    Settles (fun ref => ref = b.ref) t (t.onCrossTabSettle updaters b) := by
  rw [onCrossTabSettle]
  cases hfind : t.findOutboxEntry b.ref with
  | none => exact .refl
  | some p =>
    obtain ⟨hget, href⟩ := get?_of_findOutboxEntry hfind
    dsimp only
    split
    · rename_i hmirrored
      simp only [isMirroredEntry, Bool.and_eq_true, decide_eq_true_eq] at hmirrored
      have hd : ∀ e, t.log.get? p.1 = some e → t.Discharged (fun ref => ref = b.ref) p.1 e := by
        intro e he
        obtain rfl : p.2 = e := Option.some.inj (hget.symm.trans he)
        exact ⟨hmirrored.2, fun ref href' => .inr (Option.some.inj (href'.symm.trans href))⟩
      cases b with
      | settled ref commitTs => exact settles_onMutationSuccess updaters _ hd
      | failed ref => exact settles_onMutationFailure updaters fun e he => .inr (.inr (hd e he))
    · exact .refl

end

end Tab

end Helipod
