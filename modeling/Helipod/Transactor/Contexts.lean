import Helipod.Transactor.Revisions

/-!
# Where transaction contexts come from

The contexts a writer holds are those of its live calls and of the transactions on their
way to the store. A step makes a new one only when a body works on its context or an
attempt begins.

Results: `ShardWriter.HasContext.step`, `ShardWriter.step_body`, `ShardWriter.Inv.step_landed`.
-/

namespace Helipod

open List

variable {V : Type}

namespace ShardWriter

/-! ## Units -/

section Units

variable {store store' : Store V} {w w' : ShardWriter V} {e : Event V} {out : List Nat}

theorem mem_inflight {u : Option Nat × StagedUnit V} : u ∈ w.inflight ↔
    u ∈ committerUnits w.committer ∨ u ∈ pendingUnits w.pendingBatch ∨ u ∈ holderUnits w.mutex := by
  rw [inflight, append_assoc, mem_append, mem_append]

/-- The step makes no unit and resolves no `prev_ts`. -/
structure KeepsUnits (w w' : ShardWriter V) : Prop where
  units : ∀ u ∈ w'.inflight, ∃ o, (o, u.2) ∈ w.inflight
  reading : ∀ i ctx read todo, w'.mutex = some (.reading i ctx read todo) →
    w.mutex = some (.reading i ctx read todo)

namespace KeepsUnits

/-- A holder that writes does so with its own unit. -/
theorem holder (hp : w'.pendingBatch = w.pendingBatch) (hc : w'.committer = w.committer)
    (hm : ∀ u ∈ holderUnits w'.mutex, ∃ o, (o, u.2) ∈ holderUnits w.mutex)
    (hr : ∀ i ctx read todo, w'.mutex ≠ some (.reading i ctx read todo)) : KeepsUnits w w' := by
  refine ⟨fun u hu => ?_, fun i ctx read todo h => absurd h (hr i ctx read todo)⟩
  rcases mem_inflight.1 hu with hu | hu | hu
  · exact ⟨u.1, mem_inflight.2 (.inl (hc ▸ hu))⟩
  · exact ⟨u.1, mem_inflight.2 (.inr (.inl (hp ▸ hu)))⟩
  · obtain ⟨o, ho⟩ := hm u hu
    exact ⟨o, mem_inflight.2 (.inr (.inr ho))⟩

/-- Only the committer changes, and it takes no new units. -/
theorem committer (hp : w'.pendingBatch = w.pendingBatch) (hm : w'.mutex = w.mutex)
    (hc : ∀ u ∈ committerUnits w'.committer, ∃ o, (o, u.2) ∈ committerUnits w.committer) :
    KeepsUnits w w' := by
  refine ⟨fun u hu => ?_, fun i ctx read todo h => hm ▸ h⟩
  rcases mem_inflight.1 hu with hu | hu | hu
  · obtain ⟨o, ho⟩ := hc u hu
    exact ⟨o, mem_inflight.2 (.inl ho)⟩
  · exact ⟨u.1, mem_inflight.2 (.inr (.inl (hp ▸ hu)))⟩
  · exact ⟨u.1, mem_inflight.2 (.inr (.inr (hm ▸ hu)))⟩

theorem same (same : (w'.mutex, w'.pendingBatch, w'.committer) = (w.mutex, w.pendingBatch,
    w.committer)) :
    KeepsUnits w w' := by
  simp only [Prod.mk.injEq] at same
  obtain ⟨hm, hp, hc⟩ := same
  exact committer hp hm fun u hu => ⟨u.1, hc ▸ hu⟩

/-- The committer goes on with units of its flush. -/
theorem flush {f : Flush V} (hf : w.committer = .flushing f) {cm : Committer V}
    (hcm : ∀ u ∈ committerUnits cm, u.2 ∈ f.remaining.map Prod.snd) :
    KeepsUnits w { w with committer := cm } := by
  refine committer rfl rfl fun u hu => ?_
  obtain ⟨d, hd, hdu⟩ := mem_map.1 (hcm u hu)
  rw [hf, ← hdu]
  exact ⟨d.1, hd⟩

/-- Only a call that gets the mutex, and then the answers to its reads of `prev_ts`, make units. -/
theorem of_step (hs : w.step store e = some (store', w', out)) (he : e ≠ .prevAnswered)
    (ha : ∀ i, e ≠ .acquire i) : KeepsUnits w w' := by
  cases acts_of_step hs with
  | start => exact same rfl
  | call hi hw =>
    cases hw with
    | acquire => exact absurd rfl (ha _)
    | _ => exact same rfl
  | staged | prevAnswered => exact absurd rfl he
  | allocateOne _ hm | landOne hm =>
    refine holder rfl rfl (fun u hu => ?_) (by simp)
    rw [hm, mem_singleton.1 hu]
    exact ⟨_, mem_singleton.2 rfl⟩
  | allocate _ hf _ _ _ hrem =>
    refine flush hf fun u hu => ?_
    subst hrem
    obtain ⟨q, hq, rfl⟩ := mem_map.1 hu
    exact (of_mem_zip hq).2
  | land hf => exact flush hf fun u hu => mem_map_of_mem hu
  | rejectOne | resolveOne => exact holder rfl rfl (fun u hu => by cases hu) (by simp)
  | @reject f k b hf =>
    refine flush hf fun u hu => ?_
    rw [← map_snd_undrawn]
    exact mem_map_of_mem ((Inv.flushRejected_units f k b).subset hu)
  | @resolve f hf =>
    refine flush hf fun u hu => ?_
    exact mem_map_of_mem ((Inv.committerUnits_landed f).1.subset hu)
  | stop | publish => exact committer rfl rfl fun u hu => by cases hu
  | detach hm hc hb =>
    refine ⟨fun u hu => ?_, fun i ctx read todo h => h⟩
    rcases mem_inflight.1 hu with hu | hu | hu
    · exact ⟨u.1, mem_inflight.2 (.inr (.inl (by rw [hb]; exact hu)))⟩
    · cases hu
    · exact ⟨u.1, mem_inflight.2 (.inr (.inr hu))⟩

end KeepsUnits

theorem units_stageUnit {unit : StagedUnit V} :
    (∀ u ∈ (w.stageUnit unit).inflight, u.2 = unit ∨ u ∈ w.inflight) ∧
      ∀ i ctx read todo, (w.stageUnit unit).mutex ≠ some (.reading i ctx read todo) := by
  unfold ShardWriter.stageUnit
  split
  · refine ⟨fun u hu => ?_, fun i ctx read todo h => by cases h⟩
    rcases mem_inflight.1 hu with hu | hu | hu
    · exact .inr (mem_inflight.2 (.inl (Inv.committerUnits_ensureCommitter w.committer ▸ hu)))
    · rw [Inv.pendingUnits_openBatch, mem_append] at hu
      rcases hu with hu | hu
      · exact .inr (mem_inflight.2 (.inr (.inl hu)))
      · exact .inl (by rw [mem_singleton.1 hu])
    · cases hu
  · refine ⟨fun u hu => ?_, fun i ctx read todo h => by cases h⟩
    rcases mem_inflight.1 hu with hu | hu | hu
    · exact .inr (mem_inflight.2 (.inl hu))
    · exact .inr (mem_inflight.2 (.inr (.inl hu)))
    · exact .inl (by rw [mem_singleton.1 hu])

theorem calls_stageUnit {unit : StagedUnit V} : (w.stageUnit unit).calls = w.calls := by
  unfold ShardWriter.stageUnit
  split <;> rfl

end Units

/-! ## Contexts -/

/-- The context belongs to a live call or to a transaction in flight. -/
def HasContext (w : ShardWriter V) (ctx : TransactionContext V) : Prop :=
  (∃ c ∈ w.calls, c.phase.live = true ∧ c.ctx = ctx) ∨ ∃ e ∈ w.inflight, e.2.ctx = ctx

namespace HasContext

variable {store : Store V} {w w' : ShardWriter V} {ctx : TransactionContext V} {i : Nat}
  {c c' : Call V}

theorem of_call (hi : w.calls[i]? = some c) (hlive : c.phase.live = true) : w.HasContext c.ctx :=
  .inl ⟨c, mem_of_getElem? hi, hlive, rfl⟩

theorem of_holder {read : List (DocumentLogEntry V)} {todo : List (InternalDocumentId × Option V)}
    (hm : w.mutex = some (.reading i ctx read todo)) : w.HasContext ctx := by
  refine .inr ⟨(none, ⟨i, ctx, read⟩), mem_append_right _ ?_, rfl⟩
  rw [hm]
  exact mem_singleton.2 rfl

/-- A step that adds no call and no unit adds no context. -/
theorem frame (h : w'.HasContext ctx)
    (hcalls : ∀ c ∈ w'.calls, c.phase.live = true → w.HasContext c.ctx)
    (hunits : ∀ e ∈ w'.inflight, w.HasContext e.2.ctx) : w.HasContext ctx := by
  rcases h with ⟨c, hc, hlive, rfl⟩ | ⟨e, he, rfl⟩
  · exact hcalls c hc hlive
  · exact hunits e he

theorem calls_self (w : ShardWriter V) : ∀ c ∈ w.calls, c.phase.live = true → w.HasContext c.ctx :=
  fun c hc hlive => .inl ⟨c, hc, hlive, rfl⟩

theorem of_units (h : w'.HasContext ctx)
    (hcalls : ∀ c ∈ w'.calls, c.phase.live = true → w.HasContext c.ctx)
    (hunits : KeepsUnits w w') : w.HasContext ctx :=
  h.frame hcalls fun e he =>
    let ⟨o, ho⟩ := hunits.units e he
    .inr ⟨(o, e.2), ho, rfl⟩

theorem setCall (h : (w.setCall i c').HasContext ctx) : w.HasContext ctx ∨ ctx = c'.ctx := by
  rcases h with ⟨d, hd, hlive, rfl⟩ | ⟨e, he, rfl⟩
  · rcases mem_or_eq_of_mem_set hd with hd | rfl
    · exact .inl (.inl ⟨d, hd, hlive, rfl⟩)
    · exact .inr rfl
  · exact .inl (.inr ⟨e, he, rfl⟩)

theorem setCall_same (h : (w.setCall i c').HasContext ctx) (hi : w.calls[i]? = some c)
    (hlive : c.phase.live = true) (hctx : c'.ctx = c.ctx) : w.HasContext ctx := by
  rcases h.setCall with h | rfl
  · exact h
  · exact hctx ▸ of_call hi hlive

theorem acquire (h : (w.acquire i c).HasContext ctx) (hi : w.calls[i]? = some c)
    (hlive : c.phase.live = true) : w.HasContext ctx := by
  unfold ShardWriter.acquire at h
  simp only at h
  split at h
  · refine h.frame (fun d hd hd' => ?_) fun e he => ?_
    · exact setCall_same (.inl ⟨d, hd, hd', rfl⟩) hi hlive rfl
    · rcases mem_append.1 he with he | he
      · exact .inr ⟨e, mem_append_left _ he, rfl⟩
      · rw [mem_singleton.1 he]
        exact of_call hi hlive
  · exact setCall_same h hi hlive rfl

variable {e : Event V}

theorem callStep (h : w'.HasContext ctx) (hi : w.calls[i]? = some c)
    (hs : CallActs store w i c e w') :
    w.HasContext ctx ∨ ctx = { snapshotTs := w.oracle.lastCommitted } ∨
      ∃ op, e = .op i op ∧ c.phase = .body ∧ ctx = c.ctx.apply store.landed op := by
  cases hs with
  | op op hbody =>
    rcases h.setCall with h | rfl
    · exact .inl h
    · exact .inr (.inr ⟨op, rfl, hbody, rfl⟩)
  | bodyReturns hbody | bodyThrows _ hbody => exact .inl (h.setCall_same hi (by simp [hbody]) rfl)
  | acquire hq hm => exact .inl (h.acquire hi (by simp [hq]))
  | restage hcut => exact .inl (h.setCall_same hi (by simp [hcut]) rfl)
  | retry =>
    rcases h.setCall with h | rfl
    · exact .inl h
    · exact .inr (.inl rfl)
  | finish hends =>
    refine .inl (h.setCall_same hi ?_ rfl)
    rcases hends with hends | ⟨⟨wait, hends⟩, -⟩ <;> simp [hends]

/-- Every context after a step was there before, is that of a new attempt, or comes from an
operation of a body. -/
theorem step {store' : Store V} {out : List Nat} (h : w'.HasContext ctx)
    (hs : w.step store e = some (store', w', out)) :
    w.HasContext ctx ∨ ctx = { snapshotTs := w.oracle.lastCommitted } ∨
      ∃ i op c, e = .op i op ∧ w.calls[i]? = some c ∧ c.phase = .body ∧
        ctx = c.ctx.apply store.landed op := by
  have hkeeps := KeepsUnits.of_step hs
  -- a settled call keeps its context
  have hsettle : ∀ {p : Phase} (c : Call V), (c.phase.live = true → w.HasContext c.ctx) →
      c.phase = .committing → p.live = true → w.HasContext c.ctx :=
    fun c hc hcm _ => hc (by simp [hcm])
  cases acts_of_step hs with
  | start maxRetries =>
    rcases h with ⟨c, hc, hlive, rfl⟩ | ⟨e, he, rfl⟩
    · rcases mem_append.1 hc with hc | hc
      · exact .inl (.inl ⟨c, hc, hlive, rfl⟩)
      · rw [mem_singleton.1 hc]
        exact .inr (.inl rfl)
    · exact .inl (.inr ⟨e, he, rfl⟩)
  | @call e i c w' hi hw =>
    rcases h.callStep hi hw with h | h | ⟨op, rfl, hbody, rfl⟩
    · exact .inl h
    · exact .inr (.inl h)
    · exact .inr (.inr ⟨i, op, c, rfl, hi, hbody, rfl⟩)
  | staged hm =>
    refine .inl (h.frame (by rw [calls_stageUnit]; exact calls_self w) fun e he => ?_)
    rcases units_stageUnit.1 e he with heq | he
    · exact heq ▸ of_holder hm
    · exact .inr ⟨e, he, rfl⟩
  | prevAnswered hm =>
    refine .inl (h.frame (calls_self w) fun e he => ?_)
    rcases mem_append.1 he with he | he
    · exact .inr ⟨e, mem_append_left _ he, rfl⟩
    · rw [mem_singleton.1 he]
      exact of_holder hm
  | rejectOne =>
    exact .inl (h.of_units (RefinementLemmas.forall_settle (calls_self w) hsettle)
      (hkeeps (by simp) (by simp)))
  | resolveOne =>
    exact .inl (h.of_units (RefinementLemmas.forall_publishUnits (calls_self w) fun _ _ => hsettle)
      (hkeeps (by simp) (by simp)))
  | publish =>
    exact .inl (h.of_units (RefinementLemmas.forall_published (calls_self w) fun _ _ => hsettle)
      (hkeeps (by simp) (by simp)))
  | _ => exact .inl (h.of_units (calls_self w) (hkeeps (by simp) (by simp)))

end HasContext

/-! ## Running bodies -/

section Body

variable {store : Store V} {w w' : ShardWriter V} {i : Nat} {c : Call V}

theorem settle_getElem? {calls : List (Call V)} (hi : calls[i]? = some c) (hbody : c.phase = .body)
    (j : Nat) (phase : Phase) : (settle calls j phase)[i]? = some c := by
  rcases RefinementLemmas.settle_eq calls j phase with heq | ⟨d, hd, hphase, heq⟩ <;> rw [heq]
  · exact hi
  · have hne : j ≠ i := by
      rintro rfl
      rw [hi] at hd
      cases hd
      rw [hbody] at hphase
      cases hphase
    rw [getElem?_set_ne hne, hi]

theorem settleAll_getElem? {calls : List (Call V)} (hi : calls[i]? = some c)
    (hbody : c.phase = .body) (units : List (StagedUnit V)) (phase : Phase) :
    (settleAll calls units phase)[i]? = some c := by
  induction units generalizing calls with
  | nil => exact hi
  | cons u units ih => exact ih (settle_getElem? hi hbody u.call phase)

theorem publishUnits_getElem? (hi : w.calls[i]? = some c) (hbody : c.phase = .body)
    (ps : List (Nat × StagedUnit V)) : (w.publishUnits ps).calls[i]? = some c := by
  induction ps generalizing w with
  | nil => exact hi
  | cons p ps ih =>
    have hunit : (w.publishUnit p.1 p.2).calls[i]? = some c := settle_getElem? hi hbody _ _
    exact ih hunit

/-- Nothing but its own operations and its end touches a running body. -/
theorem callStep_body {j : Nat} {d : Call V} (hj : w.calls[j]? = some d)
    (hs : CallActs store w j d e w') (hi : w.calls[i]? = some c) (hbody : c.phase = .body) :
    w'.calls[i]? = some c ∨
      (∃ op, e = .op i op ∧ w'.calls[i]? = some { c with ctx := c.ctx.apply store.landed op }) ∨
      e = .bodyReturns i ∨ ∃ b, e = .bodyThrows i b := by
  by_cases hji : j = i
  · subst hji
    rw [hi] at hj
    cases hj
    cases hs with
    | op op =>
      exact .inr (.inl ⟨op, rfl, List.getElem?_set_self (List.getElem?_eq_some_iff.1 hi).1⟩)
    | bodyReturns => exact .inr (.inr (.inl rfl))
    | bodyThrows b => exact .inr (.inr (.inr ⟨b, rfl⟩))
    | finish hends =>
      rcases hends with hends | ⟨⟨_, hends⟩, -⟩ <;> simp [hbody] at hends
    | _ => simp_all
  · refine .inl ?_
    have hset : ∀ d', (w.calls.set j d')[i]? = some c := fun d' =>
      (getElem?_set_ne hji).trans hi
    cases hs with
    | acquire =>
      unfold ShardWriter.acquire
      simp only
      split <;> exact hset _
    | _ => exact hset _

theorem step_body {store' : Store V} {out : List Nat} (hs : w.step store e = some (store', w', out))
    (hi : w.calls[i]? = some c) (hbody : c.phase = .body) :
    w'.calls[i]? = some c ∨
      (∃ op, e = .op i op ∧ w'.calls[i]? = some { c with ctx := c.ctx.apply store.landed op }) ∨
      e = .bodyReturns i ∨ ∃ b, e = .bodyThrows i b := by
  cases acts_of_step hs with
  | start =>
    exact .inl ((List.getElem?_append_left (List.getElem?_eq_some_iff.1 hi).1).trans hi)
  | call hj hw => exact callStep_body hj hw hi hbody
  | staged => exact .inl (by rw [calls_stageUnit]; exact hi)
  | rejectOne => exact .inl (settle_getElem? hi hbody _ _)
  | resolveOne => exact .inl (publishUnits_getElem? hi hbody _)
  | publish =>
    exact .inl (settleAll_getElem? (settleAll_getElem? (publishUnits_getElem? hi hbody _) hbody _ _)
      hbody _ _)
  | _ => exact .inl hi

end Body

/-! ## What lands -/

namespace Inv

variable {owned : Prop} {store store' : Store V} {w w' : ShardWriter V} {e : Event V}
  {out : List Nat}

/-- Only `land` extends the log, by units in flight whose rows were not there yet. -/
theorem step_log (h : w.Inv owned store) (hs : w.step store e = some (store', w', out)) :
    store'.log = store.log ∨ e = .land ∧ w.rowsLanded = false ∧
      ∃ units, (∀ u ∈ units, u ∈ w.inflight) ∧
        store'.log = store.log ++ commitsOf w.shardId units := by
  cases acts_of_step hs with
  | @landOne u ts hm =>
    obtain ⟨-, hoff, hpend⟩ := h.single_of_writing hm
    refine .inr ⟨rfl, ?_, [(some ts, u)], ?_, rfl⟩
    · simp [rowsLanded, hoff, hm]
    · simp [inflight, hm]
  | @land f hf hl =>
    refine .inr ⟨rfl, DocInv.rowsLanded_eq_false h hf hl, f.remaining, fun u hu => ?_, rfl⟩
    exact mem_inflight.2 (.inl (by rw [hf]; exact hu))
  | _ => exact .inl rfl

/-- The timestamp of a unit that has not landed is above every snapshot in use. -/
theorem snapshot_lt (h : w.Inv owned store) (hrows : w.rowsLanded = false)
    {u : Option Nat × StagedUnit V} (hu : u ∈ w.inflight) {t : Nat} (ht : u.1 = some t)
    {ctx : TransactionContext V} (hctx : w.HasContext ctx) : ctx.snapshotTs < t := by
  have hattempt : (abs store w).Attempts ctx.abs.toAttempt := by
    rcases hctx with ⟨c, hc, hlive, rfl⟩ | ⟨e, he, rfl⟩
    · exact .inl ⟨c, hc, hlive, rfl⟩
    · exact Occ.OccLemmas.attempts_inflight (RefinementLemmas.mem_absInflight.2 ⟨e, he, rfl, rfl⟩)
  by_contra hle
  obtain ⟨c, hc, hsh, heq⟩ := h.occ.complete _ hattempt t u.2.ctx.abs
    (RefinementLemmas.mem_absInflight.2 ⟨u, hu, ht, rfl⟩) (not_lt.1 hle)
  have hlt := h.unlanded hrows u hu t ht c hc hsh
  exact absurd (Prod.mk.inj heq).1 hlt.ne'

/-- A step appends commits to the log that were in flight. Their timestamps are above those of
the log and above every snapshot in use. -/
theorem step_landed (h : w.Inv owned store) (hdocs : w.DocInv store)
    (hs : w.step store e = some (store', w', out)) :
    ∃ new, store'.log = store.log ++ new ∧ ∀ x ∈ new, e = .land ∧
      (some x.ts, x.unit) ∈ w.inflight ∧ (∀ d ∈ store.log, d.ts < x.ts) ∧
      ∀ ctx, w.HasContext ctx → ctx.snapshotTs < x.ts := by
  rcases h.step_log hs with heq | ⟨rfl, hrows, units, hsub, heq⟩
  · exact ⟨[], by simp [heq], by simp⟩
  · refine ⟨_, heq, fun x hx => ?_⟩
    obtain ⟨u, hu, t, ht, rfl⟩ := mem_commitsOf.1 hx
    refine ⟨rfl, ?_, fun d hd => ?_, fun ctx hctx => h.snapshot_lt hrows (hsub u hu) ht hctx⟩
    · exact ht ▸ hsub u hu
    · exact h.unlanded hrows u (hsub u hu) t ht d hd (hdocs.own d hd)

end Inv

end ShardWriter

end Helipod
