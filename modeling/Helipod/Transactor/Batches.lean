import Helipod.Transactor.Revisions

/-!
# Batches

What the units of one group-commit batch have in common: nothing. `stageUnit` of
`transactor/src/shard-writer.ts` lets a transaction into the pending batch only if
it has validated no read of what the batch writes and writes no document of it. The
earlier units may have read what a later one writes: they come before it.

Results: `BatchInv.step`.
-/

namespace Helipod

variable {V : Type}

/-- The later transaction writes no document of the earlier one and has validated no read of
what the earlier one writes. -/
def TransactionContext.Independent (earlier later : TransactionContext V) : Prop :=
  List.Disjoint earlier.staged.keys later.staged.keys ∧
    Disjoint earlier.writeRanges.keys later.validatedReads.keys

def Batch.Independent (b : Batch V) : Prop :=
  b.units.Pairwise fun u v => u.ctx.Independent v.ctx

/-- The invariant on batches: what is staged together is independent, and the holder of the
mutex is independent of what it is about to join. -/
structure ShardWriter.BatchInv (w : ShardWriter V) : Prop where
  pending : ∀ b, w.pendingBatch = some b → b.Independent
  flushing : ∀ b, w.flushingBatch = some b → b.Independent
  reading : ∀ i ctx read todo, w.mutex = some (.reading i ctx read todo) →
    ∀ b, w.pendingBatch = some b → ∀ u ∈ b.units, u.ctx.Independent ctx

namespace ShardWriter.BatchInv

variable {owned : Prop} {store : Store V} {w w' : ShardWriter V}

theorem frame (h : BatchInv w) (hp : w'.pendingBatch = w.pendingBatch)
    (hf : w'.flushingBatch = w.flushingBatch)
    (hm : ∀ i ctx read todo, w'.mutex = some (.reading i ctx read todo) →
      ∃ read' todo', w.mutex = some (.reading i ctx read' todo')) : BatchInv w' where
  pending b hb := h.pending b (hp ▸ hb)
  flushing b hb := h.flushing b (hf ▸ hb)
  reading i ctx read todo hr b hb := by
    obtain ⟨read', todo', hr'⟩ := hm i ctx read todo hr
    exact h.reading i ctx read' todo' hr' b (hp ▸ hb)

theorem frame_mutex (h : BatchInv w) (hp : w'.pendingBatch = w.pendingBatch)
    (hc : w'.committer = w.committer) (hm : w'.mutex = w.mutex) : BatchInv w' :=
  h.frame hp (by simp [flushingBatch, hc]) fun _ _ read todo hr => ⟨read, todo, hm ▸ hr⟩

theorem acquire (h : BatchInv w) (hw : w.Inv owned store) (hm : w.mutex = none) (i : Nat)
    (c : Call V) : BatchInv (w.acquire i c) := by
  unfold ShardWriter.acquire
  simp only
  split
  · rename_i hadm
    refine ⟨h.pending, h.flushing, fun i' ctx read todo hr b hb u hu => ?_⟩
    cases hr
    have hin : ((none, u) : Option Nat × StagedUnit V) ∈ w.inflight := by
      refine List.mem_append_left _ (List.mem_append_right _ ?_)
      have hb : w.pendingBatch = some b := hb
      rw [hb]
      exact List.mem_map.2 ⟨u, hu, rfl⟩
    exact ⟨DocInv.admission_apart hw hm hadm _ hin, (hw.admission_committing hm hadm).2 _ hin⟩
  · exact h.frame_mutex rfl rfl rfl

theorem stageUnit (h : BatchInv w) {i : Nat} {ctx : TransactionContext V}
    {read : List (DocumentLogEntry V)} {todo : List (InternalDocumentId × Option V)}
    (hm : w.mutex = some (.reading i ctx read todo)) (documents : List (DocumentLogEntry V)) :
    BatchInv (w.stageUnit ⟨i, ctx, documents⟩) := by
  unfold ShardWriter.stageUnit
  split
  · refine ⟨fun b hb => ?_, fun b hb => h.flushing b ?_, fun i ctx read todo hr => by simp at hr⟩
    · cases hb
      refine List.pairwise_append.2 ⟨?_, List.pairwise_singleton _ _, fun u hu v hv => ?_⟩
      · cases hp : w.pendingBatch with
        | none => simp [openBatch, hp]
        | some b =>
          have : w.openBatch = b := by simp [openBatch, hp]
          rw [this]
          exact h.pending b hp
      · rw [List.mem_singleton.1 hv]
        cases hp : w.pendingBatch with
        | none => simp [openBatch, hp] at hu
        | some b => exact h.reading i ctx read todo hm b hp u (by simpa [openBatch, hp] using hu)
    · cases hc : w.committer <;> simp_all [flushingBatch, ensureCommitter]
  · exact h.frame rfl rfl fun i ctx read todo hr => by simp at hr

/-- The steps of a write call in flight keep the batches and start no holder. -/
theorem of_write (h : BatchInv w) (hp : w'.pendingBatch = w.pendingBatch)
    (hf : w'.flushingBatch = w.flushingBatch)
    (hm : w'.mutex = w.mutex ∨ w'.mutex = none ∨ ∃ u ts l, w'.mutex = some (.writing u ts l)) :
    BatchInv w' := by
  refine h.frame hp hf fun i ctx read todo hr => ?_
  rcases hm with hm | hm | ⟨u, ts, l, hm⟩ <;> rw [hm] at hr
  · exact ⟨read, todo, hr⟩
  · simp at hr
  · simp at hr

theorem flushingBatch_flushRejected {f : Flush V} (hc : w.committer = .flushing f)
    (unitIndex : Option Nat) (b : Bool) :
    flushingBatch { w with committer := flushRejected f unitIndex b } = w.flushingBatch := by
  have hf : w.flushingBatch = some f.batch := by simp [flushingBatch, hc]
  rw [hf]
  unfold flushRejected
  split
  · split
    · simp only
      split <;> rfl
    · rfl
  · rfl

theorem callStep (h : BatchInv w) (hw : w.Inv owned store) {i : Nat} {c : Call V} {e : Event V}
    (hs : CallActs store w i c e w') : BatchInv w' := by
  cases hs with
  | acquire hq hm => exact h.acquire hw hm i c
  | _ => exact h.frame_mutex rfl rfl rfl

theorem step (h : BatchInv w) (hw : w.Inv owned store) {e : Event V} {store' : Store V}
    {out : List Nat} (hs : w.step store e = some (store', w', out)) : BatchInv w' := by
  cases acts_of_step hs with
  | start maxRetries => exact h.frame_mutex rfl rfl rfl
  | call hi hc => exact h.callStep hw hc
  | staged hm => exact h.stageUnit hm _
  | prevAnswered hm =>
    refine h.frame rfl rfl fun i ctx read todo hr => ?_
    cases hr
    exact ⟨_, _, hm⟩
  | allocateOne | landOne => exact h.of_write rfl rfl (.inr (.inr ⟨_, _, _, rfl⟩))
  | allocate _ hf | land hf | resolve hf =>
    exact h.of_write rfl (by simp [flushingBatch, hf]) (.inl rfl)
  | rejectOne | resolveOne => exact h.of_write rfl rfl (.inr (.inl rfl))
  | reject hf => exact h.of_write rfl (flushingBatch_flushRejected hf _ _) (.inl rfl)
  | stop hm hc => exact h.of_write rfl (by simp [flushingBatch, hc]) (.inl rfl)
  | @detach b hm hc hb =>
    -- the pending batch becomes the one being flushed
    refine ⟨fun b' hb' => by simp at hb', fun b' hb' => ?_, fun i ctx read todo hr => ?_⟩
    · cases hb'
      exact h.pending b hb
    · rw [hm] at hr
      simp at hr
  | publish hm hc =>
    refine ⟨h.pending, fun b hb => by simp [flushingBatch] at hb, fun i ctx read todo hr => ?_⟩
    rw [hm] at hr
    simp at hr

theorem new {shard : Nat} {group : Bool} {oracle : Oracle} :
    BatchInv (ShardWriter.new (V := V) shard group oracle) where
  pending _ hb := by simp at hb
  flushing _ hb := by simp [flushingBatch] at hb
  reading _ _ _ _ hr := by simp at hr

end ShardWriter.BatchInv

end Helipod
