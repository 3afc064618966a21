import Helipod.Transactor.Contexts
import Helipod.Transactor.Exclusive

/-!
# Where committed writes come from

What a shard commits has been staged by an operation of a body: on its way from there to the log, a
staged value is copied and never changed. So a property of every staged value is a property of every
committed one.

Results: `ShardWriter.Carries.step`, `ShardedTransactor.Writes.step`, `ShardedTransactor.step_body`.
-/

namespace Helipod

open Runs OrderedMap List

variable {V : Type}

/-- The operation stages this value, or a tombstone. -/
def CtxOp.Stages (op : CtxOp V) (id : InternalDocumentId) (value : Option V) : Prop :=
  match op with
  | .put id' v => id' = id ∧ value = some v
  | .delete id' => id' = id ∧ value = none
  | _ => False

theorem TransactionContext.get?_staged_apply {ctx : TransactionContext V} {landed : List Nat}
    {op : CtxOp V} {id : InternalDocumentId} {value : Option V}
    (h : (ctx.apply landed op).staged.get? id = some value) :
    ctx.staged.get? id = some value ∨ op.Stages id value := by
  cases op with
  | put | delete =>
    rcases get?_set_eq_some.1 h with ⟨rfl, rfl⟩ | ⟨-, h⟩
    · exact .inr ⟨rfl, rfl⟩
    · exact .inl h
  | _ => exact .inl h

namespace ShardWriter

/-- The value is staged in a transaction of the writer, or among the log entries of a unit, or still
to be made one. -/
def Carries (w : ShardWriter V) (id : InternalDocumentId) (value : Option V) : Prop :=
  (∃ ctx, w.HasContext ctx ∧ ctx.staged.get? id = some value) ∨
  (∃ e ∈ w.inflight, ∃ d ∈ e.2.documents, d.id = id ∧ d.value = value) ∨
  ∃ i ctx read todo, w.mutex = some (.reading i ctx read todo) ∧ (id, value) ∈ todo

variable {store store' : Store V} {w w' : ShardWriter V} {e : Event V} {out : List Nat}
  {id : InternalDocumentId} {value : Option V}

/-! ## Steps -/

/-- A step that makes no unit carries nothing new, apart from what its contexts hold. -/
theorem Carries.of_units (h : w'.Carries id value) (hk : KeepsUnits w w')
    (hctx : ∀ ctx, w'.HasContext ctx → ctx.staged.get? id = some value → w.Carries id value) :
    w.Carries id value := by
  rcases h with ⟨ctx, hc, hget⟩ | ⟨u, hu, d, hd, hdoc⟩ | ⟨i, ctx, read, todo, hm, hmem⟩
  · exact hctx ctx hc hget
  · obtain ⟨o, ho⟩ := hk.units u hu
    exact .inr (.inl ⟨_, ho, d, hd, hdoc⟩)
  · exact .inr (.inr ⟨i, ctx, read, todo, hk.reading i ctx read todo hm, hmem⟩)

/-- The next staged value becomes an entry of the unit. -/
theorem Carries.read {i : Nat} {ctx : TransactionContext V} {read : List (DocumentLogEntry V)}
    {id₀ : InternalDocumentId} {value₀ : Option V} {todo : List (InternalDocumentId × Option V)}
    (hm : w.mutex = some (.reading i ctx read ((id₀, value₀) :: todo))) :
    ∀ d ∈ read ++ [⟨id₀, (store.get id₀ none).map Prod.fst, value₀⟩],
      d.id = id → d.value = value → w.Carries id value := by
  rintro d hd rfl rfl
  rcases mem_append.1 hd with hd | hd
  · refine .inr (.inl ⟨(none, ⟨i, ctx, read⟩), mem_inflight.2 (.inr (.inr ?_)), d, hd, rfl, rfl⟩)
    rw [hm]
    exact mem_singleton.2 rfl
  · rw [mem_singleton.1 hd]
    exact .inr (.inr ⟨i, ctx, read, _, hm, mem_cons_self⟩)

theorem Carries.acquire {i : Nat} {c : Call V} (h : (w.acquire i c).Carries id value)
    (hi : w.calls[i]? = some c) (hphase : c.phase = .queued) (hm : w.mutex = none) :
    w.Carries id value := by
  have hlive : c.phase.live = true := by rw [hphase]; rfl
  rcases h with ⟨ctx, hc, hget⟩ | ⟨u, hu, d, hd, hdoc⟩ | ⟨j, ctx, read, todo, hm', hmem⟩
  · exact .inl ⟨ctx, hc.acquire hi hlive, hget⟩
  · unfold ShardWriter.acquire at hu
    simp only at hu
    split at hu
    · rcases mem_inflight.1 hu with hu | hu | hu
      · exact .inr (.inl ⟨u, mem_inflight.2 (.inl hu), d, hd, hdoc⟩)
      · exact .inr (.inl ⟨u, mem_inflight.2 (.inr (.inl hu)), d, hd, hdoc⟩)
      · rw [mem_singleton.1 hu] at hd
        cases hd
    · exact .inr (.inl ⟨u, hu, d, hd, hdoc⟩)
  · unfold ShardWriter.acquire at hm'
    simp only at hm'
    split at hm'
    · cases hm'
      exact .inl ⟨c.ctx, .of_call hi hlive, (get?_eq_some_iff _).2 hmem⟩
    · rw [show (w.setCall i _).mutex = w.mutex from rfl, hm] at hm'
      cases hm'

/-- What a writer carries after a step it carried before, or a body has just staged it. -/
theorem Carries.step (h : w'.Carries id value) (hs : w.step store e = some (store', w', out)) :
    w.Carries id value ∨ ∃ i op, e = .op i op ∧ op.Stages id value := by
  by_cases hstages : ∃ i op, e = .op i op ∧ op.Stages id value
  · exact .inr hstages
  refine .inl ?_
  have hctx : ∀ ctx, w'.HasContext ctx → ctx.staged.get? id = some value → w.Carries id value := by
    intro ctx hc hget
    rcases hc.step hs with hc | rfl | ⟨i, op, c, rfl, hi, hbody, rfl⟩
    · exact .inl ⟨ctx, hc, hget⟩
    · cases hget
    · rcases TransactionContext.get?_staged_apply hget with hget | hop
      · exact .inl ⟨c.ctx, .of_call hi (by rw [hbody]; rfl), hget⟩
      · exact absurd ⟨i, op, rfl, hop⟩ hstages
  have hkeeps := KeepsUnits.of_step hs
  cases acts_of_step hs with
  | call hi hw =>
    cases hw with
    | acquire hq hm => exact h.acquire hi hq hm
    | _ => exact h.of_units (hkeeps (by simp) (by simp)) hctx
  | staged hm =>
    rcases h with ⟨ctx, hc, hget⟩ | ⟨u, hu, d, hd, hid, hv⟩ | ⟨j, ctx', read', todo', hm', -⟩
    · exact hctx ctx hc hget
    · rcases units_stageUnit.1 u hu with heq | hu
      · rw [heq] at hd
        exact Carries.read hm d hd hid hv
      · exact .inr (.inl ⟨u, hu, d, hd, hid, hv⟩)
    · exact absurd hm' (units_stageUnit.2 j ctx' read' todo')
  | @prevAnswered i ctx read _ _ _ hm =>
    rcases h with ⟨ctx, hc, hget⟩ | ⟨u, hu, d, hd, hid, hv⟩ | ⟨j, ctx', read', todo', hm', hmem⟩
    · exact hctx ctx hc hget
    · rcases mem_inflight.1 hu with hu | hu | hu
      · exact .inr (.inl ⟨u, mem_inflight.2 (.inl hu), d, hd, hid, hv⟩)
      · exact .inr (.inl ⟨u, mem_inflight.2 (.inr (.inl hu)), d, hd, hid, hv⟩)
      · rw [mem_singleton.1 hu] at hd
        exact Carries.read hm d hd hid hv
    · cases hm'
      exact .inr (.inr ⟨i, ctx, read, _, hm, mem_cons_of_mem _ hmem⟩)
  | _ => exact h.of_units (hkeeps (by simp) (by simp)) hctx

theorem log_step (hs : w.step store e = some (store', w', out)) :
    ∃ new, store'.log = store.log ++ new ∧ ∀ d ∈ new, d.shard = w.shardId ∧
      ∀ doc ∈ d.unit.documents, w.Carries doc.id doc.value := by
  have hlands : ∀ units : List (Option Nat × StagedUnit V), (∀ u ∈ units, u ∈ w.inflight) →
      ∀ d ∈ commitsOf w.shardId units, d.shard = w.shardId ∧
        ∀ doc ∈ d.unit.documents, w.Carries doc.id doc.value := by
    intro units hunits d hd
    obtain ⟨u, hu, t, -, rfl⟩ := Inv.mem_commitsOf.1 hd
    exact ⟨rfl, fun doc hdoc => .inr (.inl ⟨u, hunits u hu, doc, hdoc, rfl, rfl⟩)⟩
  cases acts_of_step hs with
  | landOne hm =>
    refine ⟨_, rfl, hlands _ fun u hu => mem_inflight.2 (.inr (.inr ?_))⟩
    rw [hm]
    exact hu
  | land hf =>
    refine ⟨_, rfl, hlands _ fun u hu => mem_inflight.2 (.inl ?_)⟩
    rw [hf]
    exact hu
  | allocateOne | allocate => exact ⟨[], by simp [draw], by simp⟩
  | _ => exact ⟨[], by simp, by simp⟩

end ShardWriter

/-! ## All shards -/

namespace ShardedTransactor

/-- The shard has committed this value of the document, or its writer carries it. -/
def Writes (t : ShardedTransactor V) (shard : Nat) (id : InternalDocumentId) (value : Option V) :
    Prop :=
  (∃ d ∈ t.store.log, d.shard = shard ∧ ∃ doc ∈ d.unit.documents, doc.id = id ∧ doc.value = value) ∨
  ∃ w, t.shards.get? shard = some w ∧ w.Carries id value

variable {t t' : ShardedTransactor V} {shard : Nat} {id : InternalDocumentId} {value : Option V}
  {e : ShardedEvent V}

theorem writes_foldl_observeTimestamp {out : List Nat}
    (h : (out.foldl observeTimestamp t).Writes shard id value) : t.Writes shard id value := by
  obtain ⟨hstore, clock, hget⟩ := get?_foldl_observeTimestamp t out
  rcases h with ⟨d, hd, hrest⟩ | ⟨w, hw, hc⟩
  · exact .inl ⟨d, hstore ▸ hd, hrest⟩
  · rw [hget] at hw
    obtain ⟨w₀, hw₀, rfl⟩ := Option.map_eq_some_iff.1 hw
    exact .inr ⟨w₀, hw₀, hc⟩

/-- What is written after a step was written before, or a body of that shard has just staged it. -/
theorem Writes.step (h : t'.Writes shard id value) (hn : t.Numbered) (hs : t.step e = some t') :
    t.Writes shard id value ∨ ∃ i op, e = .shard shard (.op i op) ∧ op.Stages id value := by
  cases acts_of_step hs with
  | request | seedAnswered | createFailed => exact .inl h
  | created hc =>
    rcases h with h | ⟨w, hw, hc⟩
    · exact .inl (.inl h)
    · rcases get?_set_eq_some.1 hw with ⟨-, rfl⟩ | ⟨-, hw⟩
      · -- a new writer carries nothing
        rcases hc with ⟨ctx, hctx | ⟨u, hu, -⟩, -⟩ | ⟨u, hu, -⟩ | ⟨i, ctx, read, todo, hm, -⟩
        · obtain ⟨c, hc, -⟩ := hctx
          cases hc
        · cases hu
        · cases hu
        · cases hm
      · exact .inl (.inr ⟨w, hw, hc⟩)
  | @shard shard' e store' w w' out hw hstep =>
    obtain ⟨new, hlog, hnew⟩ := ShardWriter.log_step hstep
    rcases writes_foldl_observeTimestamp h with ⟨d, hd, hshard, doc, hdoc, hid, hv⟩ | ⟨v, hv, hc⟩
    · have hd : d ∈ t.store.log ++ new := hlog ▸ hd
      rcases mem_append.1 hd with hd | hd
      · exact .inl (.inl ⟨d, hd, hshard, doc, hdoc, hid, hv⟩)
      · obtain ⟨hown, hcarries⟩ := hnew d hd
        refine .inl (.inr ⟨w, ?_, hid ▸ hv ▸ hcarries doc hdoc⟩)
        rw [← hshard, hown, hn shard' w hw]
        exact hw
    · rcases get?_set_eq_some.1 hv with ⟨rfl, rfl⟩ | ⟨-, hv⟩
      · rcases hc.step hstep with hc | ⟨i, op, rfl, hop⟩
        · exact .inl (.inr ⟨w, hw, hc⟩)
        · exact .inr ⟨i, op, rfl, hop⟩
      · exact .inl (.inr ⟨v, hv, hc⟩)
  | @fanResult _ _ ts => exact .inl (@writes_foldl_observeTimestamp _ t shard id value [ts] h)

/-- The call `i` of a shard. -/
def callOf (t : ShardedTransactor V) (shard i : Nat) : Option (Call V) :=
  (t.shards.get? shard).bind fun w => w.calls[i]?

theorem callOf_foldl_observeTimestamp (t : ShardedTransactor V) (out : List Nat) (shard i : Nat) :
    (out.foldl observeTimestamp t).callOf shard i = t.callOf shard i := by
  obtain ⟨-, clock, hget⟩ := get?_foldl_observeTimestamp t out
  rw [callOf, hget, callOf]
  cases t.shards.get? shard <;> rfl

theorem log_step (hs : t.step e = some t') : ∃ new, t'.store.log = t.store.log ++ new := by
  cases acts_of_step hs with
  | @shard _ _ _ _ _ out _ hstep =>
    obtain ⟨new, hlog, -⟩ := ShardWriter.log_step hstep
    refine ⟨new, ?_⟩
    rw [(get?_foldl_observeTimestamp _ out).1]
    exact hlog
  | _ => exact ⟨[], (append_nil _).symm⟩

/-- A shard that is being created has no writer yet. -/
def Unbuilt (t : ShardedTransactor V) : Prop :=
  ∀ shard, t.creating.has shard = true → t.shards.get? shard = none

theorem Unbuilt.erase (h : t.Unbuilt) (shard : Nat) :
    Unbuilt { t with creating := t.creating.erase shard } := by
  intro shard' hc
  refine h shard' ?_
  rw [OrderedMap.has, get?_erase] at hc
  split at hc
  · cases hc
  · exact hc

theorem Unbuilt.foldl_observeTimestamp (h : t.Unbuilt) (out : List Nat) :
    (out.foldl observeTimestamp t).Unbuilt := by
  refine foldlRecOn out _ h fun t h ts _ shard hc => ?_
  rw [observeTimestamp, get?_mapValues, h shard hc]
  rfl

theorem Unbuilt.step (h : t.Unbuilt) (hs : t.step e = some t') : t'.Unbuilt := by
  have hset : ∀ {shard seed}, t.shards.get? shard = none →
      Unbuilt { t with creating := t.creating.set shard seed } := by
    intro shard seed hnone shard' hc
    rw [has_set, Bool.or_eq_true, decide_eq_true_eq] at hc
    rcases hc with rfl | hc
    · exact hnone
    · exact h shard' hc
  cases acts_of_step hs with
  | request hshard => exact hset (by simpa using hshard)
  | seedAnswered hc => exact hset (h _ (by simp [hc]))
  | createFailed => exact h.erase _
  | @created shard _ hc =>
    intro shard' hc
    rw [get?_set]
    split
    · rename_i heq
      subst heq
      rw [OrderedMap.has, get?_erase, if_pos rfl] at hc
      cases hc
    · exact h.erase shard shard' hc
  | @shard shard e store' w w' out hw hstep =>
    refine Unbuilt.foldl_observeTimestamp (t := { t with
      store := store', shards := t.shards.set shard w' }) (fun shard' hc => ?_) out
    rw [get?_set]
    split
    · rename_i heq
      subst heq
      rw [h shard hc] at hw
      cases hw
    · exact h shard' hc
  | @fanResult _ _ ts => exact h.foldl_observeTimestamp [ts]

/-- A running body goes on as it is, unless it does something itself. -/
theorem step_body (h : t.Unbuilt) (hs : t.step e = some t') {i : Nat} {c : Call V}
    (hi : t.callOf shard i = some c) (hbody : c.phase = .body) :
    t'.callOf shard i = some c ∨
      (∃ op, e = .shard shard (.op i op) ∧
        t'.callOf shard i = some { c with ctx := c.ctx.apply t.store.landed op }) ∨
      e = .shard shard (.bodyReturns i) ∨ ∃ b, e = .shard shard (.bodyThrows i b) := by
  cases acts_of_step hs with
  | request | seedAnswered | createFailed => exact .inl hi
  | @created shard' _ hsome =>
    refine .inl ?_
    rw [callOf, get?_set]
    split
    · rename_i heq
      rw [callOf, ← heq, h shard' (by simp [hsome])] at hi
      cases hi
    · exact hi
  | @shard shard' e store' w w' out hw hstep =>
    have hcall : callOf (out.foldl observeTimestamp { t with
        store := store', shards := t.shards.set shard' w' }) shard i =
        if shard' = shard then w'.calls[i]? else t.callOf shard i := by
      rw [callOf_foldl_observeTimestamp, callOf, get?_set]
      split <;> rfl
    by_cases heq : shard' = shard
    · subst heq
      rw [callOf, hw] at hi
      rw [if_pos rfl] at hcall
      rcases ShardWriter.step_body hstep hi hbody with h | ⟨op, rfl, h⟩ | rfl | ⟨b, rfl⟩
      · exact .inl (hcall.trans h)
      · exact .inr (.inl ⟨op, rfl, hcall.trans h⟩)
      · exact .inr (.inr (.inl rfl))
      · exact .inr (.inr (.inr ⟨b, rfl⟩))
    · rw [if_neg heq] at hcall
      exact .inl (hcall.trans hi)
  | @fanResult _ _ ts => exact .inl ((callOf_foldl_observeTimestamp t [ts] shard i).trans hi)

end ShardedTransactor

end Helipod
