import Helipod.Transactor.Revisions
import Mathlib.Data.List.Perm.Basic

/-!
# Splitting a batch

`flushWithSplit` of `transactor/src/shard-writer.ts` writes a batch again without the unit that a
commit guard rejected. Whatever the store answers, and whatever the calls do meanwhile, each unit of
the batch is landed, rejected by the guard or failed with the rest of the batch.

Results: `accounted_flushRejected`, `Accounts.step`, `rejections_end`, `flush_accounts`.
-/

namespace Helipod

open List

variable {V : Type}

/-- Every unit of the batch is still to land or has been rejected by the guard. -/
structure Flush.Accounted (f : Flush V) : Prop where
  units : (f.remaining.map Prod.snd ++ f.guardRejected).Perm f.batch.units
  increasing : (f.remaining.filterMap Prod.fst).Pairwise (· < ·)
  landed : f.landed = true → ∀ e ∈ f.remaining, e.1.isSome = true

/-- Every unit of the batch is landed, rejected by the guard or failed, once; the landed ones are in
staging order and have increasing timestamps. -/
structure FlushOutcome.Accounted (o : FlushOutcome V) : Prop where
  units : (o.landed.map Prod.snd ++ o.guardRejected ++ o.chunkUnits).Perm o.batch.units
  order : (o.landed.map Prod.snd).Sublist o.batch.units
  increasing : (o.landed.map Prod.fst).Pairwise (· < ·)

def Committer.Accounted : Committer V → Prop
  | .flushing f => f.Accounted
  | .publishing o => o.Accounted
  | .off | .detaching => True

namespace ShardWriter

/-! ## Rejections -/

theorem accounted_flushRejected {f : Flush V} (h : f.Accounted) (hl : f.landed = false)
    (unitIndex : Option Nat) (b : Bool) : (flushRejected f unitIndex b).Accounted := by
  have hwhole : (flushRejected.whole b f).Accounted :=
    ⟨perm_append_comm.trans h.units, nil_sublist _, .nil⟩
  unfold flushRejected
  split
  · rename_i k u hnamed
    obtain ⟨_, -, hnamed⟩ := Option.bind_eq_some_iff.1 hnamed
    obtain ⟨e, he, heq⟩ := Option.map_eq_some_iff.1 hnamed
    cases heq
    obtain ⟨hk, rfl⟩ := List.getElem?_eq_some_iff.1 he
    -- the named unit goes over to the rejected ones
    have hunits : ((undrawn (f.remaining.eraseIdx k)).map Prod.snd ++
        (f.guardRejected ++ [f.remaining[k].2])).Perm f.batch.units := by
      have hmoved : (f.remaining[k].2 :: (f.remaining.eraseIdx k).map Prod.snd).Perm
          (f.remaining.map Prod.snd) := (getElem_cons_eraseIdx_perm hk).map Prod.snd
      rw [map_snd_undrawn, ← append_assoc]
      exact (perm_append_singleton ..).trans ((hmoved.append_right _).trans h.units)
    split
    · dsimp only
      split
      · rename_i hempty
        rw [isEmpty_iff.1 hempty] at hunits
        exact ⟨by simpa using hunits, nil_sublist _, .nil⟩
      · exact ⟨hunits, by simp [undrawn], fun hland => by simp [hl] at hland⟩
    · exact hwhole
  · exact hwhole

theorem flushRejected_splits (f : Flush V) (unitIndex : Option Nat) (b : Bool) :
    (∃ o, flushRejected f unitIndex b = .publishing o) ∨
      ∃ f', flushRejected f unitIndex b = .flushing f' ∧ f.splits < f'.splits ∧
        f'.splits ≤ maxSplitRetries := by
  unfold flushRejected
  split
  · split
    · dsimp only
      split
      · exact .inl ⟨_, rfl⟩
      · exact .inr ⟨_, rfl, Nat.lt_succ_self _, ‹_›⟩
    · exact .inl ⟨_, rfl⟩
  · exact .inl ⟨_, rfl⟩

/-- The loop of `flushWithSplit` with one rejection after the other. -/
def rejections (c : Committer V) (answers : List (Option Nat × Bool)) : Committer V :=
  answers.foldl (fun c a => match c with
    | .flushing f => flushRejected f a.1 a.2
    | c => c) c

theorem rejections_publishing (o : FlushOutcome V) (answers : List (Option Nat × Bool)) :
    rejections (.publishing o) answers = .publishing o := by
  induction answers with
  | nil => rfl
  | cons a answers ih => exact ih

theorem rejections_end {f : Flush V} {answers : List (Option Nat × Bool)}
    (h : maxSplitRetries - f.splits < answers.length) :
    ∃ o, rejections (.flushing f) answers = .publishing o := by
  induction answers generalizing f with
  | nil => simp at h
  | cons a answers ih =>
    show ∃ o, rejections (flushRejected f a.1 a.2) answers = .publishing o
    rcases flushRejected_splits f a.1 a.2 with ⟨o, ho⟩ | ⟨f', hf', hlt, hle⟩
    · rw [ho]
      exact ⟨o, rejections_publishing o answers⟩
    · rw [hf']
      rw [length_cons] at h
      exact ih (by omega)

/-! ## Steps -/

/-- A writer with group commit, whose flush accounts for every unit. -/
structure Accounts (w : ShardWriter V) : Prop where
  grouped : w.groupCommit = true
  holder : ∀ u ts l, w.mutex ≠ some (.writing u ts l)
  committer : w.committer.Accounted

namespace Accounts

variable {store store' : Store V} {w w' : ShardWriter V} {e : Event V}
  {out : List Nat} {f : Flush V}

theorem flush (h : w.Accounts) (hf : w.committer = .flushing f) : f.Accounted := by
  have := h.committer
  rwa [hf] at this

theorem staged (h : w.Accounts) (u : StagedUnit V) : (w.stageUnit u).Accounts := by
  rw [stageUnit, if_pos h.grouped]
  refine ⟨h.grouped, by simp, ?_⟩
  have hc := h.committer
  cases hcm : w.committer with
  | off => trivial
  | detaching | flushing | publishing => rwa [hcm] at hc

/-- The store has taken all remaining units. -/
theorem resolved (h : f.Accounted) (hl : f.landed = true) {hsub} :
    FlushOutcome.Accounted ⟨f.batch, landedUnits f.remaining, hsub, f.guardRejected,
      [], false⟩ := by
  have hall : ∀ es : List (Option Nat × StagedUnit V), (∀ e ∈ es, e.1.isSome = true) →
      (landedUnits es).map Prod.snd = es.map Prod.snd ∧
        (landedUnits es).map Prod.fst = es.filterMap Prod.fst := by
    intro es hes
    induction es with
    | nil => exact ⟨rfl, rfl⟩
    | cons e es ih =>
      obtain ⟨hsnd, hfst⟩ := ih fun e he => hes e (mem_cons_of_mem _ he)
      obtain ⟨_ | ts, u⟩ := e
      · simp at hes
      · exact ⟨congrArg (u :: ·) hsnd, congrArg (ts :: ·) hfst⟩
  obtain ⟨hsnd, hfst⟩ := hall f.remaining (h.landed hl)
  refine ⟨?_, hsub, ?_⟩
  · rw [append_nil, hsnd]
    exact h.units
  · rw [hfst]
    exact h.increasing

theorem step (h : w.Accounts) (hs : w.step store e = some (store', w', out)) : w'.Accounts := by
  cases acts_of_step hs with
  | start => exact { h with }
  | call hi hw =>
    cases hw with
    | acquire =>
      unfold ShardWriter.acquire
      dsimp only
      split
      · exact { h with holder := by simp }
      · exact { h with }
    | _ => exact { h with }
  | staged => exact h.staged _
  | prevAnswered => exact { h with holder := by simp }
  | allocateOne _ hm | landOne hm | rejectOne hm | resolveOne hm => exact absurd hm (h.holder _ _ _)
  | @allocate tss f remaining hfresh hf hlen hl _ hrem =>
    have hsnd : remaining.map Prod.snd = f.remaining.map Prod.snd := by
      rw [hrem, DocInv.map_snd_drawn hlen]
    have hfst : remaining.filterMap Prod.fst = tss := by
      rw [hrem, filterMap_map]
      show (tss.zip (f.remaining.map Prod.snd)).filterMap (some ∘ Prod.fst) = tss
      rw [filterMap_eq_map, map_fst_zip (by simp [hlen])]
    exact { h with committer := ⟨hsnd ▸ (h.flush hf).units, hfst ▸ hfresh.1,
      fun hland => absurd (hl.symm.trans hland) (by simp)⟩ }
  | land hf _ hdrawn =>
    exact { h with committer := ⟨(h.flush hf).units, (h.flush hf).increasing, fun _ => hdrawn⟩ }
  | reject hf hl => exact { h with committer := accounted_flushRejected (h.flush hf) hl _ _ }
  | resolve hf hl => exact { h with committer := resolved (h.flush hf) hl }
  | stop => exact { h with committer := trivial }
  | @detach b =>
    refine { h with committer := ⟨?_, ?_, fun hland => by cases hland⟩ }
    · simp
    · simp
  | publish => exact { h with committer := trivial }

theorem published (h : w.Accounts) (hs : w.step store e = some (store', w', out)) :
    (w'.oracle = w.oracle ∧ w'.recentCommits = w.recentCommits) ∨
      ∃ o, w.committer = .publishing o ∧
        w'.oracle = o.landed.foldl (fun oracle p => oracle.publishCommitted p.1) w.oracle ∧
        ∀ r ∈ w'.recentCommits, r ∈ w.recentCommits ∨
          ∃ p ∈ o.landed, r = ⟨p.1, p.2.ctx.writeRanges⟩ := by
  cases acts_of_step hs with
  | call hi hw =>
    cases hw with
    | acquire =>
      unfold ShardWriter.acquire
      dsimp only
      split <;> exact .inl ⟨rfl, rfl⟩
    | _ => exact .inl ⟨rfl, rfl⟩
  | staged =>
    rw [ShardWriter.stageUnit, if_pos h.grouped]
    exact .inl ⟨rfl, rfl⟩
  | allocateOne _ hm | landOne hm | rejectOne hm | resolveOne hm => exact absurd hm (h.holder _ _ _)
  | @publish o ring _ hc hring =>
    refine .inr ⟨o, hc, by rw [publishUnits_eq], fun r hr => ?_⟩
    have hmem : r ∈ (w.publishUnits o.landed).recentCommits := by
      rcases hring with rfl | rfl
      · exact hr
      · exact (mem_filter.1 hr).1
    rw [publishUnits_eq] at hmem
    rcases mem_append.1 hmem with hmem | hmem
    · exact .inl hmem
    · obtain ⟨p, hp, rfl⟩ := mem_map.1 hmem
      exact .inr ⟨p, hp, rfl⟩
  | _ => exact .inl ⟨rfl, rfl⟩

end Accounts

/-- The run of a writer on a store that others may change between any two steps. -/
def runOn (w : ShardWriter V) (es : List (Store V × Event V)) : Option (ShardWriter V) :=
  Runs.run (fun w e => (w.step e.1 e.2).map fun r => r.2.1) w es

/-- From any group-commit writer that flushes nothing, whatever its pending batch holds: a finished
flush accounts for each unit once, no flush survives more than `maxSplitRetries` rejections, and a
step changes the ring and the oracle only by the landed units of a finished flush. -/
theorem flush_accounts {w₀ w : ShardWriter V} {es : List (Store V × Event V)}
    (hgroup : w₀.groupCommit = true) (hholder : ∀ u ts l, w₀.mutex ≠ some (.writing u ts l))
    (hidle : w₀.committer = .off ∨ w₀.committer = .detaching) (hrun : w₀.runOn es = some w) :
    (∀ o, w.committer = .publishing o → o.Accounted) ∧
    (∀ f, w.committer = .flushing f → ∀ answers : List (Option Nat × Bool),
      maxSplitRetries < answers.length → ∃ o, rejections (.flushing f) answers = .publishing o) ∧
    ∀ store e store' w' out, w.step store e = some (store', w', out) →
      (w'.oracle = w.oracle ∧ w'.recentCommits = w.recentCommits) ∨
        ∃ o, w.committer = .publishing o ∧
          w'.oracle = o.landed.foldl (fun oracle p => oracle.publishCommitted p.1) w.oracle ∧
          ∀ r ∈ w'.recentCommits, r ∈ w.recentCommits ∨
            ∃ p ∈ o.landed, r = ⟨p.1, p.2.ctx.writeRanges⟩ := by
  have h₀ : w₀.Accounts := by
    refine ⟨hgroup, hholder, ?_⟩
    rcases hidle with hidle | hidle <;> rw [hidle] <;> trivial
  have h : w.Accounts := Runs.run_invariant (fun w e w' hw hs => by
    obtain ⟨⟨store', w'', out⟩, hstep, rfl⟩ := Option.map_eq_some_iff.1 hs
    exact hw.step hstep) h₀ hrun
  refine ⟨fun o ho => ?_, fun f _ answers hlen => rejections_end (by omega),
    fun _ _ _ _ _ => h.published⟩
  have hc := h.committer
  rwa [ho] at hc

end ShardWriter

namespace FlushExample

open WriterExample

def unit (call : Nat) (id : InternalDocumentId) : StagedUnit Nat :=
  ⟨call, { snapshotTs := 0 }, [⟨id, none, some call⟩]⟩

/-- Two units are pending. -/
def pending : ShardWriter Nat :=
  { ShardWriter.new 0 true (.new 0) with
    committer := .detaching, pendingBatch := some ⟨0, [unit 0 doc, unit 1 other]⟩ }

/-- The guard rejects the first one, the second one lands. -/
def split : List (Store Nat × Event Nat) :=
  [.detach, .reject (some 0) false, .allocate [1], .land, .resolve].map fun e => (emptyStore, e)

end FlushExample

open FlushExample WriterExample ShardWriter in
theorem flush_accounts_split : ∃ w o, pending.runOn split = some w ∧ w.committer = .publishing o ∧
    o.landed = [(1, unit 1 other)] ∧ o.guardRejected = [unit 0 doc] ∧ o.Accounted := by
  have h : (pending.runOn split).map ShardWriter.committer = some (.publishing
      ⟨⟨0, [unit 0 doc, unit 1 other]⟩, [(1, unit 1 other)], by decide +kernel, [unit 0 doc],
        [], false⟩) := by
    decide +kernel
  obtain ⟨w, hrun, hw⟩ := Option.map_eq_some_iff.1 h
  have hacc := flush_accounts rfl (by simp [pending]) (.inr rfl) hrun
  exact ⟨w, _, hrun, hw, rfl, rfl, hacc.1 _ hw⟩

end Helipod
