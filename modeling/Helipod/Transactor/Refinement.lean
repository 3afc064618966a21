import Helipod.Lib.Occ
import Helipod.Lib.Runs
import Helipod.Transactor.ShardWriter

/-!
# The shard writer refines the commit protocol

`ShardWriter.abs` maps a writer and its store to a state of the abstract
protocol of `Lib.Occ`: range sets become the sets of keys they cover, and what
is staged and not yet published is read off the committer, the pending batch
and the holder of the mutex, in the order in which it will be published.

Results: `ShardWriter.Inv.step`, `ShardWriter.Inv.environment`, `ShardWriter.Inv.observe`,
`ShardWriter.Inv.no_missed_commit`.
-/

namespace Helipod

open OrderedMap List

variable {V : Type}

/-! ## The abstraction -/

abbrev Key := Keyspace × Bytes

def TransactionContext.abs (ctx : TransactionContext V) : Occ.Staged Key where
  snap := ctx.snapshotTs
  views := { view | ∃ o ∈ ctx.observed, view = { t | t ∈ o.landed } }
  reads := ctx.validatedReads.keys
  writes := ctx.writeRanges.keys

namespace ShardWriter

/-- The units the committer has taken, with their timestamps. -/
@[simp] def committerUnits : Committer V → List (Option Nat × StagedUnit V)
  | .flushing f => f.remaining
  | .publishing o => o.landed.map fun p => (some p.1, p.2)
  | _ => []

@[simp] def pendingUnits : Option (Batch V) → List (Option Nat × StagedUnit V)
  | some b => b.units.map fun u => (none, u)
  | none => []

@[simp] def holderUnits : Option (Holder V) → List (Option Nat × StagedUnit V)
  | some (.reading i ctx read _) => [(none, ⟨i, ctx, read⟩)]
  | some (.writing u ts _) => [(ts, u)]
  | none => []

/-- What is validated and not yet published, in publication order. -/
def inflight (w : ShardWriter V) : List (Option Nat × StagedUnit V) :=
  committerUnits w.committer ++ pendingUnits w.pendingBatch ++ holderUnits w.mutex

@[simp] def committerLanded : Committer V → Bool
  | .flushing f => f.landed
  | .publishing _ => true
  | _ => false

@[simp] def holderLanded : Option (Holder V) → Bool
  | some (.writing _ _ landed) => landed
  | _ => false

/-- The rows of the units in flight that have timestamps are in the store. -/
def rowsLanded (w : ShardWriter V) : Bool := committerLanded w.committer || holderLanded w.mutex

def absLanded (log : List (Commit V)) (shard : Nat) : Set (Nat × Occ.Staged Key) :=
  { p | ∃ c ∈ log, c.shard = shard ∧ p = (c.ts, c.unit.ctx.abs) }

def absActive (calls : List (Call V)) : Set Occ.Attempt :=
  { a | ∃ c ∈ calls, c.phase.live = true ∧ a = c.ctx.abs.toAttempt }

def absRing (ring : List RecentCommit) : Set (Nat × Set Key) :=
  { p | ∃ r ∈ ring, p = (r.ts, r.writes.keys) }

def absInflight (units : List (Option Nat × StagedUnit V)) : List (Option Nat × Occ.Staged Key) :=
  units.map fun e => (e.1, e.2.ctx.abs)

def abs (store : Store V) (w : ShardWriter V) : Occ.State Key where
  clock := w.oracle.lastCommitted
  allocated := store.allocated
  landed := absLanded store.log w.shardId
  active := absActive w.calls
  ring := absRing w.recentCommits
  inflight := absInflight w.inflight

/-- No timestamp at or below the committed clock is drawn and not landed. -/
def SnapshotSafe (w : ShardWriter V) : Prop :=
  w.rowsLanded = false → ∀ e ∈ w.inflight, ∀ t ∈ e.1, w.oracle.lastCommitted < t

instance (w : ShardWriter V) : Decidable w.SnapshotSafe :=
  inferInstanceAs (Decidable (_ → ∀ e ∈ w.inflight, ∀ t ∈ e.1, w.oracle.lastCommitted < t))

/-- The events at which a call takes a snapshot. -/
def takesSnapshot : Event V → Bool
  | .start _ => true
  | .retry _ => true
  | _ => false

/-- The call is live and its snapshot is `ts`. -/
def holds (ts : Nat) (c : Call V) : Bool :=
  c.phase.live && decide (c.ctx.snapshotTs = ts)

/-- How many live calls hold snapshot `ts`. -/
def refCount (calls : List (Call V)) (ts : Nat) : Nat := calls.countP (holds ts)

/-- The invariant of a writer and its store. `owned` says that nobody else moves the
writer's clock; then snapshots are always safe. -/
structure Inv (owned : Prop) (store : Store V) (w : ShardWriter V) : Prop where
  occ : Occ.Inv (abs store w)
  refs : ∀ ts, (w.activeSnapshots.get? ts).getD 0 = refCount w.calls ts
  single : w.groupCommit = false → w.committer = .off ∧ w.pendingBatch = none
  grouped : w.groupCommit = true → ∀ u ts landed, w.mutex ≠ some (.writing u ts landed)
  landed : w.rowsLanded = true → ∀ e ∈ w.inflight, ∀ t, e.1 = some t →
    (t, e.2.ctx.abs) ∈ absLanded store.log w.shardId
  unlanded : w.rowsLanded = false → ∀ e ∈ w.inflight, ∀ t, e.1 = some t →
    ∀ c ∈ store.log, c.shard = w.shardId → c.ts < t
  clock : owned → w.SnapshotSafe

/-- Without group commit there are no batches, with it no unit is written under the mutex. -/
structure Paths (w : ShardWriter V) : Prop where
  single : w.groupCommit = false → w.committer = .off ∧ w.pendingBatch = none
  grouped : w.groupCommit = true → ∀ u ts landed, w.mutex ≠ some (.writing u ts landed)

/-- The writers differ only in what is in flight. -/
structure SameRest (w' w : ShardWriter V) : Prop where
  shard : w'.shardId = w.shardId
  oracle : w'.oracle = w.oracle
  ring : w'.recentCommits = w.recentCommits
  calls : w'.calls = w.calls
  snapshots : w'.activeSnapshots = w.activeSnapshots

/-! ## Calls, snapshots and reference counts -/

namespace RefinementLemmas

/-- The abstract attempt of a call. -/
def attempt (c : Call V) : Occ.Attempt := c.ctx.abs.toAttempt

variable {calls : List (Call V)} {i : Nat} {c c' : Call V} {q : Call V → Prop} {phase : Phase}

theorem mem_absActive (hi : calls[i]? = some c) (hc : c.phase.live = true) :
    attempt c ∈ absActive calls :=
  ⟨c, List.mem_of_getElem? hi, hc, rfl⟩

theorem absActive_set_subset : absActive (calls.set i c') ⊆ insert (attempt c')
    (absActive calls) := by
  rintro a ⟨d, hd, hne, rfl⟩
  rcases mem_or_eq_of_mem_set hd with hd | rfl
  · exact .inr ⟨d, hd, hne, rfl⟩
  · exact .inl rfl

theorem absActive_set_of_mem (h : attempt c' ∈ absActive calls) :
    absActive (calls.set i c') ⊆ absActive calls := by
  intro a ha
  rcases absActive_set_subset ha with rfl | ha
  · exact h
  · exact ha

theorem absActive_set_done (h : c'.phase.live = false) :
    absActive (calls.set i c') ⊆ absActive calls := by
  rintro a ⟨d, hd, hne, rfl⟩
  rcases mem_or_eq_of_mem_set hd with hd | rfl
  · exact ⟨d, hd, hne, rfl⟩
  · simp [h] at hne

theorem absActive_append : absActive (calls ++ [c']) ⊆ insert (attempt c') (absActive calls) := by
  rintro a ⟨d, hd, hne, rfl⟩
  rcases mem_append.1 hd with hd | hd
  · exact .inr ⟨d, hd, hne, rfl⟩
  · rw [mem_singleton.1 hd]
    exact .inl rfl

theorem refCount_set (c' : Call V) (hi : calls[i]? = some c) (ts : Nat) :
    refCount (calls.set i c') ts + (holds ts c).toNat =
      refCount calls ts + (holds ts c').toNat := by
  obtain ⟨hlt, rfl⟩ := List.getElem?_eq_some_iff.1 hi
  have hpos : holds ts calls[i] = true → 0 < calls.countP (holds ts) := fun h =>
    countP_pos_iff.2 ⟨_, getElem_mem hlt, h⟩
  rw [refCount, refCount, countP_set hlt]
  cases h : holds ts calls[i] with
  | false => cases holds ts c' <;> simp
  | true =>
    have := hpos h
    cases holds ts c' <;> simp only [if_true, Bool.toNat_true, Bool.toNat_false, Bool.false_eq_true,
      if_false] <;> omega

theorem refCount_set_of_holds (hi : calls[i]? = some c) (h : ∀ ts, holds ts c' = holds ts c)
    (ts : Nat) : refCount (calls.set i c') ts = refCount calls ts := by
  have := refCount_set c' hi ts
  rw [h ts] at this
  omega

theorem refCount_append (ts : Nat) :
    refCount (calls ++ [c']) ts = refCount calls ts + (holds ts c').toNat := by
  rw [refCount, countP_append, countP_singleton]
  cases holds ts c' <;> rfl

theorem settle_eq (calls : List (Call V)) (i : Nat) (phase : Phase) : settle calls i phase = calls ∨
    ∃ c, calls[i]? = some c ∧ c.phase = .committing ∧
      settle calls i phase = calls.set i { c with phase } := by
  unfold settle
  split
  · rename_i c hc
    split
    · exact .inr ⟨c, hc, ‹_›, rfl⟩
    · exact .inl rfl
  · exact .inl rfl

/-- What holds of a call whatever its phase becomes stays true when calls are settled. -/
theorem forall_settle (h : ∀ c ∈ calls, q c)
    (hq : ∀ c, q c → c.phase = .committing → q { c with phase }) :
    ∀ c ∈ settle calls i phase, q c := by
  rcases settle_eq calls i phase with heq | ⟨c, hi, hc, heq⟩ <;> rw [heq]
  · exact h
  · intro d hd
    rcases mem_or_eq_of_mem_set hd with hd | rfl
    · exact h d hd
    · exact hq c (h c (List.mem_of_getElem? hi)) hc

theorem forall_settleAll (h : ∀ c ∈ calls, q c)
    (hq : ∀ c, q c → c.phase = .committing → q { c with phase }) (units : List (StagedUnit V)) :
    ∀ c ∈ settleAll calls units phase, q c := by
  induction units generalizing calls with
  | nil => exact h
  | cons u us ih => exact ih (forall_settle h hq)

theorem forall_publishUnits {w : ShardWriter V} (h : ∀ c ∈ w.calls, q c)
    {ps : List (Nat × StagedUnit V)} (hq : ∀ p ∈ ps, ∀ c, q c → c.phase = .committing →
      q { c with phase := .settled (.committed p.1) }) : ∀ c ∈ (w.publishUnits ps).calls, q c := by
  induction ps generalizing w with
  | nil => exact h
  | cons p ps ih =>
    have hp : ∀ c ∈ (w.publishUnit p.1 p.2).calls, q c := forall_settle h (hq p mem_cons_self)
    exact ih hp fun p' hp' => hq p' (mem_cons_of_mem _ hp')

/-- The calls after a publication: the landed ones have their result, the rest is rejected. -/
theorem forall_published {w : ShardWriter V} (h : ∀ c ∈ w.calls, q c)
    {ps : List (Nat × StagedUnit V)} {us vs : List (StagedUnit V)} {b : Bool}
    (hq : ∀ p : Phase, (p = .settled .failed ∨ p = rejection b ∨
      ∃ e ∈ ps, p = .settled (.committed e.1)) → ∀ c, q c → c.phase = .committing →
      q { c with phase := p }) :
    ∀ c ∈ settleAll (settleAll (w.publishUnits ps).calls us (.settled .failed)) vs
      (rejection b), q c :=
  forall_settleAll (forall_settleAll (forall_publishUnits h fun e he =>
    hq _ (.inr (.inr ⟨e, he, rfl⟩))) (hq _ (.inl rfl)) us) (hq _ (.inr (.inl rfl))) vs

theorem absActive_settle (phase : Phase) : absActive (settle calls i phase) ⊆ absActive calls := by
  rcases settle_eq calls i phase with h | ⟨c, hi, hc, h⟩ <;> rw [h]
  have : attempt c ∈ absActive calls := mem_absActive hi (by rw [hc]; decide)
  exact absActive_set_of_mem this

theorem refCount_settle (hp : phase.live = true) (ts : Nat) :
    refCount (settle calls i phase) ts = refCount calls ts := by
  rcases settle_eq calls i phase with h | ⟨c, hi, hc, h⟩ <;> rw [h]
  exact refCount_set_of_holds hi (fun ts => by simp [holds, hp, hc]) ts

theorem absActive_settleAll (units : List (StagedUnit V)) (phase : Phase) :
    absActive (settleAll calls units phase) ⊆ absActive calls := by
  induction units generalizing calls with
  | nil => exact subset_rfl
  | cons u us ih => exact ih.trans (absActive_settle phase)

theorem refCount_settleAll (units : List (StagedUnit V)) (hp : phase.live = true)
    (ts : Nat) : refCount (settleAll calls units phase) ts = refCount calls ts := by
  induction units generalizing calls with
  | nil => rfl
  | cons u us ih => exact ih.trans (refCount_settle hp ts)

theorem live_rejection (b : Bool) : (rejection b).live = true := by cases b <;> rfl

theorem getD_retain (m : OrderedMap Nat Nat) (s ts : Nat) :
    ((retain m s).get? ts).getD 0 = (m.get? ts).getD 0 + (decide (s = ts)).toNat := by
  rw [retain, get?_set]
  by_cases h : s = ts <;> simp [h]

theorem getD_release (m : OrderedMap Nat Nat) (s ts : Nat) :
    ((release m s).get? ts).getD 0 = (m.get? ts).getD 0 - (decide (s = ts)).toNat := by
  unfold release
  by_cases h : s = ts
  · subst h
    split
    · rw [get?_erase]
      simp only [if_true, Option.getD_none, decide_true, Bool.toNat_true]
      omega
    · simp
  · split
    · simp [get?_erase, h]
    · simp [get?_set, h]

theorem mem_absInflight {units : List (Option Nat × StagedUnit V)} {o : Option Nat}
    {u : Occ.Staged Key} :
    (o, u) ∈ absInflight units ↔ ∃ e ∈ units, e.1 = o ∧ e.2.ctx.abs = u := by
  simp [absInflight]

end RefinementLemmas

open RefinementLemmas

namespace Inv

variable {owned : Prop} {store : Store V} {w : ShardWriter V} {i : Nat} {c c' : Call V}
  {w' : ShardWriter V} {ctx : TransactionContext V} {u : StagedUnit V} {store' : Store V}
  {e : Event V} {out : List Nat} {f : Flush V} {ts : Nat}

/-! ## Steps of the retry loop -/

/-- With a safe snapshot, everything in flight at or below the clock has landed. -/
theorem begin_guard (h : Inv owned store w) (hs : w.SnapshotSafe) (t : Nat) (u : Occ.Staged Key)
    (hu : (some t, u) ∈ (abs store w).inflight) (hle : t ≤ (abs store w).clock) :
    (t, u) ∈ (abs store w).landed := by
  obtain ⟨e, he, ht, rfl⟩ := mem_absInflight.1 hu
  cases hl : w.rowsLanded with
  | true => exact h.landed hl e he t ht
  | false => exact absurd hle (not_le.2 (hs hl e he t ht))

theorem attempt_new (n a m : Nat) (p : Phase) :
    attempt (⟨a, m, { snapshotTs := n }, p⟩ : Call V) = ⟨n, ∅⟩ := by
  simp only [attempt, TransactionContext.abs]
  simp

theorem start (h : Inv owned store w) (hs : w.SnapshotSafe) (maxRetries : Nat) :
    Inv owned store (w.start maxRetries) where
  __ := h
  occ := by
    refine (h.occ.begin (h.begin_guard hs)).retire (A := absActive (w.start maxRetries).calls) ?_
    intro a ha
    rcases absActive_append ha with rfl | ha
    · exact .inl (attempt_new ..)
    · exact .inr ha
  refs := by
    intro ts
    rw [ShardWriter.start, beginAttempt, getD_retain, refCount_append, h.refs]
    rfl

/-- A live call moves on with the same snapshot, having seen nothing new. -/
theorem setCall (h : Inv owned store w) (hi : w.calls[i]? = some c) (hc : c.phase.live = true)
    (hc' : c'.phase.live = true) (ha : attempt c' = attempt c) :
    Inv owned store (w.setCall i c') where
  __ := h
  occ := h.occ.retire (absActive_set_of_mem (ha ▸ mem_absActive hi hc))
  refs := by
    intro ts
    have hsnap : c'.ctx.snapshotTs = c.ctx.snapshotTs := congrArg Occ.Attempt.snap ha
    rw [ShardWriter.setCall, h.refs ts]
    exact (refCount_set_of_holds hi (fun ts => by simp [holds, hc, hc', hsnap]) ts).symm

theorem look (h : Inv owned store w) (hi : w.calls[i]? = some c) (hc : c.phase.live = true)
    (range : KeyRange) :
    Inv owned store (w.setCall i { c with ctx := c.ctx.apply store.landed (.look range) }) where
  __ := h
  occ := by
    have hview : ∀ p ∈ absLanded store.log w.shardId, p.1 ∈ { t | t ∈ store.landed } := by
      rintro p ⟨d, hd, -, rfl⟩
      exact mem_map.2 ⟨d, hd, rfl⟩
    refine (h.occ.look (mem_absActive hi hc) hview).retire fun a ha => ?_
    rcases absActive_set_subset ha with rfl | ha
    · refine .inl ?_
      simp only [attempt, TransactionContext.abs, TransactionContext.apply, Occ.Attempt.mk.injEq,
        true_and]
      ext view
      simp only [mem_append, mem_singleton, or_and_right, exists_or, exists_eq_left]
      exact or_comm
    · exact .inr ha
  refs := by
    intro ts
    rw [ShardWriter.setCall, h.refs ts]
    exact (refCount_set_of_holds hi (fun ts => by simp [holds]) ts).symm

theorem op (h : Inv owned store w) (hi : w.calls[i]? = some c) (hc : c.phase.live = true)
    (op : CtxOp V) :
    Inv owned store (w.setCall i { c with ctx := c.ctx.apply store.landed op }) := by
  cases op with
  | look range => exact h.look hi hc range
  | _ => exact h.setCall hi hc hc rfl

theorem finish (h : Inv owned store w) (hi : w.calls[i]? = some c) (hc : c.phase.live = true)
    (outcome : Outcome) : Inv owned store (w.finish i c outcome) where
  __ := h
  occ := h.occ.retire (absActive_set_done rfl)
  refs := by
    intro ts
    have hset := refCount_set { c with phase := .done outcome } hi ts
    have hold : holds ts c = decide (c.ctx.snapshotTs = ts) := by simp [holds, hc]
    have hnew : holds ts { c with phase := .done outcome } = false := by simp [holds]
    rw [hold, hnew, Bool.toNat_false] at hset
    rw [ShardWriter.finish, ShardWriter.setCall, getD_release, h.refs ts]
    simp only
    omega

theorem retry (h : Inv owned store w) (hs : w.SnapshotSafe) (hi : w.calls[i]? = some c)
    (hc : c.phase.live = true) : Inv owned store (w.retry i c) where
  __ := h
  occ := by
    refine (h.occ.begin (h.begin_guard hs)).retire (A := absActive (w.retry i c).calls) ?_
    intro a ha
    rcases absActive_set_subset ha with rfl | ha
    · exact .inl (attempt_new ..)
    · exact .inr ha
  refs := by
    intro ts
    have hset := refCount_set
      ⟨c.attempt + 1, c.maxRetries, { snapshotTs := w.oracle.lastCommitted }, .body⟩ hi ts
    have hold : holds ts c = decide (c.ctx.snapshotTs = ts) := by simp [holds, hc]
    have hnew : holds ts (⟨c.attempt + 1, c.maxRetries,
        { snapshotTs := w.oracle.lastCommitted }, .body⟩ : Call V) =
        decide (w.oracle.lastCommitted = ts) := by simp [holds]
    rw [hold, hnew] at hset
    have hpos : (decide (c.ctx.snapshotTs = ts)).toNat ≤ refCount w.calls ts := by
      rw [← hold]
      cases hh : holds ts c with
      | false => exact Nat.zero_le _
      | true => exact countP_pos_iff.2 ⟨c, List.mem_of_getElem? hi, hh⟩
    simp only [ShardWriter.retry, beginAttempt, ShardWriter.setCall, getD_retain, getD_release,
      h.refs ts]
    omega

/-! ## Staging -/

/-- While the mutex is free, what is in flight belongs to a batch. -/
theorem batch_of_inflight (h : Inv owned store w) (hm : w.mutex = none)
    {e : Option Nat × StagedUnit V} (he : e ∈ w.inflight) : w.groupCommit = true ∧
      ∃ b, (w.flushingBatch = some b ∨ w.pendingBatch = some b) ∧ e.2 ∈ b.units := by
  rw [inflight, hm, holderUnits, append_nil, mem_append] at he
  cases hg : w.groupCommit with
  | false =>
    obtain ⟨hoff, hpend⟩ := h.single hg
    simp [hoff, hpend] at he
  | true =>
    refine ⟨rfl, ?_⟩
    rcases he with he | he
    · cases hcm : w.committer with
      | off | detaching => simp [hcm] at he
      | flushing f =>
        rw [hcm] at he
        exact ⟨f.batch, .inl (by simp [flushingBatch, hcm]),
          f.remaining_sub.subset (mem_map_of_mem he)⟩
      | publishing o =>
        rw [hcm] at he
        obtain ⟨p, hp, rfl⟩ := mem_map.1 he
        exact ⟨o.batch, .inl (by simp [flushingBatch, hcm]),
          o.landed_sub.subset (mem_map_of_mem hp)⟩
    · cases hpb : w.pendingBatch with
      | none => simp [hpb] at he
      | some b =>
        rw [hpb] at he
        obtain ⟨u, hu, rfl⟩ := mem_map.1 he
        exact ⟨b, .inr rfl, hu⟩

/-- The admission test of `commit` or `stageUnit` passed. -/
theorem of_admission (ha : w.admission ctx = .committing) :
    w.conflictsWithRing ctx = false ∧ (w.groupCommit = true → w.batchCut ctx = none ∧
      conflictsWithBatch ctx w.flushingBatch = none ∧
        conflictsWithBatch ctx w.pendingBatch = none) := by
  unfold admission at ha
  repeat' split at ha
  all_goals simp_all

section

variable (h : Inv owned store w)
include h

/-- The mutex is free and the call is admitted: it conflicts neither with the ring nor with
anything in flight. -/
theorem admission_committing (hm : w.mutex = none) (ha : w.admission ctx = .committing) :
    w.conflictsWithRing ctx = false ∧
      ∀ e ∈ w.inflight, Disjoint e.2.ctx.writeRanges.keys ctx.validatedReads.keys := by
  obtain ⟨hring, hbatches⟩ := of_admission ha
  refine ⟨hring, fun e he => ?_⟩
  obtain ⟨hg, b, hb, hu⟩ := h.batch_of_inflight hm he
  obtain ⟨-, hflush, hpend⟩ := hbatches hg
  have hni : ctx.validatedReads.intersects b.writesUnion = false := by
    rcases hb with hb | hb
    · simpa [conflictsWithBatch, hb] using hflush
    · simpa [conflictsWithBatch, hb] using hpend
  refine ((RangeSet.disjoint_of_not_intersects hni).mono_right ?_).symm
  rintro k ⟨r, hr, hk⟩
  exact ⟨r, mem_flatMap.2 ⟨e.2, hu, hr⟩, hk⟩

/-- A step that leaves the drawn timestamps in flight as they are. -/
theorem rebuild (hocc : Occ.Inv (abs store w'))
    (hrefs : ∀ ts, (w'.activeSnapshots.get? ts).getD 0 = refCount w'.calls ts)
    (hshard : w'.shardId = w.shardId) (horacle : w'.oracle = w.oracle)
    (hrows : w'.rowsLanded = w.rowsLanded) (hdrawn : ∀ e ∈ w'.inflight, ∀ t, e.1 = some t →
      ∃ d ∈ w.inflight, d.1 = some t ∧ d.2.ctx = e.2.ctx)
    (hpaths : Paths w') :
    Inv owned store w' where
  occ := hocc
  refs := hrefs
  single := hpaths.single
  grouped := hpaths.grouped
  landed := by
    intro hl e he t ht
    obtain ⟨d, hd, hdt, hctx⟩ := hdrawn e he t ht
    rw [hshard, ← hctx]
    exact h.landed (hrows ▸ hl) d hd t hdt
  unlanded := by
    intro hl e he t ht
    obtain ⟨d, hd, hdt, -⟩ := hdrawn e he t ht
    rw [hshard]
    exact h.unlanded (hrows ▸ hl) d hd t hdt
  clock := by
    intro ho hl e he t ht
    obtain ⟨d, hd, hdt, -⟩ := hdrawn e he t ht
    rw [horacle]
    exact h.clock ho (hrows ▸ hl) d hd t hdt

theorem hold (hm : w.mutex = none)
    (hactive : ctx.abs.toAttempt ∈ absActive w.calls) (hring : w.conflictsWithRing ctx = false)
    (hflight : ∀ e ∈ w.inflight, Disjoint e.2.ctx.writeRanges.keys ctx.validatedReads.keys)
    (todo : List (InternalDocumentId × Option V)) :
    Inv owned store { w with mutex := some (.reading i ctx [] todo) } := by
  have hinfl : ({ w with mutex := some (.reading i ctx [] todo) } : ShardWriter V).inflight =
      w.inflight ++ [(none, ⟨i, ctx, []⟩)] := by
    simp [inflight, hm]
  refine h.rebuild ?_ h.refs rfl rfl (by simp [rowsLanded, hm]) ?_ ⟨h.single, by simp⟩
  · have hocc := h.occ.stage (u := ctx.abs) hactive ?_ ?_
    · have habs : abs store { w with mutex := some (.reading i ctx [] todo) } =
          { abs store w with inflight := (abs store w).inflight ++ [(none, ctx.abs)] } := by
        simp [abs, hinfl, absInflight]
      rw [habs]
      exact hocc
    · rintro p ⟨r, hr, rfl⟩ hlt
      have hni : ctx.validatedReads.intersects r.writes = false := by
        have := any_eq_false.1 hring r hr
        simpa [show ctx.snapshotTs < r.ts from hlt] using this
      exact (RangeSet.disjoint_of_not_intersects hni).symm
    · intro e he
      obtain ⟨d, hd, -, hu⟩ := mem_absInflight.1 he
      rw [← hu]
      exact hflight d hd
  · intro e he t ht
    rw [hinfl] at he
    rcases mem_append.1 he with he | he
    · exact ⟨e, he, ht, rfl⟩
    · rw [mem_singleton.1 he] at ht
      simp at ht

theorem acquire (hi : w.calls[i]? = some c) (hc : c.phase = .queued)
    (hm : w.mutex = none) : Inv owned store (w.acquire i c) := by
  have hlive : c.phase.live = true := by rw [hc]; rfl
  have hph : (w.admission c.ctx).live = true := by
    unfold admission
    repeat' split
    all_goals simp
  have hset : Inv owned store (w.setCall i { c with phase := w.admission c.ctx }) :=
    h.setCall hi hlive hph rfl
  unfold ShardWriter.acquire
  simp only
  split
  · rename_i hadm
    obtain ⟨hring, hflight⟩ := h.admission_committing hm hadm
    refine hset.hold hm ⟨{ c with phase := w.admission c.ctx }, ?_, hph, rfl⟩ hring hflight _
    exact List.mem_of_getElem? (List.getElem?_set_self (List.getElem?_eq_some_iff.1 hi).1)
  · exact hset

theorem of_absInflight
    (hinfl : w'.inflight.map (fun e => (e.1, e.2.ctx)) = w.inflight.map (fun e => (e.1, e.2.ctx)))
    (hrows : w'.rowsLanded = w.rowsLanded) (hrest : SameRest w' w) (hpaths : Paths w') :
    Inv owned store w' := by
  have habs : absInflight w'.inflight = absInflight w.inflight := by
    have := congrArg (List.map fun p : Option Nat × TransactionContext V => (p.1, p.2.abs)) hinfl
    rw [map_map, map_map] at this
    exact this
  refine h.rebuild ?_ ?_ hrest.shard hrest.oracle hrows ?_ hpaths
  · have : abs store w' = abs store w := by
      simp [abs, habs, hrest.shard, hrest.oracle, hrest.ring, hrest.calls]
    rw [this]
    exact h.occ
  · rw [hrest.snapshots, hrest.calls]
    exact h.refs
  · intro e he t ht
    have hm : (e.1, e.2.ctx) ∈ w.inflight.map (fun e => (e.1, e.2.ctx)) := by
      rw [← hinfl]
      exact mem_map_of_mem he
    obtain ⟨d, hd, heq⟩ := mem_map.1 hm
    obtain ⟨h1, h2⟩ := Prod.mk.inj heq
    exact ⟨d, hd, h1.trans ht, h2⟩

end

@[simp] theorem committerUnits_ensureCommitter (cm : Committer V) :
    committerUnits (ensureCommitter cm) = committerUnits cm := by
  cases cm <;> rfl

@[simp] theorem committerLanded_ensureCommitter (cm : Committer V) :
    committerLanded (ensureCommitter cm) = committerLanded cm := by
  cases cm <;> rfl

@[simp] theorem pendingUnits_openBatch (w : ShardWriter V) (u : StagedUnit V) :
    pendingUnits (some { w.openBatch with units := w.openBatch.units ++ [u] }) =
      pendingUnits w.pendingBatch ++ [(none, u)] := by
  cases h : w.pendingBatch <;> simp [openBatch, h]

section

variable (h : Inv owned store w)
include h

theorem stageUnit {read : List (DocumentLogEntry V)} {todo : List (InternalDocumentId × Option V)}
    (hm : w.mutex = some (.reading i ctx read todo)) (docs : List (DocumentLogEntry V)) :
    Inv owned store (w.stageUnit ⟨i, ctx, docs⟩) := by
  unfold ShardWriter.stageUnit
  split
  · -- grouped: the holder's unit becomes the last pending one
    rename_i hgroup
    refine h.of_absInflight ?_ ?_ ⟨rfl, rfl, rfl, rfl, rfl⟩ ⟨by simp [hgroup], by simp⟩
    · simp [inflight, hm, -committerUnits, -pendingUnits]
    · simp [rowsLanded, hm, -committerLanded]
  · -- single: it stays with the holder
    rename_i hgroup
    refine h.of_absInflight ?_ ?_ ⟨rfl, rfl, rfl, rfl, rfl⟩ ⟨h.single, by simp [hgroup]⟩
    · simp [inflight, hm]
    · simp [rowsLanded, hm]

theorem prevAnswered {read read' : List (DocumentLogEntry V)}
    {todo todo' : List (InternalDocumentId × Option V)}
    (hm : w.mutex = some (.reading i ctx read todo)) :
    Inv owned store { w with mutex := some (.reading i ctx read' todo') } :=
  h.of_absInflight (by simp [inflight, hm]) (by simp [rowsLanded, hm])
    ⟨rfl, rfl, rfl, rfl, rfl⟩ ⟨h.single, by simp⟩

/-! ## The write call in flight -/

/-- Fresh timestamps go to the first units in flight, none of which has one. -/
theorem drawn {tss : List Nat} (hfresh : freshTimestamps store tss)
    (us ws : List (Option Nat × StagedUnit V)) (hus : w.inflight = us ++ ws)
    (hnone : ∀ e ∈ us ++ ws, e.1 = none) (hlen : tss.length = us.length)
    (hinfl : w'.inflight = (tss.zip (us.map Prod.snd)).map (fun p => (some p.1, p.2)) ++ ws)
    (hrows' : w'.rowsLanded = false) (hrest : SameRest w' w) (hpaths : Paths w') :
    Inv owned (draw store tss) w' := by
  obtain ⟨hle, hmax⟩ := Store.le_foldl_max tss store.allocated
  have hnone' : ∀ {l : List (Option Nat × StagedUnit V)}, (∀ e ∈ l, e.1 = none) →
      absInflight l = (l.map fun e => e.2.ctx.abs).map fun u => (none, u) := by
    intro l hl
    rw [absInflight, map_map]
    exact map_congr_left fun e he => by simp [hl e he]
  have hws : ∀ e ∈ ws, e.1 = none := fun e he => hnone e (mem_append_right _ he)
  refine ⟨?_, ?_, hpaths.single, hpaths.grouped, by simp [hrows'], ?_, ?_⟩
  · have hocc := h.occ.allocate (us.map fun e => e.2.ctx.abs) (ws.map fun e => e.2.ctx.abs)
      (n := tss.foldl max store.allocated)
      (by rw [← map_append, ← hnone' hnone, ← hus]; rfl) (by simpa using hlen) hfresh.1
      (fun t ht => ⟨hfresh.2 t ht, hmax t ht⟩) hle
    have habs : abs (draw store tss) w' = { abs store w with
        allocated := tss.foldl max store.allocated
        inflight := (tss.zip (us.map fun e => e.2.ctx.abs)).map (fun p => (some p.1, p.2)) ++
          (ws.map fun e => e.2.ctx.abs).map fun u => (none, u) } := by
      simp only [abs, hrest.shard, hrest.oracle, hrest.ring, hrest.calls, hinfl, absInflight,
        map_append]
      congr 1
      congr 1
      · rw [map_map, zip_map_right, zip_map_right, map_map, map_map]
        rfl
      · rw [← hnone' hws]
        rfl
    rw [habs]
    exact hocc
  · rw [hrest.snapshots, hrest.calls]
    exact h.refs
  · intro _ e he t ht c hc hshard'
    rw [hinfl] at he
    rcases mem_append.1 he with he | he
    · obtain ⟨p, hp, rfl⟩ := mem_map.1 he
      cases ht
      have hin : (c.ts, c.unit.ctx.abs) ∈ (abs store w).landed :=
        ⟨c, hc, hrest.shard ▸ hshard', rfl⟩
      exact (h.occ.landed_le _ hin).trans_lt (hfresh.2 _ (of_mem_zip hp).1)
    · rw [hws e he] at ht
      simp at ht
  · intro _ _ e he t ht
    rw [hinfl] at he
    rcases mem_append.1 he with he | he
    · obtain ⟨p, hp, rfl⟩ := mem_map.1 he
      cases ht
      rw [hrest.oracle]
      exact h.occ.clock_le.trans_lt (hfresh.2 _ (of_mem_zip hp).1)
    · rw [hws e he] at ht
      simp at ht

/-- On the single-commit path the holder's unit is all that is in flight. -/
theorem single_of_writing {ts : Option Nat} {l : Bool} (hm : w.mutex = some (.writing u ts l)) :
    w.groupCommit = false ∧ w.committer = .off ∧ w.pendingBatch = none := by
  cases hg : w.groupCommit with
  | true => exact absurd hm (h.grouped hg u ts l)
  | false => exact ⟨rfl, h.single hg⟩

/-- While the committer runs, the holder of the mutex is at most resolving `prev_ts`. -/
theorem grouped_of_flushing (hcm : w.committer ≠ .off) :
    w.groupCommit = true ∧ (∀ e ∈ holderUnits w.mutex, e.1 = none) ∧
      holderLanded w.mutex = false := by
  cases hg : w.groupCommit with
  | false => exact absurd (h.single hg).1 hcm
  | true =>
    match hm : w.mutex with
    | none | some (.reading i ctx read todo) => simp
    | some (.writing u ts l) => exact absurd hm (h.grouped hg u ts l)

omit h in
theorem pendingUnits_none (b : Option (Batch V)) : ∀ e ∈ pendingUnits b, e.1 = none := by
  cases b with
  | none | some b => simp

/-- What the pending batch and the holder have in flight beside a flush is not drawn. -/
theorem rest_none (hcm : w.committer ≠ .off) :
    ∀ e ∈ pendingUnits w.pendingBatch ++ holderUnits w.mutex, e.1 = none := by
  intro e he
  rcases mem_append.1 he with he | he
  · exact pendingUnits_none _ e he
  · exact (h.grouped_of_flushing hcm).2.1 e he

theorem allocateOne (hfresh : freshTimestamps store [ts])
    (hm : w.mutex = some (.writing u none false)) :
    Inv owned (draw store [ts]) { w with mutex := some (.writing u (some ts) false) } := by
  obtain ⟨hg, hoff, hpend⟩ := h.single_of_writing hm
  refine h.drawn hfresh [(none, u)] [] ?_ (by simp) rfl ?_ ?_
    ⟨rfl, rfl, rfl, rfl, rfl⟩ ⟨fun _ => ⟨hoff, hpend⟩, by simp [hg]⟩
  · simp [inflight, hm, hoff, hpend]
  · simp [inflight, hoff, hpend]
  · simp [rowsLanded, hoff]

theorem allocate {tss : List Nat} (hfresh : freshTimestamps store tss)
    (hf : w.committer = .flushing f) (hlen : tss.length = f.remaining.length)
    (hl : f.landed = false) (hnone : ∀ e ∈ f.remaining, e.1 = none) {hsub} :
    Inv owned (draw store tss) { w with committer := .flushing { f with
      remaining := (tss.zip (f.remaining.map Prod.snd)).map fun p => (some p.1, p.2)
      remaining_sub := hsub } } := by
  have hne : w.committer ≠ .off := by simp [hf]
  obtain ⟨hg, -, hhl⟩ := h.grouped_of_flushing hne
  refine h.drawn hfresh f.remaining
    (pendingUnits w.pendingBatch ++ holderUnits w.mutex) ?_ ?_ hlen ?_ ?_
    ⟨rfl, rfl, rfl, rfl, rfl⟩ ⟨by simp [hg], h.grouped⟩
  · simp [inflight, hf]
  · intro e he
    rcases mem_append.1 he with he | he
    · exact hnone e he
    · exact h.rest_none hne e he
  · simp [inflight]
  · simp [rowsLanded, hl, hhl, -holderLanded]

omit h in
theorem mem_commitsOf {shard : Nat} {units : List (Option Nat × StagedUnit V)} {d : Commit V} :
    d ∈ commitsOf shard units ↔ ∃ e ∈ units, ∃ t, e.1 = some t ∧ d = ⟨shard, t, e.2⟩ := by
  simp [commitsOf, @eq_comm _ d]

omit h in
theorem absLanded_append (log : List (Commit V)) (shard : Nat)
    (units : List (Option Nat × StagedUnit V)) :
    absLanded (log ++ commitsOf shard units) shard =
      absLanded log shard ∪ { p | ∃ e ∈ units, e.1 = some p.1 ∧ e.2.ctx.abs = p.2 } := by
  ext ⟨t, u⟩
  constructor
  · rintro ⟨d, hd, hsh, heq⟩
    rcases mem_append.1 hd with hd | hd
    · exact .inl ⟨d, hd, hsh, heq⟩
    · obtain ⟨e, he, t', ht', rfl⟩ := mem_commitsOf.1 hd
      obtain ⟨rfl, rfl⟩ := Prod.mk.inj heq
      exact .inr ⟨e, he, ht', rfl⟩
  · rintro (⟨d, hd, hsh, heq⟩ | ⟨e, he, ht, hu⟩)
    · exact ⟨d, mem_append_left _ hd, hsh, heq⟩
    · refine ⟨⟨shard, t, e.2⟩, mem_append_right _ (mem_commitsOf.2 ⟨e, he, t, ht, rfl⟩), rfl, ?_⟩
      exact Prod.ext rfl hu.symm

theorem landedRows (units : List (Option Nat × StagedUnit V)) (hsub : ∀ e ∈ units, e ∈ w.inflight)
    (hall : ∀ e ∈ w.inflight, ∀ t, e.1 = some t → e ∈ units) (hinfl : w'.inflight = w.inflight)
    (hrows' : w'.rowsLanded = true) (hrest : SameRest w' w) (hpaths : Paths w') :
    Inv owned { store with log := store.log ++ commitsOf w.shardId units } w' := by
  refine ⟨?_, ?_, hpaths.single, hpaths.grouped, ?_, by simp [hrows'],
    by simp [SnapshotSafe, hrows']⟩
  · have hocc := h.occ.land { p | ∃ e ∈ units, e.1 = some p.1 ∧ e.2.ctx.abs = p.2 } ?_
    · have habs : abs { store with log := store.log ++ commitsOf w.shardId units } w' =
          { abs store w with landed := (abs store w).landed ∪
            { p | ∃ e ∈ units, e.1 = some p.1 ∧ e.2.ctx.abs = p.2 } } := by
        simp [abs, hrest.shard, hrest.oracle, hrest.ring, hrest.calls, hinfl, absLanded_append]
      rw [habs]
      exact hocc
    · rintro p ⟨e, he, ht, hu⟩
      exact mem_absInflight.2 ⟨e, hsub e he, ht, hu⟩
  · rw [hrest.snapshots, hrest.calls]
    exact h.refs
  · intro _ e he t ht
    rw [hinfl] at he
    rw [hrest.shard, absLanded_append]
    exact .inr ⟨e, hall e he t ht, ht, rfl⟩

theorem landOne (hm : w.mutex = some (.writing u (some ts) false)) :
    Inv owned { store with log := store.log ++ commitsOf w.shardId [(some ts, u)] }
      { w with mutex := some (.writing u (some ts) true) } := by
  obtain ⟨hg, hoff, hpend⟩ := h.single_of_writing hm
  have hinfl : w.inflight = [(some ts, u)] := by
    simp [inflight, hm, hoff, hpend]
  refine h.landedRows [(some ts, u)] (by simp [hinfl]) (by simp [hinfl]) ?_ ?_
    ⟨rfl, rfl, rfl, rfl, rfl⟩ ⟨fun _ => ⟨hoff, hpend⟩, by simp [hg]⟩
  · simp [inflight, hm]
  · simp [rowsLanded]

theorem land (hf : w.committer = .flushing f) :
    Inv owned { store with log := store.log ++ commitsOf w.shardId f.remaining }
      { w with committer := .flushing { f with landed := true } } := by
  have hne : w.committer ≠ .off := by simp [hf]
  obtain ⟨hg, -, -⟩ := h.grouped_of_flushing hne
  refine h.landedRows f.remaining ?_ ?_ ?_ ?_ ⟨rfl, rfl, rfl, rfl, rfl⟩ ⟨by simp [hg], h.grouped⟩
  · intro e he
    simp [inflight, hf, he]
  · intro e he t ht
    rw [inflight, hf, append_assoc] at he
    rcases mem_append.1 he with he | he
    · exact he
    · rw [h.rest_none hne e he] at ht
      simp at ht
  · simp [inflight, hf]
  · simp [rowsLanded]

theorem rejected (hrows : w.rowsLanded = false)
    (hsub : (absInflight w'.inflight).Sublist (absInflight (undrawn w.inflight)))
    (hnone : ∀ e ∈ w'.inflight, e.1 = none) (hshard : w'.shardId = w.shardId)
    (horacle : w'.oracle = w.oracle) (hring : w'.recentCommits = w.recentCommits)
    (hcalls : absActive w'.calls ⊆ absActive w.calls)
    (hrefs : ∀ ts, (w'.activeSnapshots.get? ts).getD 0 = refCount w'.calls ts) (hpaths : Paths w') :
    Inv owned store w' := by
  have hvac : ∀ e ∈ w'.inflight, ∀ t, e.1 = some t → False := fun e he t ht => by
    rw [hnone e he] at ht
    simp at ht
  refine ⟨?_, hrefs, hpaths.single, hpaths.grouped, fun _ e he t ht => (hvac e he t ht).elim,
    fun _ e he t ht => (hvac e he t ht).elim, fun _ _ e he t ht => (hvac e he t ht).elim⟩
  have hback := h.occ.rollback fun t u hu hl => by
    obtain ⟨e, he, ht, rfl⟩ := mem_absInflight.1 hu
    obtain ⟨c, hc, hsh, heq⟩ := hl
    have := h.unlanded hrows e he t ht c hc hsh
    rw [(Prod.mk.inj heq).1] at this
    exact lt_irrefl _ this
  have hun : (abs store w).inflight.map (fun e => (none, e.2)) =
    absInflight (undrawn w.inflight) := by
    simp [abs, absInflight, undrawn]
  rw [hun] at hback
  have hocc := (hback.drop hsub fun t u hu => by
    obtain ⟨e, he, ht, -⟩ := mem_absInflight.1 hu
    obtain ⟨d, -, rfl⟩ := mem_map.1 he
    simp at ht).retire hcalls
  have habs : abs store w' = { abs store w with
      inflight := absInflight w'.inflight, active := absActive w'.calls } := by
    simp [abs, hshard, horacle, hring]
  rw [habs]
  exact hocc

omit h in
/-- Nothing of a rejected flush is drawn, and the units it keeps were there before. -/
theorem flushRejected_units (f : Flush V) (unitIndex : Option Nat) (b : Bool) :
    (committerUnits (flushRejected f unitIndex b)).Sublist (undrawn f.remaining) := by
  have hwhole : (committerUnits (flushRejected.whole b f)).Sublist (undrawn f.remaining) :=
    nil_sublist _
  unfold flushRejected
  split
  · split
    · simp only
      split
      · exact nil_sublist _
      · exact (eraseIdx_sublist _ _).map _
    · exact hwhole
  · exact hwhole

theorem rejectOne {ts : Option Nat} {b : Bool} (hm : w.mutex = some (.writing u ts false)) :
    Inv owned store { w with mutex := none, calls := settle w.calls u.call (rejection b) } := by
  obtain ⟨hg, hoff, hpend⟩ := h.single_of_writing hm
  refine h.rejected ?_ ?_ ?_ rfl rfl rfl (absActive_settle _) ?_ ⟨fun _ => ⟨hoff, hpend⟩, by simp⟩
  · simp [rowsLanded, hoff, hm]
  · simp [inflight, hoff, hpend, absInflight]
  · simp [inflight, hoff, hpend]
  · intro ts
    rw [refCount_settle (live_rejection b)]
    exact h.refs ts

theorem reject (hf : w.committer = .flushing f) (hl : f.landed = false) (k : Option Nat)
    (b : Bool) : Inv owned store { w with committer := flushRejected f k b } := by
  have hne : w.committer ≠ .off := by simp [hf]
  obtain ⟨hg, -, hhl⟩ := h.grouped_of_flushing hne
  have hrest : undrawn (pendingUnits w.pendingBatch ++ holderUnits w.mutex) =
      pendingUnits w.pendingBatch ++ holderUnits w.mutex := by
    refine (map_congr_left fun e he => ?_).trans (map_id _)
    exact Prod.ext (h.rest_none hne e he).symm rfl
  have hundrawn : undrawn w.inflight =
      undrawn f.remaining ++ (pendingUnits w.pendingBatch ++ holderUnits w.mutex) := by
    rw [← hrest]
    simp [inflight, hf, undrawn]
  have hinfl : (ShardWriter.inflight
      { w with committer := flushRejected f k b }).Sublist (undrawn w.inflight) := by
    rw [hundrawn, inflight, append_assoc]
    exact (flushRejected_units f k b).append_right _
  refine h.rejected ?_ (hinfl.map _) ?_ rfl rfl rfl subset_rfl h.refs ⟨by simp [hg], h.grouped⟩
  · simp [rowsLanded, hf, hl, hhl, -holderLanded]
  · intro e he
    obtain ⟨d, -, rfl⟩ := mem_map.1 (hinfl.subset he)
    rfl

/-! ## Publication -/

/-- Pruning drops only what no active snapshot can conflict with. -/
theorem le_of_pruned {r : RecentCommit} (hr : r ∈ w.recentCommits)
    (hnot : r ∉ w.prune.recentCommits) {c : Call V} (hc : c ∈ w.calls)
    (hlive : c.phase.live = true) : r.ts ≤ c.ctx.snapshotTs := by
  have hle : r.ts ≤ w.minActiveSnapshot := by
    by_contra hlt
    exact hnot (mem_filter.2 ⟨hr, by simpa using hlt⟩)
  refine hle.trans ?_
  have hmem : c.ctx.snapshotTs ∈ w.activeSnapshots.keys := by
    by_contra hno
    have hcount := h.refs c.ctx.snapshotTs
    rw [(get?_eq_none_iff _).2 hno, Option.getD_none] at hcount
    have : 0 < refCount w.calls c.ctx.snapshotTs :=
      countP_pos_iff.2 ⟨c, hc, by simp [holds, hlive]⟩
    omega
  unfold minActiveSnapshot
  cases hmin : w.activeSnapshots.keys.min? with
  | none =>
    rw [min?_eq_none_iff.1 hmin] at hmem
    simp at hmem
  | some m => exact (min?_eq_some_iff.1 hmin).2 _ hmem

theorem prune : Inv owned store w.prune := by
  refine h.rebuild (h.occ.prune (R := absRing w.prune.recentCommits) ?_) h.refs rfl rfl rfl
    (fun e he t ht => ⟨e, he, ht, rfl⟩) ⟨h.single, h.grouped⟩
  rintro p ⟨r, hr, rfl⟩ hnot a ⟨c, hc, hlive, rfl⟩
  exact h.le_of_pruned hr (fun hmem => hnot ⟨r, hmem, rfl⟩) hc hlive

omit h in
theorem foldl_settle (ps : List (Nat × StagedUnit V)) (calls : List (Call V)) :
    let calls' := ps.foldl (fun calls p => settle calls p.2.call (.settled (.committed p.1))) calls
    absActive calls' ⊆ absActive calls ∧ ∀ ts, refCount calls' ts = refCount calls ts := by
  induction ps generalizing calls with
  | nil => exact ⟨subset_rfl, fun _ => rfl⟩
  | cons p ps ih =>
    obtain ⟨h1, h2⟩ := ih (settle calls p.2.call (.settled (.committed p.1)))
    exact ⟨h1.trans (absActive_settle _), fun ts => (h2 ts).trans (refCount_settle (by simp) ts)⟩

omit h in
theorem foldl_publishCommitted (ps : List (Nat × StagedUnit V)) (o : Oracle) :
    (ps.foldl (fun o p => o.publishCommitted p.1) o).lastCommitted =
      ps.foldl (fun n p => max n p.1) o.lastCommitted := by
  induction ps generalizing o with
  | nil => rfl
  | cons p ps ih => simp [ih]

/-- The first units in flight are published, and the calls they settle move on. -/
theorem published (ps : List (Nat × StagedUnit V))
    (hinfl : w.inflight = ps.map (fun p => (some p.1, p.2)) ++ w'.inflight)
    (hnone : ∀ e ∈ w'.inflight, e.1 = none) (hshard : w'.shardId = w.shardId)
    (horacle : w'.oracle = (w.publishUnits ps).oracle)
    (hring : w'.recentCommits = (w.publishUnits ps).recentCommits)
    (hsnap : w'.activeSnapshots = w.activeSnapshots)
    (hcalls : absActive w'.calls ⊆ absActive w.calls)
    (hrefs : ∀ ts, refCount w'.calls ts = refCount w.calls ts) (hpaths : Paths w') :
    Inv owned store w' := by
  have hvac : ∀ e ∈ w'.inflight, ∀ t, e.1 = some t → False := fun e he t ht => by
    rw [hnone e he] at ht
    simp at ht
  refine ⟨?_, fun ts => by rw [hsnap, hrefs, h.refs], hpaths.single, hpaths.grouped,
    fun _ e he t ht => (hvac e he t ht).elim, fun _ e he t ht => (hvac e he t ht).elim,
    fun _ _ e he t ht => (hvac e he t ht).elim⟩
  have hocc := (h.occ.publishAll (ps.map fun p => (p.1, p.2.ctx.abs))
    (F := absInflight w'.inflight) (by
      simp only [abs, hinfl, absInflight, map_append, map_map]
      rfl)).retire hcalls
  have habs : abs store w' = { abs store w with
      clock := (ps.map fun p => (p.1, p.2.ctx.abs)).foldl (fun n p => max n p.1)
        w.oracle.lastCommitted
      ring := absRing w.recentCommits ∪
        { r | ∃ p ∈ ps.map fun p => (p.1, p.2.ctx.abs), r = (p.1, p.2.writes) }
      active := absActive w'.calls
      inflight := absInflight w'.inflight } := by
    have hring' : absRing w'.recentCommits = absRing w.recentCommits ∪
        { r | ∃ p ∈ ps.map fun p => (p.1, p.2.ctx.abs), r = (p.1, p.2.writes) } := by
      rw [hring, publishUnits_eq]
      simp only [absRing, mem_append, mem_map, or_and_right, exists_or, exists_exists_and_eq_and]
      rfl
    simp [abs, hshard, horacle, publishUnits_eq, foldl_publishCommitted, foldl_map, hring']
  rw [habs]
  exact hocc

end

theorem committerUnits_landed (f : Flush V) :
    ((landedUnits f.remaining).map fun p => (some p.1, p.2)).Sublist f.remaining ∧
      ∀ e ∈ f.remaining, ∀ t, e.1 = some t →
        e ∈ (landedUnits f.remaining).map fun p => (some p.1, p.2) := by
  induction f.remaining with
  | nil => simp [landedUnits]
  | cons e es ih =>
    obtain ⟨_ | t, u⟩ := e
    · refine ⟨ih.1.cons _, fun e he t ht => ?_⟩
      rcases mem_cons.1 he with rfl | he
      · simp at ht
      · exact ih.2 e he t ht
    · refine ⟨ih.1.cons_cons _, fun e he t' ht' => ?_⟩
      rcases mem_cons.1 he with rfl | he
      · exact mem_cons_self
      · exact mem_cons_of_mem _ (ih.2 e he t' ht')

section

variable (h : Inv owned store w)
include h

theorem resolveOne (hm : w.mutex = some (.writing u (some ts) true)) :
    Inv owned store { (w.publishUnits [(ts, u)]).prune with mutex := none } := by
  obtain ⟨hg, hoff, hpend⟩ := h.single_of_writing hm
  obtain ⟨hact, href⟩ := foldl_settle [(ts, u)] w.calls
  have hpub : Inv owned store { w.publishUnits [(ts, u)] with mutex := none } := by
    refine h.published [(ts, u)] ?_ ?_ rfl rfl rfl rfl hact href ⟨fun _ => ⟨hoff, hpend⟩, by simp⟩
    · simp [inflight, publishUnits_eq, hm, hoff, hpend]
    · simp [inflight, publishUnits_eq, hoff, hpend]
  exact hpub.prune

theorem resolve (hf : w.committer = .flushing f)
    (hl : f.landed = true) {hsub} : Inv owned store { w with
      committer := .publishing ⟨f.batch, landedUnits f.remaining, hsub, f.guardRejected, [],
        false⟩ } := by
  obtain ⟨hg, hholder, hhl⟩ := h.grouped_of_flushing (by simp [hf])
  obtain ⟨hsub, hall⟩ := committerUnits_landed f
  have hw : w.inflight = f.remaining ++ (pendingUnits w.pendingBatch ++ holderUnits w.mutex) := by
    simp [inflight, hf]
  refine h.rebuild ?_ h.refs rfl rfl (by simp [rowsLanded, hf, hl]) ?_
    ⟨by simp [hg], h.grouped⟩
  · refine h.occ.drop (F := absInflight ((landedUnits f.remaining).map (fun p => (some p.1, p.2))
      ++ pendingUnits w.pendingBatch ++ holderUnits w.mutex)) ?_ ?_
    · rw [abs, hw, append_assoc]
      exact (hsub.append_right _).map _
    · intro t u hu
      obtain ⟨e, he, ht, rfl⟩ := mem_absInflight.1 hu
      refine mem_absInflight.2 ⟨e, ?_, ht, rfl⟩
      rw [hw] at he
      rw [append_assoc]
      rcases mem_append.1 he with he | he
      · exact mem_append_left _ (hall e he t ht)
      · exact mem_append_right _ he
  · intro e he t ht
    refine ⟨e, ?_, ht, rfl⟩
    rw [hw]
    rw [inflight, append_assoc] at he
    rcases mem_append.1 he with he | he
    · exact mem_append_left _ (hsub.subset he)
    · exact mem_append_right _ he

theorem stop (hc : w.committer = .detaching) : Inv owned store { w with committer := .off } := by
  obtain ⟨hg, -, -⟩ := h.grouped_of_flushing (by simp [hc])
  exact h.of_absInflight (by simp [inflight, hc])
    (by simp [rowsLanded, hc]) ⟨rfl, rfl, rfl, rfl, rfl⟩ ⟨by simp [hg], h.grouped⟩

theorem detach {b : Batch V} (hc : w.committer = .detaching)
    (hb : w.pendingBatch = some b) {hsub} : Inv owned store { w with
      pendingBatch := none
      committer := .flushing ⟨b, b.units.map fun u => (none, u), hsub, false, [], 0⟩ } := by
  obtain ⟨hg, -, -⟩ := h.grouped_of_flushing (by simp [hc])
  refine h.of_absInflight ?_ ?_ ⟨rfl, rfl, rfl, rfl, rfl⟩ ⟨by simp [hg], h.grouped⟩
  · simp [inflight, hc, hb]
  · simp [rowsLanded, hc]

theorem publish {o : FlushOutcome V} {ring : List RecentCommit}
    (hm : w.mutex = none) (hc : w.committer = .publishing o)
    (hring : ring = (w.publishUnits o.landed).recentCommits ∨
      ring = (w.publishUnits o.landed).prune.recentCommits) : Inv owned store { w with
        recentCommits := ring
        oracle := (w.publishUnits o.landed).oracle
        calls := settleAll (settleAll (w.publishUnits o.landed).calls o.guardRejected
          (.settled .failed)) o.chunkUnits (rejection o.chunkIsConflict)
        committer := .detaching
        promoted := w.promoted ++ [o.batch.id] } := by
  obtain ⟨hg, -, -⟩ := h.grouped_of_flushing (by simp [hc])
  obtain ⟨hact, href⟩ := foldl_settle o.landed w.calls
  have hpub : Inv owned store { w with
      recentCommits := (w.publishUnits o.landed).recentCommits
      oracle := (w.publishUnits o.landed).oracle
      calls := settleAll (settleAll (w.publishUnits o.landed).calls o.guardRejected
        (.settled .failed)) o.chunkUnits (rejection o.chunkIsConflict)
      committer := .detaching
      promoted := w.promoted ++ [o.batch.id] } := by
    refine h.published o.landed ?_ ?_ rfl rfl rfl rfl ?_ ?_ ⟨by simp [hg], by simp [hm]⟩
    · simp [inflight, hc]
    · intro e he
      simp only [inflight, hm, holderUnits, append_nil] at he
      exact pendingUnits_none _ e he
    · refine (absActive_settleAll _ _).trans ((absActive_settleAll _ _).trans ?_)
      rw [publishUnits_eq]
      exact hact
    · intro ts
      rw [refCount_settleAll _ (live_rejection _), refCount_settleAll _ (by simp), publishUnits_eq]
      exact href ts
  rcases hring with rfl | rfl
  · exact hpub
  · have := hpub.prune
    simpa [ShardWriter.prune, minActiveSnapshot, publishUnits_eq] using this

end

/-! ## Whole steps -/

theorem callStep (h : Inv owned store w)
    (hsafe : takesSnapshot e = true → w.SnapshotSafe) (hi : w.calls[i]? = some c)
    (hs : CallActs store w i c e w') : Inv owned store w' := by
  cases hs with
  | op op hbody => exact h.op hi (by simp [hbody]) op
  | bodyReturns hbody =>
    refine h.setCall hi (by simp [hbody]) ?_ rfl
    split <;> simp
  | bodyThrows b hbody => exact h.setCall hi (by simp [hbody]) (live_rejection b) rfl
  | acquire hq hm => exact h.acquire hi hq hm
  | restage hcut => exact h.setCall hi (by simp [hcut]) (by simp) rfl
  | retry hconflict => exact h.retry (hsafe rfl) hi (by simp [hconflict])
  | finish hends =>
    refine h.finish hi ?_ _
    rcases hends with hends | ⟨⟨wait, hends⟩, -⟩
    · simp [hends]
    · simp [hends]

/-- Every step of the writer keeps the invariant, if snapshots are taken safely. -/
theorem step (h : Inv owned store w) (hsafe : takesSnapshot e = true → w.SnapshotSafe)
    (hs : w.step store e = some (store', w', out)) : Inv owned store' w' := by
  cases acts_of_step hs with
  | start maxRetries => exact h.start (hsafe rfl) maxRetries
  | call hi hw => exact h.callStep hsafe hi hw
  | staged hm => exact h.stageUnit hm _
  | prevAnswered hm => exact h.prevAnswered hm
  | allocateOne hfresh hm => exact h.allocateOne hfresh hm
  | allocate hfresh hf hlen hl hnone hrem =>
    subst hrem
    exact h.allocate hfresh hf hlen hl hnone
  | landOne hm => exact h.landOne hm
  | land hf => exact h.land hf
  | rejectOne hm => exact h.rejectOne hm
  | reject hf hl => exact h.reject hf hl _ _
  | resolveOne hm => exact h.resolveOne hm
  | resolve hf hl => exact h.resolve hf hl
  | stop hm hc => exact h.stop hc
  | detach hm hc hb => exact h.detach hc hb
  | publish hm hc hring => exact h.publish hm hc hring

/-! ## What a step does to the store and to the other shards -/

theorem shardId_stageUnit (w : ShardWriter V) (u : StagedUnit V) :
    (w.stageUnit u).shardId = w.shardId := by
  unfold ShardWriter.stageUnit
  split <;> rfl

theorem shardId_acquire : (w.acquire i c).shardId = w.shardId := by
  unfold ShardWriter.acquire
  simp only
  split <;> rfl

/-- A step appends commits of its own shard to the log and draws timestamps. -/
theorem step_store (hs : w.step store e = some (store', w', out)) :
    w'.shardId = w.shardId ∧ store.allocated ≤ store'.allocated ∧
      ∃ log, store'.log = store.log ++ log ∧ ∀ d ∈ log, d.shard = w.shardId := by
  by_cases hsame : w'.shardId = w.shardId ∧ store' = store
  · obtain ⟨hw, rfl⟩ := hsame
    exact ⟨hw, le_rfl, [], by simp, by simp⟩
  have hcommits : ∀ (units : List (Option Nat × StagedUnit V)),
      ∀ d ∈ commitsOf w.shardId units, d.shard = w.shardId := by
    intro units d hd
    obtain ⟨u, -, t, -, rfl⟩ := mem_commitsOf.1 hd
    rfl
  cases acts_of_step hs with
  | call hi hw =>
    cases hw with
    | acquire => exact absurd ⟨shardId_acquire, rfl⟩ hsame
    | _ => exact absurd ⟨rfl, rfl⟩ hsame
  | staged hm => exact absurd ⟨shardId_stageUnit .., rfl⟩ hsame
  | allocateOne | allocate => exact ⟨rfl, (Store.le_foldl_max _ _).1, [], by simp [draw], by simp⟩
  | landOne | land => exact ⟨rfl, le_rfl, _, rfl, hcommits _⟩
  | _ => exact absurd ⟨rfl, rfl⟩ hsame

theorem drawn_le (h : Inv owned store w) {d : Option Nat × StagedUnit V} {t : Nat}
    (hd : d ∈ w.inflight) (ht : d.1 = some t) : t ≤ store.allocated :=
  h.occ.inflight_le (mem_absInflight.2 ⟨_, hd, ht, rfl⟩)

theorem landed_le (h : Inv owned store w) {o : FlushOutcome V} (hc : w.committer = .publishing o) :
    ∀ p ∈ o.landed, p.1 ≤ store.allocated := by
  intro p hp
  refine h.drawn_le (d := (some p.1, p.2)) ?_ rfl
  rw [inflight, hc]
  exact mem_append_left _ (mem_append_left _ (mem_map.2 ⟨p, hp, rfl⟩))

theorem step_out (h : Inv owned store w) (hs : w.step store e = some (store', w', out)) :
    ∀ t ∈ out, t ≤ store'.allocated := by
  cases acts_of_step hs with
  | @resolveOne u ts hm =>
    intro t ht
    rw [mem_singleton.1 ht]
    exact h.drawn_le (d := (some ts, u)) (by simp [inflight, hm]) rfl
  | publish hm hc =>
    intro t ht
    obtain ⟨q, hq, rfl⟩ := mem_map.1 ht
    exact h.landed_le hc q hq
  | _ => simp

/-- The result timestamps of the calls are at most `n`. -/
def ResultsBelow (n : Nat) (calls : List (Call V)) : Prop :=
  ∀ c ∈ calls, ∀ t ∈ c.phase.resultTs, t ≤ n

theorem ResultsBelow.set {n : Nat} {calls : List (Call V)} (h : ResultsBelow n calls)
    (hc : ∀ t ∈ c.phase.resultTs, t ≤ n) : ResultsBelow n (calls.set i c) := by
  intro d hd
  rcases mem_or_eq_of_mem_set hd with hd | rfl
  · exact h d hd
  · exact hc

theorem resultTs_rejection (b : Bool) : (rejection b).resultTs = none := by cases b <;> rfl

theorem callStep_results (h : Inv owned store w)
    (hr : ResultsBelow store.allocated w.calls) (hi : w.calls[i]? = some c)
    (hs : CallActs store w i c e w') : ResultsBelow store.allocated w'.calls := by
  have hmem := List.mem_of_getElem? hi
  cases hs with
  | op op hbody => exact hr.set (hr c hmem)
  | bodyReturns hbody =>
    refine hr.set fun t ht => ?_
    split at ht
    · cases ht
      exact h.occ.snap_le _ (.inl (mem_absActive hi (by simp [hbody])))
    · cases ht
  | bodyThrows b hbody => exact hr.set (by simp [resultTs_rejection])
  | acquire hq hm =>
    have hadm : (w.admission c.ctx).resultTs = none := by
      unfold admission
      repeat' split
      all_goals rfl
    unfold ShardWriter.acquire
    simp only
    split <;> exact hr.set (by simp [hadm])
  | restage | retry => exact hr.set (by simp [Phase.resultTs])
  | finish hends =>
    refine hr.set fun t ht => ?_
    rcases hends with hends | ⟨-, -, rfl⟩
    · exact hr c hmem t (by rw [hends]; exact ht)
    · cases ht

theorem step_results (h : Inv owned store w) (hr : ResultsBelow store.allocated w.calls)
    (hs : w.step store e = some (store', w', out)) : ResultsBelow store'.allocated w'.calls := by
  have hle := (step_store hs).2.1
  cases acts_of_step hs with
  | start maxRetries =>
    intro c hc
    rcases mem_append.1 hc with hc | hc
    · exact hr c hc
    · rw [mem_singleton.1 hc]
      simp [Phase.resultTs]
  | call hi hw => exact h.callStep_results hr hi hw
  | staged hm =>
    unfold ShardWriter.stageUnit
    split <;> exact hr
  | allocateOne | allocate => exact fun d hd t ht => (hr d hd t ht).trans hle
  | rejectOne hm => exact forall_settle hr fun c hc _ => by simp [resultTs_rejection]
  | @resolveOne u ts hm =>
    refine forall_settle hr fun c hc _ t ht => ?_
    cases ht
    exact h.drawn_le (d := (some ts, u)) (by simp [inflight, hm]) rfl
  | publish hm hc =>
    refine forall_published hr ?_
    rintro p (rfl | rfl | ⟨q, hq, rfl⟩) c - - t ht
    · cases ht
    · simp [resultTs_rejection] at ht
    · cases ht
      exact h.landed_le hc q hq
  | _ => exact hr

/-- A fresh writer, seeded at or above everything its shard has in the store. -/
theorem new {shard : Nat} {group : Bool} {seed : Nat} (hseed : seed ≤ store.allocated)
    (hlog : ∀ d ∈ store.log, d.shard = shard → d.ts ≤ seed ∧ d.unit.ctx.snapshotTs < d.ts ∧
      d.unit.ctx.validatedReads = [] ∧ d.unit.ctx.observed = []) :
    Inv owned store (ShardWriter.new shard group (.new seed)) where
  occ :=
    { clock_le := hseed
      landed_le := by
        rintro p ⟨d, hd, hsh, rfl⟩
        exact (hlog d hd hsh).1.trans hseed
      inflight_le := fun hu => absurd hu not_mem_nil
      inflight_lt := fun hu => absurd hu not_mem_nil
      snap_lt := by
        rintro p ⟨d, hd, hsh, rfl⟩
        exact (hlog d hd hsh).2.1
      snap_le := by
        rintro a (⟨c, hc, -⟩ | ⟨e, he, -⟩ | ⟨p, ⟨d, hd, hsh, rfl⟩, rfl⟩)
        · exact absurd hc not_mem_nil
        · exact absurd he not_mem_nil
        · exact ((hlog d hd hsh).2.1.le.trans (hlog d hd hsh).1).trans hseed
      published := by
        rintro p ⟨d, hd, hsh, rfl⟩
        exact .inl (hlog d hd hsh).1
      ring_covers := by
        rintro a ⟨c, hc, -⟩
        exact absurd hc not_mem_nil
      complete := fun a _ t u hu => absurd hu not_mem_nil
      views := by
        rintro a (⟨c, hc, -⟩ | ⟨e, he, -⟩ | ⟨p, ⟨d, hd, hsh, rfl⟩, rfl⟩)
        · exact absurd hc not_mem_nil
        · exact absurd he not_mem_nil
        · rintro view ⟨o, ho, -⟩
          rw [(hlog d hd hsh).2.2.2] at ho
          exact absurd ho not_mem_nil
      landed_lt := fun p _ t u hu => absurd hu not_mem_nil
      ordered := List.Pairwise.nil
      reads_landed := fun e he => absurd he not_mem_nil
      reads_history := by
        rintro p ⟨d, hd, hsh, rfl⟩ q - - -
        have : d.unit.ctx.abs.reads = ∅ := by
          simp [TransactionContext.abs, (hlog d hd hsh).2.2.1, RangeSet.keys]
        rw [this]
        exact disjoint_bot_right }
  refs := fun ts => rfl
  single := fun _ => ⟨rfl, rfl⟩
  grouped := fun _ u ts l => by simp
  landed := fun _ e he => absurd he not_mem_nil
  unlanded := fun _ e he => absurd he not_mem_nil
  clock := fun _ _ e he => absurd he not_mem_nil

/-! ## Other shards -/

/-- Another shard draws timestamps, or lands rows of its own. -/
theorem environment (h : Inv owned store w) {log : List (Commit V)}
    (hlog : store'.log = store.log ++ log) (hother : ∀ d ∈ log, d.shard ≠ w.shardId)
    (halloc : store.allocated ≤ store'.allocated) : Inv owned store' w := by
  have hlanded : absLanded store'.log w.shardId = absLanded store.log w.shardId := by
    rw [hlog]
    ext p
    constructor
    · rintro ⟨d, hd, hsh, rfl⟩
      rcases mem_append.1 hd with hd | hd
      · exact ⟨d, hd, hsh, rfl⟩
      · exact absurd hsh (hother d hd)
    · rintro ⟨d, hd, hsh, rfl⟩
      exact ⟨d, mem_append_left _ hd, hsh, rfl⟩
  refine ⟨?_, h.refs, h.single, h.grouped, hlanded.symm ▸ h.landed, ?_, h.clock⟩
  · have habs : abs store' w = { abs store w with allocated := store'.allocated } := by
      simp [abs, hlanded]
    rw [habs]
    exact h.occ.advance halloc
  · intro hl e he t ht d hd hsh
    rw [hlog] at hd
    rcases mem_append.1 hd with hd | hd
    · exact h.unlanded hl e he t ht d hd hsh
    · exact absurd hsh (hother d hd)

/-- The transactor tells the writer about a timestamp of another shard. -/
theorem observe (h : Inv owned store w) {t : Nat} (ht : t ≤ store.allocated) :
    Inv False store { w with oracle := w.oracle.observeTimestamp t } where
  __ := h
  occ := by
    have habs : abs store { w with oracle := w.oracle.observeTimestamp t } =
        { abs store w with clock := max w.oracle.lastCommitted t } := by
      simp only [abs, Oracle.observeTimestamp_lastCommitted]
      rfl
    rw [habs]
    exact h.occ.observe ht
  clock := False.elim

/-! ## What the invariant gives -/

/-- An older commit of the shard that wrote a key the younger one has validated was in
the store whenever the younger one read that key, and in its snapshot. -/
theorem no_missed_commit (h : Inv owned store w) {x d : Commit V} (hx : x ∈ store.log)
    (hd : d ∈ store.log) (hxs : x.shard = w.shardId) (hds : d.shard = w.shardId)
    (hlt : d.ts < x.ts) {k : Key} (hread : k ∈ x.unit.ctx.validatedReads.keys)
    (hwrite : k ∈ d.unit.ctx.writeRanges.keys) :
    d.ts ≤ x.unit.ctx.snapshotTs ∧ ∀ o ∈ x.unit.ctx.observed, d.ts ∈ o.landed := by
  rcases h.occ.serializable (x := (x.ts, x.unit.ctx.abs)) (c := (d.ts, d.unit.ctx.abs))
    ⟨x, hx, hxs, rfl⟩ ⟨d, hd, hds, rfl⟩ hlt with hdisj | ⟨hsnap, hviews⟩
  · exact absurd hread (Set.disjoint_left.1 hdisj hwrite)
  · exact ⟨hsnap, fun o ho => hviews _ ⟨o, ho, rfl⟩⟩

end Inv

end ShardWriter

end Helipod
