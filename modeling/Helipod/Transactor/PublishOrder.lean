import Helipod.Transactor.Sharded

/-!
# Clocks when a commit is published

`ShardWriter` advances its own clock, calls `onCommitted`, which fans the timestamp to the clocks of
all shards of the `ShardedTransactor`, and only then calls `fanout.publish`, one unit after the
other and without an `await` in between. A step of the model does this for all units of a write
call, so the moments at which `fanout.publish` is called lie inside a step. `publishCalls` says what
they are.

Results: `clocks_shardStep`, `published_below_every_clock`.
-/

namespace Helipod

open Runs OrderedMap List Option

variable {V : Type}

namespace ShardedTransactor

/-- `oracle.publishCommitted(ts)` of the writer, then `onCommitted(ts)`. -/
def announce (t : ShardedTransactor V) (shard ts : Nat) : ShardedTransactor V :=
  match t.shards.get? shard with
  | some w =>
    let w := { w with oracle := w.oracle.publishCommitted ts }
    { t with shards := t.shards.set shard w }.observeTimestamp ts
  | none => t.observeTimestamp ts

/-- The calls of `fanout.publish` for timestamps that are published in order, each with the clocks
at the call. -/
def announcements (t : ShardedTransactor V) (shard : Nat) : List Nat →
    List (Nat × ShardedTransactor V)
  | [] => []
  | ts :: rest => (ts, t.announce shard ts) :: (t.announce shard ts).announcements shard rest

/-- The calls of `fanout.publish` during a step: one per unit that it publishes, in order. -/
def publishCalls (t : ShardedTransactor V) : ShardedEvent V → List (Nat × ShardedTransactor V)
  | .shard shard e =>
    match (t.shards.get? shard).bind fun w => w.step t.store e with
    | some (_, _, published) => t.announcements shard published
    | none => []
  | _ => []

/-- The clock of each shard, and the mark that new ones start from. -/
def clocks (t : ShardedTransactor V) : (Nat → Option Nat) × Nat :=
  (fun shard => (t.shards.get? shard).map (·.oracle.lastCommitted), t.observedHighWater)

/-- Every clock is at or past the timestamp, and so is the mark that new ones start from. -/
structure Past (t : ShardedTransactor V) (ts : Nat) : Prop where
  clock : ∀ shard w, t.shards.get? shard = some w → ts ≤ w.oracle.lastCommitted
  mark : ts ≤ t.observedHighWater

variable {t t' : ShardedTransactor V} {ts n : Nat} {e : ShardedEvent V} {out : List Nat}

/-! ## One announcement -/

theorem past_observeTimestamp : (t.observeTimestamp ts).Past ts := by
  refine ⟨fun shard w hw => ?_, ?_⟩
  · rw [observeTimestamp, get?_mapValues] at hw
    obtain ⟨w₀, -, rfl⟩ := map_eq_some_iff.1 hw
    rw [Oracle.observeTimestamp_lastCommitted]
    exact le_max_right _ _
  · show ts ≤ if t.observedHighWater < ts then ts else t.observedHighWater
    split <;> omega

theorem Past.observeTimestamp (h : t.Past n) : (t.observeTimestamp ts).Past n := by
  refine ⟨fun shard w hw => ?_, ?_⟩
  · rw [ShardedTransactor.observeTimestamp, get?_mapValues] at hw
    obtain ⟨w₀, hw₀, rfl⟩ := map_eq_some_iff.1 hw
    rw [Oracle.observeTimestamp_lastCommitted]
    exact (h.clock shard w₀ hw₀).trans (le_max_left _ _)
  · show n ≤ if t.observedHighWater < ts then ts else t.observedHighWater
    have := h.mark
    split <;> omega

theorem Past.foldl_observeTimestamp (h : t.Past n) (out : List Nat) :
    (out.foldl ShardedTransactor.observeTimestamp t).Past n :=
  foldlRecOn (motive := (Past · n)) out _ h fun _ h _ _ => h.observeTimestamp

theorem past_foldl_observeTimestamp (h : n ∈ out) :
    (out.foldl ShardedTransactor.observeTimestamp t).Past n := by
  induction out generalizing t with
  | nil => cases h
  | cons ts out ih =>
    rcases mem_cons.1 h with rfl | h
    · exact past_observeTimestamp.foldl_observeTimestamp out
    · exact ih h

theorem past_announce (t : ShardedTransactor V) (shard ts : Nat) :
    (t.announce shard ts).Past ts := by
  unfold announce
  split <;> exact past_observeTimestamp

theorem past_of_mem_announcements {shard : Nat} {p : ShardedTransactor V}
    (h : (ts, p) ∈ t.announcements shard out) : ts ∈ out ∧ p.Past ts := by
  induction out generalizing t with
  | nil => cases h
  | cons _ out ih =>
    rcases mem_cons.1 h with h | h
    · cases h
      exact ⟨mem_cons_self, past_announce t shard ts⟩
    · exact ⟨mem_cons_of_mem _ (ih h).1, (ih h).2⟩

/-! ## The steps of the model -/

variable {w : ShardWriter V}

theorem oracle_acquire {i : Nat} {c : Call V} : (w.acquire i c).oracle = w.oracle := by
  unfold ShardWriter.acquire
  simp only
  split <;> rfl

theorem oracle_stageUnit {u : StagedUnit V} : (w.stageUnit u).oracle = w.oracle := by
  unfold ShardWriter.stageUnit
  split <;> rfl

/-- A step of a writer moves its own clock past what it publishes, and never back. -/
theorem lastCommitted_step {store store' : Store V} {w' : ShardWriter V} {e : Event V}
    (hs : w.step store e = some (store', w', out)) :
    w'.oracle.lastCommitted = out.foldl max w.oracle.lastCommitted := by
  cases ShardWriter.acts_of_step hs with
  | call hi hw =>
    cases hw with
    | acquire => rw [oracle_acquire, foldl_nil]
    | _ => rfl
  | staged hm => rw [oracle_stageUnit, foldl_nil]
  | resolveOne hm => simp [ShardWriter.prune, ShardWriter.publishUnits_eq]
  | publish hm hc =>
    simp only [ShardWriter.publishUnits_eq, foldl_map]
    exact ShardWriter.Inv.foldl_publishCommitted _ _
  | _ => rfl

/-- No step moves a clock back, and new clocks start from the mark. -/
theorem Past.step (h : t.Past n) (hs : t.step e = some t') : t'.Past n := by
  cases acts_of_step hs with
  | request | seedAnswered | createFailed => exact ⟨h.clock, h.mark⟩
  | @created shard storeSeed hc =>
    refine ⟨fun shard' w hw => ?_, h.mark⟩
    rcases get?_set_eq_some.1 hw with ⟨-, rfl⟩ | ⟨-, hw⟩
    · have := h.mark
      show n ≤ if t.observedHighWater < storeSeed then storeSeed else t.observedHighWater
      split <;> omega
    · exact h.clock shard' w hw
  | @shard shard e store' w w' out hw hstep =>
    have hset : Past { t with store := store', shards := t.shards.set shard w' } n := by
      refine ⟨fun shard' v hv => ?_, h.mark⟩
      rcases get?_set_eq_some.1 hv with ⟨-, rfl⟩ | ⟨-, hv⟩
      · rw [lastCommitted_step hstep]
        exact (h.clock shard w hw).trans (Store.le_foldl_max _ _).1
      · exact h.clock shard' v hv
    exact hset.foldl_observeTimestamp out
  | fanResult => exact h.observeTimestamp

theorem past_of_mem_publishCalls {p : ShardedTransactor V} (hp : (ts, p) ∈ t.publishCalls e)
    (hs : t.step e = some t') : p.Past ts ∧ t'.Past ts := by
  cases e with
  | shard shard e =>
    obtain ⟨w, hw, hs⟩ := bind_eq_some_iff.1 hs
    obtain ⟨⟨store', w', out⟩, hstep, rfl⟩ := map_eq_some_iff.1 hs
    simp only [publishCalls, hw, bind_some, hstep] at hp
    obtain ⟨hmem, hpast⟩ := past_of_mem_announcements hp
    exact ⟨hpast, past_foldl_observeTimestamp hmem⟩
  | _ => cases hp

/-! ## The calls of a step end where the step does -/

/-- The clocks after `observeTimestamp(ts)`. -/
def raise (c : (Nat → Option Nat) × Nat) (ts : Nat) : (Nat → Option Nat) × Nat :=
  (fun shard => (c.1 shard).map (max · ts), max c.2 ts)

theorem foldl_raise (c : (Nat → Option Nat) × Nat) (out : List Nat) :
    out.foldl raise c = (fun shard => (c.1 shard).map (out.foldl max ·), out.foldl max c.2) := by
  induction out generalizing c with
  | nil => simp
  | cons ts out ih => simp [ih, raise, Function.comp_def]

theorem clocks_observeTimestamp (t : ShardedTransactor V) (ts : Nat) :
    (t.observeTimestamp ts).clocks = raise t.clocks ts := by
  have hmark : (t.observeTimestamp ts).observedHighWater = max t.observedHighWater ts := by
    show (if t.observedHighWater < ts then ts else t.observedHighWater) = _
    split <;> omega
  rw [clocks, hmark, ShardedTransactor.observeTimestamp]
  simp [raise, clocks, get?_mapValues, Function.comp_def]

theorem clocks_announce (t : ShardedTransactor V) (shard ts : Nat) :
    (t.announce shard ts).clocks = raise t.clocks ts := by
  unfold announce
  split
  · rename_i w hw
    rw [clocks_observeTimestamp]
    refine Prod.ext (funext fun shard' => ?_) rfl
    simp only [raise, clocks, get?_set]
    split
    · rename_i heq
      subst heq
      simp [hw]
    · rfl
  · exact clocks_observeTimestamp t ts

theorem getLast?_announcements (t : ShardedTransactor V) (shard : Nat) (out : List Nat) :
    ((t.announcements shard out).getLast?.map Prod.snd).getD t =
    out.foldl (announce · shard) t := by
  induction out generalizing t with
  | nil => rfl
  | cons ts out ih =>
    rw [announcements, getLast?_cons, foldl_cons, ← ih]
    cases (announcements (t.announce shard ts) shard out).getLast? <;> rfl

theorem foldl_max_foldl_max (out : List Nat) (n : Nat) :
    out.foldl max (out.foldl max n) = out.foldl max n :=
  le_antisymm (Store.foldl_max_le le_rfl fun ts hts => (Store.le_foldl_max out n).2 ts hts)
    (Store.le_foldl_max out _).1

/-- The clocks at the last call are those after the step. -/
theorem clocks_shardStep {shard : Nat} {e : Event V} (hs : t.shardStep shard e = some t') :
    (((t.publishCalls (.shard shard e)).getLast?.map Prod.snd).getD t).clocks = t'.clocks := by
  obtain ⟨w, hw, hs⟩ := bind_eq_some_iff.1 hs
  obtain ⟨⟨store', w', out⟩, hstep, rfl⟩ := map_eq_some_iff.1 hs
  have hcalls : t.publishCalls (.shard shard e) = t.announcements shard out := by
    simp [publishCalls, hw, hstep]
  rw [hcalls, getLast?_announcements, ← foldl_hom clocks fun t ts =>
    (clocks_announce t shard ts).symm,
    ← foldl_hom clocks fun t ts => (clocks_observeTimestamp t ts).symm, foldl_raise, foldl_raise]
  refine Prod.ext (funext fun shard' => ?_) rfl
  simp only [clocks, get?_set]
  split
  · rename_i heq
    subst heq
    simp [hw, lastCommitted_step hstep, foldl_max_foldl_max]
  · rfl

end ShardedTransactor

open ShardedTransactor in
/-- From any state, over any number of shards, with group commit on or off and whatever seed is
configured: whoever is called about the commit `ts` finds every clock at or past `ts`. So are all
clocks after any further steps, those of shards created meanwhile included. -/
theorem published_below_every_clock {e : ShardedEvent V} {after : List (ShardedEvent V)}
    {t t' t'' p : ShardedTransactor V} {ts : Nat} (hstep : t.step e = some t')
    (hcall : (ts, p) ∈ t.publishCalls e) (hafter : run ShardedTransactor.step t' after = some t'') :
    (∀ shard w, p.shards.get? shard = some w → ts ≤ w.oracle.lastCommitted) ∧
      ∀ shard w, t''.shards.get? shard = some w → ts ≤ w.oracle.lastCommitted := by
  obtain ⟨hp, ht'⟩ := past_of_mem_publishCalls hcall hstep
  have ht'' : t''.Past ts :=
    run_invariant (I := fun s => s.Past ts) (fun _ _ _ h hs => h.step hs) ht' hafter
  exact ⟨hp.clock, ht''.clock⟩

open WriterExample ShardedExample ShardedTransactor in
/-- Shard 0 commits at 1 while shard 1 is there, and shard 2 is created afterwards. -/
theorem published_below_every_clock_created :
    let before := create 0 ++ create 1 ++
      onShard 0 (readModifyWrite 0 doc 10 ++ [.acquire 0, .prevAnswered, .allocate [1], .land])
    ∃ t t' t'' p : ShardedTransactor Nat,
      run ShardedTransactor.step (new emptyStore false none) before = some t ∧
      t.step (.shard 0 .resolve) = some t' ∧ (1, p) ∈ t.publishCalls (.shard 0 .resolve) ∧
      run ShardedTransactor.step t' (create 2) = some t'' ∧ t''.shards.size = 3 ∧
      (∀ shard w, p.shards.get? shard = some w → 1 ≤ w.oracle.lastCommitted) ∧
      ∀ shard w, t''.shards.get? shard = some w → 1 ≤ w.oracle.lastCommitted := by
  intro before
  obtain ⟨t, ht, ⟨⟨ts, p⟩, hp, rfl⟩, t', ht', t'', ht'', hsize⟩ :
      ∃ t, run ShardedTransactor.step (new emptyStore false none) before = some t ∧
        (∃ p ∈ t.publishCalls (.shard 0 .resolve), p.1 = 1) ∧
        ∃ t', t.step (.shard 0 .resolve) = some t' ∧
          ∃ t'', run ShardedTransactor.step t' (create 2) = some t'' ∧ t''.shards.size = 3 := by
    decide +kernel
  exact ⟨t, t', t'', p, ht, ht', hp, ht'', hsize, published_below_every_clock ht' hp ht''⟩

end Helipod
