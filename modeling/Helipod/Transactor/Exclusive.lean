import Helipod.Transactor.Sharded

/-!
# Exclusive sections of a shard

Model of `tryRunExclusiveOnShard` (`transactor/src/sharded-transactor.ts`) on top of the sharded
transactor: a function that runs under the commit mutex of a shard if that mutex is free right now
and the writer has no staged or flushing batch. Both are looked at without an `await` in between,
and `AsyncMutex` (`transactor/src/async-mutex.ts`) reserves the place in line at once, so the
decision is one step. The function starts in a later one.

`AsyncMutex` counts whoever is in line. The model sees the holder and the queued calls. Whether the
committer is in line already, or a holder that is done still counted, depends on the order of a few
microtasks, and is an input of the step.

Results: `exclusive_section_alone`.
-/

namespace Helipod

open Runs OrderedMap Option

variable {V : Type}

namespace ShardWriter

def hasInFlightWork (w : ShardWriter V) : Bool :=
  w.flushingBatch.isSome || w.pendingBatch.any fun b => 0 < b.units.length

/-- `mutex.isLocked`: someone holds the mutex or is queued for it. -/
def isLocked (w : ShardWriter V) (inLine : Bool) : Bool :=
  w.mutex.isSome || w.calls.any (fun c => c.phase = .queued) || inLine

/-- The steps that start with the mutex being granted. -/
def takesMutex : Event V → Bool
  | .acquire _ | .detach | .publish => true
  | _ => false

end ShardWriter

/-! ## Model -/

/-- Where the function is that was let in: its place in line is reserved, or it runs. -/
inductive Section where
  | reserved
  | running
  deriving DecidableEq, Repr

structure ExclusiveTransactor (V : Type) where
  transactor : ShardedTransactor V
  sections : OrderedMap Nat Section
  deriving DecidableEq

inductive ExclusiveEvent (V : Type) where
  | transactor (event : ShardedEvent V)
  /-- The part of `tryRunExclusiveOnShard` after the shard is there. -/
  | tryRunExclusive (shard : Nat) (inLine : Bool)
  /-- The function starts. -/
  | enter (shard : Nat)
  /-- The promise of the function settles, and the mutex is released. -/
  | settle (shard : Nat)

namespace ExclusiveTransactor

@[simp] def new (t : ShardedTransactor V) : ExclusiveTransactor V := ⟨t, .empty⟩

/-- A step that has to wait for the section of its shard. -/
def waits (s : ExclusiveTransactor V) : ShardedEvent V → Bool
  | .shard shard e => ShardWriter.takesMutex e && s.sections.has shard
  | _ => false

def tryRunExclusive (s : ExclusiveTransactor V) (shard : Nat) (inLine : Bool) :
    Option (ExclusiveTransactor V) :=
  (s.transactor.shards.get? shard).map fun w =>
    if w.hasInFlightWork then s
    else if w.isLocked inLine || s.sections.has shard then s
    else { s with sections := s.sections.set shard .reserved }

def step (s : ExclusiveTransactor V) : ExclusiveEvent V → Option (ExclusiveTransactor V)
  | .transactor e =>
    if s.waits e then none else (s.transactor.step e).map fun t => { s with transactor := t }
  | .tryRunExclusive shard inLine => s.tryRunExclusive shard inLine
  | .enter shard =>
    if s.sections.get? shard = some .reserved then
      some { s with sections := s.sections.set shard .running }
    else none
  | .settle shard =>
    if s.sections.get? shard = some .running then
      some { s with sections := s.sections.erase shard }
    else none

/-- The commits of a shard that have landed. -/
def landedOn (s : ExclusiveTransactor V) (shard : Nat) : List (Commit V) :=
  s.transactor.store.log.filter fun d => d.shard = shard

end ExclusiveTransactor

/-! ## A writer without commits -/

namespace ShardWriter

/-- No commit is between validation and landing, and no batch is staged or flushing. -/
structure Quiet (w : ShardWriter V) : Prop where
  mutex : w.mutex = none
  inFlight : w.hasInFlightWork = false

variable {w w' : ShardWriter V} {store store' : Store V} {e : Event V} {out : List Nat}

theorem Quiet.flushingBatch (h : w.Quiet) : w.flushingBatch = none := by
  have := h.inFlight
  simp only [hasInFlightWork, Bool.or_eq_false_iff] at this
  exact not_isSome_iff_eq_none.1 (by simp [this.1])

theorem Quiet.pendingUnits (h : w.Quiet) : ∀ b ∈ w.pendingBatch, b.units = [] := by
  intro b hb
  have := h.inFlight
  simp only [hasInFlightWork, Bool.or_eq_false_iff, mem_def.1 hb] at this
  simpa using this.2

theorem Quiet.inflight (h : w.Quiet) : w.inflight = [] := by
  have hc : committerUnits w.committer = [] := by
    have := h.flushingBatch
    unfold ShardWriter.flushingBatch at this
    split at this
    · cases this
    · cases this
    · cases hw : w.committer <;> simp_all
  have hp : ShardWriter.pendingUnits w.pendingBatch = [] := by
    cases hb : w.pendingBatch with
    | none => rfl
    | some b => simp [h.pendingUnits b hb]
  rw [ShardWriter.inflight, hc, hp, h.mutex]
  rfl

theorem quiet_of_same (h : w.Quiet)
    (same : (w'.mutex, w'.pendingBatch, w'.committer) = (w.mutex, w.pendingBatch, w.committer)) :
    w'.Quiet := by
  simp only [Prod.mk.injEq] at same
  obtain ⟨hm, hp, hc⟩ := same
  refine ⟨hm.trans h.mutex, ?_⟩
  rw [← h.inFlight]
  simp [hasInFlightWork, ShardWriter.flushingBatch, hp, hc]

/-- A call that is not granted the mutex works on its own. -/
theorem same_callActs {i : Nat} {c : Call V} (hs : CallActs store w i c e w')
    (htakes : takesMutex e = false) :
    (w'.mutex, w'.pendingBatch, w'.committer) = (w.mutex, w.pendingBatch, w.committer) := by
  cases hs with
  | acquire => cases htakes
  | _ => rfl

/-- As long as nobody is granted the mutex, a quiet writer stays quiet and writes nothing. -/
theorem Quiet.step (h : w.Quiet) (htakes : takesMutex e = false)
    (hs : w.step store e = some (store', w', out)) : w'.Quiet ∧ store' = store ∧ out = [] := by
  have hflush : ∀ f, w.committer ≠ .flushing f := by
    intro f hf
    have := h.flushingBatch
    simp [ShardWriter.flushingBatch, hf] at this
  have hfree : ∀ x, w.mutex ≠ some x := fun x hx => by simp [h.mutex] at hx
  cases acts_of_step hs with
  | start maxRetries => exact ⟨quiet_of_same h rfl, rfl, rfl⟩
  | call hi hw => exact ⟨quiet_of_same h (same_callActs hw htakes), rfl, rfl⟩
  | staged hm | prevAnswered hm | allocateOne _ hm | landOne hm | rejectOne hm | resolveOne hm =>
    exact absurd hm (hfree _)
  | allocate _ hf | land hf | reject hf | resolve hf => exact absurd hf (hflush _)
  | stop | detach | publish => cases htakes

end ShardWriter

/-! ## The other shards -/

namespace ShardedTransactor

variable {t t' : ShardedTransactor V} {shard : Nat}

theorem get?_foldl_observeTimestamp (t : ShardedTransactor V) (out : List Nat) :
    (out.foldl observeTimestamp t).store = t.store ∧ ∃ clock : Oracle → Oracle, ∀ shard,
      (out.foldl observeTimestamp t).shards.get? shard =
        (t.shards.get? shard).map fun w => { w with oracle := clock w.oracle } := by
  induction out generalizing t with
  | nil => exact ⟨rfl, id, fun shard => by simp⟩
  | cons ts out ih =>
    obtain ⟨hstore, clock, hget⟩ := ih (t.observeTimestamp ts)
    refine ⟨hstore, fun o => clock (o.observeTimestamp ts), fun shard => ?_⟩
    rw [List.foldl_cons, hget, observeTimestamp, get?_mapValues, map_map]
    rfl

/-- The writer of a shard carries its number. -/
def Numbered (t : ShardedTransactor V) : Prop :=
  ∀ shard w, t.shards.get? shard = some w → w.shardId = shard

theorem Numbered.foldl_observeTimestamp (h : t.Numbered) (out : List Nat) :
    (out.foldl observeTimestamp t).Numbered := by
  intro shard w hw
  obtain ⟨-, clock, hget⟩ := get?_foldl_observeTimestamp t out
  rw [hget] at hw
  obtain ⟨w₀, hw₀, rfl⟩ := map_eq_some_iff.1 hw
  exact h shard w₀ hw₀

variable {w : ShardWriter V}

theorem Numbered.set (h : t.Numbered) (hw : w.shardId = shard) (store : Store V)
    (creating : OrderedMap Nat (Option Nat)) :
    Numbered { t with store, creating, shards := t.shards.set shard w } := by
  intro shard' w' hw'
  rcases get?_set_eq_some.1 hw' with ⟨rfl, rfl⟩ | ⟨-, hold⟩
  · exact hw
  · exact h shard' w' hold

variable {e : ShardedEvent V}

theorem Numbered.step (h : t.Numbered) (hs : t.step e = some t') : t'.Numbered := by
  cases acts_of_step hs with
  | request | seedAnswered | createFailed => exact h
  | created hc => exact h.set (w := .new _ t.groupCommit _) rfl t.store _
  | shard hw hstep =>
    have hid := (ShardWriter.Inv.step_store hstep).1.trans (h _ _ hw)
    exact (h.set hid _ t.creating).foldl_observeTimestamp _
  | @fanResult _ _ ts => exact h.foldl_observeTimestamp [ts]

/-- The shard has a writer, and it is quiet. -/
def QuietOn (t : ShardedTransactor V) (shard : Nat) : Prop :=
  ∃ w, t.shards.get? shard = some w ∧ w.Quiet

theorem QuietOn.foldl_observeTimestamp (h : t.QuietOn shard) (out : List Nat) :
    (out.foldl observeTimestamp t).QuietOn shard := by
  obtain ⟨w, hw, hq⟩ := h
  obtain ⟨-, clock, hget⟩ := get?_foldl_observeTimestamp t out
  refine ⟨{ w with oracle := clock w.oracle }, ?_, ShardWriter.quiet_of_same hq rfl⟩
  rw [hget, hw]
  rfl

theorem QuietOn.set (h : t.QuietOn shard) {shard' : Nat} (hw : shard' = shard → w.Quiet)
    (store : Store V) (creating : OrderedMap Nat (Option Nat)) :
    QuietOn { t with store, creating, shards := t.shards.set shard' w } shard := by
  obtain ⟨v, hv, hq⟩ := h
  rw [QuietOn]
  simp only [get?_set]
  split
  · exact ⟨w, rfl, hw ‹_›⟩
  · exact ⟨v, hv, hq⟩

/-- While nobody is granted the mutex of a quiet shard, none of its rows land. -/
theorem QuietOn.step (h : t.QuietOn shard) (hn : t.Numbered)
    (hfree : ∀ e', e = .shard shard e' → ShardWriter.takesMutex e' = false)
    (hs : t.step e = some t') :
    t'.QuietOn shard ∧ t'.store.log.filter (fun d => d.shard = shard) =
      t.store.log.filter fun d => d.shard = shard := by
  cases acts_of_step hs with
  | request | seedAnswered | createFailed => exact ⟨h, rfl⟩
  | created hc => exact ⟨h.set (fun _ => ⟨rfl, rfl⟩) t.store _, rfl⟩
  | @shard shard' e store' w w' out hw hstep =>
    have hstore := (get?_foldl_observeTimestamp
      { t with store := store', shards := t.shards.set shard' w' } out).1
    by_cases heq : shard' = shard
    · subst heq
      obtain ⟨v, hv, hq⟩ := h
      obtain rfl : w = v := Option.some.inj (hw.symm.trans hv)
      obtain ⟨hq', rfl, -⟩ := hq.step (hfree e rfl) hstep
      refine ⟨(QuietOn.set ⟨w, hw, hq⟩ (fun _ => hq') t.store t.creating).foldl_observeTimestamp
        out, ?_⟩
      exact congrArg (fun st : Store V => st.log.filter fun d => d.shard = shard') hstore
    · refine ⟨(h.set (fun h => absurd h heq) store' t.creating).foldl_observeTimestamp out, ?_⟩
      obtain ⟨-, -, log, hlog, hown⟩ := ShardWriter.Inv.step_store hstep
      have hnone : log.filter (fun d => d.shard = shard) = [] := by
        refine List.filter_eq_nil_iff.2 fun d hd => ?_
        rw [hown d hd, hn shard' w hw]
        simpa using heq
      refine (congrArg (fun st : Store V => st.log.filter fun d => d.shard = shard) hstore).trans ?_
      simp [hlog, hnone]
  | @fanResult _ _ ts => exact ⟨h.foldl_observeTimestamp [ts], rfl⟩

end ShardedTransactor

/-! ## Sections -/

namespace ExclusiveTransactor

variable {s s' : ExclusiveTransactor V} {shard : Nat}

structure Inv (s : ExclusiveTransactor V) : Prop where
  numbered : s.transactor.Numbered
  alone : ∀ shard, s.sections.has shard = true → s.transactor.QuietOn shard

theorem Inv.new (store : Store V) (group : Bool) (seedTs : Option Nat) :
    Inv (ExclusiveTransactor.new (.new store group seedTs)) where
  numbered := fun _ _ hw => by simp at hw
  alone := fun _ h => by simp at h

/-- What waits for a section is what would take its mutex. -/
theorem takesMutex_of_not_waits (hwaits : s.waits e = false) (hsec : s.sections.has shard = true) :
    ∀ e', e = .shard shard e' → ShardWriter.takesMutex e' = false := by
  rintro e' rfl
  simpa [waits, hsec, -OrderedMap.has] using hwaits

theorem tryRunExclusive_eq {inLine : Bool} (hs : s.tryRunExclusive shard inLine = some s') :
    s' = s ∨ s.transactor.QuietOn shard ∧
      s' = { s with sections := s.sections.set shard .reserved } := by
  obtain ⟨w, hw, rfl⟩ := map_eq_some_iff.1 hs
  split
  · exact .inl rfl
  · rename_i hwork
    split
    · exact .inl rfl
    · rename_i hlocked
      simp only [ShardWriter.isLocked, Bool.or_eq_true, not_or] at hlocked
      refine .inr ⟨⟨w, hw, ?_, by simpa using hwork⟩, rfl⟩
      exact not_isSome_iff_eq_none.1 hlocked.1.1.1

theorem Inv.step (h : s.Inv) {e : ExclusiveEvent V} (hs : s.step e = some s') : s'.Inv := by
  cases e with
  | transactor e =>
    simp only [ExclusiveTransactor.step] at hs
    split at hs
    · cases hs
    · rename_i hwaits
      obtain ⟨t, ht, rfl⟩ := map_eq_some_iff.1 hs
      refine ⟨h.numbered.step ht, fun shard hsec => ?_⟩
      have hfree := takesMutex_of_not_waits (Bool.eq_false_of_not_eq_true hwaits) hsec
      exact ((h.alone shard hsec).step h.numbered hfree ht).1
  | tryRunExclusive shard inLine =>
    rcases tryRunExclusive_eq hs with rfl | ⟨hq, rfl⟩
    · exact h
    · refine ⟨h.numbered, fun shard' hsec => ?_⟩
      rw [has_set, Bool.or_eq_true, decide_eq_true_eq] at hsec
      rcases hsec with rfl | hsec
      · exact hq
      · exact h.alone shard' hsec
  | enter shard =>
    simp only [ExclusiveTransactor.step] at hs
    split at hs <;> cases hs
    rename_i hsec
    refine ⟨h.numbered, fun shard' hsec' => ?_⟩
    rw [has_set, Bool.or_eq_true, decide_eq_true_eq] at hsec'
    rcases hsec' with rfl | hsec'
    · exact h.alone shard (by simp [hsec])
    · exact h.alone shard' hsec'
  | settle shard =>
    simp only [ExclusiveTransactor.step] at hs
    split at hs <;> cases hs
    refine ⟨h.numbered, fun shard' hsec => h.alone shard' ?_⟩
    rw [OrderedMap.has, get?_erase] at hsec
    split at hsec
    · cases hsec
    · exact hsec

/-- A section ends by being settled, and until then none of the rows of its shard land. -/
theorem Inv.section_step (h : s.Inv) {e : ExclusiveEvent V}
    (hsec : s.sections.has shard = true) (hne : e ≠ .settle shard) (hs : s.step e = some s') :
    s'.sections.has shard = true ∧ s'.landedOn shard = s.landedOn shard := by
  cases e with
  | transactor e =>
    simp only [ExclusiveTransactor.step] at hs
    split at hs
    · cases hs
    · rename_i hwaits
      obtain ⟨t, ht, rfl⟩ := map_eq_some_iff.1 hs
      have hfree := takesMutex_of_not_waits (Bool.eq_false_of_not_eq_true hwaits) hsec
      exact ⟨hsec, ((h.alone shard hsec).step h.numbered hfree ht).2⟩
  | tryRunExclusive shard' inLine =>
    rcases tryRunExclusive_eq hs with rfl | ⟨-, rfl⟩
    · exact ⟨hsec, rfl⟩
    · exact ⟨by rw [has_set, hsec, Bool.or_true], rfl⟩
  | enter shard' =>
    simp only [ExclusiveTransactor.step] at hs
    split at hs <;> cases hs
    exact ⟨by rw [has_set, hsec, Bool.or_true], rfl⟩
  | settle shard' =>
    simp only [ExclusiveTransactor.step] at hs
    split at hs <;> cases hs
    have hne' : shard' ≠ shard := fun heq => hne (by rw [heq])
    exact ⟨by rw [has_erase_of_ne _ hne', hsec], rfl⟩

theorem Inv.section_run (h : s.Inv) {more : List (ExclusiveEvent V)}
    (hsec : s.sections.has shard = true) (hmore : .settle shard ∉ more)
    (hrun : run ExclusiveTransactor.step s more = some s') :
    s'.sections.has shard = true ∧ s'.landedOn shard = s.landedOn shard := by
  induction more generalizing s with
  | nil =>
    cases hrun
    exact ⟨hsec, rfl⟩
  | cons e more ih =>
    obtain ⟨m, hm, hrun⟩ := run_cons_eq_some.1 hrun
    have hne : e ≠ .settle shard := fun heq => hmore (heq ▸ List.mem_cons_self)
    obtain ⟨hsec', hlanded⟩ := h.section_step hsec hne hm
    obtain ⟨hsec'', hlanded'⟩ :=
      ih (h.step hm) hsec' (fun hin => hmore (List.mem_cons_of_mem _ hin)) hrun
    exact ⟨hsec'', hlanded'.trans hlanded⟩

theorem step_eq_none_of_section (hsec : s.sections.has shard = true) {e : Event V}
    (he : ShardWriter.takesMutex e = true) : s.step (.transactor (.shard shard e)) = none := by
  simp [ExclusiveTransactor.step, waits, he, hsec, -OrderedMap.has]

theorem refuses_of_busy {inLine : Bool} (hw : s.transactor.shards.get? shard = some w)
    (hbusy : ¬ w.Quiet) : s.step (.tryRunExclusive shard inLine) = some s := by
  have hsome : ∃ s', s.tryRunExclusive shard inLine = some s' := by simp [tryRunExclusive, hw]
  obtain ⟨s', hs'⟩ := hsome
  rcases tryRunExclusive_eq hs' with rfl | ⟨⟨w', hw', hq⟩, -⟩
  · exact hs'
  · obtain rfl : w = w' := Option.some.inj (hw.symm.trans hw')
    exact absurd hq hbusy

end ExclusiveTransactor

open ExclusiveTransactor in
/-- In every run, over any store, number of shards and interleaving, with group commit on or off:
1. while a function has been let in on a shard, the mutex of its writer is not held by a commit, no
   batch is staged or flushing, and nothing is validated and unpublished;
2. a shard with a held mutex, a flushing batch or a staged unit refuses: the call changes nothing;
3. until the function has settled, no commit and no committer of the shard is granted the mutex, and
   the landed commits of the shard stay what they are. -/
theorem exclusive_section_alone {store : Store V} {group : Bool} {seedTs : Option Nat}
    {events : List (ExclusiveEvent V)} {s : ExclusiveTransactor V}
    (hrun : run ExclusiveTransactor.step (new (.new store group seedTs)) events = some s) :
    (∀ shard, s.sections.has shard = true → ∃ w, s.transactor.shards.get? shard = some w ∧
      w.mutex = none ∧ w.flushingBatch = none ∧ (∀ b ∈ w.pendingBatch, b.units = []) ∧
      w.inflight = []) ∧
    (∀ shard w inLine, s.transactor.shards.get? shard = some w →
      (w.mutex ≠ none ∨ w.flushingBatch ≠ none ∨ ∃ b ∈ w.pendingBatch, b.units ≠ []) →
      s.step (.tryRunExclusive shard inLine) = some s) ∧
    ∀ shard, s.sections.has shard = true → ∀ more s', .settle shard ∉ more →
      run ExclusiveTransactor.step s more = some s' →
      (∀ e, ShardWriter.takesMutex e = true → s'.step (.transactor (.shard shard e)) = none) ∧
      s'.landedOn shard = s.landedOn shard := by
  have hinv : s.Inv :=
    run_invariant (I := Inv) (fun _ _ _ h hs => h.step hs) (.new store group seedTs) hrun
  refine ⟨fun shard hsec => ?_, fun shard w inLine hw hbusy => ?_,
    fun shard hsec more s' hmore hr => ?_⟩
  · obtain ⟨w, hw, hq⟩ := hinv.alone shard hsec
    exact ⟨w, hw, hq.mutex, hq.flushingBatch, hq.pendingUnits, hq.inflight⟩
  · refine refuses_of_busy hw fun hq => ?_
    rcases hbusy with hm | hf | ⟨b, hb, hu⟩
    · exact hm hq.mutex
    · exact hf hq.flushingBatch
    · exact hu (hq.pendingUnits b hb)
  · obtain ⟨hsec', hlanded⟩ := hinv.section_run hsec hmore hr
    exact ⟨fun e he => step_eq_none_of_section hsec' he, hlanded⟩

open WriterExample ShardedExample ExclusiveTransactor in
/-- With group commit on, a function is let in after a commit of the shard has been published, and
a second transaction asks for the mutex while it runs. -/
theorem exclusive_section_alone_running : let events : List (ExclusiveEvent Nat) :=
      (create 0 ++ onShard 0 (readModifyWrite 0 doc 10 ++ [.acquire 0, .prevAnswered, .detach,
        .allocate [1], .land, .resolve, .publish])).map .transactor ++
      [.tryRunExclusive 0 false, .enter 0] ++
      (onShard 0 (readModifyWrite 1 doc 20)).map .transactor
    ∃ s, run ExclusiveTransactor.step (new (.new emptyStore true none)) events = some s ∧
      s.sections.get? 0 = some .running ∧
      (∃ w, s.transactor.shards.get? 0 = some w ∧ w.mutex = none ∧ w.flushingBatch = none ∧
        (∀ b ∈ w.pendingBatch, b.units = []) ∧ w.inflight = []) ∧
      ∀ more s', .settle 0 ∉ more → run ExclusiveTransactor.step s more = some s' →
        (∀ e, ShardWriter.takesMutex e = true → s'.step (.transactor (.shard 0 e)) = none) ∧
        s'.landedOn 0 = s.landedOn 0 := by
  refine exists_some_imp (fun s => s.sections.get? 0 = some .running) (by decide +kernel)
    fun s hrun hsec => ?_
  have hhas : s.sections.has 0 = true := by simp [hsec]
  obtain ⟨halone, -, hwait⟩ := exclusive_section_alone hrun
  exact ⟨hsec, halone 0 hhas, hwait 0 hhas⟩

end Helipod
