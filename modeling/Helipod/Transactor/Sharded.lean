import Helipod.Transactor.Refinement

/-!
# The sharded transactor

Model of `ShardedTransactor` (`transactor/src/sharded-transactor.ts`): shard
writers created on first use, one store, and every published timestamp fanned
out to the clocks of all shards.

The store draws timestamps in increasing order and lands each batch between
the call and its resolution, in any order across shards. So a shard can be
told about timestamp 2 of another shard while its own commit has drawn 1 and
not landed, and a transaction that then takes snapshot 2 neither reads that
commit nor is validated against it.

Results: `sharded_no_missed_commit`, `sharded_misses_commit`.
-/

namespace Helipod

open OrderedMap List Option

variable {V : Type}

/-! ## Model -/

structure ShardedTransactor (V : Type) where
  store : Store V
  groupCommit : Bool
  /-- `options.seedTs`. -/
  seedTs : Option Nat
  shards : OrderedMap Nat (ShardWriter V)
  /-- The shards being created, with the seed once it is known. -/
  creating : OrderedMap Nat (Option Nat)
  observedHighWater : Nat
  deriving DecidableEq

inductive ShardedEvent (V : Type) where
  /-- First use of a shard: `createShard` starts. -/
  | request (shard : Nat)
  /-- `docStore.maxTimestamp()` answers. -/
  | seedAnswered (shard : Nat)
  /-- `docStore.maxTimestamp()` throws, and the next use starts over. -/
  | createFailed (shard : Nat)
  | created (shard : Nat)
  | shard (shard : Nat) (event : Event V)
  /-- `runInTransaction` of the transactor resumes after call `call` has ended. -/
  | fanResult (shard : Nat) (call : Nat)

namespace ShardedTransactor

@[simp] def new (store : Store V) (groupCommit : Bool) (seedTs : Option Nat) :
    ShardedTransactor V where
  store := store
  groupCommit := groupCommit
  seedTs := seedTs
  shards := .empty
  creating := .empty
  observedHighWater := 0

/-- Fan a timestamp to every shard clock, and remember it for the shards to come. -/
def observeTimestamp (t : ShardedTransactor V) (ts : Nat) : ShardedTransactor V :=
  { t with
    observedHighWater := if t.observedHighWater < ts then ts else t.observedHighWater
    shards := t.shards.mapValues fun w => { w with oracle := w.oracle.observeTimestamp ts } }

def request (t : ShardedTransactor V) (shard : Nat) : Option (ShardedTransactor V) :=
  if t.shards.has shard || t.creating.has shard then none
  else some { t with creating := t.creating.set shard t.seedTs }

def seedAnswered (t : ShardedTransactor V) (shard : Nat) : Option (ShardedTransactor V) :=
  match t.creating.get? shard with
  | some none => some { t with creating := t.creating.set shard (some t.store.maxTimestamp) }
  | _ => none

def created (t : ShardedTransactor V) (shard : Nat) : Option (ShardedTransactor V) :=
  match t.creating.get? shard with
  | some (some storeSeed) =>
    let seed := if t.observedHighWater < storeSeed then storeSeed else t.observedHighWater
    some { t with
      creating := t.creating.erase shard
      shards := t.shards.set shard (.new shard t.groupCommit (.new seed)) }
  | _ => none

def shardStep (t : ShardedTransactor V) (shard : Nat) (e : Event V) :
    Option (ShardedTransactor V) :=
  (t.shards.get? shard).bind fun w => (w.step t.store e).map fun (store, w, published) =>
    published.foldl observeTimestamp { t with store, shards := t.shards.set shard w }

def fanResult (t : ShardedTransactor V) (shard call : Nat) : Option (ShardedTransactor V) :=
  (t.shards.get? shard).bind fun w => (w.calls[call]?).bind fun c =>
    match c.phase with
    | .done outcome => outcome.commitTs.map t.observeTimestamp
    | _ => none

def step (t : ShardedTransactor V) : ShardedEvent V → Option (ShardedTransactor V)
  | .request shard => t.request shard
  | .seedAnswered shard => t.seedAnswered shard
  | .createFailed shard =>
    if t.creating.get? shard = some none then some { t with creating := t.creating.erase shard }
    else none
  | .created shard => t.created shard
  | .shard shard e => t.shardStep shard e
  | .fanResult shard call => t.fanResult shard call

/-- The steps of the transactor, with their guards. -/
inductive Acts (t : ShardedTransactor V) : ShardedEvent V → ShardedTransactor V → Prop
  | request {shard : Nat} (hshard : t.shards.has shard = false)
      (hcreating : t.creating.has shard = false) :
      Acts t (.request shard) { t with creating := t.creating.set shard t.seedTs }
  | seedAnswered {shard : Nat} (hc : t.creating.get? shard = some none) :
      Acts t (.seedAnswered shard)
      { t with creating := t.creating.set shard (some t.store.maxTimestamp) }
  | createFailed {shard : Nat} (hc : t.creating.get? shard = some none) :
      Acts t (.createFailed shard) { t with creating := t.creating.erase shard }
  | created {shard storeSeed : Nat} (hc : t.creating.get? shard = some (some storeSeed)) :
      Acts t (.created shard) { t with
        creating := t.creating.erase shard
        shards := t.shards.set shard (.new shard t.groupCommit (.new
          (if t.observedHighWater < storeSeed then storeSeed else t.observedHighWater))) }
  | shard {shard : Nat} {e : Event V} {store : Store V} {w w' : ShardWriter V} {out : List Nat}
      (hw : t.shards.get? shard = some w) (hstep : w.step t.store e = some (store, w', out)) :
      Acts t (.shard shard e)
        (out.foldl observeTimestamp { t with store, shards := t.shards.set shard w' })
  | fanResult {shard call ts : Nat} {w : ShardWriter V} {c : Call V} {outcome : Outcome}
      (hw : t.shards.get? shard = some w) (hc : w.calls[call]? = some c)
      (hdone : c.phase = .done outcome) (hts : outcome.commitTs = some ts) :
      Acts t (.fanResult shard call) (t.observeTimestamp ts)

theorem acts_of_step {t t' : ShardedTransactor V} {e : ShardedEvent V} (hs : t.step e = some t') :
    Acts t e t' := by
  cases e with
  | request shard =>
    simp only [step, request] at hs
    split at hs <;> cases hs
    rename_i hno
    simp only [Bool.or_eq_true, not_or, Bool.not_eq_true] at hno
    exact .request hno.1 hno.2
  | seedAnswered shard =>
    simp only [step, seedAnswered] at hs
    split at hs <;> cases hs
    exact .seedAnswered ‹_›
  | createFailed shard =>
    simp only [step] at hs
    split at hs <;> cases hs
    exact .createFailed ‹_›
  | created shard =>
    simp only [step, created] at hs
    split at hs <;> cases hs
    exact .created ‹_›
  | shard shard e =>
    obtain ⟨w, hw, hs⟩ := bind_eq_some_iff.1 hs
    obtain ⟨⟨store', w', out⟩, hstep, rfl⟩ := map_eq_some_iff.1 hs
    exact .shard hw hstep
  | fanResult shard call =>
    obtain ⟨w, hw, hs⟩ := bind_eq_some_iff.1 hs
    obtain ⟨c, hc, hs⟩ := bind_eq_some_iff.1 hs
    split at hs
    · obtain ⟨ts, hts, rfl⟩ := map_eq_some_iff.1 hs
      exact .fanResult hw hc ‹_› hts
    · cases hs

/-- The condition on a step: whoever takes a snapshot does so while no timestamp at or
below its shard's clock is drawn and not landed. -/
def SafeStep (t : ShardedTransactor V) : ShardedEvent V → Prop
  | .shard shard e => ShardWriter.takesSnapshot e = true →
      ∀ w ∈ t.shards.get? shard, w.SnapshotSafe
  | _ => True

instance (t : ShardedTransactor V) (e : ShardedEvent V) : Decidable (t.SafeStep e) := by
  unfold SafeStep
  split <;> infer_instance

end ShardedTransactor

/-- At `key`, transaction `x` has read, inside its validated read set, a state without the
older commit `d` of its shard that wrote that key. -/
def MissedAt (key : Bytes) (x d : Commit V) : Prop :=
  d.shard = x.shard ∧ d.ts < x.ts ∧
    ∃ o ∈ x.unit.ctx.observed, keyInRange key o.range = true ∧
      (o.range.keyspace, key) ∈ x.unit.ctx.validatedReads.keys ∧
      (o.range.keyspace, key) ∈ d.unit.ctx.writeRanges.keys ∧
      ¬ (d.ts ≤ x.unit.ctx.snapshotTs ∧ d.ts ∈ o.landed)

instance (key : Bytes) (x d : Commit V) : Decidable (MissedAt key x d) :=
  inferInstanceAs (Decidable (_ ∧ _ ∧ ∃ o ∈ x.unit.ctx.observed, _ ∧ _ ∧ _ ∧ _))

namespace ShardedTransactor

/-! ## Invariant -/

structure Inv (t : ShardedTransactor V) : Prop where
  seedTs : t.seedTs = none
  highWater : t.observedHighWater ≤ t.store.allocated
  shardId : ∀ shard w, t.shards.get? shard = some w → w.shardId = shard
  writer : ∀ shard w, t.shards.get? shard = some w → w.Inv False t.store
  results : ∀ shard w, t.shards.get? shard = some w →
    ShardWriter.Inv.ResultsBelow t.store.allocated w.calls
  /-- The commits of a shard without a writer are past ones. -/
  past : ∀ d ∈ t.store.log, t.shards.get? d.shard = none →
    d.ts ≤ t.store.allocated ∧ d.unit.ctx.snapshotTs < d.ts ∧
      d.unit.ctx.validatedReads = [] ∧ d.unit.ctx.observed = []
  creating : ∀ shard, t.creating.has shard = true → t.shards.get? shard = none
  /-- A seed is at or above everything its shard has in the store. -/
  seed : ∀ shard seed, t.creating.get? shard = some (some seed) → seed ≤ t.store.allocated ∧
    ∀ d ∈ t.store.log, d.shard = shard → d.ts ≤ seed

namespace Inv

variable {t : ShardedTransactor V} {shard : Nat}

theorem init {store : Store V} (hstore : store.Restored) (group : Bool) :
    Inv (new store group none) where
  seedTs := rfl
  highWater := Nat.zero_le _
  shardId := fun _ _ hw => by simp [new] at hw
  writer := fun _ _ hw => by simp [new] at hw
  results := fun _ _ hw => by simp [new] at hw
  past := fun d hd _ => ⟨hstore.le d hd, hstore.lt d hd, hstore.past d hd⟩
  creating := fun _ hc => by simp [new] at hc
  seed := fun _ _ hc => by simp [new] at hc

variable (h : Inv t)
include h

theorem observeTimestamp {ts : Nat} (hts : ts ≤ t.store.allocated) :
    Inv (t.observeTimestamp ts) := by
  have hget : ∀ {shard w}, (t.observeTimestamp ts).shards.get? shard = some w →
      ∃ w₀, t.shards.get? shard = some w₀ ∧
        w = { w₀ with oracle := w₀.oracle.observeTimestamp ts } := by
    intro shard w hw
    rw [ShardedTransactor.observeTimestamp, get?_mapValues] at hw
    obtain ⟨w₀, hw₀, rfl⟩ := map_eq_some_iff.1 hw
    exact ⟨w₀, hw₀, rfl⟩
  have hnone : ∀ {shard}, (t.observeTimestamp ts).shards.get? shard = none ↔
      t.shards.get? shard = none := by
    intro shard
    rw [ShardedTransactor.observeTimestamp, get?_mapValues, map_eq_none_iff]
  exact
    { seedTs := h.seedTs
      highWater := by
        show (if t.observedHighWater < ts then ts else t.observedHighWater) ≤ _
        split
        · exact hts
        · exact h.highWater
      shardId := by
        intro shard w hw
        obtain ⟨w₀, hw₀, rfl⟩ := hget hw
        exact h.shardId shard w₀ hw₀
      writer := by
        intro shard w hw
        obtain ⟨w₀, hw₀, rfl⟩ := hget hw
        exact (h.writer shard w₀ hw₀).observe hts
      results := by
        intro shard w hw
        obtain ⟨w₀, hw₀, rfl⟩ := hget hw
        exact h.results shard w₀ hw₀
      past := fun d hd hn => h.past d hd (hnone.1 hn)
      creating := fun shard hc => hnone.2 (h.creating shard hc)
      seed := h.seed }

theorem foldl_observeTimestamp {out : List Nat} (hout : ∀ ts ∈ out, ts ≤ t.store.allocated) :
    Inv (out.foldl ShardedTransactor.observeTimestamp t) := by
  induction out generalizing t with
  | nil => exact h
  | cons ts out ih =>
    exact ih (h.observeTimestamp (hout ts mem_cons_self)) fun ts' hts' =>
      hout ts' (mem_cons_of_mem _ hts')

theorem request (hshard : t.shards.has shard = false) :
    Inv { t with creating := t.creating.set shard t.seedTs } := by
  refine { h with creating := ?_, seed := ?_ }
  · intro shard' hc
    rw [has_set, Bool.or_eq_true, decide_eq_true_eq] at hc
    rcases hc with rfl | hc
    · simpa using hshard
    · exact h.creating shard' hc
  · intro shard' seed hc
    rcases get?_set_eq_some.1 hc with ⟨-, hseed⟩ | ⟨-, hc⟩
    · rw [h.seedTs] at hseed
      cases hseed
    · exact h.seed shard' seed hc

theorem log_le {d : Commit V} (hd : d ∈ t.store.log) : d.ts ≤ t.store.allocated := by
  cases hw : t.shards.get? d.shard with
  | none => exact (h.past d hd hw).1
  | some w =>
    exact (h.writer _ w hw).occ.landed_le (d.ts, d.unit.ctx.abs)
      ⟨d, hd, (h.shardId _ w hw).symm, rfl⟩

theorem seedAnswered (hc : t.creating.get? shard = some none) :
    Inv { t with creating := t.creating.set shard (some t.store.maxTimestamp) } := by
  refine { h with creating := ?_, seed := ?_ }
  · intro shard' hc'
    rw [has_set, Bool.or_eq_true, decide_eq_true_eq] at hc'
    rcases hc' with rfl | hc'
    · exact h.creating shard (by simp [hc])
    · exact h.creating shard' hc'
  · intro shard' seed hc'
    rcases get?_set_eq_some.1 hc' with ⟨-, heq⟩ | ⟨-, hc'⟩
    · cases heq
      exact ⟨Store.maxTimestamp_le fun d hd => h.log_le hd, fun d hd _ => Store.le_maxTimestamp hd⟩
    · exact h.seed shard' seed hc'

theorem eraseCreating (shard : Nat) : Inv { t with creating := t.creating.erase shard } := by
  refine { h with
    creating := fun shard' hc => ?_
    seed := fun shard' seed hc => h.seed shard' seed (get?_erase_eq_some.1 hc).2 }
  obtain ⟨x, hx⟩ := isSome_iff_exists.1 hc
  exact h.creating shard' (by simp [(get?_erase_eq_some.1 hx).2])

theorem created {shard storeSeed : Nat}
    (hc : t.creating.get? shard = some (some storeSeed)) {seed : Nat}
    (hseed : seed = if t.observedHighWater < storeSeed then storeSeed else t.observedHighWater) :
    Inv { t with
      creating := t.creating.erase shard
      shards := t.shards.set shard (.new shard t.groupCommit (.new seed)) } := by
  have hnone : t.shards.get? shard = none := h.creating shard (by simp [hc])
  obtain ⟨hle, hlog⟩ := h.seed shard storeSeed hc
  have hge : storeSeed ≤ seed ∧ seed ≤ t.store.allocated := by
    have := h.highWater
    rw [hseed]
    split <;> omega
  have herase := h.eraseCreating shard
  refine { herase with shardId := ?_, writer := ?_, results := ?_, past := ?_, creating := ?_ }
  · intro shard' w hw
    rcases get?_set_eq_some.1 hw with ⟨rfl, rfl⟩ | ⟨-, hw⟩
    · rfl
    · exact h.shardId shard' w hw
  · intro shard' w hw
    rcases get?_set_eq_some.1 hw with ⟨rfl, rfl⟩ | ⟨-, hw⟩
    · refine ShardWriter.Inv.new hge.2 fun d hd hd' => ⟨(hlog d hd hd').trans hge.1, ?_⟩
      exact (h.past d hd (hd' ▸ hnone)).2
    · exact h.writer shard' w hw
  · intro shard' w hw
    rcases get?_set_eq_some.1 hw with ⟨rfl, rfl⟩ | ⟨-, hw⟩
    · exact fun c hc => absurd hc not_mem_nil
    · exact h.results shard' w hw
  · intro d hd hn
    rw [get?_set] at hn
    split at hn
    · simp at hn
    · exact h.past d hd hn
  · intro shard' hc'
    rw [get?_set]
    split
    · rename_i heq
      subst heq
      rw [OrderedMap.has, get?_erase, if_pos rfl] at hc'
      simp at hc'
    · exact herase.creating shard' hc'

theorem shardStep {e : Event V} {store' : Store V} {w w' : ShardWriter V}
    {out : List Nat} (hsafe : t.SafeStep (.shard shard e)) (hw : t.shards.get? shard = some w)
    (hstep : w.step t.store e = some (store', w', out)) :
    Inv (out.foldl ShardedTransactor.observeTimestamp
      { t with store := store', shards := t.shards.set shard w' }) := by
  have hwinv := h.writer shard w hw
  have hid := h.shardId shard w hw
  obtain ⟨hid', halloc, log, hlog, hown⟩ := ShardWriter.Inv.step_store hstep
  have hnone : ∀ {shard'}, (t.shards.set shard w').get? shard' = none →
      shard' ≠ shard ∧ t.shards.get? shard' = none := by
    intro shard' hn
    rw [get?_set] at hn
    split at hn
    · simp at hn
    · rename_i hne
      exact ⟨Ne.symm hne, hn⟩
  have hmem : ∀ {d : Commit V}, d ∈ store'.log → d.shard ≠ shard → d ∈ t.store.log := by
    intro d hd hne
    rw [hlog] at hd
    rcases mem_append.1 hd with hd | hd
    · exact hd
    · exact absurd ((hown d hd).trans hid) hne
  have hbase : Inv { t with store := store', shards := t.shards.set shard w' } :=
    { seedTs := h.seedTs
      highWater := h.highWater.trans halloc
      shardId := by
        intro shard' v hv
        rcases get?_set_eq_some.1 hv with ⟨rfl, rfl⟩ | ⟨-, hv⟩
        · exact hid'.trans hid
        · exact h.shardId shard' v hv
      writer := by
        intro shard' v hv
        rcases get?_set_eq_some.1 hv with ⟨rfl, rfl⟩ | ⟨hne, hv⟩
        · exact hwinv.step (fun hsnap => hsafe hsnap w hw) hstep
        · refine (h.writer shard' v hv).environment hlog (fun d hd hsh => hne ?_) halloc
          rw [← h.shardId shard' v hv, ← hsh, hown d hd, hid]
      results := by
        intro shard' v hv
        rcases get?_set_eq_some.1 hv with ⟨rfl, rfl⟩ | ⟨-, hv⟩
        · exact hwinv.step_results (h.results shard' w hw) hstep
        · exact fun c hc ts hts => (h.results shard' v hv c hc ts hts).trans halloc
      past := by
        intro d hd hn
        obtain ⟨hne, hn⟩ := hnone hn
        obtain ⟨hle, hrest⟩ := h.past d (hmem hd hne) hn
        exact ⟨hle.trans halloc, hrest⟩
      creating := by
        intro shard' hc
        have hn := h.creating shard' hc
        rw [get?_set]
        split
        · rename_i heq
          subst heq
          rw [hn] at hw
          simp at hw
        · exact hn
      seed := by
        intro shard' seed hc
        obtain ⟨hle, hall⟩ := h.seed shard' seed hc
        refine ⟨hle.trans halloc, fun d hd hsh => hall d (hmem hd ?_) hsh⟩
        rintro rfl
        have hn := h.creating shard' (by simp [hc])
        rw [← hsh, hw] at hn
        simp at hn }
  exact hbase.foldl_observeTimestamp (hwinv.step_out hstep)

theorem step {e : ShardedEvent V} {t' : ShardedTransactor V} (hsafe : t.SafeStep e)
    (hs : t.step e = some t') : Inv t' := by
  cases acts_of_step hs with
  | request hshard => exact h.request hshard
  | seedAnswered hc => exact h.seedAnswered hc
  | createFailed => exact h.eraseCreating _
  | created hc => exact h.created hc rfl
  | shard hw hstep => exact h.shardStep hsafe hw hstep
  | fanResult hw hc hdone hts =>
    refine h.observeTimestamp (h.results _ _ hw _ (mem_of_getElem? hc) _ ?_)
    rw [hdone]
    exact hts

/-- No transaction of the log has missed an older commit of its shard. -/
theorem not_missed {x d : Commit V} (hx : x ∈ t.store.log) (hd : d ∈ t.store.log) :
    ∀ key, ¬ MissedAt key x d := by
  rintro key ⟨hshard, hlt, o, ho, -, hread, hwrite, hmiss⟩
  cases hw : t.shards.get? x.shard with
  | none =>
    -- a past transaction has no reads on record
    rw [(h.past x hx hw).2.2.2] at ho
    exact absurd ho not_mem_nil
  | some w =>
    have hid := h.shardId _ w hw
    obtain ⟨hsnap, hviews⟩ := (h.writer _ w hw).no_missed_commit hx hd hid.symm
      (hshard.trans hid.symm) hlt hread hwrite
    exact hmiss ⟨hsnap, hviews o ho⟩

end Inv

end ShardedTransactor

open ShardedTransactor in
/-- In every run of a transactor without a configured seed, over any number of shards and
with group commit on or off, in which each snapshot is taken while no timestamp at or
below its shard's clock is drawn and not landed: no transaction commits after having
missed an older commit of its shard that wrote what it read. -/
theorem sharded_no_missed_commit {store : Store V} (hstore : store.Restored) (group : Bool)
    {events : List (ShardedEvent V)} {t : ShardedTransactor V}
    (hsafe : Runs.Guarded ShardedTransactor.step SafeStep (new store group none) events)
    (hrun : Runs.run ShardedTransactor.step (new store group none) events = some t) :
    ∀ x ∈ t.store.log, ∀ d ∈ t.store.log, ∀ key, ¬ MissedAt key x d := by
  have hinv : Inv t := Runs.run_invariant_of_guarded
    (fun s e s' h hg hs => Inv.step h hg hs) (Inv.init hstore group) hsafe hrun
  exact fun x hx d hd => hinv.not_missed hx hd

/-! ## A lost update -/

namespace ShardedExample

open WriterExample

/-- Create the writer of a shard. -/
def create (shard : Nat) : List (ShardedEvent Nat) :=
  [.request shard, .seedAnswered shard, .created shard]

def onShard (shard : Nat) (es : List (Event Nat)) : List (ShardedEvent Nat) :=
  es.map (.shard shard)

/-- Shard 0 draws timestamp 1, and shard 1 commits at 2. -/
def inflightBehind : List (ShardedEvent Nat) :=
  create 0 ++ create 1 ++
  onShard 0 (readModifyWrite 0 doc 10 ++ [.acquire 0, .prevAnswered, .allocate [1]]) ++
  onShard 1 (readModifyWrite 0 other 20 ++
    [.acquire 0, .prevAnswered, .allocate [2], .land, .resolve])

/-- A second transaction of shard 0 takes snapshot 2 and reads the document before
timestamp 1 lands. -/
def lostUpdate : List (ShardedEvent Nat) :=
  inflightBehind ++ onShard 0 (readModifyWrite 1 doc 30 ++ [.land, .resolve] ++
    [.acquire 1, .prevAnswered, .allocate [3], .land, .resolve])

/-- The same transactions, with timestamp 1 landing before the second one starts. -/
def keptUpdate : List (ShardedEvent Nat) :=
  inflightBehind ++ onShard 0 ([.land] ++ readModifyWrite 1 doc 30 ++ [.resolve] ++
    [.acquire 1, .prevAnswered, .allocate [3], .land, .resolve])

theorem emptyStore_restored : emptyStore.Restored :=
  ⟨fun _ hd => absurd hd not_mem_nil, fun _ hd => absurd hd not_mem_nil,
    fun _ hd => absurd hd not_mem_nil⟩

end ShardedExample

open WriterExample ShardedExample ShardedTransactor in
/-- Without the condition an update is lost: the second transaction of shard 0 commits at 3
after reading the document without the commit at 1. -/
theorem sharded_misses_commit : ∃ t,
    Runs.run ShardedTransactor.step (new emptyStore false none) lostUpdate = some t ∧
      ∃ x ∈ t.store.log, ∃ d ∈ t.store.log, ∃ key, MissedAt key x d := by
  refine Runs.exists_some_imp (fun t => ∃ x ∈ t.store.log, ∃ d ∈ t.store.log,
    MissedAt doc.internalId x d)
    (by decide +kernel) fun t _ ⟨x, hx, d, hd, hm⟩ => ⟨x, hx, d, hd, _, hm⟩

open WriterExample ShardedExample ShardedTransactor in
/-- A run that meets the condition, with a commit in flight at a timestamp below the clock. -/
theorem sharded_no_missed_commit_run : ∃ t,
    Runs.Guarded ShardedTransactor.step SafeStep (new emptyStore false none) keptUpdate ∧
      Runs.run ShardedTransactor.step (new emptyStore false none) keptUpdate = some t ∧
      t.store.log.length = 3 ∧ ∀ x ∈ t.store.log, ∀ d ∈ t.store.log, ∀ key, ¬ MissedAt key x d := by
  refine exists_and_left.2 ((and_iff_left_of_imp fun hsafe => ?_).2 (by decide +kernel))
  refine Runs.exists_some_imp (·.store.log.length = 3) (by decide +kernel)
    fun t ht hlen => ⟨hlen, ?_⟩
  exact sharded_no_missed_commit emptyStore_restored false hsafe ht

end Helipod
