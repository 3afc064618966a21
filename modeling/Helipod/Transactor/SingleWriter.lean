import Helipod.Transactor.Batches

/-!
# One writer that owns its store

Model of `SingleWriterTransactor` (`transactor/src/single-writer-transactor.ts`):
one `ShardWriter` on a store nobody else writes to, with a clock nobody else
moves. Snapshots are then always safe, on both commit paths.

Results: `single_commit_serializable`, `group_commit_serializable`.
-/

namespace Helipod

open Store

variable {V : Type}

/-! ## Model -/

structure SingleWriterTransactor (V : Type) where
  store : Store V
  writer : ShardWriter V
  deriving DecidableEq

namespace SingleWriterTransactor

def step (t : SingleWriterTransactor V) (e : Event V) : Option (SingleWriterTransactor V) :=
  (t.writer.step t.store e).map fun (store, writer, _) => ⟨store, writer⟩

/-- The transactor on an opened store: the clock starts at the store's highest timestamp. -/
def new (store : Store V) (shard : Nat) (groupCommit : Bool) : SingleWriterTransactor V :=
  ⟨store, .new shard groupCommit (.new store.maxTimestamp)⟩

end SingleWriterTransactor

/-- A store that earlier runs of the writer have left. -/
structure Store.OpenedBy (shard : Nat) (store : Store V) : Prop extends store.Restored where
  own : ∀ d ∈ store.log, d.shard = shard
  sorted : store.log.Pairwise fun x y => x.ts < y.ts
  complete : ∀ d ∈ store.log, d.unit.Complete ∧ d.unit.ctx.CoversStaged
  chained : Store.Chained store.log

namespace Store

theorem openedBy_empty (shard : Nat) : (⟨[], 0⟩ : Store V).OpenedBy shard where
  le _ hd := absurd hd List.not_mem_nil
  lt _ hd := absurd hd List.not_mem_nil
  past _ hd := absurd hd List.not_mem_nil
  own _ hd := absurd hd List.not_mem_nil
  sorted := List.Pairwise.nil
  complete _ hd := absurd hd List.not_mem_nil
  chained _ hd := absurd hd List.not_mem_nil

/-- The part of the log that had landed at a moment. -/
def asOf (log : List (Commit V)) (landed : List Nat) : List (Commit V) :=
  log.filter fun d => d.ts ∈ landed

/-- The index entries a commit writes lie in its write ranges, as `maintainIndexes` of the
kernel takes care of. -/
def CoversIndexUpdates (d : Commit V) : Prop :=
  ∀ u ∈ d.unit.ctx.indexUpdates, (u.indexId.keyspace, u.key) ∈ d.unit.ctx.writeRanges.keys

/-- Every document and index entry `x` has read inside its validated read set, at its
snapshot and from the store as it was then, is the one in the state just before its commit. -/
structure ReadsAsBeforeCommit (log : List (Commit V)) (x : Commit V) : Prop where
  documents : ∀ o ∈ x.unit.ctx.observed, ∀ id, docKey id ∈ x.unit.ctx.validatedReads.keys →
    getIn (asOf log o.landed) id (some x.unit.ctx.snapshotTs) = getIn (before log x.ts) id none
  indexes : (∀ d ∈ log, CoversIndexUpdates d) → ∀ o ∈ x.unit.ctx.observed, ∀ indexId key,
    (indexId.keyspace, key) ∈ x.unit.ctx.validatedReads.keys →
    indexEntryIn (asOf log o.landed) indexId key (some x.unit.ctx.snapshotTs) =
      indexEntryIn (before log x.ts) indexId key none

end Store

namespace SingleWriterTransactor

/-! ## Invariant -/

structure Inv (t : SingleWriterTransactor V) : Prop where
  writer : t.writer.Inv True t.store
  docs : t.writer.DocInv t.store
  batches : t.writer.BatchInv

namespace Inv

variable {t : SingleWriterTransactor V}

theorem init {store : Store V} {shard : Nat} (h : store.OpenedBy shard) (group : Bool) :
    Inv (new store shard group) where
  writer := ShardWriter.Inv.new (maxTimestamp_le h.le) fun d hd _ =>
    ⟨le_maxTimestamp hd, h.lt d hd, h.past d hd⟩
  docs := ShardWriter.DocInv.new h.own h.sorted h.complete h.chained
  batches := ShardWriter.BatchInv.new

theorem step (h : Inv t) {e : Event V} {t' : SingleWriterTransactor V} (hs : t.step e = some t') :
    Inv t' := by
  obtain ⟨⟨store, w, out⟩, hw, rfl⟩ := Option.map_eq_some_iff.1 hs
  exact ⟨h.writer.step (fun _ => h.writer.clock trivial) hw, h.docs.step h.writer hw,
    h.batches.step h.writer hw⟩

theorem run {store : Store V} {shard : Nat} (h : store.OpenedBy shard) {group : Bool}
    {events : List (Event V)}
    (hrun : Runs.run SingleWriterTransactor.step (new store shard group) events = some t) : Inv t :=
  Runs.run_invariant (fun _ _ _ hi hs => hi.step hs) (init h group) hrun

/-- The commits of the log that wrote a key `x` has validated are visible to each of its
reads exactly if they are older than `x`. -/
theorem visible_iff (h : Inv t) {x d : Commit V} (hx : x ∈ t.store.log) (hd : d ∈ t.store.log)
    {o : Observation} (ho : o ∈ x.unit.ctx.observed) {k : Key}
    (hread : k ∈ x.unit.ctx.validatedReads.keys) (hwrite : k ∈ d.unit.ctx.writeRanges.keys) :
    (d.ts ∈ o.landed ∧ d.ts ≤ x.unit.ctx.snapshotTs) ↔ d.ts < x.ts := by
  have hxs := h.docs.own x hx
  have hds := h.docs.own d hd
  constructor
  · rintro ⟨-, hle⟩
    have hlt : x.unit.ctx.snapshotTs < x.ts :=
      h.writer.occ.snap_lt (x.ts, x.unit.ctx.abs) ⟨x, hx, hxs, rfl⟩
    omega
  · intro hlt
    obtain ⟨hsnap, hviews⟩ := h.writer.no_missed_commit hx hd hxs hds hlt hread hwrite
    exact ⟨hviews o ho, hsnap⟩

theorem readsAsBeforeCommit (h : Inv t) {x : Commit V} (hx : x ∈ t.store.log) :
    Store.ReadsAsBeforeCommit t.store.log x where
  documents := by
    intro o ho id hread
    refine getIn_congr ?_
    rintro d hd ⟨e, he, hid⟩
    obtain ⟨hcomplete, hcovers⟩ := h.docs.log d hd
    have hwrite : docKey id ∈ d.unit.ctx.writeRanges.keys :=
      hcovers id (hid ▸ hcomplete.mem_keys he)
    have hvis := h.visible_iff hx hd ho hread hwrite
    simpa [Store.admits, and_comm] using hvis
  indexes := by
    intro hcov o ho indexId key hread
    refine indexEntryIn_congr ?_
    rintro d hd ⟨u, hu, hid, hkey⟩
    have hwrite : (indexId.keyspace, key) ∈ d.unit.ctx.writeRanges.keys := by
      rw [← hid, ← hkey]
      exact hcov d hd u hu
    have hvis := h.visible_iff hx hd ho hread hwrite
    simpa [Store.admits, and_comm] using hvis

/-- A landed commit younger than the snapshot of an active call is in the ring, or still to be
put there. -/
theorem ring_covers (h : Inv t) {c : Call V} (hc : c ∈ t.writer.calls) (hlive : c.phase.live = true)
    {x : Commit V} (hx : x ∈ t.store.log) (hlt : c.ctx.snapshotTs < x.ts) :
    (∃ r ∈ t.writer.recentCommits, r.ts = x.ts ∧ r.writes.keys = x.unit.ctx.writeRanges.keys) ∨
      ∃ u, (some x.ts, u) ∈ t.writer.inflight := by
  rcases h.writer.occ.ring_covers c.ctx.abs.toAttempt ⟨c, hc, hlive, rfl⟩ (x.ts, x.unit.ctx.abs)
    ⟨x, hx, h.docs.own x hx, rfl⟩ hlt with ⟨r, hr, heq⟩ | hin
  · obtain ⟨hts, hwrites⟩ := Prod.mk.inj heq
    exact .inl ⟨r, hr, hts.symm, hwrites.symm⟩
  · obtain ⟨⟨ts, u⟩, he, hts, -⟩ := ShardWriter.RefinementLemmas.mem_absInflight.1 hin
    exact .inr ⟨u, hts ▸ he⟩

end Inv

end SingleWriterTransactor

/-! ## The single-commit path -/

open SingleWriterTransactor in
/-- In every run with group commit off: each committed transaction has read what it would have
read just before its commit; a commit newer than the snapshot of an active transaction is in
the ring or about to enter it, and no pruning would drop it. -/
theorem single_commit_serializable {store : Store V} {shard : Nat} (hstore : store.OpenedBy shard)
    {events : List (Event V)} {t : SingleWriterTransactor V}
    (hrun : Runs.run SingleWriterTransactor.step (new store shard false) events = some t) :
    (∀ x ∈ t.store.log, Store.ReadsAsBeforeCommit t.store.log x) ∧
      ∀ c ∈ t.writer.calls, c.phase.live = true →
        (∀ r ∈ t.writer.recentCommits, r ∉ t.writer.prune.recentCommits →
          r.ts ≤ c.ctx.snapshotTs) ∧
        ∀ x ∈ t.store.log, c.ctx.snapshotTs < x.ts →
          (∃ r ∈ t.writer.recentCommits,
            r.ts = x.ts ∧ r.writes.keys = x.unit.ctx.writeRanges.keys) ∨
          ∃ u, (some x.ts, u) ∈ t.writer.inflight := by
  have hinv := Inv.run hstore hrun
  refine ⟨fun x hx => hinv.readsAsBeforeCommit hx, fun c hc hlive => ⟨?_, ?_⟩⟩
  · exact fun r hr hnot => hinv.writer.le_of_pruned hr hnot hc hlive
  · exact fun x hx hlt => hinv.ring_covers hc hlive hx hlt

namespace SingleWriterExample

open WriterExample

/-- The holder of the mutex commits one document at `ts`. -/
def commitAt (i ts : Nat) : List (Event Nat) :=
  [.acquire i, .prevAnswered, .allocate [ts], .land, .resolve]

/-- Two transactions update one document from the same snapshot: the second one conflicts
and commits on its second attempt, while a third one is active. -/
def contended : List (Event Nat) :=
  readModifyWrite 0 doc 10 ++ readModifyWrite 1 doc 20 ++ [.start 8] ++ commitAt 0 1 ++
  [.acquire 1, .retry 1] ++ (readModifyWrite 1 doc 20).tail ++ commitAt 1 2

end SingleWriterExample

open WriterExample SingleWriterExample SingleWriterTransactor in
/-- The run `contended` reaches a state with two commits and an active transaction older than
both. -/
theorem single_commit_serializable_run : ∃ t,
    Runs.run SingleWriterTransactor.step (new emptyStore 0 false) contended = some t ∧
      t.store.log.length = 2 ∧ (∃ c ∈ t.writer.calls, c.phase.live = true) ∧
      (∀ x ∈ t.store.log, Store.ReadsAsBeforeCommit t.store.log x) ∧
      ∀ c ∈ t.writer.calls, c.phase.live = true → ∀ x ∈ t.store.log, c.ctx.snapshotTs < x.ts →
        (∃ r ∈ t.writer.recentCommits,
          r.ts = x.ts ∧ r.writes.keys = x.unit.ctx.writeRanges.keys) ∨
        ∃ u, (some x.ts, u) ∈ t.writer.inflight := by
  refine Runs.exists_some_imp (fun t => t.store.log.length = 2 ∧ ∃ c ∈ t.writer.calls,
    c.phase.live = true) (by decide +kernel) fun t ht ⟨hlen, hlive⟩ => ?_
  obtain ⟨hreads, hring⟩ := single_commit_serializable (openedBy_empty 0) ht
  exact ⟨hlen, hlive, hreads, fun c hc hl => (hring c hc hl).2⟩

/-! ## The group-commit path -/

open SingleWriterTransactor in
/-- In every run with group commit on: each committed transaction has read what it would have
read just before its commit; no two units of a flushed batch write one document and none has
validated a read of what an earlier one writes; `prev_ts` is the newest revision before the
commit if that one is live and null otherwise, and no two revisions of a document have the
same predecessor. -/
theorem group_commit_serializable {store : Store V} {shard : Nat} (hstore : store.OpenedBy shard)
    {events : List (Event V)} {t : SingleWriterTransactor V}
    (hrun : Runs.run SingleWriterTransactor.step (new store shard true) events = some t) :
    (∀ x ∈ t.store.log, Store.ReadsAsBeforeCommit t.store.log x) ∧
      (∀ b, t.writer.flushingBatch = some b → b.Independent) ∧
      (∀ x ∈ t.store.log, ∀ e ∈ x.unit.documents,
        e.prevTs = Store.liveTs (Store.before t.store.log x.ts) e.id) ∧
      ∀ x ∈ t.store.log, ∀ y ∈ t.store.log, x.ts < y.ts → ∀ d ∈ x.unit.documents,
        ∀ e ∈ y.unit.documents, d.id = e.id → ∀ ts, e.prevTs = some ts → d.prevTs ≠ some ts := by
  have hinv := Inv.run hstore hrun
  refine ⟨fun x hx => hinv.readsAsBeforeCommit hx, hinv.batches.flushing, hinv.docs.chain, ?_⟩
  intro x hx y hy hlt d hd e he hid ts hts
  exact chain_unforked hinv.docs.chain hx hy hlt hd he hid hts

namespace SingleWriterExample

open WriterExample

/-- The committer flushes the pending batch at the timestamps `tss`. -/
def flushAt (tss : List Nat) : List (Event Nat) := [.detach, .allocate tss, .land]

/-- The body of call `i`: delete `id`. -/
def deleteDoc (i : Nat) (id : InternalDocumentId) : List (Event Nat) :=
  [.start 8, .op i (.delete id), .bodyReturns i]

/-- The body of call `i`: read one document and write another. -/
def copyDoc (i : Nat) (source target : InternalDocumentId) : List (Event Nat) :=
  [.start 8, .op i (.get source), .op i (.look (pointRange (docKeyspace source) source.internalId)),
    .op i (.put target 5), .bodyReturns i]

/-- A document is created and deleted. Then one batch holds a transaction that has seen it
deleted and one that creates it again. -/
def recreated : List (Event Nat) :=
  readModifyWrite 0 doc 10 ++ [.acquire 0, .prevAnswered] ++ flushAt [1] ++ [.resolve, .publish] ++
  deleteDoc 1 doc ++ [.acquire 1, .prevAnswered] ++ flushAt [2] ++ [.resolve, .publish] ++
  copyDoc 2 doc other ++ readModifyWrite 3 doc 30 ++
  [.acquire 2, .prevAnswered, .acquire 3, .prevAnswered] ++ flushAt [3, 4]

end SingleWriterExample

open WriterExample SingleWriterExample SingleWriterTransactor in
/-- One unit of a flushed batch may have read what another one writes, and `prev_ts` is not the
newest revision of a document if that revision is a deletion. -/
theorem group_commit_reads_and_tombstones : ∃ t,
    Runs.run SingleWriterTransactor.step (new emptyStore 0 true) recreated = some t ∧
      (∃ b, t.writer.flushingBatch = some b ∧ ∃ u ∈ b.units, ∃ v ∈ b.units, u ≠ v ∧
        (docKeyspace doc, doc.internalId) ∈ u.ctx.validatedReads.keys ∧
        (docKeyspace doc, doc.internalId) ∈ v.ctx.writeRanges.keys) ∧
      ∃ x ∈ t.store.log, ∃ e ∈ x.unit.documents, e.id = doc ∧ e.prevTs = none ∧
        Versioned.newest (Store.revisionsIn (Store.before t.store.log x.ts) doc) =
          some (2, none) := by
  decide +kernel

open WriterExample SingleWriterExample SingleWriterTransactor in
/-- The same run meets the theorem: its last batch has two units. -/
theorem group_commit_serializable_run : ∃ t,
    Runs.run SingleWriterTransactor.step (new emptyStore 0 true) recreated = some t ∧
      t.store.log.length = 4 ∧ (∀ x ∈ t.store.log, Store.ReadsAsBeforeCommit t.store.log x) ∧
      ∃ b, t.writer.flushingBatch = some b ∧ b.units.length = 2 ∧ b.Independent := by
  refine Runs.exists_some_imp (fun t => t.store.log.length = 4 ∧
    ∃ b, t.writer.flushingBatch = some b ∧
    b.units.length = 2) (by decide +kernel) fun t ht ⟨hlen, b, hb, hunits⟩ => ?_
  obtain ⟨hreads, hindep, -, -⟩ := group_commit_serializable (openedBy_empty 0) ht
  exact ⟨hlen, hreads, b, hb, hunits, hindep b hb⟩

end Helipod
