import Helipod.Lib.VersionTable
import Helipod.QueryEngine.QueryRuntime

/-!
# The local store

Model of the part of `SqliteDocStore` (`docstore-sqlite/src/sqlite-docstore.ts`) that the
object-storage substrate uses: the tables `documents` and `indexes` with their primary keys,
`write` with the strategy `Overwrite`, the reads, and `dumpCurrentState`. Rows carry the
timestamps they were written with. The column `shard_id` is left out, which nothing here reads.

A read orders its rows, so the order in which a table or a dump holds them says nothing.

Results:
* `Alike.get`, `Alike.scan`, `Alike.indexScan`
* `dumpCurrentState_documents`: what a dump holds.
-/

namespace Helipod

open OrderedMap List

/-- The columns of a revision besides its primary key. `value = none` is a tombstone. -/
structure DocumentRow (V : Type) where
  prevTs : Option Nat
  value : Option V
  deriving DecidableEq

/-- The revision is not a tombstone. -/
def DocumentRow.isLive {V : Type} (row : DocumentRow V) : Bool := row.value.isSome

/-- Rows with their timestamps, as a segment and a dump carry them. -/
structure SegmentPayload (V : Type) where
  documents : List ((InternalDocumentId × Nat) × DocumentRow V)
  indexUpdates : List (((IndexId × Bytes) × Nat) × IndexUpdateValue)
  deriving DecidableEq

/-- What one transaction of a batch writes. -/
structure CommitUnit (V : Type) where
  documents : List (DocumentLogEntry V)
  indexUpdates : List DatabaseIndexUpdate
  deriving DecidableEq

/-- The rows of a unit at its timestamp. -/
def CommitUnit.stamp {V : Type} (ts : Nat) (u : CommitUnit V) : SegmentPayload V :=
  ⟨u.documents.map fun d => ((d.id, ts), ⟨d.prevTs, d.value⟩),
    u.indexUpdates.map fun w => (((w.indexId, w.key), ts), w.value)⟩

structure LatestDocument (V : Type) where
  ts : Nat
  prevTs : Option Nat
  id : InternalDocumentId
  value : V
  deriving DecidableEq

/-- Keys in the order of the store, without repetitions. -/
def sortKeys (keys : List Bytes) : List Bytes :=
  keys.dedup.insertionSort fun a b => compareKeyBytes a b ≠ .gt

theorem mem_sortKeys {keys : List Bytes} {key : Bytes} : key ∈ sortKeys keys ↔ key ∈ keys := by
  rw [sortKeys, mem_insertionSort, mem_dedup]

/-- Keys for which there is nothing to find do not matter. -/
theorem filterMap_sortKeys_congr {α : Type} {f : Bytes → Option α} {keys keys' : List Bytes}
    (h : ∀ key, (f key).isSome = true → (key ∈ keys ↔ key ∈ keys')) :
    (sortKeys keys).filterMap f = (sortKeys keys').filterMap f := by
  have hfilter : ∀ l : List Bytes,
    l.filterMap f = (l.filter fun key => (f key).isSome).filterMap f := by
    intro l
    induction l with
    | nil => rfl
    | cons key l ih =>
      cases hkey : f key with
      | none => simp [hkey, ih]
      | some a => simp [hkey, ih]
  rw [hfilter, hfilter (sortKeys keys')]
  congr 1
  refine List.Pairwise.eq_of_mem_iff (r := (· < ·)) ((sorted_dedup_insertionSort _).filter _)
    ((sorted_dedup_insertionSort _).filter _) fun key => ?_
  rw [mem_filter, mem_filter, mem_sortKeys, mem_sortKeys]
  exact and_congr_left fun hkey => h key hkey

structure SqliteDocStore (V : Type) where
  documents : VersionTable InternalDocumentId (DocumentRow V)
  indexes : VersionTable (IndexId × Bytes) IndexUpdateValue
  deriving DecidableEq

namespace SqliteDocStore

open VersionTable

variable {V : Type}

def empty : SqliteDocStore V := ⟨.empty, .empty⟩

/-- `write` with the strategy `Overwrite`. -/
def write (s : SqliteDocStore V) (rows : SegmentPayload V) : SqliteDocStore V :=
  ⟨s.documents.putAll rows.documents, s.indexes.putAll rows.indexUpdates⟩

/-- The greatest timestamp of a document row. -/
def maxTimestamp (s : SqliteDocStore V) : Nat := (s.documents.keys.map Prod.snd).foldl max 0

def get (s : SqliteDocStore V) (id : InternalDocumentId) (readTimestamp : Option Nat) :
    Option (LatestDocument V) :=
  (s.documents.latest id readTimestamp).bind fun row =>
    row.2.value.map fun value => ⟨row.1, row.2.prevTs, id, value⟩

def scan (s : SqliteDocStore V) (tableNumber : Nat) (readTimestamp : Option Nat) :
    List (LatestDocument V) :=
  (sortKeys ((s.documents.keys.filter fun key => key.1.tableNumber = tableNumber).map
    (·.1.internalId))).filterMap fun internalId => s.get ⟨tableNumber, internalId⟩ readTimestamp

/-- What a scan yields for a key: the newest entry, unless it is deleted or its document is. -/
def scanRow (s : SqliteDocStore V) (indexId : IndexId) (readTimestamp : Nat) (key : Bytes) :
    Option (Bytes × LatestDocument V) :=
  match s.indexes.latest (indexId, key) (some readTimestamp) with
  | some (_, .nonClustered docId) => (s.get docId (some readTimestamp)).map fun doc => (key, doc)
  | _ => none

def indexScan (s : SqliteDocStore V) (indexId : IndexId) (readTimestamp : Nat) (start : Bytes)
    (stop : Option Bytes) (order : ScanOrder) (limit : Option Nat) :
    List (Bytes × LatestDocument V) :=
  let keys := (s.indexes.keys.filter fun key => key.1.1 = indexId ∧
    keyInRange key.1.2 ⟨indexId.keyspace, start, stop⟩).map (·.1.2)
  Store.limited limit
    (order.ascending ((sortKeys keys).filterMap (s.scanRow indexId readTimestamp)))

/-- The newest revisions that are no tombstones, and the newest index entries with the markers of
deleted ones. -/
def dumpCurrentState (s : SqliteDocStore V) : SegmentPayload V :=
  ⟨s.documents.current DocumentRow.isLive, s.indexes.current fun _ => true⟩

/-! ## Timestamps -/

theorem le_maxTimestamp {s : SqliteDocStore V} (id : InternalDocumentId) {ts : Nat}
    (h : s.documents.get? (id, ts) ≠ none) : ts ≤ s.maxTimestamp := by
  obtain ⟨row, hrow⟩ := Option.ne_none_iff_exists'.1 h
  have hkey : (id, ts) ∈ s.documents.keys :=
    mem_map.2 ⟨_, (get?_eq_some_iff _).1 hrow, rfl⟩
  exact (Store.le_foldl_max _ 0).2 ts (mem_map.2 ⟨_, hkey, rfl⟩)

theorem maxTimestamp_le {s : SqliteDocStore V} {F : Nat} (h : Within s.documents F) :
    s.maxTimestamp ≤ F := by
  refine Store.foldl_max_le (Nat.zero_le F) fun ts hts => ?_
  obtain ⟨⟨id, ts⟩, hkey, rfl⟩ := mem_map.1 hts
  obtain ⟨⟨key, row⟩, hrow, rfl⟩ := mem_map.1 hkey
  exact h id ts (by simp [(get?_eq_some_iff _).2 hrow])

/-! ## Answers -/

/-- The stores show the same rows at the bound. -/
structure Alike (s s' : SqliteDocStore V) (b : Option Nat) : Prop where
  documents : ∀ id, s.documents.view DocumentRow.isLive id b =
    s'.documents.view DocumentRow.isLive id b
  indexes : ∀ key, s.indexes.view (fun _ => true) key b = s'.indexes.view (fun _ => true) key b

variable {s s' : SqliteDocStore V} {b : Option Nat} {id : InternalDocumentId} {t : Nat}

theorem get_eq_view : s.get id b = (s.documents.view DocumentRow.isLive id b).bind fun row =>
    row.2.value.map fun value => ⟨row.1, row.2.prevTs, id, value⟩ := by
  rw [get, view]
  cases hl : s.documents.latest id b with
  | none => rfl
  | some row =>
    rw [Option.filter_some, DocumentRow.isLive]
    cases hv : row.2.value with
    | none => simp [hv]
    | some value => simp

theorem latest_indexes (key : IndexId × Bytes) :
    s.indexes.latest key b = s.indexes.view (fun _ => true) key b := by
  rw [view]
  cases s.indexes.latest key b <;> rfl

theorem mem_keys_of_get (h : (s.get id b).isSome = true) :
    id.internalId ∈ (s.documents.keys.filter fun key => key.1.tableNumber = id.tableNumber).map
      (·.1.internalId) := by
  obtain ⟨doc, hdoc⟩ := Option.isSome_iff_exists.1 h
  obtain ⟨⟨ts, row⟩, hl, -⟩ := Option.bind_eq_some_iff.1 hdoc
  have hmem := (get?_eq_some_iff _).1 (latest_eq_some.1 hl).1
  exact mem_map.2 ⟨(id, ts), mem_filter.2 ⟨mem_map.2 ⟨_, hmem, rfl⟩, by simp⟩, rfl⟩

theorem mem_keys_of_scanRow {indexId : IndexId} {readTimestamp : Nat} {key : Bytes}
    (h : (s.scanRow indexId readTimestamp key).isSome = true) :
    ∃ ts, ((indexId, key), ts) ∈ s.indexes.keys := by
  unfold scanRow at h
  split at h
  · rename_i ts docId hl
    have hmem := (get?_eq_some_iff _).1 (latest_eq_some.1 hl).1
    exact ⟨ts, mem_map.2 ⟨_, hmem, rfl⟩⟩
  · cases h

namespace Alike

theorem get (h : Alike s s' b) (id : InternalDocumentId) : s.get id b = s'.get id b := by
  rw [get_eq_view, get_eq_view, h.documents]

theorem scan (h : Alike s s' b) (tableNumber : Nat) :
    s.scan tableNumber b = s'.scan tableNumber b := by
  have hget : (fun internalId => s.get ⟨tableNumber, internalId⟩ b) =
      fun internalId => s'.get ⟨tableNumber, internalId⟩ b := funext fun _ => h.get _
  rw [SqliteDocStore.scan, SqliteDocStore.scan, hget]
  refine filterMap_sortKeys_congr fun internalId hsome => ?_
  have hsome' : (s.get ⟨tableNumber, internalId⟩ b).isSome = true := by rwa [h.get]
  exact iff_of_true (mem_keys_of_get hsome') (mem_keys_of_get hsome)

theorem scanRow (h : Alike s s' (some t)) (indexId : IndexId) :
    s.scanRow indexId t = s'.scanRow indexId t := by
  funext key
  rw [SqliteDocStore.scanRow, SqliteDocStore.scanRow, latest_indexes, latest_indexes, h.indexes]
  split
  · rw [h.get]
  · rfl

theorem indexScan (h : Alike s s' (some t)) (indexId : IndexId) (start : Bytes)
    (stop : Option Bytes) (order : ScanOrder) (limit : Option Nat) :
    s.indexScan indexId t start stop order limit =
      s'.indexScan indexId t start stop order limit := by
  have hmem : ∀ {s : SqliteDocStore V} {key : Bytes}, (s.scanRow indexId t key).isSome = true →
      (key ∈ (s.indexes.keys.filter fun key => key.1.1 = indexId ∧
        keyInRange key.1.2 ⟨indexId.keyspace, start, stop⟩).map (·.1.2) ↔
          keyInRange key ⟨indexId.keyspace, start, stop⟩ = true) := by
    intro s key hsome
    obtain ⟨ts, hts⟩ := mem_keys_of_scanRow hsome
    constructor
    · intro hkey
      obtain ⟨⟨⟨indexId', key'⟩, ts'⟩, hmem, rfl⟩ := mem_map.1 hkey
      have := (mem_filter.1 hmem).2
      simp only [decide_eq_true_eq] at this
      exact this.2
    · intro hrange
      exact mem_map.2 ⟨((indexId, key), ts), mem_filter.2 ⟨hts, by simpa using hrange⟩, rfl⟩
  rw [SqliteDocStore.indexScan, SqliteDocStore.indexScan, h.scanRow]
  rw [filterMap_sortKeys_congr fun key hsome =>
    (hmem (s := s) (by rwa [h.scanRow])).trans (hmem hsome).symm]

end Alike

/-! ## Dumps -/

theorem dumpCurrentState_documents {row : DocumentRow V} :
    ((id, t), row) ∈ s.dumpCurrentState.documents ↔
      s.documents.view DocumentRow.isLive id none = some (t, row) := mem_current

end SqliteDocStore

end Helipod
