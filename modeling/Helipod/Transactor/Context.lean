import Helipod.KeyRange
import Helipod.Lib.OrderedMap
import Helipod.Lib.Versioned

/-!
# Transaction contexts and the document store

Model of `TransactionContextImpl` (`transactor/src/shard-writer.ts`), of
`UncommittedWrites` and of the part of the `DocStore` interface the transactor
uses. `V` is the type of document values, which the transactor never inspects.

A context also carries `observed`: for each answer it got from the store, the
range that was read and the timestamps that had landed at that moment. The
source keeps no such record; it is there to state what a transaction has seen.

The store is its log of landed commits in the order they landed, together with
the highest timestamp it has drawn. Between drawing a timestamp and landing
the rows other commits may land, so the log need not be sorted.
-/

namespace Helipod

@[ext] structure InternalDocumentId where
  tableNumber : Nat
  internalId : Bytes
  deriving DecidableEq, Repr

def docKeyspace (id : InternalDocumentId) : Keyspace := .table id.tableNumber

/-- The key of a document in its table's keyspace. -/
def docKey (id : InternalDocumentId) : Keyspace × Bytes := (docKeyspace id, id.internalId)

/-- `encodeStorageIndexId`: an index by the number of its table and its name. -/
structure IndexId where
  tableNumber : Nat
  name : String
  deriving DecidableEq, Repr

/-- `indexKeyspaceId` of the index. -/
def IndexId.keyspace (id : IndexId) : Keyspace := .index id.tableNumber id.name

inductive IndexUpdateValue where
  | deleted
  | nonClustered (docId : InternalDocumentId)
  deriving DecidableEq, Repr

structure DatabaseIndexUpdate where
  indexId : IndexId
  key : Bytes
  value : IndexUpdateValue
  deriving DecidableEq, Repr

/-- A staged revision; the store stamps the timestamp. `value = none` is a tombstone. -/
structure DocumentLogEntry (V : Type) where
  id : InternalDocumentId
  prevTs : Option Nat
  value : Option V
  deriving DecidableEq

/-- One answer of the store to a read of `range`. -/
structure Observation where
  range : KeyRange
  landed : List Nat
  deriving DecidableEq

structure TransactionContext (V : Type) where
  snapshotTs : Nat
  reads : RangeSet := []
  validatedReads : RangeSet := []
  writeRanges : RangeSet := []
  staged : OrderedMap InternalDocumentId (Option V) := .empty
  indexUpdates : List DatabaseIndexUpdate := []
  observed : List Observation := []
  deriving DecidableEq

/-- What a body can do with its context. `get` is the synchronous part of
`TransactionContextImpl.get`; `look` is the store answering a read of the
body, at the moment it answers. -/
inductive CtxOp (V : Type) where
  | get (id : InternalDocumentId)
  | look (range : KeyRange)
  | put (id : InternalDocumentId) (value : V)
  | delete (id : InternalDocumentId)
  | recordRead (range : KeyRange)
  | recordReadUnvalidated (range : KeyRange)
  | recordWrite (range : KeyRange)
  | stageIndexUpdates (updates : List DatabaseIndexUpdate)

namespace TransactionContext

variable {V : Type}

def recordRead (ctx : TransactionContext V) (range : KeyRange) : TransactionContext V :=
  { ctx with reads := ctx.reads.add range, validatedReads := ctx.validatedReads.add range }

def recordReadUnvalidated (ctx : TransactionContext V) (range : KeyRange) : TransactionContext V :=
  { ctx with reads := ctx.reads.add range }

def recordWrite (ctx : TransactionContext V) (range : KeyRange) : TransactionContext V :=
  { ctx with writeRanges := ctx.writeRanges.add range }

/-- Stage a value, or a tombstone: `put` and `delete` of the source. -/
def stage (ctx : TransactionContext V) (id : InternalDocumentId) (value : Option V) :
    TransactionContext V :=
  { ctx with
    writeRanges := ctx.writeRanges.addKey (docKeyspace id) id.internalId
    staged := ctx.staged.set id value }

def stageIndexUpdates (ctx : TransactionContext V) (updates : List DatabaseIndexUpdate) :
    TransactionContext V :=
  { ctx with indexUpdates := ctx.indexUpdates ++ updates }

/-- Run one operation; `landed` is what the store holds at that moment. -/
def apply (landed : List Nat) (ctx : TransactionContext V) : CtxOp V → TransactionContext V
  | .get id => ctx.recordRead (pointRange (docKeyspace id) id.internalId)
  | .look range => { ctx with observed := ctx.observed ++ [⟨range, landed⟩] }
  | .put id value => ctx.stage id (some value)
  | .delete id => ctx.stage id none
  | .recordRead range => ctx.recordRead range
  | .recordReadUnvalidated range => ctx.recordReadUnvalidated range
  | .recordWrite range => ctx.recordWrite range
  | .stageIndexUpdates updates => ctx.stageIndexUpdates updates

@[simp] theorem apply_snapshotTs (landed : List Nat) (ctx : TransactionContext V) (op : CtxOp V) :
    (ctx.apply landed op).snapshotTs = ctx.snapshotTs := by
  cases op <;> rfl

/-- Every staged document lies in the write ranges. -/
def CoversStaged (ctx : TransactionContext V) : Prop :=
  ∀ id ∈ ctx.staged.keys, docKey id ∈ ctx.writeRanges.keys

theorem CoversStaged.apply {ctx : TransactionContext V} (h : ctx.CoversStaged) (landed : List Nat)
    (op : CtxOp V) : (ctx.apply landed op).CoversStaged := by
  have hstage : ∀ id v, (ctx.stage id v).CoversStaged := by
    intro id v id' hid'
    refine RangeSet.mem_keys_addKey.2 ?_
    rcases (ctx.staged.mem_keys_set).1 hid' with rfl | hid'
    · exact .inr rfl
    · exact .inl (h id' hid')
  cases op with
  | get id => exact h
  | look range => exact h
  | put id value | delete id => exact hstage id _
  | recordRead range => exact h
  | recordReadUnvalidated range => exact h
  | recordWrite range => exact fun id hid => RangeSet.mem_keys_add.2 (.inl (h id hid))
  | stageIndexUpdates updates => exact h

end TransactionContext

/-- A transaction that passed validation: its context, the call it belongs to and its log
entries. The source copies the fields the committer needs out of the context. -/
structure StagedUnit (V : Type) where
  call : Nat
  ctx : TransactionContext V
  documents : List (DocumentLogEntry V)
  deriving DecidableEq

/-- A landed transaction of shard `shard`. -/
structure Commit (V : Type) where
  shard : Nat
  ts : Nat
  unit : StagedUnit V
  deriving DecidableEq

structure Store (V : Type) where
  log : List (Commit V)
  allocated : Nat
  deriving DecidableEq

/-- The commits of a store that was opened: their transactions are over, so nothing is
known of what they read. -/
structure Store.Restored {V : Type} (store : Store V) : Prop where
  le : ∀ d ∈ store.log, d.ts ≤ store.allocated
  lt : ∀ d ∈ store.log, d.unit.ctx.snapshotTs < d.ts
  past : ∀ d ∈ store.log, d.unit.ctx.validatedReads = [] ∧ d.unit.ctx.observed = []

namespace Store

variable {V : Type}

/-- The timestamps that have landed. -/
def landed (s : Store V) : List Nat := s.log.map Commit.ts

def maxTimestamp (s : Store V) : Nat := s.landed.foldl max 0

theorem le_foldl_max (tss : List Nat) (n : Nat) :
    n ≤ tss.foldl max n ∧ ∀ t ∈ tss, t ≤ tss.foldl max n := by
  induction tss generalizing n with
  | nil => simp
  | cons t ts ih =>
    obtain ⟨h1, h2⟩ := ih (max n t)
    refine ⟨(le_max_left n t).trans h1, fun t' ht' => ?_⟩
    rcases List.mem_cons.1 ht' with rfl | ht'
    · exact (le_max_right n t').trans h1
    · exact h2 t' ht'

theorem foldl_max_le {tss : List Nat} {n m : Nat} (hn : n ≤ m) (h : ∀ t ∈ tss, t ≤ m) :
    tss.foldl max n ≤ m := by
  induction tss generalizing n with
  | nil => exact hn
  | cons t ts ih =>
    exact ih (max_le hn (h t List.mem_cons_self)) fun t' ht' => h t' (List.mem_cons_of_mem _ ht')

theorem le_maxTimestamp {s : Store V} {d : Commit V} (hd : d ∈ s.log) : d.ts ≤ s.maxTimestamp :=
  (le_foldl_max s.landed 0).2 _ (List.mem_map.2 ⟨d, hd, rfl⟩)

theorem maxTimestamp_le {s : Store V} {n : Nat} (h : ∀ d ∈ s.log, d.ts ≤ n) :
    s.maxTimestamp ≤ n := by
  refine foldl_max_le (Nat.zero_le n) fun t ht => ?_
  obtain ⟨d, hd, rfl⟩ := List.mem_map.1 ht
  exact h d hd

/-- The revisions of a document in a log, tombstones included. -/
def revisionsIn (log : List (Commit V)) (id : InternalDocumentId) : List (Nat × Option V) :=
  log.flatMap fun c => (c.unit.documents.filter fun d => d.id = id).map fun d => (c.ts, d.value)

/-- `DocStore.get`: the newest revision at or below the bound, `none` if it is a tombstone. -/
def getIn (log : List (Commit V)) (id : InternalDocumentId) (bound : Option Nat) :
    Option (Nat × V) :=
  (Versioned.readAt bound (revisionsIn log id)).bind fun r => r.2.map fun v => (r.1, v)

def get (s : Store V) (id : InternalDocumentId) (bound : Option Nat) : Option (Nat × V) :=
  getIn s.log id bound

/-- The entries written for one key of an index. Inside a commit a later update of the same
key replaces an earlier one. -/
def indexEntriesIn (log : List (Commit V)) (indexId : IndexId) (key : Bytes) :
    List (Nat × IndexUpdateValue) :=
  log.flatMap fun c =>
    match c.unit.ctx.indexUpdates.reverse.find? fun u => u.indexId = indexId ∧ u.key = key with
    | none => []
    | some u => [(c.ts, u.value)]

/-- The newest entry of an index key at or below the bound. -/
def indexEntryIn (log : List (Commit V)) (indexId : IndexId) (key : Bytes) (bound : Option Nat) :
    Option (Nat × IndexUpdateValue) :=
  Versioned.readAt bound (indexEntriesIn log indexId key)

end Store

end Helipod
