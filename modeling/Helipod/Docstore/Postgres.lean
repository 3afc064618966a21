import Helipod.ObjectStore.SqliteDocStore

/-!
# The Postgres store

Model of the write path of `PostgresDocStore` (`docstore-postgres/src/postgres-docstore.ts`):
`writeRows`, `write` and `commitWriteBatch`, with one session per shard, as the commit pool has it.
A transaction is cut at its statements. Each statement sees the rows committed before it and the
rows of its own transaction. A statement that inserts a key another open transaction has inserted
waits for that transaction. `nextval` returns any value above those it has returned, so a value that
someone else draws, or that a rollback loses, is a gap.

A batch may be rolled back at any point: a guard throws, a statement fails, the session is lost.

The state has one field the source does not have: the committed units, with their shards.

Results: `committed_timestamps_distinct`, `concurrent_batches_share_timestamp`.
-/

namespace Helipod

open VersionTable Runs OrderedMap List

variable {V : Type}

/-! ## Tables -/

inductive ConflictStrategy where
  | error
  | overwrite
  deriving DecidableEq, Repr

/-- The tables, each row with its column `shard_id`. -/
structure PgTables (V : Type) where
  documents : VersionTable InternalDocumentId (DocumentRow V × Nat)
  indexes : VersionTable (IndexId × Bytes) (IndexUpdateValue × Nat)
  deriving DecidableEq

namespace PgTables

/-- `SELECT COALESCE(MAX(ts), 0) FROM documents`. -/
def maxTs (t : PgTables V) : Nat := (t.documents.keys.map Prod.snd).foldl max 0

/-- The rows go in; of two rows with one key the last is kept. -/
def put (t : PgTables V) (rows : SegmentPayload V) (shard : Nat) : PgTables V :=
  ⟨t.documents.putAll (rows.documents.map fun row => (row.1, row.2, shard)),
    t.indexes.putAll (rows.indexUpdates.map fun row => (row.1, row.2, shard))⟩

/-- `writeRows`: with the strategy `Error` a document row that is there already raises. -/
def writeRows (t : PgTables V) (rows : SegmentPayload V) (strategy : ConflictStrategy)
    (shard : Nat) : Option (PgTables V) :=
  if strategy = .error ∧ rows.documents.any fun row => t.documents.has row.1 then none
  else some (t.put rows shard)

end PgTables

/-! ## Transactions -/

/-- A `commitWriteBatch` under way: the units whose rows are inserted, the timestamp of the next
unit once it is drawn, and the units to come. -/
structure PgTransaction (V : Type) where
  stamped : List (Nat × CommitUnit V)
  drawn : Option Nat
  todo : List (CommitUnit V)
  deriving DecidableEq

namespace PgTransaction

/-- The rows the transaction has inserted. -/
def rows (tx : PgTransaction V) : SegmentPayload V :=
  ⟨tx.stamped.flatMap fun p => (p.2.stamp p.1).documents,
    tx.stamped.flatMap fun p => (p.2.stamp p.1).indexUpdates⟩

/-- The timestamps the transaction has drawn. -/
def timestamps (tx : PgTransaction V) : List Nat := tx.stamped.map Prod.fst ++ tx.drawn.toList

/-- The transaction has inserted a key of these rows. -/
def locks (tx : PgTransaction V) (rows : SegmentPayload V) : Bool :=
  rows.documents.any (fun row => row.1 ∈ tx.rows.documents.map Prod.fst) ||
    rows.indexUpdates.any fun row => row.1 ∈ tx.rows.indexUpdates.map Prod.fst

end PgTransaction

structure PostgresDocStore (V : Type) where
  tables : PgTables V
  /-- The last value of the sequence `helipod_ts`. -/
  sequence : Nat
  /-- The open transactions, by shard. -/
  transactions : OrderedMap Nat (PgTransaction V)
  /-- The committed units: shard and timestamp. -/
  committed : List (Nat × Nat)
  deriving DecidableEq

inductive PgEvent (V : Type) where
  /-- `write`, in a transaction of its own. A dump import is one with the strategy `Overwrite`. -/
  | write (rows : SegmentPayload V) (strategy : ConflictStrategy) (shard : Nat)
  | begin (shard : Nat) (units : List (CommitUnit V))
  /-- The timestamp of the next unit is selected; `nextval` returns `value`. -/
  | allocate (shard value : Nat)
  /-- The rows of the unit are inserted. -/
  | insert (shard : Nat)
  | commit (shard : Nat)
  | rollback (shard : Nat)

namespace PostgresDocStore

@[simp] def new (tables : PgTables V) (sequence : Nat) : PostgresDocStore V :=
  ⟨tables, sequence, .empty, []⟩

/-- What a statement of the transaction sees. -/
def visible (s : PostgresDocStore V) (shard : Nat) (tx : PgTransaction V) : PgTables V :=
  s.tables.put tx.rows shard

/-- The transactions of the other shards. -/
def others (s : PostgresDocStore V) (shard : Nat) : List (PgTransaction V) :=
  (s.transactions.entries.filter fun p => p.1 ≠ shard).map Prod.snd

def allocate (s : PostgresDocStore V) (shard value : Nat) : Option (PostgresDocStore V) :=
  match s.transactions.get? shard with
  | some tx =>
    if s.sequence < value ∧ tx.drawn = none ∧ tx.todo ≠ [] then
      -- GREATEST(nextval, MAX(ts) + 1)
      let ts := max value ((s.visible shard tx).maxTs + 1)
      some { s with
        sequence := value
        transactions := s.transactions.set shard { tx with drawn := some ts } }
    else none
  | none => none

def insert (s : PostgresDocStore V) (shard : Nat) : Option (PostgresDocStore V) :=
  match s.transactions.get? shard with
  | some ⟨stamped, some ts, unit :: todo⟩ =>
    if (s.others shard).any fun tx => tx.locks (unit.stamp ts) then none
    else if ((s.visible shard ⟨stamped, some ts, unit :: todo⟩).writeRows (unit.stamp ts) .error
        shard).isSome then
      some { s with
        transactions := s.transactions.set shard ⟨stamped ++ [(ts, unit)], none, todo⟩ }
    else some { s with transactions := s.transactions.erase shard }
  | _ => none

def commit (s : PostgresDocStore V) (shard : Nat) : Option (PostgresDocStore V) :=
  match s.transactions.get? shard with
  | some ⟨stamped, none, []⟩ =>
    some { s with
      tables := s.visible shard ⟨stamped, none, []⟩
      transactions := s.transactions.erase shard
      committed := s.committed ++ stamped.map fun p => (shard, p.1) }
  | _ => none

def step (s : PostgresDocStore V) : PgEvent V → Option (PostgresDocStore V)
  | .write rows strategy shard =>
    if s.transactions.values.any fun tx => tx.locks rows then none
    else some { s with tables := (s.tables.writeRows rows strategy shard).getD s.tables }
  | .begin shard units =>
    if s.transactions.has shard then none
    else some { s with transactions := s.transactions.set shard ⟨[], none, units⟩ }
  | .allocate shard value => s.allocate shard value
  | .insert shard => s.insert shard
  | .commit shard => s.commit shard
  | .rollback shard =>
    if s.transactions.has shard then some { s with transactions := s.transactions.erase shard }
    else none

/-- The sequence is ahead of the table and of what the other open transactions have drawn. -/
def SequenceAhead (s : PostgresDocStore V) (shard value : Nat) (tx : PgTransaction V) : Prop :=
  (s.visible shard tx).maxTs < value ∧ ∀ tx' ∈ s.others shard, ∀ ts ∈ tx'.timestamps, ts < value

/-- No other open transaction has drawn, and the unit leaves a row behind. -/
def DrawsAlone (s : PostgresDocStore V) (shard : Nat) (tx : PgTransaction V) : Prop :=
  (∀ tx' ∈ s.others shard, tx'.timestamps = []) ∧ ∀ unit ∈ tx.todo.head?, unit.documents ≠ []

/-- The condition on a step. -/
def Spaced (s : PostgresDocStore V) : PgEvent V → Prop
  | .allocate shard value => ∀ tx ∈ s.transactions.get? shard,
      s.SequenceAhead shard value tx ∨ s.DrawsAlone shard tx
  | _ => True

instance (s : PostgresDocStore V) [DecidableEq V] (e : PgEvent V) : Decidable (s.Spaced e) := by
  unfold Spaced SequenceAhead DrawsAlone
  split <;> infer_instance

end PostgresDocStore

/-! ## What is in a table -/

namespace PgTables

variable {t : PgTables V} {rows : SegmentPayload V} {shard ts : Nat} {id : InternalDocumentId}

theorem le_maxTs (h : t.documents.get? (id, ts) ≠ none) : ts ≤ t.maxTs := by
  have hmem : (id, ts) ∈ t.documents.keys := by
    by_contra hno
    exact h (get?_eq_none_iff _ |>.2 hno)
  exact (Store.le_foldl_max _ 0).2 ts (mem_map.2 ⟨_, hmem, rfl⟩)

theorem maxTs_le {n : Nat} (h : ∀ id ts, t.documents.get? (id, ts) ≠ none → ts ≤ n) :
    t.maxTs ≤ n := by
  refine Store.foldl_max_le (Nat.zero_le n) fun ts hts => ?_
  obtain ⟨⟨id, ts⟩, hmem, rfl⟩ := mem_map.1 hts
  exact h id ts fun hno => (get?_eq_none_iff _ |>.1 hno) hmem

theorem maxTs_le_put : t.maxTs ≤ (t.put rows shard).maxTs :=
  maxTs_le fun _ _ h => le_maxTs (get?_putAll_ne_none h)

theorem le_maxTs_put {row : DocumentRow V} (h : ((id, ts), row) ∈ rows.documents) :
    ts ≤ (t.put rows shard).maxTs :=
  le_maxTs (get?_putAll_of_mem (mem_map.2 ⟨_, h, rfl⟩))

theorem maxTs_le_writeRows {strategy : ConflictStrategy} :
    t.maxTs ≤ ((t.writeRows rows strategy shard).getD t).maxTs := by
  unfold writeRows
  split
  · exact le_rfl
  · exact maxTs_le_put

end PgTables

/-! ## Who holds a timestamp -/

namespace PostgresDocStore

variable {s s' : PostgresDocStore V} {shard value ts : Nat}

/-- A committed unit of the shard has the timestamp, or its open transaction has drawn it. -/
def Holds (s : PostgresDocStore V) (shard ts : Nat) : Prop :=
  (shard, ts) ∈ s.committed ∨ ∃ tx, s.transactions.get? shard = some tx ∧ ts ∈ tx.timestamps

/-- What a transaction has drawn is at or below the sequence, or will be in the table. -/
def Backed (sequence : Nat) (tx : PgTransaction V) : Prop :=
  (∀ p ∈ tx.stamped, p.1 ≤ sequence ∨ p.2.documents ≠ []) ∧
    ∀ ts ∈ tx.drawn, ts ≤ sequence ∨ ∃ unit ∈ tx.todo.head?, unit.documents ≠ []

structure Inv (s : PostgresDocStore V) : Prop where
  /-- Whoever draws next gets more than what is committed. -/
  covered : ∀ p ∈ s.committed, p.2 ≤ s.sequence ∨ p.2 ≤ s.tables.maxTs
  backed : ∀ shard tx, s.transactions.get? shard = some tx → Backed s.sequence tx
  apart : ∀ a b ts, s.Holds a ts → s.Holds b ts → a = b

theorem Inv.erase (h : s.Inv) (shard : Nat) :
    Inv { s with transactions := s.transactions.erase shard } := by
  have hget : ∀ {a tx}, (s.transactions.erase shard).get? a = some tx →
      s.transactions.get? a = some tx := fun htx => (get?_erase_eq_some.1 htx).2
  have hholds : ∀ {a ts}, Holds { s with transactions := s.transactions.erase shard } a ts →
      s.Holds a ts := by
    rintro a ts (hc | ⟨tx, htx, hts⟩)
    · exact .inl hc
    · exact .inr ⟨tx, hget htx, hts⟩
  exact ⟨h.covered, fun a tx htx => h.backed a tx (hget htx),
    fun a b ts ha hb => h.apart a b ts (hholds ha) (hholds hb)⟩

/-- A transaction goes on with timestamps that nobody else holds. -/
theorem Inv.set (h : s.Inv) {tx : PgTransaction V} {sequence : Nat} (hseq : s.sequence ≤ sequence)
    (hbacked : Backed sequence tx) (hown : ∀ ts ∈ tx.timestamps, ∀ a, s.Holds a ts → a = shard) :
    Inv { s with sequence, transactions := s.transactions.set shard tx } := by
  have hholds : ∀ {a ts}, Holds
    { s with sequence, transactions := s.transactions.set shard tx } a ts →
      s.Holds a ts ∨ a = shard ∧ ts ∈ tx.timestamps := by
    rintro a ts (hc | ⟨tx', htx', hts⟩)
    · exact .inl (.inl hc)
    · rcases get?_set_eq_some.1 htx' with ⟨rfl, rfl⟩ | ⟨-, htx'⟩
      · exact .inr ⟨rfl, hts⟩
      · exact .inl (.inr ⟨tx', htx', hts⟩)
  refine ⟨fun p hp => (h.covered p hp).imp_left (·.trans hseq), fun a tx' htx' => ?_, ?_⟩
  · rcases get?_set_eq_some.1 htx' with ⟨-, rfl⟩ | ⟨-, htx'⟩
    · exact hbacked
    · obtain ⟨hst, hdr⟩ := h.backed a tx' htx'
      exact ⟨fun p hp => (hst p hp).imp_left (·.trans hseq),
        fun ts hts => (hdr ts hts).imp_left (·.trans hseq)⟩
  · intro a b ts ha hb
    rcases hholds ha with hold | ⟨rfl, hnew⟩ <;> rcases hholds hb with hold' | ⟨rfl, hnew'⟩
    · exact h.apart a b ts hold hold'
    · exact hown ts hnew' a hold
    · exact (hown ts hnew b hold').symm
    · rfl

/-- The step the condition is about: what is drawn is above what anyone else holds. -/
theorem Inv.allocate (h : s.Inv) (hspaced : s.Spaced (.allocate shard value))
    (hs : s.allocate shard value = some s') : s'.Inv := by
  unfold PostgresDocStore.allocate at hs
  split at hs
  · rename_i tx htx
    split at hs
    · rename_i hcond
      obtain ⟨hseq, hdrawn, htodo⟩ := hcond
      cases hs
      obtain ⟨hst, -⟩ := h.backed shard tx htx
      have hfresh : ∀ a, s.Holds a (max value ((s.visible shard tx).maxTs + 1)) → a = shard := by
        intro a ha
        by_contra hne
        rcases ha with hc | ⟨tx', htx', hts⟩
        · have hvisible : s.tables.maxTs ≤ (s.visible shard tx).maxTs := PgTables.maxTs_le_put
          have := h.covered _ hc
          omega
        · have hmem : tx' ∈ s.others shard :=
            mem_map.2 ⟨_, mem_filter.2 ⟨(get?_eq_some_iff _).1 htx', by simpa using hne⟩, rfl⟩
          rcases hspaced tx htx with ⟨-, hbelow⟩ | ⟨hnone, -⟩
          · have := hbelow tx' hmem _ hts
            omega
          · rw [hnone tx' hmem] at hts
            cases hts
      refine h.set (Nat.le_of_lt hseq) ⟨?_, ?_⟩ ?_
      · exact fun p hp => (hst p hp).imp_left (·.trans (Nat.le_of_lt hseq))
      · rintro ts ⟨⟩
        rcases hspaced tx htx with ⟨hahead, -⟩ | ⟨-, hdocs⟩
        · exact .inl (by omega)
        · obtain ⟨unit, todo, heq⟩ := exists_cons_of_ne_nil htodo
          exact .inr ⟨unit, by simp [heq], hdocs unit (by simp [heq])⟩
      · intro ts hts a ha
        rcases mem_append.1 hts with hts | hts
        · refine h.apart a shard ts ha (.inr ⟨tx, htx, ?_⟩)
          exact mem_append_left _ hts
        · obtain rfl : ts = _ := by simpa using hts
          exact hfresh a ha
    · cases hs
  · cases hs

theorem Inv.insert (h : s.Inv) (hs : s.insert shard = some s') : s'.Inv := by
  unfold PostgresDocStore.insert at hs
  split at hs
  · rename_i stamped ts unit todo htx
    split at hs
    · cases hs
    · split at hs <;> cases hs
      · obtain ⟨hst, hdr⟩ := h.backed shard _ htx
        refine h.set le_rfl ⟨?_, by rintro ts ⟨⟩⟩ ?_
        · intro p hp
          rcases mem_append.1 hp with hp | hp
          · exact hst p hp
          · obtain rfl : p = (ts, unit) := by simpa using hp
            refine (hdr ts rfl).imp_right ?_
            rintro ⟨_, hu, hne⟩
            cases hu
            exact hne
        · intro ts' hts' a ha
          refine h.apart a shard ts' ha (.inr ⟨_, htx, ?_⟩)
          simpa [PgTransaction.timestamps] using hts'
      · exact h.erase shard
  · cases hs

theorem Inv.commit (h : s.Inv) (hs : s.commit shard = some s') : s'.Inv := by
  unfold PostgresDocStore.commit at hs
  split at hs
  · rename_i stamped htx
    cases hs
    have herase := h.erase shard
    have hholds : ∀ {a ts}, (a, ts) ∈ s.committed ++ stamped.map (fun p => (shard, p.1)) →
        s.Holds a ts := by
      intro a ts hmem
      rcases mem_append.1 hmem with hmem | hmem
      · exact .inl hmem
      · obtain ⟨p, hp, heq⟩ := mem_map.1 hmem
        cases heq
        exact .inr ⟨_, htx, mem_append_left _ (mem_map.2 ⟨p, hp, rfl⟩)⟩
    have hheld : ∀ {a ts}, Holds { s with
        transactions := s.transactions.erase shard
        committed := s.committed ++ stamped.map fun p => (shard, p.1) } a ts → s.Holds a ts := by
      rintro a ts (hc | ⟨tx, hget, hts⟩)
      · exact hholds hc
      · exact .inr ⟨tx, (get?_erase_eq_some.1 hget).2, hts⟩
    refine ⟨fun p hp => ?_, herase.backed, fun a b ts ha hb => h.apart a b ts (hheld ha) (hheld hb)⟩
    rcases mem_append.1 hp with hp | hp
    · exact (h.covered p hp).imp_right (·.trans PgTables.maxTs_le_put)
    · obtain ⟨q, hq, rfl⟩ := mem_map.1 hp
      refine ((h.backed shard _ htx).1 q hq).imp_right fun hdocs => ?_
      obtain ⟨d, ds, hds⟩ := exists_cons_of_ne_nil hdocs
      have hrow : ((d.id, q.1), (⟨d.prevTs, d.value⟩ : DocumentRow V)) ∈
          (PgTransaction.rows ⟨stamped, none, []⟩).documents :=
        mem_flatMap.2 ⟨q, hq, by simp [CommitUnit.stamp, hds]⟩
      exact PgTables.le_maxTs_put hrow
  · cases hs

theorem Inv.step (h : s.Inv) {e : PgEvent V} (hspaced : s.Spaced e) (hs : s.step e = some s') :
    s'.Inv := by
  cases e with
  | write rows strategy shard =>
    simp only [PostgresDocStore.step] at hs
    split at hs <;> cases hs
    exact ⟨fun p hp => (h.covered p hp).imp_right (·.trans PgTables.maxTs_le_writeRows), h.backed,
      h.apart⟩
  | begin shard units =>
    simp only [PostgresDocStore.step] at hs
    split at hs <;> cases hs
    refine h.set le_rfl ⟨?_, by rintro ts ⟨⟩⟩ ?_
    · intro p hp
      cases hp
    · intro ts hts
      cases hts
  | allocate shard value => exact h.allocate hspaced hs
  | insert shard => exact h.insert hs
  | commit shard => exact h.commit hs
  | rollback shard =>
    simp only [PostgresDocStore.step] at hs
    split at hs <;> cases hs
    exact h.erase shard

theorem Inv.new (tables : PgTables V) (sequence : Nat) :
    Inv (PostgresDocStore.new tables sequence) where
  covered := fun _ hp => by cases hp
  backed := fun _ _ htx => by simp at htx
  apart := fun a b ts ha _ => by
    rcases ha with ha | ⟨tx, htx, -⟩
    · cases ha
    · simp at htx

end PostgresDocStore

open PostgresDocStore in
/-- Over any tables and any value of the sequence, with any `write` calls at any time: in every run
in which each unit is stamped while the sequence is ahead, or while no other shard has an open draw,
units of different shards are committed with different timestamps. -/
theorem committed_timestamps_distinct {tables : PgTables V} {sequence : Nat}
    {events : List (PgEvent V)} {s : PostgresDocStore V}
    (hspaced : Guarded PostgresDocStore.step Spaced (new tables sequence) events)
    (hrun : run PostgresDocStore.step (new tables sequence) events = some s) :
    ∀ a b ts, (a, ts) ∈ s.committed → (b, ts) ∈ s.committed → a = b := by
  have hinv : s.Inv := run_invariant_of_guarded (I := Inv) (fun _ _ _ h hg hs => h.step hg hs)
    (.new tables sequence) hspaced hrun
  exact fun a b ts ha hb => hinv.apart a b ts (.inl ha) (.inl hb)

namespace PostgresExample

open WriterExample PostgresDocStore

/-- Someone has written a row at timestamp 10, with the sequence at 0. -/
def importedRow : PgEvent Nat := .write ⟨[((doc, 10), ⟨none, some 1⟩)], []⟩ .overwrite 0

def update (id : InternalDocumentId) (value : Nat) : CommitUnit Nat :=
  ⟨[⟨id, none, some value⟩], []⟩

/-- A batch of one unit. -/
def batch (shard value : Nat) (unit : CommitUnit Nat) : List (PgEvent Nat) :=
  [.begin shard [unit], .allocate shard value, .insert shard, .commit shard]

/-- Shards 1 and 2 commit one after the other, behind the imported row. -/
def oneByOne : List (PgEvent Nat) :=
  importedRow :: (batch 1 1 (update doc 5) ++ batch 2 2 (update other 6))

/-- Shards 1 and 2 draw before either has committed. -/
def together : List (PgEvent Nat) :=
  [importedRow, .begin 1 [update doc 5], .begin 2 [update other 6], .allocate 1 1, .allocate 2 2,
    .insert 1, .insert 2, .commit 1, .commit 2]

end PostgresExample

open PostgresDocStore PostgresExample in
/-- A run that meets the condition with the sequence far behind the table. -/
theorem committed_timestamps_distinct_one_by_one : ∃ s,
    Guarded PostgresDocStore.step Spaced (new ⟨.empty, .empty⟩ 0) oneByOne ∧
      run PostgresDocStore.step (new ⟨.empty, .empty⟩ 0) oneByOne = some s ∧
      s.committed = [(1, 11), (2, 12)] ∧
      ∀ a b ts, (a, ts) ∈ s.committed → (b, ts) ∈ s.committed → a = b := by
  refine exists_and_left.2 ((and_iff_left_of_imp fun hspaced => ?_).2 (by decide +kernel))
  refine exists_some_imp (·.committed = [(1, 11), (2, 12)]) (by decide +kernel)
    fun s hrun hc => ⟨hc, ?_⟩
  exact committed_timestamps_distinct hspaced hrun

open PostgresDocStore PostgresExample in
/-- Two batches at the same time: both draw the timestamp after the imported row, and both commit.
-/
theorem concurrent_batches_share_timestamp : ∃ s,
    run PostgresDocStore.step (new ⟨.empty, .empty⟩ 0) together = some s ∧
      (1, 11) ∈ s.committed ∧ (2, 11) ∈ s.committed := by
  decide +kernel

end Helipod
