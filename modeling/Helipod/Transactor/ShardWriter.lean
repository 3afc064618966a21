import Helipod.Transactor.Context

/-!
# The shard writer

Model of `ShardWriter` (`transactor/src/shard-writer.ts`) with both of its
commit paths, and of `MonotonicTimestampOracle` and `AsyncMutex` as it uses
them. The code between two `await`s is one step. An event says which `await`
resumes, and with what: a body's next operation, the mutex being granted, the
answer of the store.

A write call to the store (`commitWrite`, `commitWriteBatch`) is three events:
the store draws the timestamps, lands the rows, and the call resolves. Until
it has landed it may also be rejected, and then nothing of it lands.

The mutex admits any waiter when it is free. The source admits the first one,
so every run of the source is a run of the model.

Left out: the headroom counters (a body may throw at any point instead), the
health counters, and the values transactions return.
-/

namespace Helipod

open Option

/-! ## State -/

/-- `MonotonicTimestampOracle`; the transactor reads only `lastCommitted`. -/
structure Oracle where
  current : Nat
  lastCommitted : Nat
  deriving DecidableEq, Repr

namespace Oracle

def new (start : Nat) : Oracle := ⟨start, start⟩

def publishCommitted (o : Oracle) (ts : Nat) : Oracle :=
  if o.lastCommitted < ts then { o with lastCommitted := ts } else o

def observeTimestamp (o : Oracle) (ts : Nat) : Oracle where
  current := if o.current < ts then ts else o.current
  lastCommitted := if o.lastCommitted < ts then ts else o.lastCommitted

@[simp] theorem publishCommitted_lastCommitted (o : Oracle) (ts : Nat) :
    (o.publishCommitted ts).lastCommitted = max o.lastCommitted ts := by
  unfold publishCommitted
  split
  · exact (max_eq_right (le_of_lt ‹_›)).symm
  · exact (max_eq_left (not_lt.1 ‹_›)).symm

@[simp] theorem observeTimestamp_lastCommitted (o : Oracle) (ts : Nat) :
    (o.observeTimestamp ts).lastCommitted = max o.lastCommitted ts := by
  simp only [observeTimestamp]
  split <;> omega

end Oracle

structure RecentCommit where
  ts : Nat
  writes : RangeSet
  deriving DecidableEq

/-- How a call of `runInTransaction` ended. -/
inductive Outcome where
  | committed (commitTs : Nat)
  | readOnly (snapshotTs : Nat)
  | failed
  deriving DecidableEq, Repr

/-- The `commitTs` of a call's result. -/
def Outcome.commitTs : Outcome → Option Nat
  | .committed ts => some ts
  | .readOnly ts => some ts
  | .failed => none

/-- Where a call is. `committing` covers the mutex-held part and the wait for the batch.
In `conflict` an `OccConflictError` is on its way to the retry loop, with the
batch whose promotion the loop awaits first. -/
inductive Phase where
  | body
  | queued
  | committing
  | cut (batch : Nat)
  | conflict (wait : Option Nat)
  | settled (outcome : Outcome)
  | done (outcome : Outcome)
  deriving DecidableEq, Repr

/-- The call still holds its snapshot. -/
def Phase.live : Phase → Bool
  | .done _ => false
  | _ => true

/-- The timestamp of the result, once there is one. -/
def Phase.resultTs : Phase → Option Nat
  | .settled o => o.commitTs
  | .done o => o.commitTs
  | _ => none

namespace Phase

@[simp] theorem live_body : live .body = true := rfl
@[simp] theorem live_queued : live .queued = true := rfl
@[simp] theorem live_committing : live .committing = true := rfl
@[simp] theorem live_cut (b : Nat) : live (.cut b) = true := rfl
@[simp] theorem live_conflict (wait : Option Nat) : live (.conflict wait) = true := rfl
@[simp] theorem live_settled (o : Outcome) : live (.settled o) = true := rfl
@[simp] theorem live_done (o : Outcome) : live (.done o) = false := rfl

end Phase

structure Call (V : Type) where
  attempt : Nat
  maxRetries : Nat
  ctx : TransactionContext V
  phase : Phase
  deriving DecidableEq

/-- A group-commit batch. The source keeps `writesUnion` and `writtenDocKeys` up to date
as units are appended. -/
structure Batch (V : Type) where
  id : Nat
  units : List (StagedUnit V)
  deriving DecidableEq

def Batch.writesUnion {V : Type} (b : Batch V) : RangeSet :=
  b.units.flatMap fun u => u.ctx.writeRanges

def Batch.writtenDocKeys {V : Type} (b : Batch V) : List InternalDocumentId :=
  b.units.flatMap fun u => u.ctx.staged.keys

/-- Who holds the mutex across an `await`: a call resolving `prev_ts` for its staged
writes, or, on the single-commit path, a call waiting for `commitWrite`. -/
inductive Holder (V : Type) where
  | reading (call : Nat) (ctx : TransactionContext V) (read : List (DocumentLogEntry V))
      (todo : List (InternalDocumentId × Option V))
  | writing (unit : StagedUnit V) (ts : Option Nat) (landed : Bool)
  deriving DecidableEq

/-- `flushWithSplit` in progress: the units still to land, with their timestamps once the
store has drawn them. -/
structure Flush (V : Type) where
  batch : Batch V
  remaining : List (Option Nat × StagedUnit V)
  remaining_sub : (remaining.map Prod.snd).Sublist batch.units
  landed : Bool
  guardRejected : List (StagedUnit V)
  splits : Nat
  deriving DecidableEq

/-- A finished flush waiting for the mutex to publish. -/
structure FlushOutcome (V : Type) where
  batch : Batch V
  landed : List (Nat × StagedUnit V)
  landed_sub : (landed.map Prod.snd).Sublist batch.units
  guardRejected : List (StagedUnit V)
  chunkUnits : List (StagedUnit V)
  chunkIsConflict : Bool
  deriving DecidableEq

/-- The committer loop: not running, awaiting the mutex to detach, flushing off the
mutex, or awaiting the mutex to publish. `off` is `committerRunning = false`. -/
inductive Committer (V : Type) where
  | off
  | detaching
  | flushing (flush : Flush V)
  | publishing (outcome : FlushOutcome V)
  deriving DecidableEq

structure ShardWriter (V : Type) where
  shardId : Nat
  groupCommit : Bool
  mutex : Option (Holder V)
  recentCommits : List RecentCommit
  activeSnapshots : OrderedMap Nat Nat
  pendingBatch : Option (Batch V)
  committer : Committer V
  /-- The batches whose `promoted` promise is fulfilled, and the next fresh batch id. -/
  promoted : List Nat
  nextBatch : Nat
  oracle : Oracle
  calls : List (Call V)
  deriving DecidableEq

/-- `MAX_SPLIT_RETRIES`. -/
def maxSplitRetries : Nat := 3

namespace ShardWriter

variable {V : Type}

@[simp] def new (shardId : Nat) (groupCommit : Bool) (oracle : Oracle) : ShardWriter V where
  shardId := shardId
  groupCommit := groupCommit
  mutex := none
  recentCommits := []
  activeSnapshots := .empty
  pendingBatch := none
  committer := .off
  promoted := []
  nextBatch := 0
  oracle := oracle
  calls := []

/-- The batch being flushed: set at detach, cleared at publish. -/
def flushingBatch (w : ShardWriter V) : Option (Batch V) :=
  match w.committer with
  | .flushing f => some f.batch
  | .publishing o => some o.batch
  | _ => none

/-! ## Snapshots and pruning -/

def retain (m : OrderedMap Nat Nat) (ts : Nat) : OrderedMap Nat Nat :=
  m.set ts ((m.get? ts).getD 0 + 1)

def release (m : OrderedMap Nat Nat) (ts : Nat) : OrderedMap Nat Nat :=
  if (m.get? ts).getD 0 ≤ 1 then m.erase ts else m.set ts ((m.get? ts).getD 0 - 1)

def minActiveSnapshot (w : ShardWriter V) : Nat :=
  w.activeSnapshots.keys.min?.getD w.oracle.lastCommitted

def prune (w : ShardWriter V) : ShardWriter V :=
  { w with recentCommits := w.recentCommits.filter fun c => w.minActiveSnapshot < c.ts }

/-! ## The steps -/

/-- Take a snapshot of the last committed timestamp and start an attempt of the body. -/
def beginAttempt (w : ShardWriter V) : ShardWriter V × TransactionContext V :=
  let snapshotTs := w.oracle.lastCommitted
  ({ w with activeSnapshots := retain w.activeSnapshots snapshotTs }, { snapshotTs })

/-- A call of `runInTransaction` arrives. -/
def start (w : ShardWriter V) (maxRetries : Nat) : ShardWriter V :=
  let (w, ctx) := w.beginAttempt
  { w with calls := w.calls ++ [⟨0, maxRetries, ctx, .body⟩] }

def setCall (w : ShardWriter V) (i : Nat) (c : Call V) : ShardWriter V :=
  { w with calls := w.calls.set i c }

/-- Resolve or reject what the committing call `i` awaits. -/
def settle (calls : List (Call V)) (i : Nat) (phase : Phase) : List (Call V) :=
  match calls[i]? with
  | some c => if c.phase = .committing then calls.set i { c with phase } else calls
  | none => calls

/-- The rejection of a commit: an `OccConflictError` goes to the retry loop, untagged. -/
def rejection (isConflict : Bool) : Phase :=
  if isConflict then .conflict none else .settled .failed

/-- Validation against the commits younger than the snapshot. -/
def conflictsWithRing (w : ShardWriter V) (ctx : TransactionContext V) : Bool :=
  w.recentCommits.any fun c =>
    decide (ctx.snapshotTs < c.ts) && ctx.validatedReads.intersects c.writes

def conflictsWithBatch (ctx : TransactionContext V) (b : Option (Batch V)) : Option Nat :=
  b.bind fun b => if ctx.validatedReads.intersects b.writesUnion then some b.id else none

/-- The first staged document that an in-flight unit writes, and the batch to wait for. -/
def batchCut (w : ShardWriter V) (ctx : TransactionContext V) : Option Nat :=
  ctx.staged.keys.findSome? fun id =>
    match w.flushingBatch with
    | some b => if id ∈ b.writtenDocKeys then some b.id else pendingHit id
    | none => pendingHit id
where
  pendingHit (id : InternalDocumentId) : Option Nat :=
    w.pendingBatch.bind fun b => if id ∈ b.writtenDocKeys then some b.id else none

/-- What the mutex-held step does first: throw, cut, or go on to resolve `prev_ts`. -/
def admission (w : ShardWriter V) (ctx : TransactionContext V) : Phase :=
  if w.conflictsWithRing ctx then .conflict none
  else if w.groupCommit then
    match conflictsWithBatch ctx w.flushingBatch with
    | some b => .conflict (some b)
    | none =>
      match conflictsWithBatch ctx w.pendingBatch with
      | some b => .conflict (some b)
      | none =>
        match w.batchCut ctx with
        | some b => .cut b
        | none => .committing
  else .committing

/-- The mutex is granted to the queued call `i`. -/
def acquire (w : ShardWriter V) (i : Nat) (c : Call V) : ShardWriter V :=
  let phase := w.admission c.ctx
  let w := w.setCall i { c with phase }
  if phase = .committing then
    { w with mutex := some (.reading i c.ctx [] c.ctx.staged.entries) }
  else w

/-- `ensureCommitter`. -/
def ensureCommitter : Committer V → Committer V
  | .off => .detaching
  | c => c

/-- The pending batch, or a fresh one if it has just been detached. -/
def openBatch (w : ShardWriter V) : Batch V := w.pendingBatch.getD ⟨w.nextBatch, []⟩

/-- `commit` and `stageUnit` after the last `prev_ts`: call `commitWrite`, or append the
unit to the pending batch and make sure the committer runs. -/
def stageUnit (w : ShardWriter V) (u : StagedUnit V) : ShardWriter V :=
  if w.groupCommit then
    { w with
      mutex := none
      pendingBatch := some { w.openBatch with units := w.openBatch.units ++ [u] }
      nextBatch := if w.pendingBatch.isNone then w.nextBatch + 1 else w.nextBatch
      committer := ensureCommitter w.committer }
  else { w with mutex := some (.writing u none false) }

/-- `docStore.get` answers for the next staged write of the holder. -/
def prevAnswered (store : Store V) (w : ShardWriter V) : Option (ShardWriter V) :=
  match w.mutex with
  | some (.reading i ctx read ((id, value) :: todo)) =>
    let entry := ⟨id, (store.get id none).map Prod.fst, value⟩
    if todo.isEmpty then some (w.stageUnit ⟨i, ctx, read ++ [entry]⟩)
    else some { w with mutex := some (.reading i ctx (read ++ [entry]) todo) }
  | _ => none

/-- The timestamps the store may draw next: fresh and increasing. -/
def freshTimestamps (store : Store V) (tss : List Nat) : Prop :=
  tss.Pairwise (· < ·) ∧ ∀ t ∈ tss, store.allocated < t

instance (store : Store V) (tss : List Nat) : Decidable (freshTimestamps store tss) :=
  inferInstanceAs (Decidable (_ ∧ _))

def draw (store : Store V) (tss : List Nat) : Store V :=
  { store with allocated := tss.foldl max store.allocated }

/-- The store draws the timestamps of the write call in flight. -/
def allocate (store : Store V) (w : ShardWriter V) (tss : List Nat) :
    Option (Store V × ShardWriter V) :=
  if freshTimestamps store tss then
    match w.mutex, w.committer with
    | some (.writing u none false), _ =>
      match tss with
      | [ts] => some (draw store tss, { w with mutex := some (.writing u (some ts) false) })
      | _ => none
    | _, .flushing f =>
      if h : tss.length = f.remaining.length ∧ f.landed = false ∧ ∀ e ∈ f.remaining, e.1 = none then
        some (draw store tss, { w with
          committer := .flushing { f with
            remaining := (tss.zip (f.remaining.map Prod.snd)).map fun p => (some p.1, p.2)
            remaining_sub := by
              have : ((tss.zip (f.remaining.map Prod.snd)).map fun p => ((some p.1, p.2) :
                  Option Nat × StagedUnit V)).map Prod.snd = f.remaining.map Prod.snd := by
                rw [List.map_map]
                exact List.map_snd_zip (by simp [h.1])
              rw [this]
              exact f.remaining_sub } })
      else none
    | _, _ => none
  else none

/-- The rows of units that have their timestamps, as the store keeps them. -/
def commitsOf (shard : Nat) (units : List (Option Nat × StagedUnit V)) : List (Commit V) :=
  units.filterMap fun e => e.1.map fun ts => ⟨shard, ts, e.2⟩

/-- The rows of the write call in flight land, all at once. -/
def land (store : Store V) (w : ShardWriter V) : Option (Store V × ShardWriter V) :=
  match w.mutex, w.committer with
  | some (.writing u (some ts) false), _ =>
    some ({ store with log := store.log ++ commitsOf w.shardId [(some ts, u)] },
      { w with mutex := some (.writing u (some ts) true) })
  | _, .flushing f =>
    if f.landed = false ∧ ∀ e ∈ f.remaining, e.1.isSome then
      some ({ store with log := store.log ++ commitsOf w.shardId f.remaining },
        { w with committer := .flushing { f with landed := true } })
    else none
  | _, _ => none

/-- The units of a rejected write call lose the timestamps the store had drawn. -/
def undrawn (units : List (Option Nat × StagedUnit V)) : List (Option Nat × StagedUnit V) :=
  units.map fun e => (none, e.2)

theorem map_snd_undrawn (units : List (Option Nat × StagedUnit V)) :
    (undrawn units).map Prod.snd = units.map Prod.snd := by
  simp [undrawn]

/-- One rejection inside `flushWithSplit`: a commit guard that names unit `unitIndex` costs
that unit only, as long as the split budget lasts; any other error costs the rest of the
batch. -/
def flushRejected (f : Flush V) (unitIndex : Option Nat) (isConflict : Bool) : Committer V :=
  match unitIndex.bind fun k => f.remaining[k]?.map fun e => (k, e.2) with
  | some (k, u) =>
    if f.splits < maxSplitRetries then
      let rest := undrawn (f.remaining.eraseIdx k)
      if rest.isEmpty then
        .publishing
          { batch := f.batch, landed := [], landed_sub := List.nil_sublist _
            guardRejected := f.guardRejected ++ [u], chunkUnits := [], chunkIsConflict := false }
      else
        .flushing
          { f with
            remaining := rest
            remaining_sub := by
              rw [map_snd_undrawn]
              exact ((List.eraseIdx_sublist _ k).map Prod.snd).trans f.remaining_sub
            guardRejected := f.guardRejected ++ [u]
            splits := f.splits + 1 }
    else whole f
  | none => whole f
where
  whole (f : Flush V) : Committer V :=
    .publishing
      { batch := f.batch, landed := [], landed_sub := List.nil_sublist _
        guardRejected := f.guardRejected, chunkUnits := f.remaining.map Prod.snd
        chunkIsConflict := isConflict }

/-- The write call in flight is rejected. On the single-commit path the error goes to the
call, which leaves the mutex. -/
def reject (w : ShardWriter V) (unitIndex : Option Nat) (isConflict : Bool) :
    Option (ShardWriter V) :=
  match w.mutex, w.committer with
  | some (.writing u _ false), _ =>
    some { w with mutex := none, calls := settle w.calls u.call (rejection isConflict) }
  | _, .flushing f =>
    if f.landed = false then some { w with committer := flushRejected f unitIndex isConflict }
    else none
  | _, _ => none

/-- Record a landed unit: ring push, committed clock, and the caller's result. -/
def publishUnit (w : ShardWriter V) (ts : Nat) (u : StagedUnit V) : ShardWriter V :=
  { w with
    recentCommits := w.recentCommits ++ [⟨ts, u.ctx.writeRanges⟩]
    oracle := w.oracle.publishCommitted ts
    calls := settle w.calls u.call (.settled (.committed ts)) }

def publishUnits (w : ShardWriter V) (units : List (Nat × StagedUnit V)) : ShardWriter V :=
  units.foldl (fun w p => w.publishUnit p.1 p.2) w

/-- The timestamps drawn for the units of a landed flush, in unit order. -/
def landedUnits (units : List (Option Nat × StagedUnit V)) : List (Nat × StagedUnit V) :=
  units.filterMap fun e => e.1.map fun ts => (ts, e.2)

theorem map_snd_landedUnits_sublist (units : List (Option Nat × StagedUnit V)) :
    ((landedUnits units).map Prod.snd).Sublist (units.map Prod.snd) := by
  induction units with
  | nil => exact List.Sublist.slnil
  | cons e es ih =>
    obtain ⟨_ | t, u⟩ := e
    · exact ih.cons u
    · exact ih.cons_cons u

/-- The write call in flight resolves. On the single-commit path the rest of `commit` runs:
publish, fan out, prune, leave the mutex. The result lists the published timestamps. -/
def resolve (w : ShardWriter V) : Option (ShardWriter V × List Nat) :=
  match w.mutex, w.committer with
  | some (.writing u (some ts) true), _ =>
    some ({ (w.publishUnits [(ts, u)]).prune with mutex := none }, [ts])
  | _, .flushing f =>
    if f.landed = true then
      some ({ w with
        committer := .publishing
          { batch := f.batch
            landed := landedUnits f.remaining
            landed_sub := (map_snd_landedUnits_sublist _).trans f.remaining_sub
            guardRejected := f.guardRejected
            chunkUnits := []
            chunkIsConflict := false } }, [])
    else none
  | _, _ => none

/-- The committer gets the mutex to detach the pending batch, or stops if there is none. -/
def detach (w : ShardWriter V) : Option (ShardWriter V) :=
  match w.mutex, w.committer with
  | none, .detaching =>
    match w.pendingBatch with
    | none => some { w with committer := .off }
    | some b =>
      if b.units.isEmpty then some { w with committer := .off }
      else some { w with
        pendingBatch := none
        committer := .flushing
          { batch := b
            remaining := b.units.map fun u => (none, u)
            remaining_sub := by simp
            landed := false
            guardRejected := []
            splits := 0 } }
  | _, _ => none

def settleAll (calls : List (Call V)) (units : List (StagedUnit V)) (phase : Phase) :
    List (Call V) :=
  units.foldl (fun calls u => settle calls u.call phase) calls

/-- The committer gets the mutex to publish the landed units in order and to reject the rest. -/
def publish (w : ShardWriter V) : Option (ShardWriter V × List Nat) :=
  match w.mutex, w.committer with
  | none, .publishing o =>
    let w' := w.publishUnits o.landed
    let w' := if o.landed.isEmpty then w' else w'.prune
    some ({ w' with
      calls := settleAll (settleAll w'.calls o.guardRejected (.settled .failed)) o.chunkUnits
        (rejection o.chunkIsConflict)
      committer := .detaching
      promoted := w.promoted ++ [o.batch.id] }, o.landed.map Prod.fst)
  | _, _ => none

/-- The retry loop starts the next attempt: release the old snapshot, take a new one. -/
def retry (w : ShardWriter V) (i : Nat) (c : Call V) : ShardWriter V :=
  let w := { w with activeSnapshots := release w.activeSnapshots c.ctx.snapshotTs }
  let (w, ctx) := w.beginAttempt
  w.setCall i { c with attempt := c.attempt + 1, ctx, phase := .body }

/-- The call ends and releases its snapshot. -/
def finish (w : ShardWriter V) (i : Nat) (c : Call V) (outcome : Outcome) : ShardWriter V :=
  { w with activeSnapshots := release w.activeSnapshots c.ctx.snapshotTs }.setCall i
    { c with phase := .done outcome }

/-- Has the awaited batch, if any, been promoted? -/
def waited (w : ShardWriter V) (wait : Option Nat) : Bool := wait.all fun b => b ∈ w.promoted

end ShardWriter

/-! ## Events -/

inductive Event (V : Type) where
  /-- A call of `runInTransaction`. -/
  | start (maxRetries : Nat)
  | op (call : Nat) (op : CtxOp V)
  | bodyReturns (call : Nat)
  /-- The body throws; `isConflict` if what it throws is an `OccConflictError`. -/
  | bodyThrows (call : Nat) (isConflict : Bool)
  | acquire (call : Nat)
  | prevAnswered
  | allocate (tss : List Nat)
  | land
  | reject (unitIndex : Option Nat) (isConflict : Bool)
  | resolve
  | detach
  | publish
  /-- A batch-cut call wakes up and queues again. -/
  | restage (call : Nat)
  | retry (call : Nat)
  | finish (call : Nat)

namespace ShardWriter

variable {V : Type}

/-- A step of the retry loop of call `i`, `await` to `await`. -/
def stepCall (store : Store V) (w : ShardWriter V) (i : Nat) (c : Call V) :
    Event V → Option (ShardWriter V)
  | .op _ op =>
    if c.phase = .body then some (w.setCall i { c with ctx := c.ctx.apply store.landed op })
      else none
  | .bodyReturns _ =>
    if c.phase = .body then
      some (w.setCall i { c with
        phase := if c.ctx.staged.size = 0 then .settled (.readOnly c.ctx.snapshotTs) else .queued })
    else none
  | .bodyThrows _ isConflict =>
    if c.phase = .body then some (w.setCall i { c with phase := rejection isConflict }) else none
  | .acquire _ =>
    if c.phase = .queued ∧ w.mutex = none then some (w.acquire i c) else none
  | .restage _ =>
    match c.phase with
    | .cut b => if w.waited (some b) then some (w.setCall i { c with phase := .queued }) else none
    | _ => none
  | .retry _ =>
    match c.phase with
    | .conflict wait =>
      if c.attempt < c.maxRetries ∧ w.waited wait then some (w.retry i c) else none
    | _ => none
  | .finish _ =>
    match c.phase with
    | .conflict _ => if c.attempt < c.maxRetries then none else some (w.finish i c .failed)
    | .settled outcome => some (w.finish i c outcome)
    | _ => none
  | _ => none

/-- One step of a writer on the store. The result lists the timestamps handed to
`onCommitted`, in order. -/
def step (store : Store V) (w : ShardWriter V) (e : Event V) :
    Option (Store V × ShardWriter V × List Nat) :=
  match e with
  | .start maxRetries => some (store, w.start maxRetries, [])
  | .op i _ | .bodyReturns i | .bodyThrows i _ | .acquire i | .restage i | .retry i | .finish i =>
    (w.calls[i]?).bind fun c => (w.stepCall store i c e).map fun w => (store, w, [])
  | .prevAnswered => (w.prevAnswered store).map fun w => (store, w, [])
  | .allocate tss => (w.allocate store tss).map fun p => (p.1, p.2, [])
  | .land => (w.land store).map fun p => (p.1, p.2, [])
  | .reject k isConflict => (w.reject k isConflict).map fun w => (store, w, [])
  | .resolve => w.resolve.map fun p => (store, p.1, p.2)
  | .detach => w.detach.map fun w => (store, w, [])
  | .publish => w.publish.map fun p => (store, p.1, p.2)

/-- The steps of the retry loop of call `i`, with their guards. -/
inductive CallActs (store : Store V) (w : ShardWriter V) (i : Nat) (c : Call V) :
    Event V → ShardWriter V → Prop
  | op (op : CtxOp V) (hbody : c.phase = .body) : CallActs store w i c (.op i op)
      (w.setCall i { c with ctx := c.ctx.apply store.landed op })
  | bodyReturns (hbody : c.phase = .body) : CallActs store w i c (.bodyReturns i)
      (w.setCall i { c with
        phase := if c.ctx.staged.size = 0 then .settled (.readOnly c.ctx.snapshotTs) else .queued })
  | bodyThrows (b : Bool) (hbody : c.phase = .body) : CallActs store w i c (.bodyThrows i b)
      (w.setCall i { c with phase := rejection b })
  | acquire (hq : c.phase = .queued) (hm : w.mutex = none) :
      CallActs store w i c (.acquire i) (w.acquire i c)
  | restage {b : Nat} (hcut : c.phase = .cut b) (hwaited : w.waited (some b) = true) :
      CallActs store w i c (.restage i) (w.setCall i { c with phase := .queued })
  | retry {wait : Option Nat} (hconflict : c.phase = .conflict wait)
      (hguard : c.attempt < c.maxRetries ∧ w.waited wait = true) :
      CallActs store w i c (.retry i) (w.retry i c)
  | finish {outcome : Outcome} (hends : c.phase = .settled outcome ∨
      (∃ wait, c.phase = .conflict wait) ∧ ¬ c.attempt < c.maxRetries ∧ outcome = .failed) :
      CallActs store w i c (.finish i) (w.finish i c outcome)

/-- The steps of a writer, branch by branch. -/
inductive Acts (store : Store V) (w : ShardWriter V) :
    Event V → Store V → ShardWriter V → List Nat → Prop
  | start (maxRetries : Nat) : Acts store w (.start maxRetries) store (w.start maxRetries) []
  | call {e : Event V} {i : Nat} {c : Call V} {w' : ShardWriter V} (hi : w.calls[i]? = some c)
      (hw : CallActs store w i c e w') : Acts store w e store w' []
  | staged {i : Nat} {ctx : TransactionContext V} {read : List (DocumentLogEntry V)}
      {id : InternalDocumentId} {value : Option V}
      (hm : w.mutex = some (.reading i ctx read [(id, value)])) : Acts store w .prevAnswered store
      (w.stageUnit ⟨i, ctx, read ++ [⟨id, (store.get id none).map Prod.fst, value⟩]⟩) []
  | prevAnswered {i : Nat} {ctx : TransactionContext V} {read : List (DocumentLogEntry V)}
      {id : InternalDocumentId} {value : Option V} {todo : List (InternalDocumentId × Option V)}
      (hm : w.mutex = some (.reading i ctx read ((id, value) :: todo))) (htodo : todo ≠ []) :
      Acts store w .prevAnswered store { w with
        mutex := some (.reading i ctx
          (read ++ [⟨id, (store.get id none).map Prod.fst, value⟩]) todo) } []
  | allocateOne {u : StagedUnit V} {ts : Nat} (hfresh : freshTimestamps store [ts])
      (hm : w.mutex = some (.writing u none false)) : Acts store w (.allocate [ts])
      (draw store [ts]) { w with mutex := some (.writing u (some ts) false) } []
  | allocate {tss : List Nat} {f : Flush V} {remaining : List (Option Nat × StagedUnit V)}
      (hfresh : freshTimestamps store tss) (hf : w.committer = .flushing f)
      (hlen : tss.length = f.remaining.length) (hl : f.landed = false)
      (hnone : ∀ e ∈ f.remaining, e.1 = none)
      (hrem : remaining = (tss.zip (f.remaining.map Prod.snd)).map fun p => (some p.1, p.2))
      (hsub : (remaining.map Prod.snd).Sublist f.batch.units) : Acts store w (.allocate tss)
      (draw store tss)
      { w with committer := .flushing { f with remaining := remaining, remaining_sub := hsub } } []
  | landOne {u : StagedUnit V} {ts : Nat} (hm : w.mutex = some (.writing u (some ts) false)) :
      Acts store w .land { store with log := store.log ++ commitsOf w.shardId [(some ts, u)] }
      { w with mutex := some (.writing u (some ts) true) } []
  | land {f : Flush V} (hf : w.committer = .flushing f) (hl : f.landed = false)
      (hdrawn : ∀ e ∈ f.remaining, e.1.isSome) :
      Acts store w .land { store with log := store.log ++ commitsOf w.shardId f.remaining }
      { w with committer := .flushing { f with landed := true } } []
  | rejectOne {u : StagedUnit V} {ts : Option Nat} {k : Option Nat} {b : Bool}
      (hm : w.mutex = some (.writing u ts false)) : Acts store w (.reject k b) store
      { w with mutex := none, calls := settle w.calls u.call (rejection b) } []
  | reject {f : Flush V} {k : Option Nat} {b : Bool} (hf : w.committer = .flushing f)
      (hl : f.landed = false) :
      Acts store w (.reject k b) store { w with committer := flushRejected f k b } []
  | resolveOne {u : StagedUnit V} {ts : Nat} (hm : w.mutex = some (.writing u (some ts) true)) :
      Acts store w .resolve store { (w.publishUnits [(ts, u)]).prune with mutex := none } [ts]
  | resolve {f : Flush V} (hf : w.committer = .flushing f) (hl : f.landed = true) :
      Acts store w .resolve store { w with
        committer := .publishing ⟨f.batch, landedUnits f.remaining,
          (map_snd_landedUnits_sublist _).trans f.remaining_sub, f.guardRejected, [], false⟩ } []
  | stop (hm : w.mutex = none) (hc : w.committer = .detaching) :
      Acts store w .detach store { w with committer := .off } []
  | detach {b : Batch V} (hm : w.mutex = none) (hc : w.committer = .detaching)
      (hb : w.pendingBatch = some b) (hsub : ((b.units.map fun u => ((none : Option Nat), u)).map
        Prod.snd).Sublist b.units) : Acts store w .detach store { w with
          pendingBatch := none
          committer := .flushing ⟨b, b.units.map fun u => (none, u), hsub, false, [], 0⟩ } []
  | publish {o : FlushOutcome V} {ring : List RecentCommit} (hm : w.mutex = none)
      (hc : w.committer = .publishing o)
      (hring : ring = (w.publishUnits o.landed).recentCommits ∨
        ring = (w.publishUnits o.landed).prune.recentCommits) : Acts store w .publish store { w with
          recentCommits := ring
          oracle := (w.publishUnits o.landed).oracle
          calls := settleAll (settleAll (w.publishUnits o.landed).calls o.guardRejected
            (.settled .failed)) o.chunkUnits (rejection o.chunkIsConflict)
          committer := .detaching
          promoted := w.promoted ++ [o.batch.id] } (o.landed.map Prod.fst)

theorem publishUnits_eq (w : ShardWriter V) (ps : List (Nat × StagedUnit V)) :
    w.publishUnits ps = { w with
      recentCommits := w.recentCommits ++ ps.map fun p => ⟨p.1, p.2.ctx.writeRanges⟩
      oracle := ps.foldl (fun o p => o.publishCommitted p.1) w.oracle
      calls := ps.foldl (fun calls p => settle calls p.2.call (.settled (.committed p.1)))
        w.calls } := by
  induction ps generalizing w with
  | nil => simp [publishUnits]
  | cons p ps ih =>
    have := ih (w.publishUnit p.1 p.2)
    simp only [publishUnits, List.foldl_cons] at this ⊢
    rw [this]
    simp [publishUnit]

section

variable {store store' : Store V} {w w' : ShardWriter V} {e : Event V} {out : List Nat}

theorem acts_of_call {i : Nat}
    (hs : ((w.calls[i]?).bind fun c => (w.stepCall store i c e).map fun w =>
      ((store, w, []) : Store V × ShardWriter V × List Nat)) = some (store', w', out))
    (he : ∀ c w', w.stepCall store i c e = some w' → CallActs store w i c e w') :
    Acts store w e store' w' out := by
  obtain ⟨c, hc, hs⟩ := bind_eq_some_iff.1 hs
  obtain ⟨_, hw₁, heq⟩ := map_eq_some_iff.1 hs
  cases heq
  exact .call hc (he c w' hw₁)

theorem acts_of_step (hs : w.step store e = some (store', w', out)) :
    Acts store w e store' w' out := by
  cases e with
  | start maxRetries =>
    cases hs
    exact .start maxRetries
  | op i op =>
    refine acts_of_call hs fun c w₁ hc => ?_
    simp only [stepCall] at hc
    split at hc <;> cases hc
    exact .op op ‹_›
  | bodyReturns i =>
    refine acts_of_call hs fun c w₁ hc => ?_
    simp only [stepCall] at hc
    split at hc <;> cases hc
    exact .bodyReturns ‹_›
  | bodyThrows i b =>
    refine acts_of_call hs fun c w₁ hc => ?_
    simp only [stepCall] at hc
    split at hc <;> cases hc
    exact .bodyThrows b ‹_›
  | acquire i =>
    refine acts_of_call hs fun c w₁ hc => ?_
    simp only [stepCall] at hc
    split at hc <;> cases hc
    rename_i hq
    exact .acquire hq.1 hq.2
  | restage i =>
    refine acts_of_call hs fun c w₁ hc => ?_
    simp only [stepCall] at hc
    repeat' split at hc
    all_goals cases hc
    exact .restage ‹_› ‹_›
  | retry i =>
    refine acts_of_call hs fun c w₁ hc => ?_
    simp only [stepCall] at hc
    repeat' split at hc
    all_goals cases hc
    exact .retry ‹_› ‹_›
  | finish i =>
    refine acts_of_call hs fun c w₁ hc => ?_
    simp only [stepCall] at hc
    repeat' split at hc
    all_goals cases hc
    · exact .finish (.inr ⟨⟨_, ‹_›⟩, ‹_›, rfl⟩)
    · exact .finish (.inl ‹_›)
  | prevAnswered =>
    obtain ⟨p, hp, heq⟩ := map_eq_some_iff.1 hs
    cases heq
    unfold ShardWriter.prevAnswered at hp
    split at hp
    · rename_i todo hm
      split at hp <;> cases hp
      · rename_i htodo
        rw [List.isEmpty_iff.1 htodo] at hm
        exact .staged hm
      · rename_i htodo
        exact .prevAnswered hm (by simpa using htodo)
    · cases hp
  | allocate tss =>
    obtain ⟨p, hp, heq⟩ := map_eq_some_iff.1 hs
    cases heq
    unfold ShardWriter.allocate at hp
    repeat' split at hp
    all_goals cases hp
    · exact .allocateOne ‹_› ‹_›
    · rename_i hf _ hguard
      exact .allocate ‹_› hf hguard.1 hguard.2.1 hguard.2.2 rfl _
  | land =>
    obtain ⟨p, hp, heq⟩ := map_eq_some_iff.1 hs
    cases heq
    unfold ShardWriter.land at hp
    repeat' split at hp
    all_goals cases hp
    · exact .landOne ‹_›
    · rename_i hf _ hguard
      exact .land hf hguard.1 hguard.2
  | reject k b =>
    obtain ⟨p, hp, heq⟩ := map_eq_some_iff.1 hs
    cases heq
    unfold ShardWriter.reject at hp
    repeat' split at hp
    all_goals cases hp
    · exact .rejectOne ‹_›
    · exact .reject ‹_› ‹_›
  | resolve =>
    obtain ⟨p, hp, heq⟩ := map_eq_some_iff.1 hs
    cases heq
    unfold ShardWriter.resolve at hp
    repeat' split at hp
    all_goals cases hp
    · exact .resolveOne ‹_›
    · exact .resolve ‹_› ‹_›
  | detach =>
    obtain ⟨p, hp, heq⟩ := map_eq_some_iff.1 hs
    cases heq
    unfold ShardWriter.detach at hp
    repeat' split at hp
    all_goals cases hp
    · exact .stop ‹_› ‹_›
    · exact .stop ‹_› ‹_›
    · exact .detach ‹_› ‹_› ‹_› _
  | publish =>
    obtain ⟨p, hp, heq⟩ := map_eq_some_iff.1 hs
    cases heq
    unfold ShardWriter.publish at hp
    split at hp <;> cases hp
    rename_i o hm hc
    split
    · have := @Acts.publish V store w _ _ hm hc (.inl rfl)
      simpa [publishUnits_eq] using this
    · have := @Acts.publish V store w _ _ hm hc (.inr rfl)
      simpa [publishUnits_eq, ShardWriter.prune] using this

end

end ShardWriter

/-! ## Example transactions -/

namespace WriterExample

def doc : InternalDocumentId := ⟨1, [byte 7]⟩
def other : InternalDocumentId := ⟨1, [byte 8]⟩

def emptyStore : Store Nat := ⟨[], 0⟩

/-- The body of call `i`: read `id`, then write `value` to it. -/
def readModifyWrite (i : Nat) (id : InternalDocumentId) (value : Nat) : List (Event Nat) :=
  [.start 8, .op i (.get id), .op i (.look (pointRange (docKeyspace id) id.internalId)),
    .op i (.put id value), .bodyReturns i]

end WriterExample

end Helipod
