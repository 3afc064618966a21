import Helipod.ObjectStore.Materialize

/-!
# The object-storage document store

Model of `ObjectStoreDocStore` (`objectstore-substrate/src/object-doc-store.ts`) with the helpers of
`manifest.ts`, as any number of instances that share the objects of one shard. The calls of an
instance are serialized by its mutex, so an instance has at most one call under way. A call is cut
at its `await`s on the object store; `Task` says which answer it waits for. The answer may be an
error, and an error may come after the request has taken effect (`lost`). Work on the local store
happens together with the answer before it: no other instance sees it, and a crash loses it in any
case.

The local store does not fail. The object store keeps the first object that `putImmutable` stores
under a name, and `casPut` compares and swaps in one step. The etag of a manifest is derived from
its content, so the content is what is compared. What `readConsumerWatermarks` returns is part of
the event.

The bucket has three fields the source does not have: the commits whose swap has taken effect, in
order, the units of all commits that were begun, and the commits whose call returned. An instance
has one, `strayed`: a segment that it put was stored although the request reported an error, or an
`acquire` ended without the lease after it had begun to catch up; a lease clears it.
-/

namespace Helipod

open VersionTable Runs

variable {V : Type}

/-! ## Commits -/

/-- The units of a batch get consecutive timestamps after `floor`. -/
def stampedUnits : Nat → List (CommitUnit V) → List (SegmentPayload V)
  | _, [] => []
  | floor, u :: us => u.stamp (floor + 1) :: stampedUnits (floor + 1) us

/-- The rows of a batch in one segment. -/
def batchPayload (floor : Nat) (units : List (CommitUnit V)) : SegmentPayload V :=
  ⟨(stampedUnits floor units).flatMap (·.documents),
    (stampedUnits floor units).flatMap (·.indexUpdates)⟩

/-- A commit whose swap has taken effect. -/
structure LandedCommit (V : Type) where
  call : Nat
  seqno : Nat
  floor : Nat
  units : List (CommitUnit V)
  deriving DecidableEq

/-! ## The bucket -/

structure Bucket (V : Type) where
  manifest : Option Manifest
  objects : ShardObjects V
  landed : List (LandedCommit V)
  begun : List (List (CommitUnit V))
  returned : List Nat

namespace Bucket

def empty : Bucket V := ⟨none, ⟨.empty, .empty⟩, [], [], []⟩

/-- The manifest, or the one that is created first. -/
def current (b : Bucket V) : Manifest := b.manifest.getD emptyManifest

def withManifest (b : Bucket V) (m : Manifest) : Bucket V := { b with manifest := some m }

/-- `putImmutable` of a segment: the first object stays. -/
def putSegment (b : Bucket V) (seqno : Nat) (payload : SegmentPayload V) : Bucket V :=
  if b.objects.segments.has seqno then b
  else { b with objects := { b.objects with segments := b.objects.segments.set seqno payload } }

/-- `writeSnapshot`: the first object stays. -/
def putSnapshot (b : Bucket V) (snap : SnapshotPayload V) : Bucket V :=
  if b.objects.snapshots.has snap.frontierTs then b
  else { b with objects := { b.objects with
    snapshots := b.objects.snapshots.set snap.frontierTs snap } }

def deleteSegment (b : Bucket V) (seqno : Nat) : Bucket V :=
  { b with objects := { b.objects with segments := b.objects.segments.erase seqno } }

def deleteSnapshot (b : Bucket V) (ts : Nat) : Bucket V :=
  { b with objects := { b.objects with snapshots := b.objects.snapshots.erase ts } }

def begin (b : Bucket V) (units : List (CommitUnit V)) : Bucket V :=
  { b with begun := b.begun ++ [units] }

/-- The swap of a commit has taken effect; the call returns unless the answer was lost. -/
def land (b : Bucket V) (c : LandedCommit V) (returns : Bool) : Bucket V :=
  { b with
    landed := b.landed ++ [c]
    returned := if returns then b.returned ++ [c.call] else b.returned }

end Bucket

/-! ## Instances -/

structure HeldLease where
  epoch : Nat
  writerId : String
  deriving DecidableEq, Repr

structure AcquireOpts where
  writerId : String
  leaseTtlMs : Nat
  now : Nat
  deriving DecidableEq, Repr

/-- What follows `materializeTo`. -/
inductive AfterMaterialize where
  | opened
  | acquire (opts : AcquireOpts)
  deriving DecidableEq, Repr

/-- What the call under way waits for. -/
inductive Task (V : Type) where
  | idle
  /-- `open` reads the manifest, creates it, or reads it again after losing the race for it. -/
  | openRead
  | openCreate
  | openReread
  /-- `materializeTo` reads the snapshot, or a segment with the others to follow. -/
  | readSnapshot (next : AfterMaterialize) (m : Manifest) (p : SnapshotPointer)
  | readSegment (next : AfterMaterialize) (m : Manifest) (seqno : Nat) (rest : List Nat)
  | acquireRead (opts : AcquireOpts)
  | acquireCas (opts : AcquireOpts) (m : Manifest)
  | acquireReread
  | heartbeatCas (leaseExpiresAt : Nat)
  | relinquishCas
  | commitPut (call : Nat) (units : List (CommitUnit V))
  | commitCas (call : Nat) (units : List (CommitUnit V))
  | snapshotPut
  | snapshotCas
  | gcRead
  | gcWatermarks (p : SnapshotPointer)
  | gcListSegments (floor : Int) (keepSnap : Nat)
  | gcDeleteSegment (seqno : Nat) (rest : List Nat) (keepSnap : Nat)
  | gcListSnapshots (keepSnap : Nat)
  | gcDeleteSnapshot (ts : Nat) (rest : List Nat)

def Task.isIdle : Task V → Bool
  | .idle => true
  | _ => false

structure ObjectStoreDocStore (V : Type) where
  store : SqliteDocStore V
  cached : Manifest
  nextSeqno : Nat
  poisoned : Bool
  held : Option HeldLease
  strayed : Bool
  task : Task V

namespace ObjectStoreDocStore

/-- An instance whose `open` has begun. -/
def opening : ObjectStoreDocStore V := ⟨.empty, emptyManifest, 0, false, none, false, .openRead⟩

def await (inst : ObjectStoreDocStore V) (task : Task V) : ObjectStoreDocStore V :=
  { inst with task := task }

/-- The call is over and has changed nothing of the instance. -/
def done (inst : ObjectStoreDocStore V) : ObjectStoreDocStore V := inst.await .idle

def poison (inst : ObjectStoreDocStore V) : ObjectStoreDocStore V :=
  { inst with poisoned := true, task := .idle }

/-- The lease is lost. -/
def fence (inst : ObjectStoreDocStore V) : ObjectStoreDocStore V :=
  { inst with poisoned := true, held := none, task := .idle }

def stray (inst : ObjectStoreDocStore V) : ObjectStoreDocStore V :=
  { inst with strayed := true, task := .idle }

/-- The manifest was swapped for `m`. -/
def cache (inst : ObjectStoreDocStore V) (m : Manifest) : ObjectStoreDocStore V :=
  { inst with cached := m, task := .idle }

/-! ### Manifests that an instance writes -/

/-- The refusal of `acquire`: a live lease of another writer. -/
def leased (opts : AcquireOpts) (m : Manifest) : Bool :=
  m.writerId ≠ "" && opts.now ≤ m.leaseExpiresAt && m.writerId ≠ opts.writerId

/-- The claim of a lease: a new epoch, and the next number is skipped unless nobody ever held the
lease. -/
def claim (opts : AcquireOpts) (m : Manifest) : Manifest :=
  { m with
    epoch := m.epoch + 1
    writerId := opts.writerId
    leaseExpiresAt := opts.now + opts.leaseTtlMs
    nextSeqno := if 0 < m.epoch then m.nextSeqno + 1 else m.nextSeqno }

def renewed (inst : ObjectStoreDocStore V) (leaseExpiresAt : Nat) : Manifest :=
  { inst.cached with leaseExpiresAt := leaseExpiresAt }

def relinquished (inst : ObjectStoreDocStore V) : Manifest :=
  { inst.cached with writerId := "", leaseExpiresAt := 0 }

/-- Timestamps of a batch lie above what the manifest and the local store have. -/
def floor (inst : ObjectStoreDocStore V) : Nat := max inst.cached.tsCounter inst.store.maxTimestamp

def committed (inst : ObjectStoreDocStore V) (units : List (CommitUnit V)) : Manifest :=
  { inst.cached with
    epoch := (inst.held.map (·.epoch)).getD 0
    frontierTs := inst.floor + units.length
    tsCounter := inst.floor + units.length
    segments := inst.cached.segments ++ [inst.nextSeqno]
    nextSeqno := inst.nextSeqno + 1 }

def snapshotPayload (inst : ObjectStoreDocStore V) : SnapshotPayload V :=
  ⟨inst.cached.frontierTs, inst.nextSeqno - 1, inst.store.dumpCurrentState⟩

def snapshotted (inst : ObjectStoreDocStore V) : Manifest :=
  { inst.cached with
    snapshot := some ⟨inst.cached.frontierTs, inst.nextSeqno - 1⟩
    segments := inst.cached.segments.filter fun seqno => inst.nextSeqno - 1 < seqno }

/-! ### `materializeTo` -/

/-- All segments are applied. -/
def materialized (inst : ObjectStoreDocStore V) (next : AfterMaterialize) (m : Manifest) :
    ObjectStoreDocStore V :=
  match next with
  | .opened => { inst with nextSeqno := m.nextSeqno, task := .idle }
  | .acquire opts => { inst with nextSeqno := m.nextSeqno, task := .acquireCas opts m }

/-- Go on to the first of the segments that is not applied. -/
def pull (inst : ObjectStoreDocStore V) (next : AfterMaterialize) (m : Manifest)
    (appliedThrough : Int) (segments : List Nat) : ObjectStoreDocStore V :=
  match segments.dropWhile fun (seqno : Nat) => (seqno : Int) ≤ appliedThrough with
  | [] => inst.materialized next m
  | seqno :: rest => inst.await (.readSegment next m seqno rest)

def startMaterialize (inst : ObjectStoreDocStore V) (next : AfterMaterialize) (m : Manifest) :
    ObjectStoreDocStore V :=
  match m.snapshot with
  | none => inst.pull next m ((inst.nextSeqno : Int) - 1) m.segments
  | some p =>
    if (inst.nextSeqno : Int) - 1 < p.segBase then inst.await (.readSnapshot next m p)
    else inst.pull next m ((inst.nextSeqno : Int) - 1) m.segments

/-- `materializeTo` throws: an instance that was opening is discarded. -/
def failMaterialize (inst : ObjectStoreDocStore V) : AfterMaterialize →
    Option (ObjectStoreDocStore V)
  | .opened => none
  | .acquire _ => some inst.stray

/-! ### Sweeps of `gc` -/

def sweepSnapshots (inst : ObjectStoreDocStore V) : List Nat → ObjectStoreDocStore V
  | [] => inst.done
  | ts :: rest => inst.await (.gcDeleteSnapshot ts rest)

def sweepSegments (inst : ObjectStoreDocStore V) (keepSnap : Nat) : List Nat → ObjectStoreDocStore V
  | [] => inst.await (.gcListSnapshots keepSnap)
  | seqno :: rest => inst.await (.gcDeleteSegment seqno rest keepSnap)

end ObjectStoreDocStore

/-! ## Calls -/

inductive StoreCall (V : Type) where
  | acquire (opts : AcquireOpts)
  | heartbeat (now leaseTtlMs : Nat)
  | relinquish
  | commitWriteBatch (units : List (CommitUnit V))
  | snapshot
  | gc

/-- How the object store answers. A request that is `lost` has taken effect and reports an error. -/
inductive Response where
  | ok
  | failed
  | lost
  deriving DecidableEq, Repr

open ObjectStoreDocStore

/-- The part of a call before its first `await`. A call that throws or returns at once changes
nothing, except that a divergence of the epochs poisons the instance. -/
def beginCall (b : Bucket V) (inst : ObjectStoreDocStore V) :
    StoreCall V → Bucket V × ObjectStoreDocStore V
  | .acquire opts => (b, inst.await (.acquireRead opts))
  | .heartbeat now leaseTtlMs =>
    if inst.held.isNone || inst.poisoned then (b, inst)
    else (b, inst.await (.heartbeatCas (now + leaseTtlMs)))
  | .relinquish => if inst.held.isNone then (b, inst) else (b, inst.await .relinquishCas)
  | .commitWriteBatch units =>
    match inst.held with
    | none => (b, inst)
    | some held =>
      if units.isEmpty || inst.poisoned then (b, inst)
      else if inst.cached.epoch ≠ held.epoch then (b, inst.poison)
      else (b.begin units, inst.await (.commitPut b.begun.length units))
  | .snapshot =>
    if inst.poisoned || inst.nextSeqno = 0 then (b, inst) else (b, inst.await .snapshotPut)
  | .gc => if inst.poisoned || inst.held.isNone then (b, inst) else (b, inst.await .gcRead)

/-- `casManifest`: the bucket if the swap takes effect. -/
def Bucket.cas (b : Bucket V) (expected next : Manifest) : Option (Bucket V) :=
  if b.manifest = some expected then some (b.withManifest next) else none

/-- The call goes on with the answer its task waits for. No instance is left if `open` throws. -/
def resumeTask (b : Bucket V) (inst : ObjectStoreDocStore V) (task : Task V) (answer : Response) :
    Bucket V × Option (ObjectStoreDocStore V) :=
  match task, answer with
  | .idle, _ => (b, some inst)
  | .openRead, .ok =>
    match b.manifest with
    | none => (b, some (inst.await .openCreate))
    | some m => (b, some ({ inst with cached := m }.startMaterialize .opened m))
  | .openRead, _ => (b, none)
  | .openCreate, .ok =>
    match b.manifest with
    | none => (b.withManifest emptyManifest,
        some ({ inst with cached := emptyManifest }.startMaterialize .opened emptyManifest))
    | some _ => (b, some (inst.await .openReread))
  | .openCreate, .failed => (b, none)
  | .openCreate, .lost =>
    match b.manifest with
    | none => (b.withManifest emptyManifest, none)
    | some _ => (b, none)
  | .openReread, .ok =>
    match b.manifest with
    | none => (b, none)
    | some m => (b, some ({ inst with cached := m }.startMaterialize .opened m))
  | .openReread, _ => (b, none)
  | .readSnapshot next m p, .ok =>
    match b.objects.snapshots.get? p.ts with
    | none => (b, inst.failMaterialize next)
    | some snap =>
      (b, some ({ inst with store := inst.store.applySnapshotState snap }.pull next m p.segBase
        m.segments))
  | .readSnapshot next _ _, _ => (b, inst.failMaterialize next)
  | .readSegment next m seqno rest, .ok =>
    match b.objects.segments.get? seqno with
    | none => (b, inst.failMaterialize next)
    | some payload =>
        (b, some ({ inst with store := inst.store.write payload }.pull next m seqno rest))
  | .readSegment next _ _ _, _ => (b, inst.failMaterialize next)
  | .acquireRead opts, .ok =>
    match b.manifest with
    | none => (b, some inst.done)
    | some m =>
      if leased opts m then (b, some inst.done) else
        (b, some (inst.startMaterialize (.acquire opts) m))
  | .acquireRead _, _ => (b, some inst.done)
  | .acquireCas opts m, .ok =>
    match b.cas m (claim opts m) with
    | none => (b, some { inst with strayed := true, task := .acquireReread })
    | some b' => (b', some { inst with
        cached := claim opts m
        held := some ⟨(claim opts m).epoch, opts.writerId⟩
        poisoned := false
        nextSeqno := (claim opts m).nextSeqno
        strayed := false
        task := .idle })
  | .acquireCas _ _, .failed => (b, some { inst.poison with strayed := true })
  | .acquireCas opts m, .lost => ((b.cas m (claim opts m)).getD b,
      some { inst.poison with strayed := true })
  | .acquireReread, _ => (b, some inst.done)
  | .heartbeatCas lease, .ok =>
    match b.cas inst.cached (inst.renewed lease) with
    | none => (b, some inst.fence)
    | some b' => (b', some (inst.cache (inst.renewed lease)))
  | .heartbeatCas _, .failed => (b, some inst.fence)
  | .heartbeatCas lease, .lost => ((b.cas inst.cached (inst.renewed lease)).getD b, some inst.fence)
  | .relinquishCas, .ok =>
    match b.cas inst.cached inst.relinquished with
    | none => (b, some { inst.done with held := none })
    | some b' => (b', some { inst.cache inst.relinquished with held := none })
  | .relinquishCas, .failed => (b, some { inst.done with held := none })
  | .relinquishCas, .lost =>
    ((b.cas inst.cached inst.relinquished).getD b, some { inst.done with held := none })
  | .commitPut call units, .ok =>
    (b.putSegment inst.nextSeqno (batchPayload inst.floor units),
      some (inst.await (.commitCas call units)))
  | .commitPut _ _, .failed => (b, some inst.done)
  | .commitPut _ units, .lost =>
    (b.putSegment inst.nextSeqno (batchPayload inst.floor units), some inst.stray)
  | .commitCas call units, .ok =>
    match b.cas inst.cached (inst.committed units) with
    | none => (b, some inst.fence)
    | some b' => (b'.land ⟨call, inst.nextSeqno, inst.floor, units⟩ true, some { inst with
        store := (stampedUnits inst.floor units).foldl SqliteDocStore.write inst.store
        cached := inst.committed units
        nextSeqno := inst.nextSeqno + 1
        task := .idle })
  | .commitCas _ _, .failed => (b, some inst.poison)
  | .commitCas call units, .lost =>
    (((b.cas inst.cached (inst.committed units)).map
      (Bucket.land · ⟨call, inst.nextSeqno, inst.floor, units⟩ false)).getD b, some inst.poison)
  | .snapshotPut, .ok => (b.putSnapshot inst.snapshotPayload, some (inst.await .snapshotCas))
  | .snapshotPut, .failed => (b, some inst.done)
  | .snapshotPut, .lost => (b.putSnapshot inst.snapshotPayload, some inst.done)
  | .snapshotCas, .ok =>
    match b.cas inst.cached inst.snapshotted with
    | none => (b, some inst.poison)
    | some b' => (b', some (inst.cache inst.snapshotted))
  | .snapshotCas, .failed => (b, some inst.poison)
  | .snapshotCas, .lost => ((b.cas inst.cached inst.snapshotted).getD b, some inst.poison)
  | .gcRead, .ok =>
    match b.manifest with
    | none => (b, some inst.done)
    | some m =>
      if inst.held.map (·.epoch) ≠ some m.epoch then (b, some inst.fence)
      else match m.snapshot with
        | none => (b, some (inst.cache m))
        | some p => (b, some { inst with cached := m, task := .gcWatermarks p })
  | .gcRead, _ => (b, some inst.done)
  | .gcWatermarks _, _ => (b, some inst.done)
  | .gcListSegments floor keepSnap, .ok =>
    (b, some (inst.sweepSegments keepSnap
      (b.objects.segments.keys.filter fun (seqno : Nat) => (seqno : Int) ≤ floor)))
  | .gcListSegments _ _, _ => (b, some inst.done)
  | .gcDeleteSegment seqno rest keepSnap, .ok =>
    (b.deleteSegment seqno, some (inst.sweepSegments keepSnap rest))
  | .gcDeleteSegment _ _ _, .failed => (b, some inst.done)
  | .gcDeleteSegment seqno _ _, .lost => (b.deleteSegment seqno, some inst.done)
  | .gcListSnapshots keepSnap, .ok =>
    (b, some (inst.sweepSnapshots (b.objects.snapshots.keys.filter fun ts => ts < keepSnap)))
  | .gcListSnapshots _, _ => (b, some inst.done)
  | .gcDeleteSnapshot ts rest, .ok => (b.deleteSnapshot ts, some (inst.sweepSnapshots rest))
  | .gcDeleteSnapshot _ _, .failed => (b, some inst.done)
  | .gcDeleteSnapshot ts _, .lost => (b.deleteSnapshot ts, some inst.done)

/-- `gc` has read the watermarks: nothing above the slowest consumer is deleted. -/
def gcFloor (segBase : Nat) (watermarks : List Int) : Int := watermarks.foldl min (segBase : Int)

/-! ### What a call can begin -/

inductive Begun (b : Bucket V) (inst : ObjectStoreDocStore V) :
    StoreCall V → Bucket V → ObjectStoreDocStore V → Prop
  | stays (c : StoreCall V) : Begun b inst c b inst
  | acquire (opts : AcquireOpts) : Begun b inst (.acquire opts) b (inst.await (.acquireRead opts))
  | heartbeat (now leaseTtlMs : Nat) (hh : inst.held.isSome = true) (hp : inst.poisoned = false) :
      Begun b inst (.heartbeat now leaseTtlMs) b (inst.await (.heartbeatCas (now + leaseTtlMs)))
  | relinquish : Begun b inst .relinquish b (inst.await .relinquishCas)
  | diverged (units : List (CommitUnit V)) : Begun b inst (.commitWriteBatch units) b inst.poison
  | commit (units : List (CommitUnit V)) (hh : inst.held.isSome = true) (hp : inst.poisoned = false)
      (hu : units ≠ []) :
      Begun b inst (.commitWriteBatch units) (b.begin units)
        (inst.await (.commitPut b.begun.length units))
  | snapshot (hp : inst.poisoned = false) (hn : 0 < inst.nextSeqno) :
      Begun b inst .snapshot b (inst.await .snapshotPut)
  | gc (hp : inst.poisoned = false) : Begun b inst .gc b (inst.await .gcRead)

theorem begun_beginCall (b : Bucket V) (inst : ObjectStoreDocStore V) (c : StoreCall V) :
    Begun b inst c (beginCall b inst c).1 (beginCall b inst c).2 := by
  cases c with
  | acquire opts => exact .acquire opts
  | heartbeat now leaseTtlMs =>
    simp only [beginCall]
    split
    · exact .stays _
    · rename_i h
      rw [Bool.or_eq_true, not_or, Bool.not_eq_true, Bool.not_eq_true,
        Option.isNone_eq_false_iff] at h
      exact .heartbeat now leaseTtlMs h.1 h.2
  | relinquish =>
    simp only [beginCall]
    split
    · exact .stays _
    · exact .relinquish
  | commitWriteBatch units =>
    simp only [beginCall]
    cases hh : inst.held with
    | none => exact .stays _
    | some held =>
      dsimp only
      split
      · exact .stays _
      · rename_i h
        rw [Bool.or_eq_true, not_or, List.isEmpty_iff, Bool.not_eq_true] at h
        split
        · exact .diverged units
        · exact .commit units (by rw [hh]; rfl) h.2 h.1
  | snapshot =>
    simp only [beginCall]
    split
    · exact .stays _
    · rename_i h
      rw [Bool.or_eq_true, not_or, decide_eq_true_eq, Bool.not_eq_true] at h
      exact .snapshot h.1 (Nat.pos_of_ne_zero h.2)
  | gc =>
    simp only [beginCall]
    split
    · exact .stays _
    · rename_i h
      rw [Bool.or_eq_true, not_or, Bool.not_eq_true] at h
      exact .gc h.1

/-! ### What an answer can do -/

/-- The instance is still opening. -/
def Task.opens : Task V → Bool
  | .openRead | .openCreate | .openReread => true
  | .readSnapshot .opened _ _ | .readSegment .opened _ _ _ => true
  | _ => false

/-- The store of the instance may be ahead of its cursor, or its cursor ahead of its manifest. -/
def Task.catchesUp : Task V → Bool
  | .readSnapshot _ _ _ | .readSegment _ _ _ _ | .acquireCas _ _ => true
  | _ => false

/-- An error of this request ends the call and leaves the instance as it was. -/
def Task.endsUnchanged : Task V → Bool
  | .acquireRead _ | .acquireReread | .commitPut _
      _ | .snapshotPut | .gcRead | .gcWatermarks _ => true
  | .gcListSegments _ _ | .gcDeleteSegment _ _ _ => true
  | .gcListSnapshots _ | .gcDeleteSnapshot _ _ => true
  | _ => false

namespace Task

variable {task : Task V}

theorem opens_of_endsUnchanged (h : task.endsUnchanged = true) : task.opens = false := by
  cases task <;> first | rfl | cases h

end Task

/-- The bucket and the instance after an answer. -/
inductive Resumed (b : Bucket V) (inst : ObjectStoreDocStore V) :
    Bucket V → Option (ObjectStoreDocStore V) → Prop
  | throws (ht : inst.task.opens = true) : Resumed b inst b none
  | throwsCreated (ht : inst.task = .openCreate) (hm : b.manifest = none) :
      Resumed b inst (b.withManifest emptyManifest) none
  | waits {task : Task V} (ht : inst.task = .openRead ∨ inst.task = .openCreate)
      (ht' : task = .openCreate ∨ task = .openReread) :
      Resumed b inst b (some (inst.await task))
  | opened {m : Manifest} (ht : inst.task = .openRead ∨ inst.task = .openReread)
      (hm : b.manifest = some m) :
      Resumed b inst b (some ({ inst with cached := m }.startMaterialize .opened m))
  | created (ht : inst.task = .openCreate) (hm : b.manifest = none) :
      Resumed b inst (b.withManifest emptyManifest)
        (some ({ inst with cached := emptyManifest }.startMaterialize .opened emptyManifest))
  | restored {next : AfterMaterialize} {m : Manifest} {p : SnapshotPointer}
      {snap : SnapshotPayload V}
      (ht : inst.task = .readSnapshot next m p) (hs : b.objects.snapshots.get? p.ts = some snap) :
      Resumed b inst b (some ({ inst with store := inst.store.applySnapshotState snap }.pull next m
        p.segBase m.segments))
  | replayed {next : AfterMaterialize} {m : Manifest} {seqno : Nat} {rest : List Nat}
      {payload : SegmentPayload V} (ht : inst.task = .readSegment next m seqno rest)
      (hs : b.objects.segments.get? seqno = some payload) :
      Resumed b inst b
        (some ({ inst with store := inst.store.write payload }.pull next m seqno rest))
  | stopped {opts : AcquireOpts} {m : Manifest}
      (ht : (∃ p, inst.task = .readSnapshot (.acquire opts) m p) ∨
        ∃ seqno rest, inst.task = .readSegment (.acquire opts) m seqno rest) :
      Resumed b inst b (some inst.stray)
  | ends (ht : inst.task.endsUnchanged = true) : Resumed b inst b (some inst.done)
  | acquiring {opts : AcquireOpts} {m : Manifest} (ht : inst.task = .acquireRead opts)
      (hm : b.manifest = some m) : Resumed b inst b (some (inst.startMaterialize (.acquire opts) m))
  | claimed {opts : AcquireOpts} {m : Manifest} (ht : inst.task = .acquireCas opts m)
      (hm : b.manifest = some m) :
      Resumed b inst (b.withManifest (claim opts m)) (some { inst with
        cached := claim opts m
        held := some ⟨(claim opts m).epoch, opts.writerId⟩
        poisoned := false
        nextSeqno := (claim opts m).nextSeqno
        strayed := false
        task := .idle })
  | raced {opts : AcquireOpts} {m : Manifest} (ht : inst.task = .acquireCas opts m) :
      Resumed b inst b (some { inst with strayed := true, task := .acquireReread })
  | unclaimed {opts : AcquireOpts} {m : Manifest} {b' : Bucket V}
      (ht : inst.task = .acquireCas opts m)
      (hb : b' = b ∨ b.manifest = some m ∧ b' = b.withManifest (claim opts m)) :
      Resumed b inst b' (some { inst.poison with strayed := true })
  | renewed {lease : Nat} (ht : inst.task = .heartbeatCas lease)
      (hm : b.manifest = some inst.cached) :
      Resumed b inst (b.withManifest (inst.renewed lease)) (some (inst.cache (inst.renewed lease)))
  | renewedLost {lease : Nat} (ht : inst.task = .heartbeatCas lease)
      (hm : b.manifest = some inst.cached) :
      Resumed b inst (b.withManifest (inst.renewed lease)) (some inst.fence)
  | fenced (ht : inst.task.opens = false) (hc : inst.task.catchesUp = false) :
      Resumed b inst b (some inst.fence)
  | relinquished {inst' : ObjectStoreDocStore V} (ht : inst.task = .relinquishCas)
      (hm : b.manifest = some inst.cached)
      (hi : inst' = inst.cache inst.relinquished ∨ inst' = inst.done) :
      Resumed b inst (b.withManifest inst.relinquished) (some { inst' with held := none })
  | gaveUp (ht : inst.task = .relinquishCas) :
      Resumed b inst b (some { inst.done with held := none })
  | stored {call : Nat} {units : List (CommitUnit V)} (ht : inst.task = .commitPut call units) :
      Resumed b inst (b.putSegment inst.nextSeqno (batchPayload inst.floor units))
        (some (inst.await (.commitCas call units)))
  | storedLost {call : Nat} {units : List (CommitUnit V)} (ht : inst.task = .commitPut call units) :
      Resumed b inst (b.putSegment inst.nextSeqno (batchPayload inst.floor units)) (some inst.stray)
  | committed {call : Nat} {units : List (CommitUnit V)} (ht : inst.task = .commitCas call units)
      (hm : b.manifest = some inst.cached) :
      Resumed b inst
        ((b.withManifest (inst.committed units)).land
          ⟨call, inst.nextSeqno, inst.floor, units⟩ true)
        (some { inst with
          store := (stampedUnits inst.floor units).foldl SqliteDocStore.write inst.store
          cached := inst.committed units
          nextSeqno := inst.nextSeqno + 1
          task := .idle })
  | committedLost {call : Nat} {units : List (CommitUnit V)}
      (ht : inst.task = .commitCas call units) (hm : b.manifest = some inst.cached) :
      Resumed b inst
        ((b.withManifest (inst.committed units)).land
          ⟨call, inst.nextSeqno, inst.floor, units⟩ false)
        (some inst.poison)
  | poisoned (ht : (∃ call units, inst.task = .commitCas call units) ∨ inst.task = .snapshotCas) :
      Resumed b inst b (some inst.poison)
  | dumped (ht : inst.task = .snapshotPut) :
      Resumed b inst (b.putSnapshot inst.snapshotPayload) (some (inst.await .snapshotCas))
  | dumpedLost (ht : inst.task = .snapshotPut) :
      Resumed b inst (b.putSnapshot inst.snapshotPayload) (some inst.done)
  | snapshotted {inst' : ObjectStoreDocStore V} (ht : inst.task = .snapshotCas)
      (hm : b.manifest = some inst.cached)
      (hi : inst' = inst.cache inst.snapshotted ∨ inst' = inst.poison) :
      Resumed b inst (b.withManifest inst.snapshotted) (some inst')
  | adopted {m : Manifest} {task : Task V} (ht : inst.task = .gcRead) (hm : b.manifest = some m)
      (he : inst.held.map (·.epoch) = some m.epoch)
      (ht' : task = .idle ∨ ∃ p, m.snapshot = some p ∧ task = .gcWatermarks p) :
      Resumed b inst b (some { inst with cached := m, task := task })
  | listedSegments {floor : Int} {keepSnap : Nat}
      (ht : inst.task = .gcListSegments floor keepSnap) :
      Resumed b inst b (some (inst.sweepSegments keepSnap
        (b.objects.segments.keys.filter fun (seqno : Nat) => (seqno : Int) ≤ floor)))
  | sweptSegment {seqno keepSnap : Nat} {rest : List Nat} {inst' : ObjectStoreDocStore V}
      (ht : inst.task = .gcDeleteSegment seqno rest keepSnap)
      (hi : inst' = inst.sweepSegments keepSnap rest ∨ inst' = inst.done) :
      Resumed b inst (b.deleteSegment seqno) (some inst')
  | listedSnapshots {keepSnap : Nat} (ht : inst.task = .gcListSnapshots keepSnap) :
      Resumed b inst b
        (some (inst.sweepSnapshots (b.objects.snapshots.keys.filter fun ts => ts < keepSnap)))
  | sweptSnapshot {ts : Nat} {rest : List Nat} {inst' : ObjectStoreDocStore V}
      (ht : inst.task = .gcDeleteSnapshot ts rest)
      (hi : inst' = inst.sweepSnapshots rest ∨ inst' = inst.done) :
      Resumed b inst (b.deleteSnapshot ts) (some inst')

theorem Bucket.cas_eq_some {b b' : Bucket V} {m m' : Manifest} :
    b.cas m m' = some b' ↔ b.manifest = some m ∧ b' = b.withManifest m' := by
  unfold Bucket.cas
  split <;> simp_all [eq_comm]

theorem resumed_failMaterialize {b : Bucket V} {inst : ObjectStoreDocStore V}
    {next : AfterMaterialize} {m : Manifest} (ht : (∃ p, inst.task = .readSnapshot next m p) ∨
      ∃ seqno rest, inst.task = .readSegment next m seqno rest) :
    Resumed b inst b (inst.failMaterialize next) := by
  cases next with
  | opened =>
    refine .throws ?_
    obtain ⟨p, ht⟩ | ⟨seqno, rest, ht⟩ := ht <;> rw [ht] <;> rfl
  | acquire opts => exact .stopped ht

theorem resumed_resumeTask {b : Bucket V} {inst : ObjectStoreDocStore V} {task : Task V}
    (answer : Response) (ht : inst.task = task) (hidle : task.isIdle = false) :
    Resumed b inst (resumeTask b inst task answer).1 (resumeTask b inst task answer).2 := by
  have opens : ∀ task : Task V, inst.task = task → task.opens = true → Resumed b inst b none :=
    fun _ ht h => .throws (by rw [ht]; exact h)
  have ends : ∀ task : Task V, inst.task = task → task.endsUnchanged = true →
      Resumed b inst b (some inst.done) := fun _ ht h => .ends (by rw [ht]; exact h)
  have fenced : ∀ task : Task V, inst.task = task → task.opens = false → task.catchesUp = false →
      Resumed b inst b (some inst.fence) :=
    fun _ ht h hc => .fenced (by rw [ht]; exact h) (by rw [ht]; exact hc)
  unfold resumeTask
  cases task with
  | idle => cases hidle
  | openRead =>
    cases answer with
    | ok =>
      cases hm : b.manifest with
      | none => exact .waits (.inl ht) (.inl rfl)
      | some m => exact .opened (.inl ht) hm
    | failed | lost => exact opens _ ht rfl
  | openCreate =>
    cases answer with
    | ok =>
      cases hm : b.manifest with
      | none => exact .created ht hm
      | some m => exact .waits (.inr ht) (.inr rfl)
    | failed => exact opens _ ht rfl
    | lost =>
      cases hm : b.manifest with
      | none => exact .throwsCreated ht hm
      | some m => exact opens _ ht rfl
  | openReread =>
    cases answer with
    | ok =>
      cases hm : b.manifest with
      | none => exact opens _ ht rfl
      | some m => exact .opened (.inr ht) hm
    | failed | lost => exact opens _ ht rfl
  | readSnapshot next m p =>
    have hfail := resumed_failMaterialize (b := b) (.inl ⟨p, ht⟩)
    cases answer with
    | ok =>
      dsimp only
      cases hs : b.objects.snapshots.get? p.ts with
      | none => exact hfail
      | some snap => exact .restored ht hs
    | failed | lost => exact hfail
  | readSegment next m seqno rest =>
    have hfail := resumed_failMaterialize (b := b) (.inr ⟨seqno, rest, ht⟩)
    cases answer with
    | ok =>
      dsimp only
      cases hs : b.objects.segments.get? seqno with
      | none => exact hfail
      | some payload => exact .replayed ht hs
    | failed | lost => exact hfail
  | acquireRead opts =>
    cases answer with
    | ok =>
      cases hm : b.manifest with
      | none => exact ends _ ht rfl
      | some m =>
        cases hl : leased opts m with
        | true => simpa [hl] using ends _ ht rfl
        | false => simpa [hl] using Resumed.acquiring ht hm
    | failed | lost => exact ends _ ht rfl
  | acquireCas opts m =>
    cases hc : b.cas m (claim opts m) with
    | none =>
      cases answer <;> simp [hc]
      · exact .raced ht
      · exact .unclaimed ht (.inl rfl)
      · exact .unclaimed ht (.inl rfl)
    | some b' =>
      obtain ⟨hm, rfl⟩ := Bucket.cas_eq_some.1 hc
      cases answer <;> simp [hc]
      · exact .claimed ht hm
      · exact .unclaimed ht (.inl rfl)
      · exact .unclaimed ht (.inr ⟨hm, rfl⟩)
  | acquireReread => exact ends _ ht rfl
  | heartbeatCas lease =>
    cases hc : b.cas inst.cached (inst.renewed lease) with
    | none => cases answer <;> simp only [hc] <;> exact fenced _ ht rfl rfl
    | some b' =>
      obtain ⟨hm, rfl⟩ := Bucket.cas_eq_some.1 hc
      cases answer <;> simp [hc]
      · exact .renewed ht hm
      · exact fenced _ ht rfl rfl
      · exact .renewedLost ht hm
  | relinquishCas =>
    cases hc : b.cas inst.cached inst.relinquished with
    | none => cases answer <;> exact .gaveUp ht
    | some b' =>
      obtain ⟨hm, rfl⟩ := Bucket.cas_eq_some.1 hc
      cases answer
      · exact .relinquished ht hm (.inl rfl)
      · exact .gaveUp ht
      · exact .relinquished ht hm (.inr rfl)
  | commitPut call units =>
    cases answer with
    | ok => exact .stored ht
    | failed => exact ends _ ht rfl
    | lost => exact .storedLost ht
  | commitCas call units =>
    cases hc : b.cas inst.cached (inst.committed units) with
    | none =>
      cases answer <;> simp [hc]
      · exact fenced _ ht rfl rfl
      · exact .poisoned (.inl ⟨call, units, ht⟩)
      · exact .poisoned (.inl ⟨call, units, ht⟩)
    | some b' =>
      obtain ⟨hm, rfl⟩ := Bucket.cas_eq_some.1 hc
      cases answer <;> simp [hc]
      · exact .committed ht hm
      · exact .poisoned (.inl ⟨call, units, ht⟩)
      · exact .committedLost ht hm
  | snapshotPut =>
    cases answer with
    | ok => exact .dumped ht
    | failed => exact ends _ ht rfl
    | lost => exact .dumpedLost ht
  | snapshotCas =>
    cases hc : b.cas inst.cached inst.snapshotted with
    | none => cases answer <;> exact .poisoned (.inr ht)
    | some b' =>
      obtain ⟨hm, rfl⟩ := Bucket.cas_eq_some.1 hc
      cases answer
      · exact .snapshotted ht hm (.inl rfl)
      · exact .poisoned (.inr ht)
      · exact .snapshotted ht hm (.inr rfl)
  | gcRead =>
    cases answer with
    | ok =>
      cases hm : b.manifest with
      | none => exact ends _ ht rfl
      | some m =>
        by_cases he : inst.held.map (·.epoch) = some m.epoch
        · simp only [he, ne_eq]
          cases hp : m.snapshot with
          | none => exact .adopted ht hm he (.inl rfl)
          | some p => exact .adopted ht hm he (.inr ⟨p, hp, rfl⟩)
        · simp only [ne_eq, he]
          exact fenced _ ht rfl rfl
    | failed | lost => exact ends _ ht rfl
  | gcWatermarks p => exact ends _ ht rfl
  | gcListSegments floor keepSnap =>
    cases answer with
    | ok => exact .listedSegments ht
    | failed | lost => exact ends _ ht rfl
  | gcDeleteSegment seqno rest keepSnap =>
    cases answer with
    | ok => exact .sweptSegment ht (.inl rfl)
    | failed => exact ends _ ht rfl
    | lost => exact .sweptSegment ht (.inr rfl)
  | gcListSnapshots keepSnap =>
    cases answer with
    | ok => exact .listedSnapshots ht
    | failed | lost => exact ends _ ht rfl
  | gcDeleteSnapshot ts rest =>
    cases answer with
    | ok => exact .sweptSnapshot ht (.inl rfl)
    | failed => exact ends _ ht rfl
    | lost => exact .sweptSnapshot ht (.inr rfl)

/-! ## Runs -/

structure Shard (V : Type) where
  bucket : Bucket V
  instances : OrderedMap Nat (ObjectStoreDocStore V)
  opened : Nat

inductive ShardEvent (V : Type) where
  | open
  | call (i : Nat) (c : StoreCall V)
  | resume (i : Nat) (answer : Response)
  | watermarks (i : Nat) (ws : List Int)
  | crash (i : Nat)

namespace Shard

def initial : Shard V := ⟨.empty, .empty, 0⟩

def setInstance (s : Shard V) (i : Nat) (b : Bucket V) (inst : ObjectStoreDocStore V) : Shard V :=
  { s with bucket := b, instances := s.instances.set i inst }

def dropInstance (s : Shard V) (i : Nat) (b : Bucket V) : Shard V :=
  { s with bucket := b, instances := s.instances.erase i }

def step (s : Shard V) : ShardEvent V → Option (Shard V)
  | .open => some { s with instances := s.instances.set s.opened .opening, opened := s.opened + 1 }
  | .call i c => (s.instances.get? i).bind fun inst =>
    if inst.task.isIdle then
      some (s.setInstance i (beginCall s.bucket inst c).1 (beginCall s.bucket inst c).2)
    else none
  | .resume i answer => (s.instances.get? i).bind fun inst =>
    if inst.task.isIdle then none
    else some (match resumeTask s.bucket inst inst.task answer with
      | (b, some inst') => s.setInstance i b inst'
      | (b, none) => s.dropInstance i b)
  | .watermarks i ws => (s.instances.get? i).bind fun inst =>
    match inst.task with
    | .gcWatermarks p => some (s.setInstance i s.bucket
        (inst.await (.gcListSegments (gcFloor p.segBase ws) p.ts)))
    | _ => none
  | .crash i => if s.instances.has i then some (s.dropInstance i s.bucket) else none

/-- What a step of the shard can be. -/
inductive Stepped (s : Shard V) : ShardEvent V → Shard V → Prop
  | opened : Stepped s .open
      { s with instances := s.instances.set s.opened .opening, opened := s.opened + 1 }
  | begun {i : Nat} {c : StoreCall V} {inst inst' : ObjectStoreDocStore V} {b : Bucket V}
      (hi : s.instances.get? i = some inst) (ht : inst.task.isIdle = true)
      (hb : Begun s.bucket inst c b inst') : Stepped s (.call i c) (s.setInstance i b inst')
  | resumed {i : Nat} {answer : Response} {inst inst' : ObjectStoreDocStore V} {b : Bucket V}
      (hi : s.instances.get? i = some inst) (hr : Resumed s.bucket inst b (some inst')) :
      Stepped s (.resume i answer) (s.setInstance i b inst')
  | discarded {i : Nat} {answer : Response} {inst : ObjectStoreDocStore V} {b : Bucket V}
      (hi : s.instances.get? i = some inst) (hr : Resumed s.bucket inst b none) :
      Stepped s (.resume i answer) (s.dropInstance i b)
  | watermarks {i : Nat} {ws : List Int} {inst : ObjectStoreDocStore V} {p : SnapshotPointer}
      (hi : s.instances.get? i = some inst) (ht : inst.task = .gcWatermarks p) :
      Stepped s (.watermarks i ws) (s.setInstance i s.bucket
        (inst.await (.gcListSegments (gcFloor p.segBase ws) p.ts)))
  | crashed {i : Nat} : Stepped s (.crash i) (s.dropInstance i s.bucket)

theorem stepped_of_step {s s' : Shard V} {e : ShardEvent V} (h : step s e = some s') :
    Stepped s e s' := by
  cases e with
  | «open» =>
    cases h
    exact .opened
  | call i c =>
    obtain ⟨inst, hi, h⟩ := Option.bind_eq_some_iff.1 h
    split at h
    · rename_i ht
      cases h
      exact .begun hi ht (begun_beginCall _ _ _)
    · cases h
  | resume i answer =>
    obtain ⟨inst, hi, h⟩ := Option.bind_eq_some_iff.1 h
    split at h
    · cases h
    · rename_i ht
      have hr := resumed_resumeTask (b := s.bucket) answer rfl (Bool.eq_false_iff.2 ht)
      cases h
      split
      · rename_i b inst' heq
        rw [heq] at hr
        exact .resumed hi hr
      · rename_i b heq
        rw [heq] at hr
        exact .discarded hi hr
  | watermarks i ws =>
    obtain ⟨inst, hi, h⟩ := Option.bind_eq_some_iff.1 h
    split at h
    · rename_i p ht
      cases h
      exact .watermarks hi ht
    · cases h
  | crash i =>
    simp only [step] at h
    split at h
    · cases h
      exact .crashed
    · cases h

end Shard

end Helipod
