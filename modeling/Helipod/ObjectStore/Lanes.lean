import Helipod.ObjectStore.Shard

/-!
# The lanes of a deployment

Model of `ShardedObjectStoreDocStore` (`objectstore-substrate/src/sharded-object-doc-store.ts`),
which sends a commit to the lane of its shard, and of `reshardObjectStore`
(`objectstore-substrate/src/reshard.ts`), which writes the live documents of all lanes into fresh
lanes. A lane is a `Shard`: the objects under its name and the instances that use them. Each lane
allocates timestamps from its own manifest and its own local store.

`reshardObjectStore` runs on a stopped deployment, so no instance outlives it, and it is not
interrupted. What it refuses, it refuses before it deletes anything. The slot of a shard key
(`jumpConsistentHash`) is a parameter.

The timestamps that commits have returned are kept in order, each with its lane and with the number
of completed reshards before it.

Results:
* `returned_increasing_iff`, `lanes_return_earlier_timestamps`
* `Shard.counts_step`: a commit that lands in a lane gets timestamps above the counter of the lane.
-/

namespace Helipod

open Runs VersionTable List

/-- `0` in a deployment with one shard; otherwise `default` for slot 0 and `s{k}` for slot `k`. -/
inductive LaneId where
  | single
  | slot (k : Nat)
  deriving DecidableEq, Repr

def LaneId.name : LaneId → String
  | .single => "0"
  | .slot 0 => "default"
  | .slot k => "s" ++ toString k

def laneIdsFor (numShards : Nat) : List LaneId :=
  if numShards = 1 then [.single] else (List.range numShards).map .slot

/-! ## Resharding -/

structure ReshardOpts where
  toShards : Nat
  now : Nat
  shardKeyFor : Nat → Option JsString
  slotOf : Bytes → Nat → Nat

inductive ReshardError where
  | range
  | live (lane : LaneId)
  | materialize (e : MaterializeError)
  | encode (e : EncodeError)
  deriving DecidableEq

abbrev LaneMap := OrderedMap LaneId (Shard DocumentValue)

/-- A lane without objects is as a new one. -/
def laneAt (lanes : LaneMap) (id : LaneId) : Shard DocumentValue := (lanes.get? id).getD .initial

/-- The gate: a lane whose lease has not expired. -/
def liveLane (lanes : LaneMap) (now : Nat) (id : LaneId) : Bool :=
  (laneAt lanes id).bucket.manifest.any fun m => m.writerId ≠ "" && now ≤ m.leaseExpiresAt

/-- The current state of a lane, read by a store that opens it. -/
def dumpLane (shard : Shard DocumentValue) :
    Except MaterializeError (SegmentPayload DocumentValue) :=
  (materializeTo shard.bucket.objects 0 .empty shard.bucket.current).map fun r =>
    r.1.dumpCurrentState

abbrev DumpedDocument := (InternalDocumentId × Nat) × DocumentRow DocumentValue

namespace ReshardOpts

variable (opts : ReshardOpts)

def toBucketLane (engineShard : LaneId) : LaneId :=
  if opts.toShards = 1 then .single else engineShard

def shardIdForKeyValue (value : JsValue) : Except EncodeError LaneId :=
  (encodeIndexKey [value]).map fun bytes => .slot (opts.slotOf bytes (max 1 opts.toShards))

/-- The lane of a document: that of its shard key, or the default lane. -/
def newLane (d : DumpedDocument) : Except EncodeError LaneId :=
  match opts.shardKeyFor d.1.1.tableNumber, d.2.value with
  | some shardKey, some fields =>
    (opts.shardIdForKeyValue (JsValue.property fields shardKey)).map opts.toBucketLane
  | _, _ => .ok (opts.toBucketLane (.slot 0))

end ReshardOpts

/-- The documents with their new lanes. -/
abbrev Placement := List (LaneId × DumpedDocument)

def newLaneOfDoc (placed : Placement) : OrderedMap InternalDocumentId LaneId :=
  placed.foldl (fun m p => m.set p.2.1.1 p.1) .empty

/-- What is committed to a fresh lane: its documents, and the live index entries of its documents.
-/
def laneUnit (placed : Placement) (index : List (((IndexId × Bytes) × Nat) × IndexUpdateValue))
    (lane : LaneId) : CommitUnit DocumentValue :=
  ⟨(placed.filter fun p => p.1 = lane).map fun p => ⟨p.2.1.1, p.2.2.prevTs, p.2.2.value⟩,
    index.filterMap fun w =>
      match w.2 with
      | .deleted => none
      | .nonClustered docId =>
        if (newLaneOfDoc placed).get? docId = some lane then some ⟨w.1.1.1, w.1.1.2, w.2⟩ else none⟩

/-- Open the empty lane, take the lease, commit the unit if it has rows, and give the lease back. -/
def freshLaneEvents (lane : LaneId) (now : Nat) (u : CommitUnit DocumentValue) :
    List (ShardEvent DocumentValue) :=
  [.open, .resume 0 .ok, .resume 0 .ok, .call 0 (.acquire ⟨"reshard-" ++ lane.name, 60000, now⟩),
    .resume 0 .ok, .resume 0 .ok] ++
  (if u.documents.isEmpty && u.indexUpdates.isEmpty then []
  else [.call 0 (.commitWriteBatch [u]), .resume 0 .ok, .resume 0 .ok]) ++
  [.call 0 .relinquish, .resume 0 .ok, .crash 0]

/-- A lane that has been written fresh. -/
def freshLane (lane : LaneId) (now : Nat) (u : CommitUnit DocumentValue) : Shard DocumentValue :=
  (run Shard.step .initial (freshLaneEvents lane now u)).getD .initial

def reshardObjectStore (opts : ReshardOpts) (fromShards : Nat) (lanes : LaneMap) :
    Except ReshardError LaneMap :=
  if opts.toShards < 1 then .error .range
  else match (laneIdsFor fromShards).find? (liveLane lanes opts.now) with
    | some lane => .error (.live lane)
    | none =>
      (((laneIdsFor fromShards).mapM fun id => dumpLane (laneAt lanes id)).mapError
        ReshardError.materialize).bind fun states =>
      (((states.flatMap (·.documents)).mapM fun d => (opts.newLane d).map fun lane =>
        (lane, d)).mapError ReshardError.encode).map fun placed =>
      let cleared := (laneIdsFor fromShards ++ laneIdsFor opts.toShards).foldl
        OrderedMap.erase lanes
      (laneIdsFor opts.toShards).foldl (fun m lane => m.set lane
        (freshLane lane opts.now (laneUnit placed (states.flatMap (·.indexUpdates)) lane))) cleared

/-! ## The deployment -/

/-- A timestamp that a commit returned. -/
structure ReturnedTs where
  lane : LaneId
  generation : Nat
  ts : Nat
  deriving DecidableEq

structure LaneDeployment where
  numShards : Nat
  lanes : LaneMap
  generation : Nat
  returned : List ReturnedTs

inductive LaneEvent where
  /-- An event of a lane; a commit is a call of one of its instances. -/
  | lane (id : LaneId) (e : ShardEvent DocumentValue)
  | reshard (opts : ReshardOpts)

/-- The timestamps of a commit. -/
def LandedCommit.timestamps {V : Type} (c : LandedCommit V) : List Nat :=
  (List.range c.units.length).map fun i => c.floor + i + 1

/-- The instance whose commit the event completes: the swap of its manifest is answered, and the
manifest is the one that it expects. -/
def Shard.completing {V : Type} (s : Shard V) : ShardEvent V → Option (ObjectStoreDocStore V)
  | .resume i .ok => (s.instances.get? i).filter fun inst =>
    match inst.task with
    | .commitCas _ units => !units.isEmpty && s.bucket.manifest = some inst.cached
    | _ => false
  | _ => none

/-- The commits that a step lands and whose call it returns. -/
def Shard.returnedCommits {V : Type} (s s' : Shard V) : List (LandedCommit V) :=
  (s'.bucket.landed.drop s.bucket.landed.length).filter fun c =>
    c.call ∈ s'.bucket.returned.drop s.bucket.returned.length

namespace LaneDeployment

def new (numShards : Nat) : LaneDeployment :=
  ⟨numShards, (laneIdsFor numShards).foldl (fun m id => m.set id .initial) .empty, 0, []⟩

/-- A step of a lane. -/
def advance (s : LaneDeployment) (id : LaneId) (shard shard' : Shard DocumentValue) :
    LaneDeployment :=
  { s with
    lanes := s.lanes.set id shard'
    returned := s.returned ++ ((shard.returnedCommits shard').flatMap LandedCommit.timestamps).map
      fun ts => ⟨id, s.generation, ts⟩ }

/-- A call for a lane that the deployment does not have is rejected. -/
def step (s : LaneDeployment) : LaneEvent → Option LaneDeployment
  | .lane id e =>
    match s.lanes.get? id with
    | none => some s
    | some shard => (shard.step e).map (s.advance id shard)
  | .reshard opts =>
    if opts.toShards = s.numShards then some s
    else match reshardObjectStore opts s.numShards s.lanes with
      | .error _ => some s
      | .ok lanes =>
          some { s with numShards := opts.toShards, lanes, generation := s.generation + 1 }

/-- The timestamp was returned by another lane, or before the last reshard. -/
def Foreign (s : LaneDeployment) (id : LaneId) (r : ReturnedTs) : Prop :=
  r.lane ≠ id ∨ r.generation ≠ s.generation

instance (s : LaneDeployment) (id : LaneId) (r : ReturnedTs) : Decidable (s.Foreign id r) :=
  inferInstanceAs (Decidable (_ ∨ _))

/-- A commit completes only on an instance whose counters, that of its manifest or that of its local
store, have reached what other lanes, or lanes before a reshard, have returned. -/
def Ahead (s : LaneDeployment) : LaneEvent → Prop
  | .lane id e => ∀ shard ∈ s.lanes.get? id, ∀ inst ∈ shard.completing e, ∀ r ∈ s.returned,
    s.Foreign id r → r.ts ≤ max inst.cached.tsCounter inst.store.maxTimestamp
  | .reshard _ => True

instance (s : LaneDeployment) (e : LaneEvent) : Decidable (s.Ahead e) := by
  unfold Ahead
  split <;> infer_instance

/-- Each timestamp is greater than those before it. -/
def Increasing (s : LaneDeployment) : Prop := (s.returned.map (·.ts)).Pairwise (· < ·)

end LaneDeployment

/-! ## Counters of a lane -/

section Counters

variable {V : Type} {b b' : Bucket V} {inst : ObjectStoreDocStore V}

/-- A step keeps the commits and the counter, or the task lands a commit above the counter. -/
inductive Bucket.Counts (task : Task V) (b b' : Bucket V) : Prop
  | keeps (hlanded : b'.landed = b.landed) (hreturned : b'.returned = b.returned)
      (hcounter : b'.current.tsCounter = b.current.tsCounter)
  | lands {c : LandedCommit V} {returns : Bool} (htask : task = .commitCas c.call c.units)
      (hlanded : b'.landed = b.landed ++ [c])
      (hreturned : b'.returned = if returns then b.returned ++ [c.call] else b.returned)
      (hfloor : b.current.tsCounter ≤ c.floor)
      (hcounter : b'.current.tsCounter = c.floor + c.units.length)

namespace Bucket.Counts

variable {task : Task V}

theorem withManifest {m m' : Manifest} (hm : b.manifest = some m) (h : m'.tsCounter = m.tsCounter) :
    Counts task b (b.withManifest m') := by
  refine .keeps rfl rfl ?_
  rw [Bucket.current, Bucket.current, hm]
  exact h

theorem create (hm : b.manifest = none) : Counts task b (b.withManifest emptyManifest) := by
  refine .keeps rfl rfl ?_
  rw [Bucket.current, Bucket.current, hm]
  rfl

theorem putSegment (n : Nat) (payload : SegmentPayload V) :
    Counts task b (b.putSegment n payload) := by
  unfold Bucket.putSegment
  split
  · exact .keeps rfl rfl rfl
  · exact .keeps rfl rfl rfl

theorem putSnapshot (snap : SnapshotPayload V) : Counts task b (b.putSnapshot snap) := by
  unfold Bucket.putSnapshot
  split
  · exact .keeps rfl rfl rfl
  · exact .keeps rfl rfl rfl

theorem land {call : Nat} {units : List (CommitUnit V)} (ht : task = .commitCas call units)
    (hm : b.manifest = some inst.cached) (returns : Bool) :
    Counts task b ((b.withManifest (inst.committed units)).land
      ⟨call, inst.nextSeqno, inst.floor, units⟩ returns) := by
  refine .lands ht rfl rfl ?_ rfl
  rw [Bucket.current, hm]
  exact le_max_left _ _

end Bucket.Counts

theorem counts_of_begun {c : StoreCall V} {inst' : ObjectStoreDocStore V}
    (h : Begun b inst c b' inst') : Bucket.Counts inst.task b b' := by
  cases h with
  | stays | acquire | heartbeat | relinquish | diverged | commit | snapshot | gc =>
    exact .keeps rfl rfl rfl

theorem counts_of_resumed {inst' : Option (ObjectStoreDocStore V)} (h : Resumed b inst b' inst') :
    Bucket.Counts inst.task b b' := by
  cases h with
  | throws | waits | opened | restored | replayed | stopped | ends | acquiring | raced | fenced
  | gaveUp | poisoned | adopted | listedSegments | sweptSegment | listedSnapshots | sweptSnapshot =>
    exact .keeps rfl rfl rfl
  | throwsCreated _ hm | created _ hm => exact .create hm
  | claimed _ hm => exact .withManifest hm rfl
  | unclaimed _ hb =>
    rcases hb with rfl | ⟨hm, rfl⟩
    · exact .keeps rfl rfl rfl
    · exact .withManifest hm rfl
  | renewed _ hm | renewedLost _ hm | relinquished _ hm _ | snapshotted _ hm _ =>
    exact .withManifest hm rfl
  | stored | storedLost => exact .putSegment _ _
  | dumped | dumpedLost => exact .putSnapshot _
  | committed ht hm => exact .land ht hm true
  | committedLost ht hm => exact .land ht hm false

theorem Shard.counts_step {s s' : Shard V} {e : ShardEvent V} (h : s.step e = some s') :
    ∃ task, Bucket.Counts task s.bucket s'.bucket := by
  cases Shard.stepped_of_step h with
  | opened | watermarks | crashed => exact ⟨.idle, .keeps rfl rfl rfl⟩
  | begun _ _ hb => exact ⟨_, counts_of_begun hb⟩
  | resumed _ hr | discarded _ hr => exact ⟨_, counts_of_resumed hr⟩

theorem returnedCommits_of_landed {s s' : Shard V} (h : s'.bucket.landed = s.bucket.landed) :
    s.returnedCommits s' = [] := by
  rw [Shard.returnedCommits, h, drop_length]
  rfl

/-- A step returns the timestamps of one commit at most, and they are above the counter. -/
theorem returnedCommits_cases {s s' : Shard V} {task : Task V}
    (h : Bucket.Counts task s.bucket s'.bucket) :
    s.returnedCommits s' = [] ∧ s.bucket.current.tsCounter ≤ s'.bucket.current.tsCounter ∨
    ∃ c, s.returnedCommits s' = [c] ∧ s.bucket.current.tsCounter ≤ c.floor ∧
      s'.bucket.current.tsCounter = c.floor + c.units.length := by
  cases h with
  | keeps hlanded hreturned hcounter =>
    exact .inl ⟨returnedCommits_of_landed hlanded, hcounter.ge⟩
  | @lands c returns htask hlanded hreturned hfloor hcounter =>
    have hnew : s.returnedCommits s' = [c].filter fun c => c.call ∈
        (if returns then s.bucket.returned ++ [c.call] else s.bucket.returned).drop
          s.bucket.returned.length := by
      rw [Shard.returnedCommits, hlanded, hreturned, drop_left]
      exact filter_congr fun c' hc' => by rw [mem_singleton.1 hc']
    cases returns with
    | false =>
      refine .inl ⟨?_, by omega⟩
      rw [hnew]
      simp
    | true =>
      refine .inr ⟨c, ?_, hfloor, hcounter⟩
      rw [hnew]
      simp

/-- The swap of a commit is answered: the call returns exactly if the event completes the commit. -/
theorem Shard.returnedCommits_swap {s s' : Shard V} {i call : Nat} {answer : Response}
    {units : List (CommitUnit V)} (h : s.step (.resume i answer) = some s')
    (hi : s.instances.get? i = some inst) (ht : inst.task = .commitCas call units) :
    s.returnedCommits s' = if answer = .ok ∧ s.bucket.manifest = some inst.cached
      then [⟨call, inst.nextSeqno, inst.floor, units⟩] else [] := by
  simp only [Shard.step, hi, ht, Option.bind_some, Task.isIdle] at h
  cases h
  cases answer with
  | ok =>
    by_cases hm : s.bucket.manifest = some inst.cached
    · simp [resumeTask, Bucket.cas, hm, Shard.returnedCommits, Shard.setInstance, Bucket.land,
        Bucket.withManifest]
    · simp [resumeTask, Bucket.cas, hm, Shard.returnedCommits, Shard.setInstance]
  | failed => simp [resumeTask, Shard.returnedCommits, Shard.setInstance]
  | lost =>
    by_cases hm : s.bucket.manifest = some inst.cached
    · simp [resumeTask, Bucket.cas, hm, Shard.returnedCommits, Shard.setInstance, Bucket.land,
        Bucket.withManifest]
    · simp [resumeTask, Bucket.cas, hm, Shard.returnedCommits, Shard.setInstance]

/-- What a step returns lies above the floor of the instance whose commit the event completes. -/
theorem Shard.floor_completing {s s' : Shard V} {e : ShardEvent V} (h : s.step e = some s')
    (P : Nat → Prop) : (∀ c ∈ s.returnedCommits s', c.units ≠ [] → P c.floor) ↔
      ∀ inst ∈ s.completing e, P inst.floor := by
  have hkeeps : s'.bucket.landed = s.bucket.landed → s.completing e = none →
      ((∀ c ∈ s.returnedCommits s', c.units ≠ [] → P c.floor) ↔
        ∀ inst ∈ s.completing e, P inst.floor) := by
    intro hlanded hnone
    simp [returnedCommits_of_landed hlanded, hnone]
  cases Shard.stepped_of_step h with
  | opened | watermarks | crashed => exact hkeeps rfl rfl
  | begun _ _ hb => exact hkeeps (by cases hb <;> rfl) rfl
  | @resumed i answer inst _ _ hi hr | @discarded i answer inst _ hi hr =>
    by_cases htask : ∃ call units, inst.task = .commitCas call units
    · obtain ⟨call, units, ht⟩ := htask
      rw [returnedCommits_swap h hi ht]
      by_cases hok : answer = .ok ∧ s.bucket.manifest = some inst.cached
      · obtain ⟨rfl, hm⟩ := hok
        cases units <;> simp [completing, hi, ht, hm, Option.filter_some]
      · have hnone : s.completing (.resume i answer) = none := by
          cases answer with
          | ok => simp [completing, hi, ht, not_and.1 hok rfl, Option.filter_some]
          | failed | lost => rfl
        simp [hok, hnone]
    · refine hkeeps ?_ ?_
      · cases counts_of_resumed hr with
        | keeps hlanded => exact hlanded
        | lands ht => exact absurd ⟨_, _, ht⟩ htask
      · cases answer with
        | ok =>
          rw [completing, hi, Option.filter_some, if_neg]
          split
          · rename_i ht
            exact absurd ⟨_, _, ht⟩ htask
          · exact Bool.false_ne_true
        | failed | lost => rfl

theorem timestamps_sorted (c : LandedCommit V) : c.timestamps.Pairwise (· < ·) :=
  pairwise_map.2 (pairwise_lt_range.imp fun h => by omega)

theorem mem_timestamps {c : LandedCommit V} {ts : Nat} :
    ts ∈ c.timestamps ↔ c.floor < ts ∧ ts ≤ c.floor + c.units.length := by
  simp only [LandedCommit.timestamps, mem_map, mem_range]
  constructor
  · rintro ⟨i, hi, rfl⟩
    omega
  · intro h
    exact ⟨ts - c.floor - 1, by omega, by omega⟩

end Counters

/-! ## Runs of a deployment -/

namespace LaneDeployment

variable {s s' : LaneDeployment} {e : LaneEvent} {id : LaneId} {shard shard' : Shard DocumentValue}
  {se : ShardEvent DocumentValue}

/-- What a lane has returned since the last reshard is not above its counter. -/
structure Counted (s : LaneDeployment) : Prop where
  generation : ∀ r ∈ s.returned, r.generation ≤ s.generation
  counter : ∀ r ∈ s.returned, r.generation = s.generation →
    ∀ shard, s.lanes.get? r.lane = some shard → r.ts ≤ shard.bucket.current.tsCounter

theorem Counted.advance (h : s.Counted) (hget : s.lanes.get? id = some shard)
    (hstep : shard.step se = some shard') : (s.advance id shard shard').Counted := by
  obtain ⟨_, hcounts⟩ := Shard.counts_step hstep
  have hnew : ∀ c ∈ shard.returnedCommits shard', ∀ ts ∈ c.timestamps,
      ts ≤ shard'.bucket.current.tsCounter := by
    intro c hc ts hts
    obtain ⟨hnil, -⟩ | ⟨c', hone, -, hcounter⟩ := returnedCommits_cases hcounts
    · rw [hnil] at hc
      cases hc
    · rw [hone] at hc
      obtain rfl := mem_singleton.1 hc
      exact hcounter ▸ (mem_timestamps.1 hts).2
  have hle : shard.bucket.current.tsCounter ≤ shard'.bucket.current.tsCounter := by
    obtain ⟨-, hle⟩ | ⟨c, -, hfloor, hcounter⟩ := returnedCommits_cases hcounts
    · exact hle
    · omega
  constructor
  · intro r hr
    rcases mem_append.1 hr with hr | hr
    · exact h.generation r hr
    · obtain ⟨ts, -, rfl⟩ := mem_map.1 hr
      exact le_rfl
  · intro r hr hgen lane hlane
    have hlane : (s.lanes.set id shard').get? r.lane = some lane := hlane
    rw [OrderedMap.get?_set] at hlane
    rcases mem_append.1 hr with hr | hr
    · split at hlane
      · rename_i hid
        cases hlane
        exact (h.counter r hr hgen shard (hid ▸ hget)).trans hle
      · exact h.counter r hr hgen lane hlane
    · obtain ⟨ts, hts, rfl⟩ := mem_map.1 hr
      rw [if_pos rfl] at hlane
      cases hlane
      obtain ⟨c, hc, hts⟩ := mem_flatMap.1 hts
      exact hnew c hc ts hts

theorem Counted.step (h : s.Counted) (hs : s.step e = some s') : s'.Counted := by
  cases e with
  | lane id e =>
    simp only [LaneDeployment.step] at hs
    split at hs
    · cases hs
      exact h
    · rename_i shard hget
      obtain ⟨shard', hstep, rfl⟩ := Option.map_eq_some_iff.1 hs
      exact h.advance hget hstep
  | reshard opts =>
    simp only [LaneDeployment.step] at hs
    split at hs
    · cases hs
      exact h
    · split at hs
      · cases hs
        exact h
      · cases hs
        refine ⟨fun r hr => Nat.le_succ_of_le (h.generation r hr), fun r hr hgen => ?_⟩
        have := h.generation r hr
        have hgen : r.generation = s.generation + 1 := hgen
        omega

theorem isPrefix_step (hs : s.step e = some s') : s.returned <+: s'.returned := by
  cases e with
  | lane id e =>
    simp only [LaneDeployment.step] at hs
    split at hs
    · cases hs
      exact prefix_rfl
    · obtain ⟨shard', -, rfl⟩ := Option.map_eq_some_iff.1 hs
      exact prefix_append _ _
  | reshard opts =>
    simp only [LaneDeployment.step] at hs
    split at hs
    · cases hs
      exact prefix_rfl
    · split at hs
      · cases hs
        exact prefix_rfl
      · cases hs
        exact prefix_rfl

theorem isPrefix_run {es : List LaneEvent} (hr : run LaneDeployment.step s es = some s') :
    s.returned <+: s'.returned := by
  refine run_invariant (I := fun t => s.returned <+: t.returned) ?_ prefix_rfl hr
  exact fun t e t' h hs => h.trans (isPrefix_step hs)

theorem increasing_advance (hc : s.Counted) (hi : s.Increasing)
    (hget : s.lanes.get? id = some shard)
    (hstep : shard.step se = some shard') : (s.advance id shard shard').Increasing ↔
      ∀ inst ∈ shard.completing se, ∀ r ∈ s.returned, s.Foreign id r →
        r.ts ≤ max inst.cached.tsCounter inst.store.maxTimestamp := by
  refine Iff.trans ?_
    (Shard.floor_completing hstep fun floor => ∀ r ∈ s.returned, s.Foreign id r → r.ts ≤ floor)
  obtain ⟨_, hcounts⟩ := Shard.counts_step hstep
  rw [Increasing, advance, map_append, map_map]
  obtain ⟨hnil, -⟩ | ⟨c, hone, hfloor, -⟩ := returnedCommits_cases hcounts
  · simp only [hnil, flatMap_nil, map_nil, append_nil]
    exact ⟨fun _ c hc => (by cases hc), fun _ => hi⟩
  · have hmap : ((fun r : ReturnedTs => r.ts) ∘ fun ts => ⟨id, s.generation, ts⟩) =
      fun ts : Nat => ts :=
      rfl
    rw [hone, flatMap_singleton, hmap, map_id', pairwise_append]
    -- what the lane itself has returned is below its counter
    have hown : ∀ r ∈ s.returned, ¬ s.Foreign id r → r.ts ≤ c.floor := by
      intro r hr hown
      obtain ⟨hlane, hgen⟩ := not_or.1 hown
      exact (hc.counter r hr (not_not.1 hgen) shard (not_not.1 hlane ▸ hget)).trans hfloor
    constructor
    · rintro ⟨-, -, hlt⟩ c' hc' hne r hr -
      obtain rfl := mem_singleton.1 hc'
      have hfirst : c'.floor + 1 ∈ c'.timestamps := by
        have := length_pos_iff.2 hne
        exact mem_timestamps.2 ⟨by omega, by omega⟩
      exact Nat.lt_succ_iff.1 (hlt r.ts (mem_map_of_mem hr) _ hfirst)
    · intro hahead
      refine ⟨hi, timestamps_sorted c, fun t ht ts hts => ?_⟩
      obtain ⟨r, hr, rfl⟩ := mem_map.1 ht
      obtain ⟨hlt, hle⟩ := mem_timestamps.1 hts
      have hne : c.units ≠ [] := by
        intro hnil
        rw [hnil] at hle
        simp at hle
        omega
      by_cases hforeign : s.Foreign id r
      · exact (hahead c (by simp) hne r hr hforeign).trans_lt hlt
      · exact (hown r hr hforeign).trans_lt hlt

/-- A step keeps the order exactly if its commit is ahead of what was returned elsewhere. -/
theorem increasing_step (hc : s.Counted) (hi : s.Increasing) (hs : s.step e = some s') :
    s'.Increasing ↔ s.Ahead e := by
  cases e with
  | lane id e =>
    simp only [LaneDeployment.step] at hs
    split at hs
    · rename_i hget
      cases hs
      refine ⟨fun _ shard hshard => ?_, fun _ => hi⟩
      rw [hget] at hshard
      cases hshard
    · rename_i shard hget
      obtain ⟨shard', hstep, rfl⟩ := Option.map_eq_some_iff.1 hs
      rw [increasing_advance hc hi hget hstep]
      simp only [Ahead, hget, Option.mem_def, Option.some.injEq, forall_eq']
  | reshard opts =>
    have hsame : s'.returned = s.returned := by
      simp only [LaneDeployment.step] at hs
      split at hs
      · cases hs
        rfl
      · split at hs
        · cases hs
          rfl
        · cases hs
          rfl
    rw [Increasing, hsame]
    exact ⟨fun _ => trivial, fun _ => hi⟩

theorem increasing_run {es : List LaneEvent} (hc : s.Counted) (hi : s.Increasing)
    (hr : run LaneDeployment.step s es = some s') :
    s'.Increasing ↔ Guarded LaneDeployment.step LaneDeployment.Ahead s es := by
  induction es generalizing s with
  | nil =>
    cases hr
    exact ⟨fun _ => trivial, fun _ => hi⟩
  | cons e es ih =>
    obtain ⟨m, hm, hr⟩ := run_cons_eq_some.1 hr
    have hstep := increasing_step hc hi hm
    constructor
    · intro h
      have hmid : m.Increasing := h.sublist ((isPrefix_run hr).sublist.map _)
      refine ⟨hstep.1 hmid, fun m' hm' => ?_⟩
      rw [hm] at hm'
      cases hm'
      exact (ih (hc.step hm) hmid hr).1 h
    · rintro ⟨hahead, hrest⟩
      exact (ih (hc.step hm) (hstep.2 hahead) hr).2 (hrest m hm)

end LaneDeployment

/-- Each timestamp that a commit returns is greater than those returned before exactly if no commit
goes to a lane that is behind what other lanes, or lanes before a reshard, have returned. -/
theorem returned_increasing_iff {numShards : Nat} {events : List LaneEvent} {s : LaneDeployment}
    (hr : run LaneDeployment.step (.new numShards) events = some s) :
    s.Increasing ↔ Guarded LaneDeployment.step LaneDeployment.Ahead (.new numShards) events :=
  LaneDeployment.increasing_run ⟨fun _ hr => (by cases hr), fun _ hr => (by cases hr)⟩
    List.Pairwise.nil hr

namespace LaneExample

def item : InternalDocumentId := ⟨1, [byte 1]⟩

def itemUnit : CommitUnit DocumentValue := ⟨[⟨item, none, some []⟩], []⟩

def openLane (i : Nat) : List (ShardEvent DocumentValue) :=
  [.open, .resume i .ok, .resume i .ok, .call i (.acquire ⟨"node", 10, 0⟩), .resume i .ok,
    .resume i .ok]

def commitUnits (i n : Nat) : List (ShardEvent DocumentValue) :=
  [.call i (.commitWriteBatch (List.replicate n itemUnit)), .resume i .ok, .resume i .ok]

def stopLane (i : Nat) : List (ShardEvent DocumentValue) :=
  [.call i .relinquish, .resume i .ok, .crash i]

def onLane (id : LaneId) (events : List (ShardEvent DocumentValue)) : List LaneEvent :=
  events.map (.lane id)

/-- From one shard to two; no table has a shard key. -/
def toTwo : ReshardOpts := ⟨2, 20, fun _ => none, fun _ _ => 0⟩

/-- Two commits of the only lane. -/
def oneLane : List LaneEvent :=
  onLane .single (openLane 0 ++ commitUnits 0 1 ++ commitUnits 0 2)

/-- Three commits of one lane, then one of another. -/
def twoLanes : List LaneEvent :=
  onLane (.slot 0) (openLane 0 ++ commitUnits 0 3) ++ onLane (.slot 1)
    (openLane 0 ++ commitUnits 0 1)

/-- Three commits of the only lane, then a commit of a lane after a reshard. -/
def acrossReshard : List LaneEvent :=
  onLane .single (openLane 0 ++ commitUnits 0 3 ++ stopLane 0) ++ [.reshard toTwo] ++
    onLane (.slot 0) (openLane 1 ++ commitUnits 1 1)

def returnedTimestamps (numShards : Nat) (events : List LaneEvent) : Option (List Nat) :=
  (run LaneDeployment.step (.new numShards) events).map fun s => s.returned.map (·.ts)

end LaneExample

open LaneExample in
/-- With one lane the condition holds. -/
theorem returned_increasing_one_lane : ∃ s, run LaneDeployment.step (.new 1) oneLane = some s ∧
    s.returned.map (·.ts) = [1, 2, 3] ∧ s.Increasing := by
  have h : returnedTimestamps 1 oneLane = some [1, 2, 3] := by decide +kernel
  obtain ⟨s, hr, hts⟩ := Option.map_eq_some_iff.1 h
  exact ⟨s, hr, hts, (returned_increasing_iff hr).2 (by decide +kernel)⟩

open LaneExample in
/-- A second lane returns a timestamp that the first has returned; a lane after a reshard returns
one that was returned before it. -/
theorem lanes_return_earlier_timestamps :
    returnedTimestamps 2 twoLanes = some [1, 2, 3, 1] ∧
      returnedTimestamps 1 acrossReshard = some [1, 2, 3, 2] := by
  constructor <;> decide +kernel

end Helipod
