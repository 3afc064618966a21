import Helipod.ObjectStore.Fencing

/-!
# The tailer of a replica

Model of `ObjectStoreReplicaTailer` (`objectstore-substrate/src/replica-tailer.ts`), which pulls
what a shard has committed into a local store and tells a sink which documents it has written. The
shard is `Shard`, with any number of writers. A tick is cut at its `await`s on the object store and
on the sink; each may fail. Work on the local store happens together with the answer before it and
does not fail. `waitFor` and the timer are left out: a tick may come at any time.

The tailer has two fields the source does not have: the invalidations whose call has resolved, and
the documents whose visible value has changed since the cursors last advanced.

Results:
* `TailedShard.Covered.step`, `changes_are_invalidated`, `restore_again_misses_deletion`
* `Shard.lists_step`: a segment that a manifest references stays referenced until a snapshot covers
  it.
-/

namespace Helipod

open VersionTable Runs ObjectStoreDocStore List

variable {V : Type}

/-- `MAX_MISSING_SEGMENT_RETRIES`. -/
def maxMissingSegmentRetries : Nat := 8

/-! ## Invalidations -/

structure AppliedInvalidation where
  newMaxTs : Nat
  writtenTables : List Nat
  writtenKeys : List (IndexId × Bytes)
  writtenDocs : List InternalDocumentId
  deriving DecidableEq

abbrev DocumentRows (V : Type) := List ((InternalDocumentId × Nat) × DocumentRow V)

abbrev IndexRows := List (((IndexId × Bytes) × Nat) × IndexUpdateValue)

def rowIds (rows : DocumentRows V) : List InternalDocumentId := rows.map (·.1.1)

/-- The elements in the order of their first occurrence. -/
def distinct {α : Type} [DecidableEq α] (l : List α) : List α :=
  l.foldl (fun seen a => if a ∈ seen then seen else seen ++ [a]) []

def buildInvalidation (documents : DocumentRows V) (indexUpdates : IndexRows) (newMaxTs : Nat) :
    AppliedInvalidation where
  newMaxTs := newMaxTs
  writtenTables := distinct ((rowIds documents).map (·.tableNumber) ++
    indexUpdates.filterMap fun w =>
    match w.2 with
    | .deleted => none
    | .nonClustered docId => some docId.tableNumber)
  writtenKeys := indexUpdates.map (·.1.1)
  writtenDocs := distinct (rowIds documents)

theorem mem_distinct {α : Type} [DecidableEq α] {l : List α} {a : α} : a ∈ distinct l ↔ a ∈ l := by
  have hfold : ∀ seen : List α,
      a ∈ l.foldl (fun seen a => if a ∈ seen then seen else seen ++ [a]) seen ↔
        a ∈ seen ∨ a ∈ l := by
    induction l with
    | nil => simp
    | cons x l ih =>
      intro seen
      rw [foldl_cons, ih]
      by_cases hx : x ∈ seen
      · rw [if_pos hx]
        constructor
        · rintro (h | h)
          · exact .inl h
          · exact .inr (.tail x h)
        · rintro (h | h)
          · exact .inl h
          · rcases mem_cons.1 h with rfl | h
            · exact .inl hx
            · exact .inr h
      · rw [if_neg hx, mem_append, mem_singleton, mem_cons, or_assoc]
  rw [distinct, hfold]
  simp

/-! ## The tailer -/

/-- The variables of `#materializeRound`. -/
structure MaterializeRound (V : Type) where
  documents : DocumentRows V
  indexUpdates : IndexRows
  manifest : Manifest
  appliedSeqno : Int
  missingSegmentRetries : Nat

/-- What the tick under way waits for. -/
inductive TailTask (V : Type) where
  | idle
  | readManifest
  | readSnapshot (round : MaterializeRound V) (p : SnapshotPointer)
  | readSegment (round : MaterializeRound V) (seqno : Nat) (rest : List Nat)
  | rereadManifest (round : MaterializeRound V)
  | sink (round : MaterializeRound V)

structure ReplicaTailer (V : Type) where
  store : SqliteDocStore V
  appliedSeqno : Int
  appliedMaxTs : Nat
  initialized : Bool
  task : TailTask V
  /-- The invalidations whose call has resolved. -/
  delivered : List AppliedInvalidation
  changed : List InternalDocumentId

/-- The latest value of a document. -/
def SqliteDocStore.visible (s : SqliteDocStore V) (id : InternalDocumentId) : Option V :=
  (s.get id none).map (·.value)

variable [DecidableEq V]

/-- The documents among `ids` whose latest value differs. -/
def changedDocs (s s' : SqliteDocStore V) (ids : List InternalDocumentId) :
    List InternalDocumentId :=
  ids.filter fun id => s.visible id ≠ s'.visible id

namespace ReplicaTailer

def new (store : SqliteDocStore V) : ReplicaTailer V := ⟨store, -1, 0, false, .idle, [], []⟩

/-- The tick ends without advancing the cursors. -/
def stop (t : ReplicaTailer V) : ReplicaTailer V := { t with task := .idle }

/-- Rows are written to the local store, among them those of `ids`. -/
def wrote (t : ReplicaTailer V) (store : SqliteDocStore V) (ids : List InternalDocumentId) :
    ReplicaTailer V :=
  { t with store, changed := t.changed ++ changedDocs t.store store ids }

/-- Both cursors advance. -/
def advance (t : ReplicaTailer V) (round : MaterializeRound V) : ReplicaTailer V :=
  { t with
    appliedSeqno := round.appliedSeqno
    appliedMaxTs := round.manifest.frontierTs
    task := .idle
    changed := [] }

/-- The end of a round: the sink is called unless nothing was applied. -/
def finish (t : ReplicaTailer V) (round : MaterializeRound V) : ReplicaTailer V :=
  if round.documents.isEmpty && round.indexUpdates.isEmpty then t.advance round
  else { t with task := .sink round }

/-- Go on to the first of the segments that is not applied. -/
def pullSegments (t : ReplicaTailer V) (round : MaterializeRound V) (segments : List Nat) :
    ReplicaTailer V :=
  match segments.dropWhile fun (seqno : Nat) => (seqno : Int) ≤ round.appliedSeqno with
  | [] => t.finish round
  | seqno :: rest => { t with task := .readSegment round seqno rest }

/-- The head of the loop of `#materializeRound`. -/
def startLoop (t : ReplicaTailer V) (round : MaterializeRound V) : ReplicaTailer V :=
  match round.manifest.snapshot with
  | none => t.pullSegments round round.manifest.segments
  | some p =>
    if round.appliedSeqno < p.segBase then { t with task := .readSnapshot round p }
    else t.pullSegments round round.manifest.segments

/-- `applySnapshotState`, with the tombstones in the documents of the round. -/
def restore (t : ReplicaTailer V) (round : MaterializeRound V) (p : SnapshotPointer)
    (snap : SnapshotPayload V) : ReplicaTailer V :=
  let documents := t.store.deletedDocs snap ++ snap.rows.documents
  (t.wrote (t.store.applySnapshotState snap) (rowIds documents)).pullSegments
    { round with
      documents := round.documents ++ documents
      indexUpdates := round.indexUpdates ++ snap.rows.indexUpdates
      appliedSeqno := p.segBase }
    round.manifest.segments

def apply (t : ReplicaTailer V) (round : MaterializeRound V) (seqno : Nat) (rest : List Nat)
    (payload : SegmentPayload V) : ReplicaTailer V :=
  (t.wrote (t.store.write payload) (rowIds payload.documents)).pullSegments
    { round with
      documents := round.documents ++ payload.documents
      indexUpdates := round.indexUpdates ++ payload.indexUpdates
      appliedSeqno := seqno }
    rest

/-- The manifest is read. -/
def compare (t : ReplicaTailer V) (m : Manifest) : ReplicaTailer V :=
  if m.frontierTs ≤ t.appliedMaxTs then
    { t with appliedSeqno := max t.appliedSeqno ((m.nextSeqno : Int) - 1), task := .idle }
  else t.startLoop ⟨[], [], m, t.appliedSeqno, 0⟩

/-- `tick` while another one is under way does nothing. -/
def tick (t : ReplicaTailer V) : ReplicaTailer V :=
  match t.task with
  | .idle =>
    { t with
      appliedMaxTs := if t.initialized then t.appliedMaxTs else t.store.maxTimestamp
      initialized := true
      task := .readManifest }
  | _ => t

/-- The tick goes on with the answer it waits for. -/
def resume (t : ReplicaTailer V) (b : Bucket V) : ReplicaTailer V :=
  match t.task with
  | .idle => t
  | .readManifest =>
    match b.manifest with
    | none => t.stop
    | some m => t.compare m
  | .readSnapshot round p =>
    match b.objects.snapshots.get? p.ts with
    | none => t.stop
    | some snap => t.restore round p snap
  | .readSegment round seqno rest =>
    match b.objects.segments.get? seqno with
    | none =>
      if maxMissingSegmentRetries < round.missingSegmentRetries + 1 then t.stop
      else { t with
        task :=
          .rereadManifest { round with missingSegmentRetries := round.missingSegmentRetries + 1 } }
    | some payload => t.apply round seqno rest payload
  | .rereadManifest round =>
    match b.manifest with
    | none => t.stop
    | some m => t.startLoop { round with manifest := m }
  | .sink round =>
    let inv := buildInvalidation round.documents round.indexUpdates round.manifest.frontierTs
    { t.advance round with delivered := t.delivered ++ [inv] }

end ReplicaTailer

/-! ## The tailer beside the writers -/

structure TailedShard (V : Type) where
  shard : Shard V
  tailer : ReplicaTailer V

inductive TailEvent (V : Type) where
  | shard (e : ShardEvent V)
  | tick
  /-- The object store answers, or the sink resolves. -/
  | resume
  /-- The read fails, or the sink throws. -/
  | fail

namespace TailedShard

def new (store : SqliteDocStore V) : TailedShard V := ⟨.initial, .new store⟩

def step (s : TailedShard V) : TailEvent V → Option (TailedShard V)
  | .shard e => (s.shard.step e).map fun shard => { s with shard }
  | .tick => some { s with tailer := s.tailer.tick }
  | .resume => some { s with tailer := s.tailer.resume s.shard.bucket }
  | .fail => some { s with tailer := s.tailer.stop }

/-- A segment that is read is the one its commit has stored, and a snapshot that is restored has
every document that is deleted here, has changed since the cursors advanced and is not yet in the
round. -/
def AnswerRedelivers (s : TailedShard V) : TailTask V → Prop
  | .readSnapshot round p => ∀ snap ∈ s.shard.bucket.objects.snapshots.get? p.ts,
      ∀ id ∈ s.tailer.changed, s.tailer.store.visible id = none → id ∉ rowIds round.documents →
        id ∈ rowIds snap.rows.documents
  | .readSegment _ seqno _ => ∀ payload ∈ s.shard.bucket.objects.segments.get? seqno,
      ∃ c ∈ s.shard.bucket.landed, c.seqno = seqno ∧ batchPayload c.floor c.units = payload
  | _ => True

def Redelivers (s : TailedShard V) : TailEvent V → Prop
  | .resume => s.AnswerRedelivers s.tailer.task
  | _ => True

instance (s : TailedShard V) (task : TailTask V) : Decidable (s.AnswerRedelivers task) := by
  unfold AnswerRedelivers
  split <;> infer_instance

instance (s : TailedShard V) : (e : TailEvent V) → Decidable (s.Redelivers e)
  | .resume => inferInstanceAs (Decidable (s.AnswerRedelivers s.tailer.task))
  | .shard _ | .tick | .fail => isTrue trivial

end TailedShard

/-! ## Manifests and what they reference -/

section References

omit [DecidableEq V]

variable {b b' : Bucket V} {inst : ObjectStoreDocStore V} {m : Manifest}
  {id : InternalDocumentId} {n : Nat}

/-- What a step does with the segments of the manifest. -/
inductive Bucket.Lists (b b' : Bucket V) : Prop
  | keeps (hlanded : b'.landed = b.landed) (hsegments : b'.current.segments = b.current.segments)
  | trims {p : SnapshotPointer} (hlanded : b'.landed = b.landed) (hp : b'.current.snapshot = some p)
      (hsegments : b'.current.segments = b.current.segments.filter fun n => p.segBase < n)
  | lands {c : LandedCommit V} (hlanded : b'.landed = b.landed ++ [c])
      (hseqno : c.seqno = b.current.nextSeqno) (hnext : b'.current.nextSeqno = c.seqno + 1)
      (hsegments : b'.current.segments = b.current.segments ++ [c.seqno])

namespace Bucket.Lists

theorem refl : b.Lists b := .keeps rfl rfl

theorem withManifest {m' : Manifest} (hm : b.manifest = some m) (h : m'.segments = m.segments) :
    b.Lists (b.withManifest m') := by
  refine .keeps rfl ?_
  rw [Bucket.current_eq hm]
  exact h

theorem create (hm : b.manifest = none) : b.Lists (b.withManifest emptyManifest) := by
  refine .keeps rfl ?_
  rw [Bucket.current, Bucket.current, hm]
  rfl

theorem putSegment (seqno : Nat) (payload : SegmentPayload V) :
    b.Lists (b.putSegment seqno payload) := by
  unfold Bucket.putSegment
  split
  · exact refl
  · exact .keeps rfl rfl

theorem putSnapshot (snap : SnapshotPayload V) : b.Lists (b.putSnapshot snap) := by
  unfold Bucket.putSnapshot
  split
  · exact refl
  · exact .keeps rfl rfl

theorem land {call : Nat} {units : List (CommitUnit V)} (h : inst.Tracks b)
    (ht : inst.task = .commitCas call units) (hm : b.manifest = some inst.cached) (returns : Bool) :
    b.Lists ((b.withManifest (inst.committed units)).land
      ⟨call, inst.nextSeqno, inst.floor, units⟩ returns) := by
  refine .lands rfl (h.nextSeqno_eq (by rw [ht]; rfl) hm) rfl ?_
  rw [Bucket.current_eq hm]
  rfl

theorem trim (hm : b.manifest = some inst.cached) : b.Lists (b.withManifest inst.snapshotted) := by
  refine .trims (p := ⟨inst.cached.frontierTs, inst.nextSeqno - 1⟩) rfl rfl ?_
  rw [Bucket.current_eq hm]
  rfl

end Bucket.Lists

theorem lists_of_resumed {r : Option (ObjectStoreDocStore V)} (h : inst.Tracks b)
    (hr : Resumed b inst b' r) : b.Lists b' := by
  cases hr with
  | throws | waits | opened | restored | replayed | stopped | ends | acquiring | raced | fenced
  | gaveUp | poisoned | adopted | listedSegments | listedSnapshots => exact .refl
  | sweptSegment | sweptSnapshot => exact .keeps rfl rfl
  | throwsCreated _ hm | created _ hm => exact .create hm
  | claimed _ hm | renewed _ hm | renewedLost _ hm | relinquished _ hm _ =>
      exact .withManifest hm rfl
  | unclaimed _ hb =>
    rcases hb with rfl | ⟨hm, rfl⟩
    · exact .refl
    · exact .withManifest hm rfl
  | snapshotted _ hm _ => exact .trim hm
  | stored | storedLost => exact .putSegment _ _
  | dumped | dumpedLost => exact .putSnapshot _
  | committed ht hm => exact .land h ht hm true
  | committedLost ht hm => exact .land h ht hm false

theorem Shard.lists_step {s s' : Shard V} {e : ShardEvent V} (h : s.Fenced)
    (hs : s.step e = some s') : s.bucket.Lists s'.bucket := by
  cases Shard.stepped_of_step hs with
  | opened | watermarks | crashed => exact .refl
  | begun _ _ hb =>
    cases hb with
    | stays | acquire | heartbeat | relinquish | diverged | commit | snapshot | gc =>
      exact .keeps rfl rfl
  | resumed hi hr | discarded hi hr => exact lists_of_resumed (h.tracks _ _ hi) hr

/-- Commits have different numbers, and the manifest lists its segments in order. -/
structure Bucket.Numbered (b : Bucket V) : Prop where
  below : ∀ c ∈ b.landed, c.seqno < b.current.nextSeqno
  unique : ∀ c ∈ b.landed, ∀ c' ∈ b.landed, c.seqno = c'.seqno → c = c'
  sorted : b.current.segments.Pairwise (· < ·)

theorem Bucket.Numbered.step (h : b.Numbered) (hlinked : b.Linked) (hlists : b.Lists b')
    (hprecedes : b.current.Precedes b'.current) : b'.Numbered := by
  cases hlists with
  | keeps hlanded hsegments =>
    refine ⟨fun c hc => ?_, hlanded ▸ h.unique, hsegments ▸ h.sorted⟩
    exact (h.below c (hlanded ▸ hc)).trans_le hprecedes.nextSeqno
  | trims hlanded _ hsegments =>
    refine ⟨fun c hc => ?_, hlanded ▸ h.unique, ?_⟩
    · exact (h.below c (hlanded ▸ hc)).trans_le hprecedes.nextSeqno
    · rw [hsegments]
      exact h.sorted.filter _
  | @lands c hlanded hseqno hnext hsegments =>
    have hold : ∀ d ∈ b.landed, d.seqno < c.seqno := fun d hd => hseqno ▸ h.below d hd
    refine ⟨fun d hd => ?_, fun d hd d' hd' heq => ?_, ?_⟩
    · rw [hlanded, mem_append, mem_singleton] at hd
      rw [hnext]
      rcases hd with hd | rfl
      · exact (hold d hd).trans (Nat.lt_succ_self _)
      · exact Nat.lt_succ_self _
    · rw [hlanded, mem_append, mem_singleton] at hd hd'
      rcases hd with hd | rfl
      · rcases hd' with hd' | rfl
        · exact h.unique d hd d' hd' heq
        · exact absurd heq (hold d hd).ne
      · rcases hd' with hd' | rfl
        · exact absurd heq.symm (hold d' hd').ne
        · rfl
    · rw [hsegments, pairwise_append]
      refine ⟨h.sorted, pairwise_singleton _ _, fun n hn n' hn' => ?_⟩
      rw [mem_singleton.1 hn', hseqno]
      exact (hlinked.segments n hn).1

/-- The manifest was current at some time. -/
structure Manifest.Past (m : Manifest) (b : Bucket V) : Prop where
  precedes : m.Precedes b.current
  listed : ∀ n ∈ m.segments, n ∈ b.current.segments ∨
    ∃ p, b.current.snapshot = some p ∧ n ≤ p.segBase
  sorted : m.segments.Pairwise (· < ·)

theorem Bucket.Numbered.past (h : b.Numbered) : b.current.Past b :=
  ⟨.refl, fun _ hn => .inl hn, h.sorted⟩

theorem Manifest.Past.step (h : m.Past b) (hlists : b.Lists b')
    (hprecedes : b.current.Precedes b'.current) : m.Past b' := by
  refine ⟨h.precedes.trans hprecedes, fun n hn => ?_, h.sorted⟩
  rcases h.listed n hn with hcur | ⟨p, hp, hle⟩
  · cases hlists with
    | keeps _ hsegments => exact .inl (hsegments ▸ hcur)
    | @trims p _ hp hsegments =>
      by_cases hbase : p.segBase < n
      · exact .inl (hsegments ▸ mem_filter.2 ⟨hcur, decide_eq_true hbase⟩)
      · exact .inr ⟨p, hp, Nat.not_lt.1 hbase⟩
    | lands _ _ _ hsegments => exact .inl (hsegments ▸ mem_append_left _ hcur)
  · obtain ⟨p', hp', hbase, -⟩ := hprecedes.snapshot p hp
    exact .inr ⟨p', hp', hle.trans hbase⟩

/-- The manifest has the document in the segment with that number, or a snapshot from there on. -/
def Due (b : Bucket V) (m : Manifest) (id : InternalDocumentId) (n : Nat) : Prop :=
  (n ∈ m.segments ∧ ∃ c ∈ b.landed, c.seqno = n ∧ id ∈ rowIds
    (batchPayload c.floor c.units).documents) ∨ ∃ p, m.snapshot = some p ∧ n ≤ p.segBase

theorem Due.current (h : Due b m id n) (hpast : m.Past b) : Due b b.current id n := by
  rcases h with ⟨hn, hc⟩ | ⟨p, hp, hle⟩
  · rcases hpast.listed n hn with hcur | hsnap
    · exact .inl ⟨hcur, hc⟩
    · exact .inr hsnap
  · obtain ⟨p', hp', hbase, -⟩ := hpast.precedes.snapshot p hp
    exact .inr ⟨p', hp', hle.trans hbase⟩

theorem Bucket.Lists.landed_subset (h : b.Lists b') : ∀ c ∈ b.landed, c ∈ b'.landed := by
  intro c hc
  cases h with
  | keeps hlanded _ | trims hlanded _ _ => exact hlanded ▸ hc
  | lands hlanded _ _ _ => exact hlanded ▸ mem_append_left _ hc

theorem Due.landed (h : Due b m id n) (hlists : b.Lists b') : Due b' m id n := by
  rcases h with ⟨hn, c, hc, hrow⟩ | hsnap
  · exact .inl ⟨hn, c, hlists.landed_subset c hc, hrow⟩
  · exact .inr hsnap

theorem Due.step (h : Due b b.current id n) (hb : b.Numbered) (hlists : b.Lists b')
    (hprecedes : b.current.Precedes b'.current) : Due b' b'.current id n :=
  (h.landed hlists).current (hb.past.step hlists hprecedes)

end References

/-! ## What a write changes -/

namespace SqliteDocStore

omit [DecidableEq V]

variable {s : SqliteDocStore V} {id : InternalDocumentId}

theorem visible_write {rows : SegmentPayload V} (h : id ∉ rowIds rows.documents) :
    (s.write rows).visible id = s.visible id := by
  have hview : (s.write rows).documents.view DocumentRow.isLive id none =
      s.documents.view DocumentRow.isLive id none := by
    refine view_congr fun n _ => get?_putAll_of_forall_ne fun row hrow heq => h ?_
    exact mem_map.2 ⟨row, hrow, by rw [heq]⟩
  rw [visible, visible, get_eq_view, get_eq_view, hview]

variable {snap : SnapshotPayload V}

theorem visible_applySnapshotState (h : id ∉ rowIds (s.deletedDocs snap ++ snap.rows.documents)) :
    (s.applySnapshotState snap).visible id = s.visible id := by
  rw [rowIds, map_append, mem_append, not_or] at h
  rw [applySnapshotState, visible_write h.2, visible_write h.1]

theorem mem_deletedDocs (hlive : s.visible id ≠ none) (hnot : id ∉ rowIds snap.rows.documents) :
    id ∈ rowIds (s.deletedDocs snap) := by
  rw [visible, get_eq_view] at hlive
  cases hview : s.documents.view DocumentRow.isLive id none with
  | none =>
    rw [hview] at hlive
    exact absurd rfl hlive
  | some row =>
    have hdump := dumpCurrentState_documents.2 hview
    refine mem_map.2 ⟨((id, snap.frontierTs), ⟨some row.1, none⟩), mem_map.2
      ⟨((id, row.1), row.2), mem_filter.2 ⟨hdump, ?_⟩, rfl⟩, rfl⟩
    exact decide_eq_true hnot

end SqliteDocStore

/-! ## Changes are due until they are named -/

namespace ReplicaTailer

variable {t t' : ReplicaTailer V} {b b' : Bucket V} {round : MaterializeRound V}

/-- The round goes on from the cursor of the tailer to a manifest with something new. -/
structure Rounds (b : Bucket V) (t : ReplicaTailer V) (round : MaterializeRound V) : Prop where
  past : round.manifest.Past b
  ahead : t.appliedMaxTs < round.manifest.frontierTs
  cursor : t.appliedSeqno ≤ round.appliedSeqno
  started : t.initialized = true

/-- The segment with one of the numbers has the document. -/
def InSegments (b : Bucket V) (id : InternalDocumentId) (seqnos : List Nat) : Prop :=
  ∃ c ∈ b.landed, c.seqno ∈ seqnos ∧ id ∈ rowIds (batchPayload c.floor c.units).documents

/-- What has changed is in the round, or the round will come to it. -/
def TaskCovered (b : Bucket V) (t : ReplicaTailer V) : TailTask V → Prop
  | .idle => True
  | .readManifest => t.initialized = true
  | .readSnapshot round p => t.Rounds b round ∧ round.manifest.snapshot = some p ∧
    round.appliedSeqno < p.segBase
  | .readSegment round seqno rest => t.Rounds b round ∧ (seqno :: rest).Pairwise (· < ·) ∧
    (∀ n ∈ seqno :: rest, n ∈ round.manifest.segments) ∧ round.appliedSeqno < seqno ∧
    ∀ id ∈ t.changed, id ∈ rowIds round.documents ∨ InSegments b id (seqno :: rest)
  | .rereadManifest round => t.Rounds b round ∧ ∀ id ∈ t.changed, id ∈ rowIds round.documents ∨
    ∃ n : Nat, round.appliedSeqno < n ∧ Due b b.current id n
  | .sink round => t.Rounds b round ∧ ∀ id ∈ t.changed, id ∈ rowIds round.documents

structure Covered (b : Bucket V) (t : ReplicaTailer V) : Prop where
  started : t.initialized = false → t.changed = []
  due : ∀ id ∈ t.changed, ∃ n : Nat, t.appliedSeqno < n ∧ Due b b.current id n
  behind : t.changed ≠ [] → t.appliedMaxTs < b.current.frontierTs
  task : t.TaskCovered b t.task

/-- What had changed is still on the list, and then the cursor has not moved. -/
structure Keeps (t t' : ReplicaTailer V) : Prop where
  delivered : t'.delivered = t.delivered
  changed : ∀ id ∈ t.changed, id ∈ t'.changed ∧ t'.appliedMaxTs = t.appliedMaxTs

section Reads

omit [DecidableEq V]

theorem Rounds.await (h : t.Rounds b round) {task : TailTask V} :
    Rounds b { t with task := task } round :=
  ⟨h.past, h.ahead, h.cursor, h.started⟩

theorem Keeps.trans {t'' : ReplicaTailer V} (h : t.Keeps t') (h' : t'.Keeps t'') : t.Keeps t'' := by
  refine ⟨h'.delivered.trans h.delivered, fun id hid => ?_⟩
  obtain ⟨hid', hts⟩ := h.changed id hid
  obtain ⟨hid'', hts'⟩ := h'.changed id hid'
  exact ⟨hid'', hts'.trans hts⟩

theorem Keeps.refl : t.Keeps t := ⟨rfl, fun _ hid => ⟨hid, rfl⟩⟩

theorem keeps_await (task : TailTask V) : t.Keeps { t with task := task } :=
  ⟨rfl, fun _ hid => ⟨hid, rfl⟩⟩

theorem Covered.await (h : t.Covered b) {task : TailTask V}
    (htask : TaskCovered b { t with task := task } task) : Covered b { t with task := task } :=
  ⟨h.started, h.due, h.behind, htask⟩

theorem Covered.stop (h : t.Covered b) : t.stop.Covered b := h.await trivial

/-- The round is over, and has everything that has changed. -/
theorem Covered.finish (h : t.stop.Covered b) (hr : t.Rounds b round)
    (hnamed : ∀ id ∈ t.changed, id ∈ rowIds round.documents) :
    (t.finish round).Covered b ∧ t.Keeps (t.finish round) := by
  unfold ReplicaTailer.finish
  split
  · rename_i hempty
    have hdocs : round.documents = [] := by
      simp only [Bool.and_eq_true, List.isEmpty_iff] at hempty
      exact hempty.1
    have hnone : ∀ id, id ∉ t.changed := fun id hid => by
      have := hnamed id hid
      rw [hdocs] at this
      cases this
    exact ⟨⟨fun _ => rfl, fun _ hid => (by cases hid), fun hne => absurd rfl hne, trivial⟩,
      rfl, fun id hid => absurd hid (hnone id)⟩
  · exact ⟨⟨h.started, h.due, h.behind, hr.await, hnamed⟩, keeps_await _⟩

/-- The numbers that a sorted list has above the cursor are those that are pulled. -/
theorem mem_dropWhile {segments : List Nat} (hsorted : segments.Pairwise (· < ·))
    {a : Int} {n : Nat} :
    n ∈ segments.dropWhile (fun (seqno : Nat) => (seqno : Int) ≤ a) ↔ n ∈ segments ∧ a < n := by
  induction segments with
  | nil => simp
  | cons x xs ih =>
    obtain ⟨hx, hxs⟩ := pairwise_cons.1 hsorted
    by_cases hle : (x : Int) ≤ a
    · rw [dropWhile_cons_of_pos (by simpa using hle), ih hxs, mem_cons]
      constructor
      · exact fun h => ⟨.inr h.1, h.2⟩
      · rintro ⟨rfl | h, hlt⟩
        · omega
        · exact ⟨h, hlt⟩
    · rw [dropWhile_cons_of_neg (by simpa using hle)]
      refine ⟨fun h => ⟨h, ?_⟩, fun h => h.1⟩
      rcases mem_cons.1 h with rfl | h
      · omega
      · have := hx n h
        omega

theorem Covered.pullSegments (h : t.stop.Covered b) (hr : t.Rounds b round) {segments : List Nat}
    (hsorted : segments.Pairwise (· < ·)) (hlisted : ∀ n ∈ segments, n ∈ round.manifest.segments)
    (hnamed : ∀ id ∈ t.changed, id ∈ rowIds round.documents ∨
      ∃ c ∈ b.landed, c.seqno ∈ segments ∧ round.appliedSeqno < c.seqno ∧
        id ∈ rowIds (batchPayload c.floor c.units).documents) :
    (t.pullSegments round segments).Covered b ∧ t.Keeps (t.pullSegments round segments) := by
  have hmem := fun n => mem_dropWhile hsorted (a := round.appliedSeqno) (n := n)
  have hrest : (segments.dropWhile fun (seqno : Nat) => (seqno : Int) ≤ round.appliedSeqno).Pairwise
      (· < ·) := hsorted.sublist (dropWhile_sublist _)
  have hleft : ∀ id ∈ t.changed, id ∈ rowIds round.documents ∨ InSegments b id
      (segments.dropWhile fun (seqno : Nat) => (seqno : Int) ≤ round.appliedSeqno) := by
    intro id hid
    refine (hnamed id hid).imp_right ?_
    rintro ⟨c, hc, hin, hlt, hrow⟩
    exact ⟨c, hc, (hmem c.seqno).2 ⟨hin, hlt⟩, hrow⟩
  unfold ReplicaTailer.pullSegments
  cases hdrop : segments.dropWhile fun (seqno : Nat) => (seqno : Int) ≤ round.appliedSeqno with
  | nil =>
    refine h.finish hr fun id hid => ?_
    rw [hdrop] at hleft
    rcases hleft id hid with hid | ⟨c, -, hin, -⟩
    · exact hid
    · cases hin
  | cons seqno rest =>
    rw [hdrop] at hleft hrest hmem
    refine ⟨⟨h.started, h.due, h.behind, hr.await, hrest, fun n hn => hlisted n ((hmem n).1 hn).1,
      ((hmem seqno).1 (.head rest)).2, hleft⟩, keeps_await _⟩

theorem Covered.startLoop (h : t.stop.Covered b) (hr : t.Rounds b round)
    (hcurrent : round.manifest = b.current)
    (hnamed : ∀ id ∈ t.changed, id ∈ rowIds round.documents ∨
      ∃ n : Nat, round.appliedSeqno < n ∧ Due b b.current id n) :
    (t.startLoop round).Covered b ∧ t.Keeps (t.startLoop round) := by
  -- without a restore, what is due is in a segment above the cursor
  have hpull : (∀ p, b.current.snapshot = some p → (p.segBase : Int) ≤ round.appliedSeqno) →
      (t.pullSegments round round.manifest.segments).Covered b ∧
        t.Keeps (t.pullSegments round round.manifest.segments) := by
    intro hbase
    refine h.pullSegments hr hr.past.sorted (fun n hn => hn) fun id hid => ?_
    refine (hnamed id hid).imp_right ?_
    rintro ⟨n, hlt, ⟨hn, c, hc, rfl, hrow⟩ | ⟨p, hp, hle⟩⟩
    · exact ⟨c, hc, hcurrent ▸ hn, hlt, hrow⟩
    · have := hbase p hp
      omega
  unfold ReplicaTailer.startLoop
  rw [hcurrent] at hpull ⊢
  cases hsnap : b.current.snapshot with
  | none => exact hpull fun p hp => by rw [hsnap] at hp; cases hp
  | some p =>
    dsimp only
    split
    · rename_i hlt
      exact ⟨⟨h.started, h.due, h.behind, hr.await, hcurrent ▸ hsnap, hlt⟩, keeps_await _⟩
    · rename_i hge
      refine hpull fun p' hp' => ?_
      rw [hsnap] at hp'
      cases hp'
      exact not_lt.1 hge

theorem Covered.compare (h : t.Covered b) (hb : b.Numbered) (hinit : t.initialized = true) :
    (t.compare b.current).Covered b ∧ t.Keeps (t.compare b.current) := by
  unfold ReplicaTailer.compare
  split
  · rename_i hle
    -- nothing new: then nothing has changed either
    have hnone : t.changed = [] := by
      by_contra hne
      exact absurd (h.behind hne) (Nat.not_lt.2 hle)
    refine ⟨⟨h.started, fun id hid => ?_, fun hne => absurd hnone hne, trivial⟩, rfl,
      fun id hid => ?_⟩
    all_goals
      have hid : id ∈ t.changed := hid
      rw [hnone] at hid
      cases hid
  · rename_i hgt
    exact Covered.startLoop h.stop ⟨hb.past, Nat.not_le.1 hgt, le_rfl, hinit⟩ rfl
      fun id hid => .inr (h.due id hid)

theorem Covered.tick (h : t.Covered b) : t.tick.Covered b ∧ t.Keeps t.tick := by
  unfold ReplicaTailer.tick
  split
  · cases hinit : t.initialized with
    | true => exact ⟨⟨fun h0 => (by cases h0), h.due, h.behind, rfl⟩, rfl, fun _ hid => ⟨hid, rfl⟩⟩
    | false =>
      have hnone := h.started hinit
      refine ⟨⟨fun h0 => (by cases h0), h.due, fun hne => absurd hnone hne, rfl⟩, rfl,
        fun id hid => ?_⟩
      rw [hnone] at hid
      cases hid
  · exact ⟨h, .refl⟩

/-- A segment has gone: what it had is still due. -/
theorem Covered.reread (h : t.Covered b) {seqno : Nat} {rest : List Nat} {retries : Nat}
    (htask : t.task = .readSegment round seqno rest) :
    Covered b
      { t with task := .rereadManifest { round with missingSegmentRetries := retries } } := by
  have hcovered := h.task
  rw [htask] at hcovered
  obtain ⟨hr, hsorted, hlisted, hlt, hnamed⟩ := hcovered
  refine h.await ⟨⟨hr.past, hr.ahead, hr.cursor, hr.started⟩, fun id hid => ?_⟩
  refine (hnamed id hid).imp_right ?_
  rintro ⟨c, hc, hmem, hrow⟩
  refine ⟨c.seqno, ?_, Due.current (.inl ⟨hlisted _ hmem, c, hc, rfl, hrow⟩) hr.past⟩
  rcases mem_cons.1 hmem with heq | hmem
  · exact heq ▸ hlt
  · exact hlt.trans (Int.ofNat_lt.2 ((pairwise_cons.1 hsorted).1 _ hmem))

theorem Covered.evolve (h : t.Covered b) (hb : b.Numbered) (hlists : b.Lists b')
    (hprecedes : b.current.Precedes b'.current) : t.Covered b' := by
  have hround : ∀ {round}, t.Rounds b round → t.Rounds b' round := fun hr =>
    ⟨hr.past.step hlists hprecedes, hr.ahead, hr.cursor, hr.started⟩
  have hcovered := h.task
  refine ⟨h.started, fun id hid => ?_, fun hne => (h.behind hne).trans_le hprecedes.frontierTs, ?_⟩
  · obtain ⟨n, hlt, hdue⟩ := h.due id hid
    exact ⟨n, hlt, hdue.step hb hlists hprecedes⟩
  · cases htask : t.task with
    | idle => trivial
    | readManifest =>
      rw [htask] at hcovered
      exact hcovered
    | readSnapshot round p | sink round =>
      rw [htask] at hcovered
      exact ⟨hround hcovered.1, hcovered.2⟩
    | readSegment round seqno rest =>
      rw [htask] at hcovered
      obtain ⟨hr, hsorted, hlisted, hlt, hnamed⟩ := hcovered
      refine ⟨hround hr, hsorted, hlisted, hlt, fun id hid => (hnamed id hid).imp_right ?_⟩
      rintro ⟨c, hc, hrow⟩
      exact ⟨c, hlists.landed_subset c hc, hrow⟩
    | rereadManifest round =>
      rw [htask] at hcovered
      refine ⟨hround hcovered.1, fun id hid => (hcovered.2 id hid).imp_right ?_⟩
      rintro ⟨n, hlt, hdue⟩
      exact ⟨n, hlt, hdue.step hb hlists hprecedes⟩

@[simp] theorem store_finish : (t.finish round).store = t.store := by
  unfold ReplicaTailer.finish
  split <;> rfl

@[simp] theorem store_pullSegments {segments : List Nat} :
    (t.pullSegments round segments).store = t.store := by
  unfold ReplicaTailer.pullSegments
  split
  · exact store_finish
  · rfl

@[simp] theorem store_startLoop : (t.startLoop round).store = t.store := by
  unfold ReplicaTailer.startLoop
  split
  · exact store_pullSegments
  · split
    · rfl
    · exact store_pullSegments

@[simp] theorem store_compare {m : Manifest} : (t.compare m).store = t.store := by
  unfold ReplicaTailer.compare
  split
  · rfl
  · exact store_startLoop

end Reads

theorem keeps_wrote (store : SqliteDocStore V) (ids : List InternalDocumentId) :
    t.Keeps (t.wrote store ids) :=
  ⟨rfl, fun _ hid => ⟨mem_append_left _ hid, rfl⟩⟩

/-- Rows were written that are due, in a tick that goes on. -/
theorem Covered.wrote (h : t.Covered b) (hr : t.Rounds b round) {store : SqliteDocStore V}
    {ids : List InternalDocumentId} {n : Nat} (hn : round.appliedSeqno < n)
    (hids : ∀ id ∈ ids, Due b b.current id n) : (t.wrote store ids).stop.Covered b := by
  refine ⟨fun h0 => ?_, fun id hid => ?_, fun _ => ?_, trivial⟩
  · have h0 : t.initialized = false := h0
    rw [hr.started] at h0
    cases h0
  · rcases mem_append.1 hid with hid | hid
    · exact h.due id hid
    · exact ⟨n, hr.cursor.trans_lt hn, hids id (mem_filter.1 hid).1⟩
  · exact hr.ahead.trans_le hr.past.precedes.frontierTs

/-- A changed document that is not in the snapshot and lives here gets a tombstone; one that is dead
here is in the round or in the snapshot. -/
theorem Covered.restore (h : t.Covered b) {p : SnapshotPointer}
    (htask : t.task = .readSnapshot round p)
    (hhas : ∀ id ∈ t.changed, t.store.visible id = none → id ∉ rowIds round.documents →
      id ∈ rowIds snap.rows.documents) :
    (t.restore round p snap).Covered b ∧
      (t.wrote (t.store.applySnapshotState snap)
        (rowIds (t.store.deletedDocs snap ++ snap.rows.documents))).Keeps
          (t.restore round p snap) := by
  have hcovered := h.task
  rw [htask] at hcovered
  obtain ⟨hr, hp, hlt⟩ := hcovered
  obtain ⟨p', hp', hbase, -⟩ := hr.past.precedes.snapshot p hp
  have hdue : ∀ id, Due b b.current id p.segBase := fun id => .inr ⟨p', hp', hbase⟩
  refine Covered.pullSegments (h.wrote hr hlt fun id _ => hdue id) ?_ hr.past.sorted
    (fun n hn => hn) fun id hid => .inl ?_
  · exact ⟨hr.past, hr.ahead, hr.cursor.trans hlt.le, hr.started⟩
  rw [rowIds, map_append, map_append, mem_append, mem_append]
  rcases mem_append.1 hid with hid | hid
  · by_cases hround : id ∈ rowIds round.documents
    · exact .inl hround
    · refine .inr ?_
      by_cases hsnap : id ∈ rowIds snap.rows.documents
      · exact .inr hsnap
      · exact .inl
          (SqliteDocStore.mem_deletedDocs (fun hdead => hsnap (hhas id hid hdead hround)) hsnap)
  · have hrows := (mem_filter.1 hid).1
    rw [rowIds, map_append, mem_append] at hrows
    exact .inr hrows

theorem Covered.apply (h : t.Covered b) (hb : b.Numbered) {seqno : Nat} {rest : List Nat}
    (htask : t.task = .readSegment round seqno rest) {c : LandedCommit V} (hc : c ∈ b.landed)
    (hseqno : c.seqno = seqno) :
    (t.apply round seqno rest (batchPayload c.floor c.units)).Covered b ∧
      (t.wrote (t.store.write (batchPayload c.floor c.units))
        (rowIds (batchPayload c.floor c.units).documents)).Keeps
        (t.apply round seqno rest (batchPayload c.floor c.units)) := by
  have hcovered := h.task
  rw [htask] at hcovered
  obtain ⟨hr, hsorted, hlisted, hlt, hnamed⟩ := hcovered
  have hdue : ∀ id ∈ rowIds (batchPayload c.floor c.units).documents, Due b b.current id seqno :=
    fun id hid => Due.current (.inl ⟨hlisted seqno (.head rest), c, hc, hseqno, hid⟩) hr.past
  obtain ⟨habove, hrest⟩ := pairwise_cons.1 hsorted
  refine Covered.pullSegments (h.wrote hr hlt hdue) ?_ hrest
    (fun n hn => hlisted n (.tail seqno hn)) fun id hid => ?_
  · exact ⟨hr.past, hr.ahead, hr.cursor.trans hlt.le, hr.started⟩
  rw [rowIds, map_append, mem_append]
  rcases mem_append.1 hid with hid | hid
  · rcases hnamed id hid with hid | ⟨c', hc', hmem, hrow⟩
    · exact .inl (.inl hid)
    · rcases mem_cons.1 hmem with heq | hmem
      · cases hb.unique c hc c' hc' (hseqno.trans heq.symm)
        exact .inl (.inr hrow)
      · exact .inr ⟨c', hc', hmem, Int.ofNat_lt.2 (habove _ hmem), hrow⟩
  · exact .inl (.inr (mem_filter.1 hid).1)

/-- The sink has resolved a call that names what had changed. -/
def Names (t t' : ReplicaTailer V) : Prop :=
  ∃ inv, t'.delivered = t.delivered ++ [inv] ∧ ∀ id ∈ t.changed, id ∈ inv.writtenDocs

/-- What an answer leads to. -/
structure Answered (b : Bucket V) (t t' : ReplicaTailer V) : Prop where
  covered : t'.Covered b
  kept : t.Keeps t' ∨ t.Names t'
  complete : ∀ id, t'.store.visible id ≠ t.store.visible id → id ∈ t'.changed

omit [DecidableEq V] in
theorem Answered.of_store (hstore : t'.store = t.store) (h : t'.Covered b ∧ t.Keeps t') :
    t.Answered b t' :=
  ⟨h.1, .inl h.2, fun id hne => absurd (by rw [hstore]) hne⟩

/-- Everything a write changes is on the list. -/
theorem Answered.of_wrote {store : SqliteDocStore V} {ids : List InternalDocumentId}
    (hids : ∀ id, id ∉ ids → store.visible id = t.store.visible id) (hstore : t'.store = store)
    (h : t'.Covered b ∧ (t.wrote store ids).Keeps t') : t.Answered b t' := by
  refine ⟨h.1, .inl ((keeps_wrote store ids).trans h.2), fun id hne => ?_⟩
  rw [hstore] at hne
  have hid : id ∈ ids := by
    by_contra hnot
    exact hne (hids id hnot)
  exact (h.2.changed id (mem_append_right _ (mem_filter.2 ⟨hid, decide_eq_true hne.symm⟩))).1

theorem Covered.resume (h : t.Covered b) (hb : b.Numbered)
    (hsnap : ∀ round p, t.task = .readSnapshot round p → ∀ snap ∈ b.objects.snapshots.get? p.ts,
      ∀ id ∈ t.changed, t.store.visible id = none → id ∉ rowIds round.documents →
        id ∈ rowIds snap.rows.documents)
    (hseg : ∀ round seqno rest, t.task = .readSegment round seqno rest →
      ∀ payload ∈ b.objects.segments.get? seqno,
        ∃ c ∈ b.landed, c.seqno = seqno ∧ batchPayload c.floor c.units = payload) :
    t.Answered b (t.resume b) := by
  have hstop : t.Answered b t.stop := .of_store rfl ⟨h.stop, keeps_await _⟩
  have hcovered := h.task
  unfold ReplicaTailer.resume
  cases htask : t.task with
  | idle => exact .of_store rfl ⟨h, .refl⟩
  | readManifest =>
    rw [htask] at hcovered
    cases hm : b.manifest with
    | none => exact hstop
    | some m =>
      rw [← Bucket.current_eq hm]
      exact .of_store store_compare (h.compare hb hcovered)
  | readSnapshot round p =>
    dsimp only
    cases hget : b.objects.snapshots.get? p.ts with
    | none => exact hstop
    | some snap =>
      exact .of_wrote (fun id => SqliteDocStore.visible_applySnapshotState) store_pullSegments
        (h.restore htask (hsnap round p htask snap hget))
  | readSegment round seqno rest =>
    dsimp only
    cases hget : b.objects.segments.get? seqno with
    | none =>
      dsimp only
      split
      · exact hstop
      · exact .of_store rfl ⟨h.reread htask, keeps_await _⟩
    | some payload =>
      obtain ⟨c, hc, hseqno, rfl⟩ := hseg round seqno rest htask payload hget
      exact .of_wrote (fun id => SqliteDocStore.visible_write) store_pullSegments
        (h.apply hb htask hc hseqno)
  | rereadManifest round =>
    rw [htask] at hcovered
    obtain ⟨hr, hnamed⟩ := hcovered
    cases hm : b.manifest with
    | none => exact hstop
    | some m =>
      rw [← Bucket.current_eq hm]
      exact .of_store store_startLoop (Covered.startLoop h.stop
        ⟨hb.past, hr.ahead.trans_le hr.past.precedes.frontierTs, hr.cursor, hr.started⟩ rfl hnamed)
  | sink round =>
    rw [htask] at hcovered
    refine ⟨⟨fun _ => rfl, fun _ hid => (by cases hid), fun hne => absurd rfl hne, trivial⟩,
      .inr ⟨_, rfl, fun id hid => ?_⟩, fun id hne => absurd rfl hne⟩
    exact mem_distinct.2 (hcovered.2 id hid)

end ReplicaTailer

/-! ## Runs -/

namespace TailedShard

variable {s s' : TailedShard V} {e : TailEvent V} {store : SqliteDocStore V}

structure Covered (s : TailedShard V) : Prop where
  fenced : s.shard.Fenced
  numbered : s.shard.bucket.Numbered
  covered : s.tailer.Covered s.shard.bucket

omit [DecidableEq V] in
theorem Covered.new : (TailedShard.new store).Covered := by
  refine ⟨Shard.fenced_initial, ⟨fun _ hc => (by cases hc), fun _ hc => (by cases hc), .nil⟩, ?_⟩
  exact ⟨fun _ => rfl, fun _ hid => (by cases hid), fun hne => absurd rfl hne, trivial⟩

theorem Covered.step (h : s.Covered) (hg : s.Redelivers e) (hs : s.step e = some s') :
    s'.Covered ∧ (s.tailer.Keeps s'.tailer ∨ s.tailer.Names s'.tailer) ∧
      ∀ id, s'.tailer.store.visible id ≠ s.tailer.store.visible id → id ∈ s'.tailer.changed := by
  cases e with
  | shard e =>
    obtain ⟨shard, hshard, rfl⟩ := Option.map_eq_some_iff.1 hs
    have hlists := Shard.lists_step h.fenced hshard
    have hprecedes := (h.fenced.evolves hshard).1
    refine ⟨⟨h.fenced.step hshard, h.numbered.step h.fenced.linked hlists hprecedes,
      h.covered.evolve h.numbered hlists hprecedes⟩, .inl ⟨rfl, fun _ hid => ⟨hid, rfl⟩⟩, ?_⟩
    exact fun id hne => absurd rfl hne
  | tick =>
    cases hs
    obtain ⟨hcovered, hkeeps⟩ := h.covered.tick
    refine ⟨⟨h.fenced, h.numbered, hcovered⟩, .inl hkeeps, fun id hne => absurd ?_ hne⟩
    have hstore : s.tailer.tick.store = s.tailer.store := by
      unfold ReplicaTailer.tick
      split <;> rfl
    exact congrArg (fun st : SqliteDocStore V => st.visible id) hstore
  | resume =>
    cases hs
    have hanswered := h.covered.resume h.numbered (fun round p htask => ?_)
      fun round seqno rest htask => ?_
    · exact ⟨⟨h.fenced, h.numbered, hanswered.covered⟩, hanswered.kept, hanswered.complete⟩
    · simp only [Redelivers, htask] at hg
      exact hg
    · simp only [Redelivers, htask] at hg
      exact hg
  | fail =>
    cases hs
    exact ⟨⟨h.fenced, h.numbered, h.covered.stop⟩, .inl ⟨rfl, fun _ hid => ⟨hid, rfl⟩⟩,
      fun id hne => absurd rfl hne⟩

theorem Covered.delivered {es : List (TailEvent V)} (h : s.Covered)
    (hg : Guarded TailedShard.step Redelivers s es) (hr : run TailedShard.step s es = some s') :
    s.tailer.delivered <+: s'.tailer.delivered := by
  induction es generalizing s with
  | nil =>
    cases hr
    exact prefix_rfl
  | cons e es ih =>
    obtain ⟨m, hm, hr⟩ := run_cons_eq_some.1 hr
    obtain ⟨hm', hkept, -⟩ := h.step hg.1 hm
    have hrest := ih hm' (hg.2 m hm) hr
    rcases hkept with hkeeps | ⟨inv, hinv, -⟩
    · exact hkeeps.delivered ▸ hrest
    · exact (prefix_append _ _).trans (hinv ▸ hrest)

/-- From where a document is on the list of the changed ones: it stays there while the cursor stays,
or a call resolves that names it. -/
theorem Covered.named {es : List (TailEvent V)} {id : InternalDocumentId} (h : s.Covered)
    (hg : Guarded TailedShard.step Redelivers s es) (hr : run TailedShard.step s es = some s')
    (hid : id ∈ s.tailer.changed) :
    s'.tailer.appliedMaxTs = s.tailer.appliedMaxTs ∨
      ∃ inv ∈ s'.tailer.delivered.drop s.tailer.delivered.length, id ∈ inv.writtenDocs := by
  induction es generalizing s with
  | nil =>
    cases hr
    exact .inl rfl
  | cons e es ih =>
    obtain ⟨m, hm, hr⟩ := run_cons_eq_some.1 hr
    obtain ⟨hm', hkept, -⟩ := h.step hg.1 hm
    rcases hkept with hkeeps | ⟨inv, hinv, hnames⟩
    · obtain ⟨hid', hts⟩ := hkeeps.changed id hid
      rw [← hts, ← hkeeps.delivered]
      exact ih hm' (hg.2 m hm) hr hid'
    · obtain ⟨rest, hrest⟩ := hm'.delivered (hg.2 m hm) hr
      refine .inr ⟨inv, ?_, hnames id hid⟩
      rw [← hrest, hinv, append_assoc, drop_left]
      exact .head _

end TailedShard

open TailedShard

/-- In every run in which each segment that is read is the one its commit has stored, and no
snapshot is restored that lacks a document which an attempt that failed has deleted: when the
visible value of a document changes and the cursor has moved since, a call has resolved since that
names the document. -/
theorem changes_are_invalidated {store : SqliteDocStore V} {es es' : List (TailEvent V)}
    {e : TailEvent V} {s s' s'' : TailedShard V} {id : InternalDocumentId}
    (hg : Guarded step Redelivers (new store) (es ++ e :: es'))
    (hr : run step (new store) es = some s)
    (hs : s.step e = some s') (hr' : run step s' es' = some s'')
    (hchange : s'.tailer.store.visible id ≠ s.tailer.store.visible id)
    (hpassed : s''.tailer.appliedMaxTs ≠ s'.tailer.appliedMaxTs) :
    ∃ inv ∈ s''.tailer.delivered.drop s'.tailer.delivered.length, id ∈ inv.writtenDocs := by
  obtain ⟨hes, hrest⟩ := hg.of_append
  have hcovered : s.Covered :=
    run_invariant_of_guarded (fun _ _ _ h hg hs => (h.step hg hs).1) Covered.new hes hr
  obtain ⟨hguard, hes'⟩ := hrest s hr
  obtain ⟨hcovered', -, hcomplete⟩ := hcovered.step hguard hs
  exact (hcovered'.named (hes' s' hs) hr' (hcomplete id hchange)).resolve_left hpassed

namespace TailExample

def doc : InternalDocumentId := ⟨1, [byte 7]⟩

/-- One transaction that writes the document, or deletes it. -/
def put (value : Option Nat) : List (CommitUnit Nat) := [⟨[⟨doc, none, value⟩], []⟩]

/-- A writer inserts the document, and a tick reads the manifest. -/
def inserted : List (TailEvent Nat) :=
  [.open, .resume 0 .ok, .resume 0 .ok, .call 0 (.acquire ⟨"a", 10, 0⟩), .resume 0 .ok,
    .resume 0 .ok,
    .call 0 (.commitWriteBatch (put (some 10))), .resume 0 .ok, .resume 0 .ok].map .shard ++
      [.tick, .resume]

/-- The writer deletes the document and takes a snapshot, and the next tick reads the manifest. -/
def deleted : List (TailEvent Nat) :=
  [.call 0 (.commitWriteBatch (put none)), .resume 0 .ok, .resume 0 .ok, .call 0 .snapshot,
    .resume 0 .ok, .resume 0 .ok].map .shard ++ [.tick, .resume]

/-- The sink throws, and the next tick reads the manifest and the object again. -/
def again : List (TailEvent Nat) := [.fail, .tick, .resume, .resume]

end TailExample

open TailExample in
/-- The sink throws on the first attempt, and is called again. -/
theorem changes_are_invalidated_again : ∃ s s' s'' : TailedShard Nat,
    run step (new .empty) inserted = some s ∧ s.step .resume = some s' ∧
      run step s' (again ++ [.resume]) = some s'' ∧
        s'.tailer.store.visible doc ≠ s.tailer.store.visible doc ∧
          ∃ inv ∈ s''.tailer.delivered.drop s'.tailer.delivered.length, doc ∈ inv.writtenDocs := by
  obtain ⟨s, hs, s', hs', s'', hs'', hchange, hpassed⟩ :
      ∃ s : TailedShard Nat, run step (new .empty) inserted = some s ∧
        ∃ s', s.step .resume = some s' ∧ ∃ s'', run step s' (again ++ [.resume]) = some s'' ∧
          s'.tailer.store.visible doc ≠ s.tailer.store.visible doc ∧
          s''.tailer.appliedMaxTs ≠ s'.tailer.appliedMaxTs := by
    decide +kernel
  exact ⟨s, s', s'', hs, hs', hs'', hchange,
    changes_are_invalidated (by decide +kernel) hs hs' hs'' hchange hpassed⟩

open TailExample in
/-- The restore deletes the document and the sink throws. When the snapshot is restored again, the
document has no tombstone to get and is not in the snapshot. -/
theorem restore_again_misses_deletion : ∃ s s' s'' : TailedShard Nat,
    run step (new .empty) (inserted ++ [.resume, .resume] ++ deleted) = some s ∧
      s.step .resume = some s' ∧ run step s' again = some s'' ∧
        s'.tailer.store.visible doc ≠ s.tailer.store.visible doc ∧
        s''.tailer.appliedMaxTs ≠ s'.tailer.appliedMaxTs ∧
        ¬ ∃ inv ∈ s''.tailer.delivered.drop s'.tailer.delivered.length, doc ∈ inv.writtenDocs := by
  simp only [exists_and_left]
  decide +kernel

end Helipod
