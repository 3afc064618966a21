import Helipod.ObjectStore.SqliteDocStore

/-!
# Materializing a shard

Model of `applySnapshotState` (`objectstore-substrate/src/apply-snapshot.ts`) and of `materializeTo`
(`objectstore-substrate/src/object-doc-store.ts`): the objects of a shard, its manifest, and how a
local store is brought up to a manifest from a snapshot and the segments after it. The codecs of
segments and snapshots are left out: an object holds the rows it was encoded from.

A log is the segments of a shard that commits have referenced, the oldest first. `Materialized` are
the local stores that hold a first part of a log: segments were written to them in order, and
snapshots of longer parts were laid over them.

Results:
* `materializeTo_answers`, `restored_scan_in_the_past`
* `Materialized.reflects`: a materialized store shows what a replay of its part of the log shows, at
  every timestamp from its last snapshot on.
-/

namespace Helipod

open VersionTable List

/-- The image of a shard at `frontierTs`, with all segments up to `segBase`. -/
structure SnapshotPayload (V : Type) where
  frontierTs : Nat
  segBase : Nat
  rows : SegmentPayload V
  deriving DecidableEq

/-- `snapshotTs` and `snapshotSegBase`, which a manifest has both or none of. -/
structure SnapshotPointer where
  ts : Nat
  segBase : Nat
  deriving DecidableEq, Repr

/-- The pointer of a shard to its segments, and its lease. -/
structure Manifest where
  epoch : Nat
  frontierTs : Nat
  tsCounter : Nat
  segments : List Nat
  nextSeqno : Nat
  writerId : String
  leaseExpiresAt : Nat
  snapshot : Option SnapshotPointer
  deriving DecidableEq, Repr

def emptyManifest : Manifest := ⟨0, 0, 0, [], 0, "", 0, none⟩

/-- The immutable objects of a shard: `seg/{seqno}` and `snap/{ts}`. -/
structure ShardObjects (V : Type) where
  segments : OrderedMap Nat (SegmentPayload V)
  snapshots : OrderedMap Nat (SnapshotPayload V)
  deriving DecidableEq

inductive MaterializeError where
  | missingSnapshot (ts : Nat)
  | missingSegment (seqno : Nat)
  deriving DecidableEq, Repr

namespace SqliteDocStore

open VersionTable

variable {V : Type}

/-- Tombstones at the time of the snapshot, for the documents that are live here and not in it. -/
def deletedDocs (s : SqliteDocStore V) (snap : SnapshotPayload V) :
    List ((InternalDocumentId × Nat) × DocumentRow V) :=
  (s.dumpCurrentState.documents.filter fun d =>
    d.1.1 ∉ snap.rows.documents.map (·.1.1)).map fun d =>
    ((d.1.1, snap.frontierTs), ⟨some d.1.2, none⟩)

def applySnapshotState (s : SqliteDocStore V) (snap : SnapshotPayload V) : SqliteDocStore V :=
  (s.write ⟨s.deletedDocs snap, []⟩).write snap.rows

variable {snap : SnapshotPayload V}

/-- The tombstones bury what is live here and not in the snapshot. -/
theorem buries_documents {s : SqliteDocStore V} {F : Nat} (hts : snap.frontierTs = F) :
    Buries DocumentRow.isLive s.documents F snap.rows.documents (s.deletedDocs snap) := by
  subst hts
  constructor
  · intro id n row hrow
    obtain ⟨⟨⟨id', ts⟩, row'⟩, hd, heq⟩ := mem_map.1 hrow
    obtain ⟨-, hnot⟩ := mem_filter.1 hd
    cases heq
    refine ⟨rfl, rfl, fun m r hmem => ?_⟩
    have hin : id' ∈ snap.rows.documents.map (·.1.1) := mem_map.2 ⟨_, hmem, rfl⟩
    simp [hin] at hnot
  · intro id _ _ hview hnot
    obtain ⟨⟨ts, row⟩, hrow⟩ := Option.ne_none_iff_exists'.1 hview
    refine ⟨⟨some ts, none⟩, mem_map.2 ⟨((id, ts), row), mem_filter.2
      ⟨dumpCurrentState_documents.2 hrow, ?_⟩, rfl⟩⟩
    simp only [decide_eq_true_eq, mem_map, not_exists, not_and]
    rintro ⟨⟨id', m⟩, r⟩ hmem rfl
    exact hnot m r hmem

end SqliteDocStore

variable {V : Type}

/-- The loop of `materializeTo` over the segments of the manifest. -/
def replaySegments (objects : ShardObjects V) :
    List Nat → Int → SqliteDocStore V → Except MaterializeError (SqliteDocStore V)
  | [], _, s => .ok s
  | seqno :: rest, appliedThrough, s =>
    if (seqno : Int) ≤ appliedThrough then replaySegments objects rest appliedThrough s
    else match objects.segments.get? seqno with
      | none => .error (.missingSegment seqno)
      | some payload => replaySegments objects rest seqno (s.write payload)

/-- The first part of `materializeTo`: the snapshot, if it goes beyond what was applied. -/
def restoreSnapshot (objects : ShardObjects V) (appliedThrough : Int) (s : SqliteDocStore V)
    (manifest : Manifest) : Except MaterializeError (SqliteDocStore V × Int) :=
  match manifest.snapshot with
  | none => .ok (s, appliedThrough)
  | some p =>
    if appliedThrough < (p.segBase : Int) then
      match objects.snapshots.get? p.ts with
      | none => .error (.missingSnapshot p.ts)
      | some snap => .ok (s.applySnapshotState snap, p.segBase)
    else .ok (s, appliedThrough)

/-- The local store and the cursor after `materializeTo`. -/
def materializeTo (objects : ShardObjects V) (nextSeqno : Nat) (s : SqliteDocStore V)
    (manifest : Manifest) : Except MaterializeError (SqliteDocStore V × Nat) := do
  let restored ← restoreSnapshot objects ((nextSeqno : Int) - 1) s manifest
  let s ← replaySegments objects manifest.segments restored.2 restored.1
  return (s, manifest.nextSeqno)

/-! ## Logs -/

/-- The rows lie after `lo` and not after `hi`. -/
structure SegmentPayload.Between (p : SegmentPayload V) (lo hi : Nat) : Prop where
  documents : ∀ row ∈ p.documents, lo < row.1.2 ∧ row.1.2 ≤ hi
  indexUpdates : ∀ row ∈ p.indexUpdates, lo < row.1.2 ∧ row.1.2 ≤ hi

/-- A segment that a commit has referenced, and the frontier of its manifest. -/
structure LoggedSegment (V : Type) where
  seqno : Nat
  frontierTs : Nat
  payload : SegmentPayload V
  deriving DecidableEq

/-- The segments of a shard, the oldest first. -/
abbrev SegmentLog (V : Type) := List (LoggedSegment V)

namespace SegmentLog

/-- The frontier of the last manifest. -/
def frontierTs (log : SegmentLog V) : Nat := (log.getLast?.map (·.frontierTs)).getD 0

def seqnos (log : SegmentLog V) : List Nat := log.map (·.seqno)

/-- Write the segments in order. -/
def writeTo (log : SegmentLog V) (s : SqliteDocStore V) : SqliteDocStore V :=
  log.foldl (fun s seg => s.write seg.payload) s

/-- The store that replayed the whole log. -/
def replay (log : SegmentLog V) : SqliteDocStore V := log.writeTo .empty

/-- Numbers and timestamps increase. -/
inductive Ordered : SegmentLog V → Prop
  | nil : Ordered []
  | concat {log : SegmentLog V} {seg : LoggedSegment V} : Ordered log →
      (∀ a ∈ log, a.seqno < seg.seqno) → frontierTs log < seg.frontierTs →
      seg.payload.Between (frontierTs log) seg.frontierTs → Ordered (log ++ [seg])

variable {log more : SegmentLog V} {seg : LoggedSegment V} {s : SqliteDocStore V}

@[simp] theorem frontierTs_concat : frontierTs (log ++ [seg]) = seg.frontierTs := by
  simp [frontierTs]

theorem writeTo_append : writeTo (log ++ more) s = more.writeTo (log.writeTo s) := foldl_append

theorem replay_concat : replay (log ++ [seg]) = (replay log).write seg.payload := writeTo_append

namespace Ordered

theorem of_concat (h : Ordered (log ++ [seg])) : Ordered log ∧ (∀ a ∈ log, a.seqno < seg.seqno) ∧
    frontierTs log < seg.frontierTs ∧ seg.payload.Between (frontierTs log) seg.frontierTs := by
  generalize heq : log ++ [seg] = log' at h
  cases h with
  | nil => simp at heq
  | concat h hseqno hlt hbetween =>
    obtain ⟨hlog, hseg⟩ := append_inj' heq rfl
    cases hlog
    cases hseg
    exact ⟨h, hseqno, hlt, hbetween⟩

theorem of_append (h : Ordered (log ++ more)) : Ordered log := by
  induction more using List.reverseRecOn with
  | nil => rwa [append_nil] at h
  | append_singleton more seg ih =>
    rw [← append_assoc] at h
    exact ih h.of_concat.1

theorem within (h : Ordered log) : Within (replay log).documents (frontierTs log) ∧
    Within (replay log).indexes (frontierTs log) := by
  induction h with
  | nil => exact ⟨within_empty, within_empty⟩
  | concat h _ hlt hbetween ih =>
    rw [replay_concat, frontierTs_concat]
    exact ⟨(ih.1.mono hlt.le).putAll fun row hrow => (hbetween.documents row hrow).2,
      (ih.2.mono hlt.le).putAll fun row hrow => (hbetween.indexUpdates row hrow).2⟩

theorem le_append (h : Ordered (log ++ more)) : frontierTs log ≤ frontierTs (log ++ more) := by
  induction more using List.reverseRecOn with
  | nil => rw [append_nil]
  | append_singleton more seg ih =>
    rw [← append_assoc] at h ⊢
    rw [frontierTs_concat]
    exact (ih h.of_concat.1).trans h.of_concat.2.2.1.le

theorem sound_append (h : Ordered (log ++ more)) {docs : VersionTable InternalDocumentId
    (DocumentRow V)} {indexes : VersionTable (IndexId × Bytes) IndexUpdateValue}
    (hdocs : Sound DocumentRow.isLive (replay log).documents docs)
    (hindexes : Sound (fun _ => true) (replay log).indexes indexes)
    (hwithin : Within docs (frontierTs log) ∧ Within indexes (frontierTs log)) :
    Sound DocumentRow.isLive (replay (log ++ more)).documents docs ∧
      Sound (fun _ => true) (replay (log ++ more)).indexes indexes := by
  induction more using List.reverseRecOn with
  | nil =>
    rw [append_nil]
    exact ⟨hdocs, hindexes⟩
  | append_singleton more seg ih =>
    rw [← append_assoc] at h ⊢
    obtain ⟨h, -, -, hbetween⟩ := h.of_concat
    obtain ⟨hdocs, hindexes⟩ := ih h
    rw [replay_concat]
    exact ⟨hdocs.extend (hwithin.1.mono h.le_append) fun row hrow =>
      (hbetween.documents row hrow).1,
      hindexes.extend (hwithin.2.mono h.le_append) fun row hrow =>
        (hbetween.indexUpdates row hrow).1⟩

end Ordered

/-! ## Materialized stores -/

/-- The store shows what a replay of the log shows, from `since` on. -/
structure Reflects (log : SegmentLog V) (since : Nat) (s : SqliteDocStore V) : Prop where
  documents : Mirrors DocumentRow.isLive (replay log).documents s.documents since (frontierTs log)
  indexes : Mirrors (fun _ => true) (replay log).indexes s.indexes since (frontierTs log)
  since_le : since ≤ frontierTs log

/-- The payload holds what a replay of the log shows at its frontier. -/
structure SnapshotOf (log : SegmentLog V) (snap : SnapshotPayload V) : Prop where
  frontierTs : snap.frontierTs = frontierTs log
  documents : IsSnapshot DocumentRow.isLive (replay log).documents (SegmentLog.frontierTs log)
    snap.rows.documents
  indexUpdates : IsSnapshot (fun _ => true) (replay log).indexes (SegmentLog.frontierTs log)
    snap.rows.indexUpdates

namespace Reflects

variable {since : Nat}

theorem empty : Reflects ([] : SegmentLog V) 0 .empty :=
  ⟨.self within_empty, .self within_empty, le_rfl⟩

variable (h : Reflects log since s)
include h

theorem alike {b : Option Nat} (hb : Admits b since) : s.Alike (replay log) b :=
  ⟨fun id => h.documents.view_eq id b hb, fun key => h.indexes.view_eq key b hb⟩

theorem write (hlog : Ordered (log ++ [seg])) :
    Reflects (log ++ [seg]) since (s.write seg.payload) := by
  obtain ⟨hordered, -, hlt, hbetween⟩ := hlog.of_concat
  refine ⟨?_, ?_, ?_⟩
  · rw [replay_concat, frontierTs_concat]
    exact h.documents.putAll hordered.within.1 h.since_le hlt.le hbetween.documents
  · rw [replay_concat, frontierTs_concat]
    exact h.indexes.putAll hordered.within.2 h.since_le hlt.le hbetween.indexUpdates
  · rw [frontierTs_concat]
    exact h.since_le.trans hlt.le

theorem writeTo (hlog : Ordered (log ++ more)) : Reflects (log ++ more) since (more.writeTo s) := by
  induction more using List.reverseRecOn with
  | nil =>
    rw [append_nil]
    exact h
  | append_singleton more seg ih =>
    rw [← append_assoc] at hlog ⊢
    rw [writeTo_append]
    exact (ih hlog.of_concat.1).write hlog

theorem snapshotOf_dump (hlog : Ordered log) (segBase : Nat) :
    SnapshotOf log ⟨frontierTs log, segBase, s.dumpCurrentState⟩ :=
  ⟨rfl, h.documents.isSnapshot_current hlog.within.1, h.indexes.isSnapshot_current hlog.within.2⟩

/-- A snapshot over a store that is behind it. -/
theorem restore (hlog : Ordered (log ++ more)) (hsnap : SnapshotOf (log ++ more) snap) :
    Reflects (log ++ more) (frontierTs (log ++ more)) (s.applySnapshotState snap) := by
  have hwithin := hlog.within
  have hL : Within s.documents (frontierTs (log ++ more)) := h.documents.within.mono hlog.le_append
  have hL' : Within s.indexes (frontierTs (log ++ more)) := h.indexes.within.mono hlog.le_append
  obtain ⟨hdocs, hindexes⟩ := hlog.sound_append h.documents.sound h.indexes.sound
    ⟨h.documents.within, h.indexes.within⟩
  exact ⟨Mirrors.restore hdocs hwithin.1 hL hsnap.documents
      (SqliteDocStore.buries_documents hsnap.frontierTs),
    -- markers of deleted entries are dumped, so there is nothing to bury
    Mirrors.restore hindexes hwithin.2 hL' hsnap.indexUpdates
      ⟨fun _ _ _ hmem => (by cases hmem), fun _ _ hdead => (by cases hdead)⟩, le_rfl⟩

end Reflects

/-- The stores that hold a first part of a log. `since` is the time of the last snapshot that was
laid over the store. -/
inductive Materialized : SegmentLog V → Nat → SqliteDocStore V → Prop
  | empty : Materialized [] 0 .empty
  | write {log : SegmentLog V} {since : Nat} {s : SqliteDocStore V} {seg : LoggedSegment V} :
      Materialized log since s → Ordered (log ++ [seg]) →
      Materialized (log ++ [seg]) since (s.write seg.payload)
  | restore {log more : SegmentLog V} {since since' segBase : Nat} {s source : SqliteDocStore V} :
      Materialized log since s → Materialized (log ++ more) since' source → Ordered (log ++ more) →
      Materialized (log ++ more) (frontierTs (log ++ more)) (s.applySnapshotState
        ⟨frontierTs (log ++ more), segBase, source.dumpCurrentState⟩)

/-- The dump of a store that holds the log. -/
def DumpOf (log : SegmentLog V) (snap : SnapshotPayload V) : Prop :=
  ∃ since source, Materialized log since source ∧ snap.frontierTs = frontierTs log ∧
    snap.rows = source.dumpCurrentState

theorem Materialized.reflects {since : Nat} (h : Materialized log since s) :
    Reflects log since s := by
  induction h with
  | empty => exact .empty
  | write _ hlog ih => exact ih.write hlog
  | restore _ _ hlog ih ih' => exact ih.restore hlog (ih'.snapshotOf_dump hlog _)

theorem DumpOf.snapshotOf (h : DumpOf log snap) (hlog : Ordered log) : SnapshotOf log snap := by
  obtain ⟨since, source, hsource, hts, hrows⟩ := h
  obtain ⟨-, hdocs, hindexes⟩ := hsource.reflects.snapshotOf_dump hlog snap.segBase
  exact ⟨hts, hrows ▸ hdocs, hrows ▸ hindexes⟩

end SegmentLog

/-! ## Manifests -/

open SegmentLog

/-- A manifest that has been reached with the log: it names the segments after its snapshot, whose
objects are there. The segments before may be there or not. `Snap` says what the snapshot is. -/
structure ManifestOf (Snap : SnapshotPayload V → Prop) (objects : ShardObjects V) (m : Manifest)
    (log covered rest : SegmentLog V) : Prop where
  parts : log = covered ++ rest
  segments : m.segments = rest.seqnos
  present : ∀ seg ∈ rest, objects.segments.get? seg.seqno = some seg.payload
  unsnapped : m.snapshot = none → covered = []
  snapped : ∀ p, m.snapshot = some p → p.ts = frontierTs covered ∧
    (∀ seg ∈ covered, seg.seqno ≤ p.segBase) ∧ (∀ seg ∈ rest, p.segBase < seg.seqno) ∧
      ∃ snap, objects.snapshots.get? p.ts = some snap ∧ Snap snap

theorem ManifestOf.mono {Snap Snap' : SnapshotPayload V → Prop} {objects : ShardObjects V}
    {m : Manifest} {log covered rest : SegmentLog V}
    (h : ManifestOf Snap objects m log covered rest)
    (hsnap : ∀ snap, Snap snap → Snap' snap) : ManifestOf Snap' objects m log covered rest :=
  { h with
    snapped := fun p hp => by
      obtain ⟨hts, hle, hlt, snap, hget, hs⟩ := h.snapped p hp
      exact ⟨hts, hle, hlt, snap, hget, hsnap snap hs⟩ }

variable {objects : ShardObjects V} {m : Manifest} {s : SqliteDocStore V} {n : Int}

theorem replaySegments_skip {skip : SegmentLog V} {rest : List Nat}
    (h : ∀ seg ∈ skip, (seg.seqno : Int) ≤ n) :
    replaySegments objects (skip.seqnos ++ rest) n s = replaySegments objects rest n s := by
  induction skip with
  | nil => rfl
  | cons seg skip ih =>
    rw [seqnos, map_cons, cons_append, replaySegments, if_pos (h seg mem_cons_self)]
    exact ih fun a ha => h a (mem_cons_of_mem _ ha)

theorem replaySegments_eq {log : SegmentLog V} (hlog : log.Pairwise fun a b => a.seqno < b.seqno)
    (hobjects : ∀ seg ∈ log, objects.segments.get? seg.seqno = some seg.payload)
    (hn : ∀ seg ∈ log, n < (seg.seqno : Int)) :
    replaySegments objects log.seqnos n s = .ok (log.writeTo s) := by
  induction log generalizing n s with
  | nil => rfl
  | cons seg log ih =>
    have hlt := hn seg mem_cons_self
    rw [seqnos, map_cons, replaySegments, if_neg (by omega), hobjects seg mem_cons_self]
    refine ih (pairwise_cons.1 hlog).2 (fun a ha => hobjects a (mem_cons_of_mem _ ha))
      fun a ha => ?_
    exact_mod_cast (pairwise_cons.1 hlog).1 a ha

theorem SegmentLog.Ordered.pairwise {log : SegmentLog V} (h : Ordered log) :
    log.Pairwise fun a b => a.seqno < b.seqno := by
  induction h with
  | nil => exact .nil
  | concat _ hseqno _ _ ih =>
    refine pairwise_append.2 ⟨ih, pairwise_singleton _ _, fun a ha b hb => ?_⟩
    rw [mem_singleton.1 hb]
    exact hseqno a ha

/-- The timestamp of the snapshot, if there is one. -/
def Manifest.snapshotTs (m : Manifest) : Nat := (m.snapshot.map (·.ts)).getD 0

/-- From a store that reflects a first part of the log to one that reflects all of it. -/
theorem materializeTo_reflects {log more covered rest : SegmentLog V} {since nextSeqno : Nat}
    (hlog : Ordered (log ++ more)) (hs : Reflects log since s)
    (hbelow : ∀ seg ∈ log, seg.seqno < nextSeqno) (habove : ∀ seg ∈ more, nextSeqno ≤ seg.seqno)
    (hm : ManifestOf (SnapshotOf covered) objects m (log ++ more) covered rest)
    (hsince : since ≤ m.snapshotTs) :
    ∃ s' since', materializeTo objects nextSeqno s m = .ok (s', m.nextSeqno) ∧
      Reflects (log ++ more) since' s' ∧ since' ≤ m.snapshotTs := by
  -- the manifest names only segments after `log`, or the part of `log` it names has been applied
  have htail : ∀ {skip : SegmentLog V}, log = covered ++ skip → rest = skip ++ more →
      replaySegments objects m.segments ((nextSeqno : Int) - 1) s = .ok (more.writeTo s) := by
    intro skip hskip hrest
    rw [hm.segments, hrest, seqnos, map_append]
    refine (replaySegments_skip fun seg hseg => ?_).trans (replaySegments_eq ?_ ?_ ?_)
    · have := hbelow seg (hskip ▸ mem_append_right _ hseg)
      omega
    · exact (pairwise_append.1 hlog.pairwise).2.1
    · exact fun seg hseg => hm.present seg (hrest ▸ mem_append_right _ hseg)
    · intro seg hseg
      have := habove seg hseg
      omega
  cases hp : m.snapshot with
  | none =>
    have hcovered := hm.unsnapped hp
    have hrest : rest = log ++ more := by rw [hm.parts, hcovered, nil_append]
    refine ⟨more.writeTo s, since, ?_, hs.writeTo hlog, hsince⟩
    rw [materializeTo, restoreSnapshot, hp]
    show (replaySegments _ _ _ _ >>= _) = _
    rw [htail (by rw [hcovered, nil_append]) hrest]
    rfl
  | some p =>
    obtain ⟨hts, hle, hlt, snap, hget, hsnap⟩ := hm.snapped p hp
    have hsnapTs : m.snapshotTs = p.ts := by rw [Manifest.snapshotTs, hp]; rfl
    by_cases hbehind : ((nextSeqno : Int) - 1) < (p.segBase : Int)
    · -- the snapshot goes beyond the store
      obtain ⟨mid, hcovered, hmore⟩ : ∃ mid, covered = log ++ mid ∧ more = mid ++ rest := by
        rcases append_eq_append_iff.1 hm.parts with ⟨mid, h, h'⟩ | ⟨mid, h, h'⟩
        · exact ⟨mid, h, h'⟩
        · cases mid with
          | nil => exact ⟨[], by simpa using h.symm, by simpa using h'.symm⟩
          | cons seg mid =>
            have h₁ := hlt seg (h' ▸ mem_append_left _ mem_cons_self)
            have h₂ := hbelow seg (h ▸ mem_append_right _ mem_cons_self)
            omega
      subst hcovered hmore
      rw [← append_assoc] at hlog
      have hrestored := hs.restore hlog.of_append hsnap
      have hwritten := hrestored.writeTo hlog
      rw [append_assoc] at hwritten
      refine ⟨rest.writeTo (s.applySnapshotState snap), frontierTs (log ++ mid), ?_, hwritten, ?_⟩
      · rw [materializeTo, restoreSnapshot, hp]
        dsimp only
        rw [if_pos hbehind, hget]
        show (replaySegments _ _ _ _ >>= _) = _
        rw [hm.segments, replaySegments_eq (pairwise_append.1 hlog.pairwise).2.1 hm.present
          fun seg hseg => Int.ofNat_lt.2 (hlt seg hseg)]
        rfl
      · rw [hsnapTs, hts]
    · -- the store has all that the snapshot has
      obtain ⟨skip, hskip, hrest⟩ : ∃ skip, log = covered ++ skip ∧ rest = skip ++ more := by
        rcases append_eq_append_iff.1 hm.parts with ⟨mid, h, h'⟩ | ⟨mid, h, h'⟩
        · cases mid with
          | nil => exact ⟨[], by simpa using h.symm, by simpa using h'.symm⟩
          | cons seg mid =>
            have h₁ := hle seg (h ▸ mem_append_right _ mem_cons_self)
            have h₂ := habove seg (h' ▸ mem_append_left _ mem_cons_self)
            omega
        · exact ⟨mid, h, h'⟩
      refine ⟨more.writeTo s, since, ?_, hs.writeTo hlog, hsince⟩
      rw [materializeTo, restoreSnapshot, hp]
      dsimp only
      rw [if_neg hbehind]
      show (replaySegments _ _ _ _ >>= _) = _
      rw [htail hskip hrest]
      rfl

/-- After `materializeTo` the local store answers as a store that replayed the whole log: without a
read timestamp, and at every read timestamp from the snapshot of the manifest on. -/
theorem materializeTo_answers {log more covered rest : SegmentLog V} {since nextSeqno : Nat}
    (hlog : Ordered (log ++ more)) (hs : Materialized log since s)
    (hbelow : ∀ seg ∈ log, seg.seqno < nextSeqno) (habove : ∀ seg ∈ more, nextSeqno ≤ seg.seqno)
    (hm : ManifestOf (DumpOf covered) objects m (log ++ more) covered rest)
    (hsince : since ≤ m.snapshotTs) :
    ∃ s', materializeTo objects nextSeqno s m = .ok (s', m.nextSeqno) ∧
      ∀ b, Admits b m.snapshotTs →
        (∀ id, s'.get id b = (replay (log ++ more)).get id b) ∧
        (∀ tableNumber, s'.scan tableNumber b = (replay (log ++ more)).scan tableNumber b) ∧
        ∀ t, b = some t → ∀ indexId start stop order limit,
          s'.indexScan indexId t start stop order limit =
            (replay (log ++ more)).indexScan indexId t start stop order limit := by
  have hcovered : Ordered covered := by
    rw [hm.parts] at hlog
    exact hlog.of_append
  obtain ⟨s', since', heq, hreflects, hle⟩ := materializeTo_reflects hlog hs.reflects hbelow habove
    (hm.mono fun snap hsnap => hsnap.snapshotOf hcovered) hsince
  refine ⟨s', heq, fun b hb => ?_⟩
  have halike := hreflects.alike (hb.mono hle)
  refine ⟨halike.get, halike.scan, ?_⟩
  rintro t rfl
  exact halike.indexScan

namespace MaterializeExample

def noteId : InternalDocumentId := ⟨1, [byte 1]⟩

def otherId : InternalDocumentId := ⟨1, [byte 2]⟩

def byTitle : IndexId := ⟨1, "by_title"⟩

/-- A note is written under the key 5. -/
def inserted : LoggedSegment Nat :=
  ⟨0, 1, [((noteId, 1), ⟨none, some 7⟩)], [(((byTitle, [byte 5]), 1), .nonClustered noteId)]⟩

/-- It is deleted. -/
def deleted : LoggedSegment Nat :=
  ⟨1, 2, [((noteId, 2), ⟨some 1, none⟩)], [(((byTitle, [byte 5]), 2), .deleted)]⟩

/-- Another note takes the key. -/
def rekeyed : LoggedSegment Nat :=
  ⟨2, 3, [((otherId, 3), ⟨none, some 8⟩)], [(((byTitle, [byte 5]), 3), .nonClustered otherId)]⟩

def log : SegmentLog Nat := [inserted, deleted, rekeyed]

/-- A snapshot was taken after the deletion and the segments before it are gone. -/
def bucket : ShardObjects Nat where
  segments := OrderedMap.empty.set 2 rekeyed.payload
  snapshots := OrderedMap.empty.set 2 ⟨2, 1, (replay [inserted, deleted]).dumpCurrentState⟩

def manifest : Manifest := ⟨1, 3, 3, [2], 3, "w", 0, some ⟨2, 1⟩⟩

theorem ordered_log : Ordered log := by
  have h₁ : Ordered ([] ++ [inserted]) := .concat .nil (by decide) (by decide)
    ⟨by decide, by decide⟩
  have h₂ : Ordered ([inserted] ++ [deleted]) := .concat h₁ (by decide) (by decide)
    ⟨by decide, by decide⟩
  exact .concat h₂ (by decide) (by decide) ⟨by decide, by decide⟩

theorem materialized_inserted : Materialized [inserted] 0 (replay [inserted]) :=
  .write .empty (show Ordered ([inserted] ++ [deleted, rekeyed]) from ordered_log).of_append

theorem materialized_deleted : Materialized [inserted, deleted] 0 (replay [inserted, deleted]) :=
  .write materialized_inserted
    (show Ordered ([inserted, deleted] ++ [rekeyed]) from ordered_log).of_append

theorem manifestOf : ManifestOf (DumpOf [inserted, deleted]) bucket manifest log
    [inserted, deleted] [rekeyed] where
  parts := rfl
  segments := rfl
  present := by decide
  unsnapped h := by cases h
  snapped p hp := by
    cases hp
    exact ⟨rfl, by decide, by decide, _, rfl, 0, _, materialized_deleted, rfl, rfl⟩

/-- What `materializeTo` makes of an empty store. -/
def restored : SqliteDocStore Nat :=
  (SqliteDocStore.empty.applySnapshotState
    ⟨2, 1, (replay [inserted, deleted]).dumpCurrentState⟩).write rekeyed.payload

end MaterializeExample

open MaterializeExample in
/-- A store that stopped before the deletion is brought up to a manifest whose snapshot jumps over
it. -/
theorem materializeTo_answers_jump : ∃ s', materializeTo bucket 1 (replay [inserted]) manifest =
    .ok (s', 3) ∧ s'.get noteId none = none ∧ s'.scan 1 none = (replay log).scan 1 none ∧
      s'.indexScan byTitle 3 [] none .asc none =
        (replay log).indexScan byTitle 3 [] none .asc none := by
  have hbelow : ∀ seg ∈ [inserted], seg.seqno < 1 := by decide
  have habove : ∀ seg ∈ [deleted, rekeyed], 1 ≤ seg.seqno := by decide
  obtain ⟨s', hs', hanswers⟩ := materializeTo_answers
    (show Ordered ([inserted] ++ [deleted, rekeyed]) from ordered_log) materialized_inserted hbelow
    habove manifestOf (by decide)
  obtain ⟨hget, hscan, -⟩ := hanswers none admits_none
  obtain ⟨-, -, hindex⟩ := hanswers (some 3) (admits_some.2 (by decide))
  have hgone : (replay log).get noteId none = none := by decide +kernel
  exact ⟨s', hs', (hget noteId).trans hgone, hscan 1, hindex 3 rfl byTitle [] none .asc none⟩

open MaterializeExample in
/-- A scan at a timestamp before the snapshot finds a document in a replay of the log, and not in a
store that was materialized from the snapshot. -/
theorem restored_scan_in_the_past : Ordered log ∧ Materialized ([] : SegmentLog Nat) 0 .empty ∧
    ManifestOf (DumpOf [inserted, deleted]) bucket manifest log [inserted, deleted] [rekeyed] ∧
    materializeTo bucket 0 .empty manifest = .ok (restored, 3) ∧
    restored.indexScan byTitle 1 [] none .asc none = [] ∧
      (replay log).indexScan byTitle 1 [] none .asc none = [([byte 5], ⟨1, none, noteId, 7⟩)] :=
  ⟨ordered_log, .empty, manifestOf, rfl, by decide +kernel, by decide +kernel⟩

end Helipod
