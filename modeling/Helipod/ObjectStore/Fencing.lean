import Helipod.ObjectStore.Shard

/-!
# Fencing by the epoch

What holds in every run of `Shard`, whatever the instances do: `acquire` raises the epoch, every
other swap expects a manifest with the epoch of the writer, and `gc` deletes only what a snapshot of
the current manifest, or of an earlier one, has made superfluous.

Results: `Shard.Fenced.step`, `fenced_epoch_takes_no_effect`, `one_holder_per_epoch`.
-/

namespace Helipod

open VersionTable Runs ObjectStoreDocStore OrderedMap Bucket List

variable {V : Type}

/-! ## Manifests only move forward -/

structure Manifest.Precedes (m m' : Manifest) : Prop where
  epoch : m.epoch ≤ m'.epoch
  nextSeqno : m.nextSeqno ≤ m'.nextSeqno
  frontierTs : m.frontierTs ≤ m'.frontierTs
  snapshot : ∀ p, m.snapshot = some p →
    ∃ p', m'.snapshot = some p' ∧ p.segBase ≤ p'.segBase ∧ p.ts ≤ p'.ts

namespace Manifest.Precedes

variable {m m' m'' : Manifest}

theorem refl : m.Precedes m := ⟨le_rfl, le_rfl, le_rfl, fun p hp => ⟨p, hp, le_rfl, le_rfl⟩⟩

theorem trans (h : m.Precedes m') (h' : m'.Precedes m'') : m.Precedes m'' := by
  refine ⟨h.epoch.trans h'.epoch, h.nextSeqno.trans h'.nextSeqno, h.frontierTs.trans h'.frontierTs,
    fun p hp => ?_⟩
  obtain ⟨p', hp', hbase, hts⟩ := h.snapshot p hp
  obtain ⟨p'', hp'', hbase', hts'⟩ := h'.snapshot p' hp'
  exact ⟨p'', hp'', hbase.trans hbase', hts.trans hts'⟩

theorem empty : emptyManifest.Precedes m :=
  ⟨Nat.zero_le _, Nat.zero_le _, Nat.zero_le _, fun _ hp => by cases hp⟩

theorem claim (opts : AcquireOpts) : m.Precedes (ObjectStoreDocStore.claim opts m) := by
  refine ⟨Nat.le_succ _, ?_, le_rfl, fun p hp => ⟨p, hp, le_rfl, le_rfl⟩⟩
  show m.nextSeqno ≤ if 0 < m.epoch then m.nextSeqno + 1 else m.nextSeqno
  split <;> omega

end Manifest.Precedes

/-- The pointer of the manifest has reached `segBase` and `ts`. -/
def Manifest.SnapshotFrom (m : Manifest) (segBase : Int) (ts : Nat) : Prop :=
  ∃ p, m.snapshot = some p ∧ segBase ≤ p.segBase ∧ ts ≤ p.ts

theorem Manifest.SnapshotFrom.mono {m m' : Manifest} {segBase : Int} {ts : Nat}
    (h : m.SnapshotFrom segBase ts) (hm : m.Precedes m') : m'.SnapshotFrom segBase ts := by
  obtain ⟨p, hp, hbase, hts⟩ := h
  obtain ⟨p', hp', hbase', hts'⟩ := hm.snapshot p hp
  exact ⟨p', hp', hbase.trans (by exact_mod_cast hbase'), hts.trans hts'⟩

/-! ## The bucket -/

namespace Bucket

variable {b b' : Bucket V} {m : Manifest} {payload : SegmentPayload V} {snap : SnapshotPayload V}
  {seqno : Nat}

@[simp] theorem current_putSegment : (b.putSegment seqno payload).current = b.current := by
  unfold putSegment
  split <;> rfl

@[simp] theorem current_putSnapshot : (b.putSnapshot snap).current = b.current := by
  unfold putSnapshot
  split <;> rfl

theorem current_eq (h : b.manifest = some m) : b.current = m := by rw [current, h]; rfl

theorem has_putSegment {seqno n : Nat} :
    (b.putSegment seqno payload).objects.segments.has n =
      (decide (seqno = n) || b.objects.segments.has n) := by
  unfold putSegment
  split
  · rename_i h
    by_cases heq : seqno = n
    · rw [← heq, h, Bool.or_true]
    · simp [heq]
  · exact has_set _

theorem has_putSnapshot {ts : Nat} :
    (b.putSnapshot snap).objects.snapshots.has ts =
      (decide (snap.frontierTs = ts) || b.objects.snapshots.has ts) := by
  unfold putSnapshot
  split
  · rename_i h
    by_cases heq : snap.frontierTs = ts
    · rw [← heq, h, Bool.or_true]
    · simp [heq]
  · exact has_set _

@[simp] theorem snapshots_putSegment :
    (b.putSegment seqno payload).objects.snapshots = b.objects.snapshots := by
  unfold putSegment
  split <;> rfl

@[simp] theorem segments_putSnapshot :
    (b.putSnapshot snap).objects.segments = b.objects.segments := by
  unfold putSnapshot
  split <;> rfl

/-- Every object that the manifest references is there, and the cursor is above all of them. -/
structure Linked (b : Bucket V) : Prop where
  segments : ∀ n ∈ b.current.segments, n < b.current.nextSeqno ∧ b.objects.segments.has n = true
  snapshot : ∀ p, b.current.snapshot = some p → p.segBase < b.current.nextSeqno ∧
    p.ts ≤ b.current.frontierTs ∧ b.objects.snapshots.has p.ts = true
  tail : ∀ p, b.current.snapshot = some p → ∀ n ∈ b.current.segments, p.segBase < n
  counter : b.current.frontierTs ≤ b.current.tsCounter

/-- The manifest moves forward, and no object is deleted that it may still come to reference. -/
structure Evolves (b b' : Bucket V) : Prop where
  current : b.current.Precedes b'.current
  segments : ∀ n, b.current.nextSeqno ≤ n → b.objects.segments.has n = true →
    b'.objects.segments.has n = true
  snapshots : ∀ ts, b.current.frontierTs ≤ ts → b.objects.snapshots.has ts = true →
    b'.objects.snapshots.has ts = true

theorem Evolves.of_objects (hcurrent : b.current.Precedes b'.current)
    (hobjects : b'.objects = b.objects) :
    Evolves b b' :=
  ⟨hcurrent, fun _ _ h => by rwa [hobjects], fun _ _ h => by rwa [hobjects]⟩

theorem Evolves.refl : Evolves b b := .of_objects .refl rfl

namespace Linked

theorem empty : Linked (Bucket.empty : Bucket V) :=
  ⟨fun _ hn => (by cases hn), fun _ hp => (by cases hp), fun _ hp => (by cases hp), le_rfl⟩

theorem of_references (h : b.Linked) (hobjects : b'.objects = b.objects)
    (hsegments : b'.current.segments = b.current.segments)
    (hsnapshot : b'.current.snapshot = b.current.snapshot)
    (hnext : b.current.nextSeqno ≤ b'.current.nextSeqno)
    (hts : (b'.current.frontierTs, b'.current.tsCounter) =
      (b.current.frontierTs, b.current.tsCounter)) : b'.Linked := by
  obtain ⟨hfrontier, hcounter⟩ := Prod.mk.inj hts
  refine ⟨fun n hn => ?_, fun p hp => ?_, fun p hp n hn => ?_, ?_⟩
  · rw [hsegments] at hn
    rw [hobjects]
    exact ⟨(h.segments n hn).1.trans_le hnext, (h.segments n hn).2⟩
  · rw [hsnapshot] at hp
    rw [hobjects, hfrontier]
    obtain ⟨hbase, hts, hhas⟩ := h.snapshot p hp
    exact ⟨hbase.trans_le hnext, hts, hhas⟩
  · rw [hsnapshot] at hp
    rw [hsegments] at hn
    exact h.tail p hp n hn
  · rw [hfrontier, hcounter]
    exact h.counter

theorem of_objects (h : b.Linked) (hcurrent : b'.current = b.current)
    (hsegments : ∀ n ∈ b.current.segments, b.objects.segments.has n = true →
      b'.objects.segments.has n = true)
    (hsnapshot : ∀ p, b.current.snapshot = some p → b.objects.snapshots.has p.ts = true →
      b'.objects.snapshots.has p.ts = true) : b'.Linked := by
  refine ⟨fun n hn => ?_, fun p hp => ?_, ?_, ?_⟩
  · rw [hcurrent] at hn ⊢
    exact ⟨(h.segments n hn).1, hsegments n hn (h.segments n hn).2⟩
  · rw [hcurrent] at hp ⊢
    obtain ⟨hbase, hts, hhas⟩ := h.snapshot p hp
    exact ⟨hbase, hts, hsnapshot p hp hhas⟩
  · rw [hcurrent]
    exact h.tail
  · rw [hcurrent]
    exact h.counter

end Linked

end Bucket

/-! ## Instances -/

/-- What an instance relies on while it waits. -/
def Task.Ready (b : Bucket V) (inst : ObjectStoreDocStore V) : Task V → Prop
  | .readSnapshot next m _ | .readSegment next m _ _ =>
    m.Precedes b.current ∧ inst.nextSeqno ≤ m.nextSeqno ∧ (next = .opened → inst.cached = m)
  | .heartbeatCas _ | .commitPut _ _ => inst.held.isSome = true ∧ inst.poisoned = false
  | .commitCas _ _ => inst.held.isSome = true ∧ inst.poisoned = false ∧
    (b.current.nextSeqno ≤ inst.nextSeqno → b.objects.segments.has inst.nextSeqno = true)
  | .snapshotPut => 0 < inst.nextSeqno
  | .snapshotCas => 0 < inst.nextSeqno ∧ (b.current.frontierTs ≤ inst.cached.frontierTs →
    b.objects.snapshots.has inst.cached.frontierTs = true)
  | .gcRead => inst.poisoned = false
  | .gcWatermarks p => b.current.SnapshotFrom p.segBase p.ts
  | .gcListSegments floor keepSnap => b.current.SnapshotFrom floor keepSnap
  | .gcDeleteSegment seqno rest keepSnap =>
    ∀ n ∈ seqno :: rest, b.current.SnapshotFrom (n : Int) keepSnap
  | .gcListSnapshots keepSnap => b.current.SnapshotFrom 0 keepSnap
  | .gcDeleteSnapshot ts rest => ∀ n ∈ ts :: rest, b.current.SnapshotFrom 0 (n + 1)
  | _ => True

/-- The instance is in step with the manifest it has cached, and is not ahead of the bucket. -/
structure ObjectStoreDocStore.Tracks (b : Bucket V) (inst : ObjectStoreDocStore V) : Prop where
  cached : inst.cached.Precedes b.current
  epoch : ∀ held, inst.held = some held → inst.cached.epoch = held.epoch
  unheld : inst.task.opens = true → inst.held = none
  le : inst.nextSeqno ≤ b.current.nextSeqno
  ge : inst.task.opens = false → inst.cached.nextSeqno ≤ inst.nextSeqno
  holder : ∀ held, inst.held = some held → inst.poisoned = false → held.epoch = b.current.epoch →
    inst.nextSeqno = b.current.nextSeqno
  ready : inst.task.Ready b inst

variable {b b' : Bucket V} {inst inst' : ObjectStoreDocStore V}

theorem Task.Ready.evolve {task : Task V} (h : task.Ready b inst) (he : b.Evolves b') :
    task.Ready b' inst := by
  cases task with
  | readSnapshot next m p | readSegment next m seqno rest => exact ⟨h.1.trans he.current, h.2⟩
  | commitCas call units =>
    obtain ⟨hheld, hpoisoned, hhas⟩ := h
    exact ⟨hheld, hpoisoned, fun hle => he.segments _ (he.current.nextSeqno.trans hle)
      (hhas (he.current.nextSeqno.trans hle))⟩
  | snapshotCas =>
    exact ⟨h.1, fun hle => he.snapshots _ (he.current.frontierTs.trans hle)
      (h.2 (he.current.frontierTs.trans hle))⟩
  | gcWatermarks p | gcListSegments floor keepSnap | gcListSnapshots keepSnap =>
    exact Manifest.SnapshotFrom.mono h he.current
  | gcDeleteSegment seqno rest keepSnap | gcDeleteSnapshot ts rest =>
    exact fun n hn => (h n hn).mono he.current
  | _ => exact h

namespace ObjectStoreDocStore.Tracks

theorem opening : Tracks b (.opening : ObjectStoreDocStore V) :=
  ⟨.empty, fun _ h => (by cases h), fun _ => rfl, Nat.zero_le _, fun h => (by cases h),
    fun _ h => (by cases h), trivial⟩

section

variable (h : Tracks b inst)
include h

theorem held_le {held : HeldLease} (hheld : inst.held = some held) :
    held.epoch ≤ b.current.epoch := h.epoch held hheld ▸ h.cached.epoch

/-- The instance is as it was, and something else happened to the bucket. -/
theorem evolve (he : b.Evolves b') (hholder : ∀ held, inst.held = some held →
    inst.poisoned = false →
      held.epoch = b'.current.epoch → b'.current.epoch = b.current.epoch ∧
        b'.current.nextSeqno = b.current.nextSeqno) : Tracks b' inst :=
  ⟨h.cached.trans he.current, h.epoch, h.unheld, h.le.trans he.current.nextSeqno, h.ge,
    fun held hheld hpoisoned hepoch => by
      obtain ⟨hsame, hnext⟩ := hholder held hheld hpoisoned hepoch
      rw [hnext]
      exact h.holder held hheld hpoisoned (hepoch.trans hsame),
    h.ready.evolve he⟩

variable (ho : inst.task.opens = false)
include ho

/-- The instance goes on with the manifest and the cursor it had. -/
theorem goesOn (he : b.Evolves b')
    (same : (inst'.cached, inst'.nextSeqno) = (inst.cached, inst.nextSeqno))
    (ht : inst'.task.opens = false) (hready : inst'.task.Ready b' inst')
    (hheld : ∀ held, inst'.held = some held → inst.held = some held ∧
      (inst'.poisoned = false → inst.poisoned = false ∧ b'.current = b.current)) :
        Tracks b' inst' := by
  obtain ⟨hcached, hnext⟩ := Prod.mk.inj same
  refine ⟨?_, fun held hh => ?_, fun hopens => ?_, ?_, fun _ => ?_,
    fun held hh hpoisoned hepoch => ?_, hready⟩
  · rw [hcached]
    exact h.cached.trans he.current
  · rw [hcached]
    exact h.epoch held (hheld held hh).1
  · rw [ht] at hopens
    cases hopens
  · rw [hnext]
    exact h.le.trans he.current.nextSeqno
  · rw [hcached, hnext]
    exact h.ge ho
  · obtain ⟨hold, hsame⟩ := hheld held hh
    obtain ⟨hpoisoned, hcurrent⟩ := hsame hpoisoned
    rw [hnext, hcurrent]
    exact h.holder held hold hpoisoned (by rw [hepoch, hcurrent])

/-- The next request of a call, the bucket having kept its manifest. -/
theorem await {task : Task V} (he : b.Evolves b')
    (hcurrent : b'.current = b.current) (ht : task.opens = false) (hready : task.Ready b' inst) :
    Tracks b' (inst.await task) :=
  h.goesOn ho he rfl ht (by
    cases task <;> exact hready) fun _ hh => ⟨hh, fun hp => ⟨hp, hcurrent⟩⟩

theorem done (he : b.Evolves b')
    (hcurrent : b'.current = b.current) : Tracks b' inst.done := h.await ho he hcurrent rfl trivial

theorem stray (he : b.Evolves b') (hcurrent : b'.current = b.current) : Tracks b' inst.stray :=
  h.goesOn ho he rfl rfl trivial fun _ hh => ⟨hh, fun hp => ⟨hp, hcurrent⟩⟩

theorem poison (he : b.Evolves b') : Tracks b' inst.poison :=
  h.goesOn ho he rfl rfl trivial fun _ hh => ⟨hh, fun hp => by cases hp⟩

theorem fence (he : b.Evolves b') : Tracks b' inst.fence :=
  h.goesOn ho he rfl rfl trivial fun _ hh => by cases hh

end

/-! ### Catching up -/

/-- What is known of the manifest that an instance catches up to. -/
structure Target (b : Bucket V) (inst : ObjectStoreDocStore V) (next : AfterMaterialize)
    (m : Manifest) : Prop where
  cached : inst.cached.Precedes b.current
  epoch : ∀ held, inst.held = some held → inst.cached.epoch = held.epoch
  precedes : m.Precedes b.current
  le : inst.nextSeqno ≤ m.nextSeqno
  opened : next = .opened → inst.held = none ∧ inst.cached = m
  ge : next ≠ .opened → inst.cached.nextSeqno ≤ inst.nextSeqno
  holder : ∀ held, inst.held = some held → inst.poisoned = false → held.epoch = b.current.epoch →
    inst.nextSeqno = b.current.nextSeqno

variable {next : AfterMaterialize} {m : Manifest}

section

variable (h : Target b inst next m)
include h

theorem Target.waits {task : Task V} (ht : (∃ p, task = .readSnapshot next m p) ∨
    ∃ seqno rest, task = .readSegment next m seqno rest) : Tracks b (inst.await task) := by
  have hready : Task.Ready b (inst.await task) task := by
    obtain ⟨p, rfl⟩ | ⟨seqno, rest, rfl⟩ := ht <;>
      exact ⟨h.precedes, h.le, fun hn => (h.opened hn).2⟩
  refine ⟨h.cached, h.epoch, fun ho => ?_, h.le.trans h.precedes.nextSeqno, fun ho => ?_,
    h.holder, hready⟩
  · cases next with
    | opened => exact (h.opened rfl).1
    | acquire opts => obtain ⟨p, rfl⟩ | ⟨seqno, rest, rfl⟩ := ht <;> cases ho
  · cases next with
    | opened => obtain ⟨p, rfl⟩ | ⟨seqno, rest, rfl⟩ := ht <;> cases ho
    | acquire opts => exact h.ge (by rintro ⟨⟩)

theorem Target.materialized : Tracks b (inst.materialized next m) := by
  have hholder : ∀ held, inst.held = some held → inst.poisoned = false →
      held.epoch = b.current.epoch → m.nextSeqno = b.current.nextSeqno :=
    fun held hheld hpoisoned hepoch =>
      h.precedes.nextSeqno.antisymm (h.holder held hheld hpoisoned hepoch ▸ h.le)
  cases next with
  | opened =>
    refine ⟨h.cached, h.epoch, fun _ => (h.opened rfl).1, h.precedes.nextSeqno,
      fun _ => ?_, hholder, trivial⟩
    show inst.cached.nextSeqno ≤ m.nextSeqno
    rw [(h.opened rfl).2]
  | acquire opts =>
    exact ⟨h.cached, h.epoch, fun ho => (by cases ho), h.precedes.nextSeqno,
      fun _ => (h.ge (by rintro ⟨⟩)).trans h.le, hholder, trivial⟩

theorem Target.pull (appliedThrough : Int) (segments : List Nat) :
    Tracks b (inst.pull next m appliedThrough segments) := by
  unfold ObjectStoreDocStore.pull
  split
  · exact h.materialized
  · exact h.waits (.inr ⟨_, _, rfl⟩)

theorem Target.startMaterialize : Tracks b (inst.startMaterialize next m) := by
  unfold ObjectStoreDocStore.startMaterialize
  split
  · exact h.pull _ _
  · split
    · exact h.waits (.inl ⟨_, rfl⟩)
    · exact h.pull _ _

end

theorem target (h : Tracks b inst) (store : SqliteDocStore V)
    (ht : (∃ p, inst.task = .readSnapshot next m p) ∨
      ∃ seqno rest, inst.task = .readSegment next m seqno rest) :
    Target b { inst with store := store } next m := by
  have hready : m.Precedes b.current ∧ inst.nextSeqno ≤ m.nextSeqno ∧
      (next = .opened → inst.cached = m) := by
    have := h.ready
    obtain ⟨p, ht⟩ | ⟨seqno, rest, ht⟩ := ht <;> rw [ht] at this <;> exact this
  refine ⟨h.cached, h.epoch, hready.1, hready.2.1, fun hn => ⟨h.unheld ?_, hready.2.2 hn⟩,
    fun hn => h.ge ?_, h.holder⟩
  · subst hn
    obtain ⟨p, ht⟩ | ⟨seqno, rest, ht⟩ := ht <;> rw [ht] <;> rfl
  · cases next with
    | opened => exact absurd rfl hn
    | acquire opts => obtain ⟨p, ht⟩ | ⟨seqno, rest, ht⟩ := ht <;> rw [ht] <;> rfl

theorem target_opened (h : Tracks b inst) (ho : inst.task.opens = true) (hm : b.manifest = some m) :
    Target b { inst with cached := m } .opened m := by
  have hcurrent := current_eq hm
  have hheld := h.unheld ho
  exact ⟨by rw [hcurrent]; exact .refl, fun held hh => (by rw [hheld] at hh; cases hh),
    by rw [hcurrent]; exact .refl, hcurrent ▸ h.le, fun _ => ⟨hheld, rfl⟩, fun hn => absurd rfl hn,
    fun held hh => (by rw [hheld] at hh; cases hh)⟩

theorem target_acquire (h : Tracks b inst) {opts : AcquireOpts} (ht : inst.task = .acquireRead opts)
    (hm : b.manifest = some m) : Target b inst (.acquire opts) m := by
  have hcurrent := current_eq hm
  exact ⟨h.cached, h.epoch, by rw [hcurrent]; exact .refl, hcurrent ▸ h.le, fun hn => (by cases hn),
    fun _ => h.ge (by rw [ht]; rfl), h.holder⟩

/-! ### Swaps -/

/-- The manifest that the instance has cached is the current one, so its cursor is the current one.
-/
theorem nextSeqno_eq (h : Tracks b inst) (ho : inst.task.opens = false)
    (hm : b.manifest = some inst.cached) : inst.nextSeqno = b.current.nextSeqno :=
  h.le.antisymm (current_eq hm ▸ h.ge ho)

theorem nextSeqno_cached (h : Tracks b inst) (ho : inst.task.opens = false)
    (hm : b.manifest = some inst.cached) : inst.nextSeqno = inst.cached.nextSeqno := by
  rw [h.nextSeqno_eq ho hm, current_eq hm]

theorem swapped (h : Tracks b inst) (hc : inst'.cached = m) (hcurrent : b'.current = m)
    (ht : inst'.task = .idle) (hepoch : m.epoch = inst.cached.epoch)
    (hnext : inst'.nextSeqno = m.nextSeqno)
    (hheld : ∀ held, inst'.held = some held → inst.held = some held) : Tracks b' inst' := by
  refine ⟨?_, fun held hh => ?_, fun ho => ?_, ?_, fun _ => ?_, fun _ _ _ _ => ?_, ?_⟩
  · rw [hc, hcurrent]
    exact .refl
  · rw [hc, hepoch]
    exact h.epoch held (hheld held hh)
  · rw [ht] at ho
    cases ho
  · rw [hnext, hcurrent]
  · rw [hc, hnext]
  · rw [hnext, hcurrent]
  · rw [ht]
    trivial

end ObjectStoreDocStore.Tracks

/-! ## What an answer keeps -/

namespace Resumed

section

variable (hb : b.Linked)
include hb

theorem linked_withManifest {m : Manifest} (hm : b.current.Precedes m)
    (hsegments : m.segments = b.current.segments) (hsnapshot : m.snapshot = b.current.snapshot)
    (hts : (m.frontierTs, m.tsCounter) = (b.current.frontierTs, b.current.tsCounter)) :
    (b.withManifest m).Linked ∧ b.Evolves (b.withManifest m) :=
  ⟨hb.of_references rfl hsegments hsnapshot hm.nextSeqno hts, .of_objects hm rfl⟩

theorem linked_claim {opts : AcquireOpts} {m : Manifest} (hm : b.manifest = some m) :
    (b.withManifest (claim opts m)).Linked ∧ b.Evolves (b.withManifest (claim opts m)) := by
  obtain rfl := current_eq hm
  exact linked_withManifest hb (.claim opts) rfl rfl rfl

theorem linked_putSegment {payload : SegmentPayload V} {n : Nat} :
    (b.putSegment n payload).Linked ∧ b.Evolves (b.putSegment n payload) := by
  have hhas : ∀ k, b.objects.segments.has k = true →
      (b.putSegment n payload).objects.segments.has k = true := fun k hk => by
    rw [has_putSegment, hk, Bool.or_true]
  refine ⟨hb.of_objects current_putSegment (fun k _ => hhas k) fun p _ hp => ?_, ?_,
    fun k _ => hhas k, fun ts _ hts => ?_⟩
  · rwa [snapshots_putSegment]
  · rw [current_putSegment]
    exact .refl
  · rwa [snapshots_putSegment]

theorem linked_putSnapshot {snap : SnapshotPayload V} :
    (b.putSnapshot snap).Linked ∧ b.Evolves (b.putSnapshot snap) := by
  have hhas : ∀ ts, b.objects.snapshots.has ts = true →
      (b.putSnapshot snap).objects.snapshots.has ts = true := fun ts hts => by
    rw [has_putSnapshot, hts, Bool.or_true]
  refine ⟨hb.of_objects current_putSnapshot (fun n _ hn => ?_) fun p _ => hhas p.ts, ?_,
    fun n _ hn => ?_, fun ts _ => hhas ts⟩
  · rwa [segments_putSnapshot]
  · rw [current_putSnapshot]
    exact .refl
  · rwa [segments_putSnapshot]

theorem linked_deleteSegment {seqno ts : Nat} (hs : b.current.SnapshotFrom (seqno : Int) ts) :
    (b.deleteSegment seqno).Linked ∧ b.Evolves (b.deleteSegment seqno) := by
  obtain ⟨p, hp, hle, -⟩ := hs
  have hkept : ∀ n, p.segBase < n → b.objects.segments.has n = true →
      (b.deleteSegment seqno).objects.segments.has n = true := fun n hn hhas => by
    show (b.objects.segments.erase seqno).has n = true
    rwa [has_erase_of_ne _ (by omega)]
  exact ⟨hb.of_objects rfl (fun n hn => hkept n (hb.tail p hp n hn)) fun _ _ h => h, .refl,
    fun n hn => hkept n ((hb.snapshot p hp).1.trans_le hn), fun _ _ h => h⟩

theorem linked_deleteSnapshot {ts : Nat} {segBase : Int}
    (hs : b.current.SnapshotFrom segBase (ts + 1)) :
    (b.deleteSnapshot ts).Linked ∧ b.Evolves (b.deleteSnapshot ts) := by
  obtain ⟨p, hp, -, hlt⟩ := hs
  have hkept : ∀ n, p.ts ≤ n → b.objects.snapshots.has n = true →
      (b.deleteSnapshot ts).objects.snapshots.has n = true := fun n hn hhas => by
    show (b.objects.snapshots.erase ts).has n = true
    rwa [has_erase_of_ne _ (by omega)]
  refine ⟨hb.of_objects rfl (fun _ _ h => h) fun p' hp' hhas => hkept p'.ts ?_ hhas, .refl,
    fun _ _ h => h, fun n hn => hkept n ((hb.snapshot p hp).2.1.trans hn)⟩
  rw [Option.some.inj (hp'.symm.trans hp)]

/-- The segment of a commit was stored before the swap. -/
theorem linked_committed {call : Nat} {units : List (CommitUnit V)} (h : inst.Tracks b)
    (ht : inst.task = .commitCas call units) (hm : b.manifest = some inst.cached) :
    (b.withManifest (inst.committed units)).Linked ∧
      b.Evolves (b.withManifest (inst.committed units)) := by
  have hready : inst.held.isSome = true ∧ inst.poisoned = false ∧
      (b.current.nextSeqno ≤ inst.nextSeqno → b.objects.segments.has inst.nextSeqno = true) := by
    have := h.ready
    rwa [ht] at this
  have hcurrent := current_eq hm
  have hnext := h.nextSeqno_eq (by rw [ht]; rfl) hm
  have hhas := hready.2.2 hnext.ge
  have hcounter : b.current.frontierTs ≤ inst.floor + units.length :=
    (hb.counter.trans (hcurrent ▸ le_max_left _ _)).trans (Nat.le_add_right _ _)
  obtain ⟨held, hheld⟩ := Option.isSome_iff_exists.1 hready.1
  have hepoch : (inst.committed units).epoch = b.current.epoch := by
    show (inst.held.map (·.epoch)).getD 0 = b.current.epoch
    rw [hheld, hcurrent]
    exact (h.epoch held hheld).symm
  have hprecedes : b.current.Precedes (inst.committed units) :=
    ⟨hepoch.ge, by rw [← hnext]; exact Nat.le_succ _, hcounter,
      fun p hp => ⟨p, by rw [hcurrent] at hp; exact hp, le_rfl, le_rfl⟩⟩
  refine ⟨⟨fun n hn => ?_, fun p hp => ?_, fun p hp n hn => ?_, le_rfl⟩, .of_objects hprecedes rfl⟩
  · rcases mem_append.1 hn with hn | hn
    · rw [← hcurrent] at hn
      exact ⟨(hb.segments n hn).1.trans_le hprecedes.nextSeqno, (hb.segments n hn).2⟩
    · rw [mem_singleton.1 hn]
      exact ⟨Nat.lt_succ_self _, hhas⟩
  · obtain ⟨hbase, hts, hhas⟩ := hb.snapshot p (by rw [hcurrent]; exact hp)
    exact ⟨hbase.trans_le hprecedes.nextSeqno, hts.trans hcounter, hhas⟩
  · have hp' : b.current.snapshot = some p := by rw [hcurrent]; exact hp
    rcases mem_append.1 hn with hn | hn
    · rw [← hcurrent] at hn
      exact hb.tail p hp' n hn
    · rw [mem_singleton.1 hn, hnext]
      exact (hb.snapshot p hp').1

/-- The snapshot was stored before the swap, and covers all segments. -/
theorem linked_snapshotted (h : inst.Tracks b) (ht : inst.task = .snapshotCas)
    (hm : b.manifest = some inst.cached) :
    (b.withManifest inst.snapshotted).Linked ∧ b.Evolves (b.withManifest inst.snapshotted) := by
  have hready : 0 < inst.nextSeqno ∧ (b.current.frontierTs ≤ inst.cached.frontierTs →
      b.objects.snapshots.has inst.cached.frontierTs = true) := by
    have := h.ready
    rwa [ht] at this
  have hcurrent := current_eq hm
  have hnext := h.nextSeqno_eq (by rw [ht]; rfl) hm
  have hbase : inst.nextSeqno - 1 < b.current.nextSeqno := by omega
  have hprecedes : b.current.Precedes inst.snapshotted := by
    refine ⟨by rw [hcurrent]; exact le_rfl, by rw [hcurrent]; exact le_rfl,
      by rw [hcurrent]; exact le_rfl, fun p hp => ⟨_, rfl, ?_, ?_⟩⟩
    · have := (hb.snapshot p hp).1
      show p.segBase ≤ inst.nextSeqno - 1
      omega
    · exact (hb.snapshot p hp).2.1.trans (by rw [hcurrent])
  have hsub : ∀ n ∈ inst.snapshotted.segments, n ∈ b.current.segments ∧ inst.nextSeqno - 1 < n := by
    intro n hn
    obtain ⟨hn, hlt⟩ := mem_filter.1 hn
    exact ⟨by rw [hcurrent]; exact hn, by simpa using hlt⟩
  refine ⟨⟨fun n hn => ?_, fun p hp => ?_, fun p hp n hn => ?_, ?_⟩, .of_objects hprecedes rfl⟩
  · exact ⟨(hb.segments n (hsub n hn).1).1.trans_le hprecedes.nextSeqno,
      (hb.segments n (hsub n hn).1).2⟩
  · cases hp
    exact ⟨hbase.trans_le hprecedes.nextSeqno, le_rfl, hready.2 (by rw [hcurrent])⟩
  · cases hp
    exact (hsub n hn).2
  · show inst.cached.frontierTs ≤ inst.cached.tsCounter
    rw [← hcurrent]
    exact hb.counter

variable {r : Option (ObjectStoreDocStore V)}

theorem linked (h : inst.Tracks b) (hr : Resumed b inst b' r) : b'.Linked ∧ b.Evolves b' := by
  have hsame : b.Linked ∧ b.Evolves b := ⟨hb, .refl⟩
  have hcreate : b.manifest = none → (b.withManifest emptyManifest).Linked ∧
      b.Evolves (b.withManifest emptyManifest) := fun hm => by
    have hcurrent : b.current = emptyManifest := by rw [Bucket.current, hm]; rfl
    exact linked_withManifest hb (hcurrent ▸ .refl) (hcurrent ▸ rfl) (hcurrent ▸ rfl)
      (hcurrent ▸ rfl)
  have hlease : ∀ m, b.manifest = some inst.cached → inst.cached.Precedes m →
      m.segments = inst.cached.segments → m.snapshot = inst.cached.snapshot →
      (m.frontierTs, m.tsCounter) = (inst.cached.frontierTs, inst.cached.tsCounter) →
      (b.withManifest m).Linked ∧ b.Evolves (b.withManifest m) := fun m hm h1 h2 h3 h4 => by
    rw [← current_eq hm] at h1 h2 h3 h4
    exact linked_withManifest hb h1 h2 h3 h4
  have hready := h.ready
  cases hr with
  | throwsCreated _ hm | created _ hm => exact hcreate hm
  | claimed _ hm => exact linked_claim hb hm
  | unclaimed _ hb' =>
    obtain rfl | ⟨hm, rfl⟩ := hb'
    · exact hsame
    · exact linked_claim hb hm
  | renewed _ hm | renewedLost _ hm =>
    exact hlease _ hm ⟨le_rfl, le_rfl, le_rfl, Manifest.Precedes.refl.snapshot⟩ rfl rfl rfl
  | relinquished _ hm _ => exact hlease _ hm ⟨le_rfl, le_rfl, le_rfl,
      Manifest.Precedes.refl.snapshot⟩ rfl rfl rfl
  | stored ht | storedLost ht => exact linked_putSegment hb
  | committed ht hm | committedLost ht hm =>
    obtain ⟨hl, he⟩ := linked_committed hb h ht hm
    exact ⟨⟨hl.segments, hl.snapshot, hl.tail, hl.counter⟩, ⟨he.current, he.segments, he.snapshots⟩⟩
  | dumped ht | dumpedLost ht => exact linked_putSnapshot hb
  | snapshotted ht hm _ => exact linked_snapshotted hb h ht hm
  | sweptSegment ht _ =>
    rw [ht] at hready
    exact linked_deleteSegment hb (hready _ mem_cons_self)
  | sweptSnapshot ht _ =>
    rw [ht] at hready
    exact linked_deleteSnapshot hb (hready _ mem_cons_self)
  | _ => exact hsame

end

/-- A sweep over keys that the current snapshot has made superfluous. -/
theorem tracks_sweepSegments {keepSnap : Nat} {seqnos : List Nat} (h : inst.Tracks b)
    (ho : inst.task.opens = false) (he : b.Evolves b') (hcurrent : b'.current = b.current)
    (hkeep : b'.current.SnapshotFrom 0 keepSnap)
    (hs : ∀ n ∈ seqnos, b'.current.SnapshotFrom (n : Int) keepSnap) :
    (inst.sweepSegments keepSnap seqnos).Tracks b' := by
  cases seqnos with
  | nil => exact h.await ho he hcurrent rfl hkeep
  | cons seqno rest => exact h.await ho he hcurrent rfl hs

theorem tracks_sweepSnapshots {tss : List Nat} (h : inst.Tracks b)
    (ho : inst.task.opens = false) (he : b.Evolves b') (hcurrent : b'.current = b.current)
    (hs : ∀ ts ∈ tss, b'.current.SnapshotFrom 0 (ts + 1)) :
    (inst.sweepSnapshots tss).Tracks b' := by
  cases tss with
  | nil => exact h.done ho he hcurrent
  | cons ts rest => exact h.await ho he hcurrent rfl hs

theorem tracks (hb : b.Linked) (h : inst.Tracks b) (hr : Resumed b inst b' (some inst')) :
    inst'.Tracks b' := by
  obtain ⟨-, he⟩ := linked hb h hr
  have hready := h.ready
  have hsnapshotFrom : ∀ {segBase : Int} {ts : Nat}, b.current.SnapshotFrom segBase ts →
      b.current.SnapshotFrom 0 ts := fun hs => by
    obtain ⟨p, hp, -, hts⟩ := hs
    exact ⟨p, hp, Int.natCast_nonneg _, hts⟩
  cases hr with
  | waits ht ht' =>
    have hheld := h.unheld (by obtain ht | ht := ht <;> rw [ht] <;> rfl)
    refine ⟨h.cached, h.epoch, fun _ => hheld, h.le, fun ho => ?_, h.holder, ?_⟩
    · obtain rfl | rfl := ht' <;> cases ho
    · obtain rfl | rfl := ht' <;> trivial
  | opened ht hm =>
    exact (h.target_opened (by obtain ht | ht := ht <;> rw [ht] <;> rfl) hm).startMaterialize
  | created ht hm =>
    have h' : inst.Tracks (b.withManifest emptyManifest) := h.evolve he fun held hheld => by
      rw [h.unheld (by rw [ht]; rfl)] at hheld
      cases hheld
    exact (h'.target_opened (by rw [ht]; rfl) rfl).startMaterialize
  | restored ht _ => exact (h.target _ (.inl ⟨_, ht⟩)).pull _ _
  | replayed ht _ => exact (h.target _ (.inr ⟨_, _, ht⟩)).pull _ _
  | stopped ht =>
    refine h.stray ?_ he rfl
    obtain ⟨p, ht⟩ | ⟨seqno, rest, ht⟩ := ht <;> rw [ht] <;> rfl
  | ends ht => exact h.done (Task.opens_of_endsUnchanged ht) he rfl
  | acquiring ht hm => exact (h.target_acquire ht hm).startMaterialize
  | claimed ht hm =>
    exact ⟨.refl, fun held hheld => (by cases hheld; rfl), fun ho => (by cases ho), le_rfl,
      fun _ => le_rfl, fun _ _ _ _ => rfl, trivial⟩
  | raced ht =>
    exact h.goesOn (by rw [ht]; rfl) he rfl rfl trivial fun _ hh => ⟨hh, fun hp => ⟨hp, rfl⟩⟩
  | unclaimed ht _ =>
    exact h.goesOn (by rw [ht]; rfl) he rfl rfl trivial fun _ hh => ⟨hh, fun hp => by cases hp⟩
  | renewed ht hm =>
    have ho : inst.task.opens = false := by rw [ht]; rfl
    exact h.swapped rfl rfl rfl rfl (h.nextSeqno_cached ho hm) fun _ hh => hh
  | renewedLost ht hm => exact h.fence (by rw [ht]; rfl) he
  | fenced ht _ => exact h.fence ht he
  | relinquished ht hm hi =>
    have ho : inst.task.opens = false := by rw [ht]; rfl
    obtain rfl | rfl := hi
    · exact h.swapped rfl rfl rfl rfl (h.nextSeqno_cached ho hm) fun _ hh => by cases hh
    · exact h.goesOn ho he rfl rfl trivial fun _ hh => by cases hh
  | gaveUp ht => exact h.goesOn (by rw [ht]; rfl) he rfl rfl trivial fun _ hh => by cases hh
  | stored ht =>
    rw [ht] at hready
    refine h.await (by rw [ht]; rfl) he current_putSegment rfl ⟨hready.1, hready.2, fun _ => ?_⟩
    rw [has_putSegment, decide_eq_true rfl, Bool.true_or]
  | storedLost ht => exact h.stray (by rw [ht]; rfl) he current_putSegment
  | committed ht hm =>
    rw [ht] at hready
    obtain ⟨held, hheld⟩ := Option.isSome_iff_exists.1 hready.1
    refine h.swapped rfl rfl rfl ?_ rfl fun _ hh => hh
    show (inst.held.map (·.epoch)).getD 0 = inst.cached.epoch
    rw [hheld]
    exact (h.epoch held hheld).symm
  | committedLost ht hm => exact h.poison (by rw [ht]; rfl) he
  | poisoned ht =>
    refine h.poison ?_ he
    obtain ⟨call, units, ht⟩ | ht := ht <;> rw [ht] <;> rfl
  | dumped ht =>
    rw [ht] at hready
    refine h.await (by rw [ht]; rfl) he current_putSnapshot rfl ⟨hready, fun _ => ?_⟩
    rw [has_putSnapshot, ObjectStoreDocStore.snapshotPayload, decide_eq_true rfl, Bool.true_or]
  | dumpedLost ht => exact h.done (by rw [ht]; rfl) he current_putSnapshot
  | snapshotted ht hm hi =>
    have ho : inst.task.opens = false := by rw [ht]; rfl
    obtain rfl | rfl := hi
    · exact h.swapped rfl rfl rfl rfl (h.nextSeqno_cached ho hm) fun _ hh => hh
    · exact h.poison ho he
  | adopted ht hm hepoch ht' =>
    rw [ht] at hready
    obtain ⟨held, hheld, hepoch⟩ := Option.map_eq_some_iff.1 hepoch
    have hcurrent := current_eq hm
    have hnext := h.holder held hheld hready (hepoch.trans (by rw [hcurrent]))
    refine ⟨by rw [hcurrent]; exact .refl, fun held' hh => ?_, fun ho => ?_, h.le, fun _ => ?_,
      h.holder, ?_⟩
    · rw [Option.some.inj (hh.symm.trans hheld)]
      exact hepoch.symm
    · obtain rfl | ⟨p, -, rfl⟩ := ht' <;> cases ho
    · rw [hcurrent] at hnext
      exact hnext.ge
    · obtain rfl | ⟨p, hp, rfl⟩ := ht'
      · trivial
      · exact ⟨p, by rw [hcurrent, hp], le_rfl, le_rfl⟩
  | listedSegments ht =>
    rw [ht] at hready
    refine tracks_sweepSegments h (by rw [ht]; rfl) he rfl (hsnapshotFrom hready) fun n hn => ?_
    obtain ⟨p, hp, hle, hts⟩ := hready
    exact ⟨p, hp, (by simpa using (mem_filter.1 hn).2 : (n : Int) ≤ _).trans hle, hts⟩
  | sweptSegment ht hi =>
    rw [ht] at hready
    have ho : inst.task.opens = false := by rw [ht]; rfl
    obtain rfl | rfl := hi
    · exact tracks_sweepSegments h ho he rfl (hsnapshotFrom (hready _ mem_cons_self)) fun n hn =>
        hready n (mem_cons_of_mem _ hn)
    · exact h.done ho he rfl
  | listedSnapshots ht =>
    rw [ht] at hready
    refine tracks_sweepSnapshots h (by rw [ht]; rfl) he rfl fun ts hts => ?_
    obtain ⟨p, hp, hle, hkeep⟩ := hready
    have hlt := of_decide_eq_true (mem_filter.1 hts).2
    exact ⟨p, hp, hle, Nat.le_trans hlt hkeep⟩
  | sweptSnapshot ht hi =>
    rw [ht] at hready
    have ho : inst.task.opens = false := by rw [ht]; rfl
    obtain rfl | rfl := hi
    · exact tracks_sweepSnapshots h ho he rfl fun ts hts => hready ts (mem_cons_of_mem _ hts)
    · exact h.done ho he rfl

/-- Only the commit of a holder moves the cursor without raising the epoch. -/
theorem moved (h : inst.Tracks b) (hr : Resumed b inst b' r) :
    (b'.current.epoch = b.current.epoch ∧ b'.current.nextSeqno = b.current.nextSeqno) ∨
      b.current.epoch < b'.current.epoch ∨
        ∃ held, inst.held = some held ∧ held.epoch = b'.current.epoch := by
  have hready := h.ready
  have hlease : ∀ m : Manifest, b.manifest = some inst.cached →
      (m.epoch, m.nextSeqno) = (inst.cached.epoch, inst.cached.nextSeqno) →
      m.epoch = b.current.epoch ∧ m.nextSeqno = b.current.nextSeqno := fun m hm hsame => by
    rw [current_eq hm]
    exact Prod.mk.inj hsame
  have hclaim : ∀ (opts : AcquireOpts) (m : Manifest), b.manifest = some m →
      b.current.epoch < (claim opts m).epoch :=
    fun opts m hm => by rw [current_eq hm]; exact Nat.lt_succ_self _
  have hcommit : ∀ units, inst.held.isSome = true →
      ∃ held, inst.held = some held ∧ held.epoch = (inst.committed units).epoch :=
        fun units hh => by
    obtain ⟨held, hheld⟩ := Option.isSome_iff_exists.1 hh
    refine ⟨held, hheld, ?_⟩
    show held.epoch = (inst.held.map (·.epoch)).getD 0
    rw [hheld]
    rfl
  have hcreate : b.manifest = none → emptyManifest.epoch = b.current.epoch ∧
      emptyManifest.nextSeqno = b.current.nextSeqno := fun hm => by
    rw [Bucket.current, hm]
    exact ⟨rfl, rfl⟩
  cases hr with
  | throwsCreated _ hm | created _ hm => exact .inl (hcreate hm)
  | claimed _ hm => exact .inr (.inl (hclaim _ _ hm))
  | unclaimed _ hb' =>
    obtain rfl | ⟨hm, rfl⟩ := hb'
    · exact .inl ⟨rfl, rfl⟩
    · exact .inr (.inl (hclaim _ _ hm))
  | renewed _ hm | renewedLost _ hm | relinquished _ hm _ | snapshotted _ hm _ =>
    exact .inl (hlease _ hm rfl)
  | committed ht hm | committedLost ht hm =>
    rw [ht] at hready
    exact .inr (.inr (hcommit _ hready.1))
  | stored _ | storedLost _ => exact .inl (by rw [current_putSegment]; exact ⟨rfl, rfl⟩)
  | dumped _ | dumpedLost _ => exact .inl (by rw [current_putSnapshot]; exact ⟨rfl, rfl⟩)
  | _ => exact .inl ⟨rfl, rfl⟩

theorem held_pull (inst : ObjectStoreDocStore V) (next : AfterMaterialize) (m : Manifest)
    (appliedThrough : Int) (segments : List Nat) :
    (inst.pull next m appliedThrough segments).held = inst.held := by
  unfold ObjectStoreDocStore.pull
  split
  · cases next <;> rfl
  · rfl

theorem held_startMaterialize (inst : ObjectStoreDocStore V) (next : AfterMaterialize)
    (m : Manifest) : (inst.startMaterialize next m).held = inst.held := by
  unfold ObjectStoreDocStore.startMaterialize
  split
  · exact held_pull _ _ _ _ _
  · split
    · rfl
    · exact held_pull _ _ _ _ _

/-- A lease is kept, given up, or new with the next epoch. -/
theorem held (hr : Resumed b inst b' (some inst')) : inst'.held = none ∨ inst'.held = inst.held ∨
    ∃ held, inst'.held = some held ∧ held.epoch = b.current.epoch + 1 := by
  cases hr with
  | opened _ _ | created _ _ | acquiring _ _ => exact .inr (.inl (held_startMaterialize _ _ _))
  | restored _ _ | replayed _ _ => exact .inr (.inl (held_pull _ _ _ _ _))
  | claimed _ hm => exact .inr (.inr ⟨_, rfl, by rw [current_eq hm]; rfl⟩)
  | renewedLost _ _ | fenced _ _ => exact .inl rfl
  | relinquished _ _ _ | gaveUp _ => exact .inl rfl
  | snapshotted _ _ hi => obtain rfl | rfl := hi <;> exact .inr (.inl rfl)
  | listedSegments _ =>
      exact .inr (.inl (by unfold ObjectStoreDocStore.sweepSegments; split <;> rfl))
  | listedSnapshots _ =>
      exact .inr (.inl (by unfold ObjectStoreDocStore.sweepSnapshots; split <;> rfl))
  | sweptSegment _ hi =>
    obtain rfl | rfl := hi
    · exact .inr (.inl (by unfold ObjectStoreDocStore.sweepSegments; split <;> rfl))
    · exact .inr (.inl rfl)
  | sweptSnapshot _ hi =>
    obtain rfl | rfl := hi
    · exact .inr (.inl (by unfold ObjectStoreDocStore.sweepSnapshots; split <;> rfl))
    · exact .inr (.inl rfl)
  | _ => exact .inr (.inl rfl)

/-- A swap other than a claim expects a manifest with the epoch of the writer. -/
theorem manifest_eq {held : HeldLease} (h : inst.Tracks b) (hr : Resumed b inst b' r)
    (hheld : inst.held = some held) (hlt : held.epoch < b.current.epoch)
    (hclaim : ∀ opts m, inst.task ≠ .acquireCas opts m) : b'.manifest = b.manifest := by
  have hfenced : b.manifest ≠ some inst.cached := fun hm => by
    rw [current_eq hm, h.epoch held hheld] at hlt
    exact lt_irrefl _ hlt
  have hopens : inst.task ≠ .openCreate := fun ht => by
    rw [h.unheld (by rw [ht]; rfl)] at hheld
    cases hheld
  cases hr with
  | throwsCreated ht _ | created ht _ => exact absurd ht hopens
  | claimed ht _ | unclaimed ht _ => exact absurd ht (hclaim _ _)
  | renewed _ hm | renewedLost _ hm | relinquished _ hm _ | snapshotted _ hm _ =>
    exact absurd hm hfenced
  | committed _ hm | committedLost _ hm => exact absurd hm hfenced
  | stored _ | storedLost _ => unfold Bucket.putSegment; split <;> rfl
  | dumped _ | dumpedLost _ => unfold Bucket.putSnapshot; split <;> rfl
  | _ => rfl

end Resumed

/-! ## Runs -/

theorem Begun.tracks {c : StoreCall V} (h : inst.Tracks b) (ht : inst.task.isIdle = true)
    (hb : Begun b inst c b' inst') : inst'.Tracks b' := by
  have ho : inst.task.opens = false := by
    cases hinst : inst.task <;> simp_all [Task.opens, Task.isIdle]
  cases hb with
  | stays _ => exact h
  | acquire opts | relinquish => exact h.await ho .refl rfl rfl trivial
  | heartbeat _ _ hh hp => exact h.await ho .refl rfl rfl ⟨hh, hp⟩
  | diverged _ => exact h.poison ho .refl
  | commit units hh hp _ => exact h.await ho (.of_objects .refl rfl) rfl rfl ⟨hh, hp⟩
  | snapshot _ hn => exact h.await ho .refl rfl rfl hn
  | gc hp => exact h.await ho .refl rfl rfl hp

theorem Begun.bucket {c : StoreCall V} (hb : Begun b inst c b' inst') :
    b'.current = b.current ∧ b'.objects = b.objects ∧ inst'.held = inst.held := by
  cases hb <;> exact ⟨rfl, rfl, rfl⟩

theorem gcFloor_le (segBase : Nat) (ws : List Int) : gcFloor segBase ws ≤ segBase := by
  have : ∀ init : Int, ws.foldl min init ≤ init := by
    induction ws with
    | nil => exact fun _ => le_rfl
    | cons w ws ih => exact fun init => (ih _).trans (min_le_left _ _)
  exact this _

namespace Shard

/-- The bucket is linked, the instances are in step with it, and no two hold one epoch. -/
structure Fenced (s : Shard V) : Prop where
  linked : s.bucket.Linked
  tracks : ∀ i inst, s.instances.get? i = some inst → inst.Tracks s.bucket
  unique : ∀ i j inst inst' held held', s.instances.get? i = some inst →
    s.instances.get? j = some inst' →
    inst.held = some held → inst'.held = some held' → held.epoch = held'.epoch → i = j

variable {s s' : Shard V} {e : ShardEvent V}

theorem fenced_initial : Fenced (initial : Shard V) :=
  ⟨.empty, fun _ _ h => (by cases h), fun _ _ _ _ _ _ h => (by cases h)⟩

theorem Fenced.others {i j : Nat} {inst other : ObjectStoreDocStore V} {b : Bucket V} (h : s.Fenced)
    (hi : s.instances.get? i = some inst) (hj : s.instances.get? j = some other) (hne : i ≠ j)
    (hr : Resumed s.bucket inst b r) : other.Tracks b := by
  have hinst := h.tracks i inst hi
  have hother := h.tracks j other hj
  refine hother.evolve (Resumed.linked h.linked hinst hr).2 fun held hheld _ hepoch => ?_
  rcases hr.moved hinst with hsame | hlt | ⟨held', hheld', hepoch'⟩
  · exact hsame
  · exact absurd (hepoch ▸ hother.held_le hheld) (Nat.not_le.2 hlt)
  · exact absurd (h.unique i j _ _ _ _ hi hj hheld' hheld (hepoch'.trans hepoch.symm)) hne

theorem Fenced.set {i : Nat} {inst : ObjectStoreDocStore V} {b : Bucket V} (h : s.Fenced)
    (hb : b.Linked) (hinst : inst.Tracks b)
    (hothers : ∀ j other, i ≠ j → s.instances.get? j = some other → other.Tracks b)
    (hunique : ∀ j other held held', i ≠ j → s.instances.get? j = some other →
      inst.held = some held →
      other.held = some held' → held.epoch ≠ held'.epoch) : (s.setInstance i b inst).Fenced := by
  refine ⟨hb, fun j other hj => ?_, fun j k x y held held' hj hk hx hy heq => ?_⟩
  · rcases get?_set_eq_some.1 hj with ⟨-, rfl⟩ | ⟨hne, hj⟩
    · exact hinst
    · exact hothers j other hne.symm hj
  · rcases get?_set_eq_some.1 hj with ⟨rfl, rfl⟩ | ⟨hnej, holdj⟩ <;>
      rcases get?_set_eq_some.1 hk with ⟨rfl, rfl⟩ | ⟨hnek, holdk⟩
    · rfl
    · exact absurd heq (hunique k y held held' hnek.symm holdk hx hy)
    · exact absurd heq.symm (hunique j x held' held hnej.symm holdj hy hx)
    · exact h.unique j k x y held held' holdj holdk hx hy heq

theorem Fenced.drop {i : Nat} {b : Bucket V} (h : s.Fenced) (hb : b.Linked)
    (hothers : ∀ j other, i ≠ j → s.instances.get? j = some other → other.Tracks b) :
    (s.dropInstance i b).Fenced := by
  have hget : ∀ {j x}, (s.instances.erase i).get? j = some x → i ≠ j ∧
    s.instances.get? j = some x :=
    get?_erase_eq_some.1
  exact ⟨hb, fun j other hj => hothers j other (hget hj).1 (hget hj).2,
    fun j k x y held held' hj hk =>
    h.unique j k x y held held' (hget hj).2 (hget hk).2⟩

theorem Fenced.step (h : s.Fenced) (hstep : step s e = some s') : s'.Fenced := by
  cases stepped_of_step hstep with
  | opened =>
    have hset := h.set (i := s.opened) h.linked .opening (fun j other _ hj => h.tracks j other hj)
      fun _ _ _ _ _ _ hh => by cases hh
    exact ⟨hset.linked, hset.tracks, hset.unique⟩
  | @begun i c inst inst' b hi ht hb =>
    obtain ⟨hcurrent, hobjects, hheld⟩ := hb.bucket
    have he : s.bucket.Evolves b := .of_objects (hcurrent ▸ .refl) hobjects
    refine h.set (h.linked.of_objects hcurrent (fun _ _ hn => hobjects ▸ hn) fun _ _ hp =>
      hobjects ▸ hp)
      (hb.tracks (h.tracks i inst hi) ht) (fun j other _ hj => ?_) fun j other held held' hne hj
        hh hh' heq => ?_
    · exact (h.tracks j other hj).evolve he fun _ _ _ _ => by rw [hcurrent]; exact ⟨rfl, rfl⟩
    · exact hne (h.unique i j _ _ _ _ hi hj (hheld ▸ hh) hh' heq)
  | @resumed i answer inst inst' b hi hr =>
    have hinst := h.tracks i inst hi
    refine h.set (hr.linked h.linked hinst).1 (hr.tracks h.linked hinst)
      (fun j other hne hj => h.others hi hj hne hr) fun j other held held' hne hj hh hh' heq => ?_
    rcases hr.held with hnone | hsame | ⟨new, hnew, hepoch⟩
    · rw [hnone] at hh
      cases hh
    · exact hne (h.unique i j _ _ _ _ hi hj (hsame ▸ hh) hh' heq)
    · have hle := (h.tracks j other hj).held_le hh'
      rw [← heq, Option.some.inj (hh.symm.trans hnew), hepoch] at hle
      exact absurd hle (Nat.not_succ_le_self _)
  | @discarded i answer inst b hi hr =>
    exact h.drop (hr.linked h.linked (h.tracks i inst hi)).1 fun j other hne hj =>
      h.others hi hj hne hr
  | @watermarks i ws inst p hi ht =>
    have hinst := h.tracks i inst hi
    have hready := hinst.ready
    rw [ht] at hready
    obtain ⟨p', hp', hbase, hts⟩ := hready
    refine h.set h.linked (hinst.await (by rw [ht]; rfl) .refl rfl rfl
      ⟨p', hp', (gcFloor_le _ _).trans hbase, hts⟩) (fun j other _ hj => h.tracks j other hj)
      fun j other held held' hne hj hh hh' heq => hne (h.unique i j _ _ _ _ hi hj hh hh' heq)
  | crashed => exact h.drop h.linked fun j other _ hj => h.tracks j other hj

theorem fenced_run {es : List (ShardEvent V)} (hs : s.Fenced) (hr : run step s es = some s') :
    s'.Fenced := run_invariant (fun _ _ _ h hstep => h.step hstep) hs hr

/-- The manifest is never removed, and moves forward. -/
theorem Fenced.evolves (h : s.Fenced) (hstep : Shard.step s e = some s') :
    s.bucket.current.Precedes s'.bucket.current ∧
      (s.bucket.manifest.isSome = true → s'.bucket.manifest.isSome = true) := by
  have hresumed : ∀ {i inst b} {r : Option (ObjectStoreDocStore V)},
    s.instances.get? i = some inst →
      Resumed s.bucket inst b r → s.bucket.current.Precedes b.current ∧
        (s.bucket.manifest.isSome = true → b.manifest.isSome = true) := by
    intro i inst b r hi hr
    refine ⟨(hr.linked h.linked (h.tracks i inst hi)).2.current, fun hsome => ?_⟩
    cases hr with
    | stored _ | storedLost _ => unfold Bucket.putSegment; split <;> exact hsome
    | dumped _ | dumpedLost _ => unfold Bucket.putSnapshot; split <;> exact hsome
    | unclaimed _ hb' =>
      obtain rfl | ⟨-, rfl⟩ := hb'
      · exact hsome
      · rfl
    | throwsCreated _ _ | created _ _ => rfl
    | claimed _ _ | renewed _ _ | renewedLost _ _ => rfl
    | relinquished _ _ _ | snapshotted _ _ _ => rfl
    | committed _ _ | committedLost _ _ => rfl
    | _ => exact hsome
  cases stepped_of_step hstep with
  | opened | watermarks _ _ | crashed => exact ⟨.refl, id⟩
  | begun _ _ hb =>
    refine ⟨hb.bucket.1 ▸ .refl, fun hsome => ?_⟩
    cases hb <;> exact hsome
  | resumed hi hr | discarded hi hr => exact hresumed hi hr

theorem Fenced.evolves_run {es : List (ShardEvent V)} (h : s.Fenced)
    (hr : run Shard.step s es = some s') : s.bucket.current.Precedes s'.bucket.current ∧
      (s.bucket.manifest.isSome = true → s'.bucket.manifest.isSome = true) := by
  induction es generalizing s with
  | nil =>
    cases hr
    exact ⟨.refl, id⟩
  | cons e es ih =>
    obtain ⟨m, hm, hr⟩ := run_cons_eq_some.1 hr
    have h₁ := h.evolves hm
    have h₂ := ih (h.step hm) hr
    exact ⟨h₁.1.trans h₂.1, h₂.2 ∘ h₁.2⟩

/-- Every object that the manifest references is there. -/
def References (s : Shard V) : Prop :=
  ∀ m, s.bucket.manifest = some m →
    (∀ p, m.snapshot = some p → s.bucket.objects.snapshots.has p.ts = true) ∧
      ∀ seqno ∈ m.segments, s.bucket.objects.segments.has seqno = true

theorem Fenced.references (h : s.Fenced) : s.References := by
  rintro m hm
  rw [← current_eq hm]
  exact ⟨fun p hp => (h.linked.snapshot p hp).2.2, fun seqno hseqno =>
    (h.linked.segments seqno hseqno).2⟩

end Shard

open Shard

/-- In every run in which the epoch has reached `epoch`: it never falls again, every object that the
manifest references is there, and a request of an instance that holds a smaller epoch leaves the
manifest alone, unless the instance claims the lease anew. -/
theorem fenced_epoch_takes_no_effect {es es' : List (ShardEvent V)} {s₀ s s' : Shard V}
    {e : ShardEvent V} {m₀ : Manifest} {epoch : Nat} (h₀ : run Shard.step initial es = some s₀)
    (hm₀ : s₀.bucket.manifest = some m₀) (hepoch : epoch ≤ m₀.epoch)
    (hs : run Shard.step s₀ es' = some s) (hstep : Shard.step s e = some s') :
    s.References ∧ s'.References ∧ ∃ m, s.bucket.manifest = some m ∧ epoch ≤ m.epoch ∧
      ∀ i answer inst held, e = .resume i answer → s.instances.get? i = some inst →
        inst.held = some held → held.epoch < epoch → (∀ opts m, inst.task ≠ .acquireCas opts m) →
          s'.bucket.manifest = some m := by
  have hf₀ := fenced_run fenced_initial h₀
  have hf := fenced_run hf₀ hs
  obtain ⟨hprecedes, hsome⟩ := hf₀.evolves_run hs
  obtain ⟨m, hm⟩ := Option.isSome_iff_exists.1 (hsome (by rw [hm₀]; rfl))
  have hle : epoch ≤ m.epoch := by
    have := hprecedes.epoch
    rw [current_eq hm₀, current_eq hm] at this
    exact hepoch.trans this
  refine ⟨hf.references, (hf.step hstep).references, m, hm, hle, ?_⟩
  rintro i answer inst held rfl hi hheld hlt hclaim
  have hcurrent := current_eq hm
  have hkept : ∀ {b} {r : Option (ObjectStoreDocStore V)}, Resumed s.bucket inst b r →
    b.manifest = some m :=
    fun hr => (hr.manifest_eq (hf.tracks i inst hi) hheld (by rw [hcurrent]; omega) hclaim).trans hm
  cases stepped_of_step hstep with
  | resumed hi' hr | discarded hi' hr =>
    cases hi.symm.trans hi'
    exact hkept hr

namespace FencingExample

/-- A writer acquires, its lease expires, and another one takes over. -/
def takeover : List (ShardEvent Nat) :=
  [.open, .resume 0 .ok, .resume 0 .ok, .call 0 (.acquire ⟨"a", 10, 0⟩), .resume 0 .ok,
    .resume 0 .ok,
    .open, .resume 1 .ok, .call 1 (.acquire ⟨"b", 10, 50⟩), .resume 1 .ok, .resume 1 .ok]

def taken : Shard Nat := (run Shard.step initial takeover).getD initial

/-- The first writer does not know and sends a heartbeat. -/
def unaware : Shard Nat := (Shard.step taken (.call 0 (.heartbeat 60 10))).getD taken

def answered : Shard Nat := (Shard.step unaware (.resume 0 .ok)).getD unaware

end FencingExample

open FencingExample in
theorem fenced_epoch_takes_no_effect_heartbeat :
    taken.bucket.manifest.map (·.epoch) = some 2 ∧
      (unaware.instances.get? 0).map (·.held) = some (some ⟨1, "a"⟩) ∧
        answered.bucket.manifest = taken.bucket.manifest ∧ answered.References := by
  obtain ⟨-, href, m, hm, -, h⟩ := fenced_epoch_takes_no_effect
    (show run Shard.step initial takeover = some taken from rfl)
    (show taken.bucket.manifest = some ⟨2, 0, 0, [], 1, "b", 60, none⟩ from rfl) (le_refl 2)
    (show run Shard.step taken [.call 0 (.heartbeat 60 10)] = some unaware from rfl)
    (show Shard.step unaware (.resume 0 .ok) = some answered from rfl)
  exact ⟨rfl, rfl, (h 0 .ok _ _ rfl rfl rfl (by decide) (by rintro _ _ ⟨⟩)).trans hm.symm, href⟩

/-- In every run an epoch has one holder at most, no lease is of an epoch to come, and a holder of
the current epoch that was not poisoned is at the cursor of the manifest. -/
theorem one_holder_per_epoch {es : List (ShardEvent V)} {s : Shard V} {i : Nat}
    {inst : ObjectStoreDocStore V} {held : HeldLease} (hs : run Shard.step initial es = some s)
    (hi : s.instances.get? i = some inst) (hheld : inst.held = some held) :
    (∀ j other held', s.instances.get? j = some other → other.held = some held' →
      held'.epoch = held.epoch → j = i) ∧ held.epoch ≤ s.bucket.current.epoch ∧
      (inst.poisoned = false → held.epoch = s.bucket.current.epoch →
        inst.nextSeqno = s.bucket.current.nextSeqno) := by
  have hf := fenced_run fenced_initial hs
  have htracks := hf.tracks i inst hi
  exact ⟨fun j other held' hj hheld' => hf.unique j i _ _ _ _ hj hi hheld' hheld,
    htracks.held_le hheld, htracks.holder held hheld⟩

open FencingExample in
theorem one_holder_per_epoch_taken :
    (taken.instances.get? 1).map (·.held) = some (some ⟨2, "b"⟩) ∧ 2 ≤ taken.bucket.current.epoch ∧
      ∀ j other held, taken.instances.get? j = some other → other.held = some held →
        held.epoch = 2 → j = 1 := by
  have h := one_holder_per_epoch (show run Shard.step initial takeover = some taken from rfl)
    (show taken.instances.get? 1 = some _ from rfl) rfl
  exact ⟨rfl, h.2.1, h.1⟩

end Helipod
