import Helipod.Runtime.MutationNode

/-!
# At most one commit per receipt key

The receipts guard inserts the receipt of a mutation in the transaction of its commit, so of two
deliveries that both run the second one to commit finds the receipt. The guard does not look at the
floor. When the receipt is pruned or swept while a delivery of the same key still runs, that
delivery commits too, although its number is covered by the floor by then.

Writes to global tables go out in a batch of their own, before the receipt is written. Two
deliveries that both run both apply their batch.

Results: `committed_at_most_once`, `prune_allows_second_commit`, `global_batch_at_most_once`,
`overlapping_deliveries_flush_twice`.
-/

namespace Helipod

open Runs MutationDelivery OrderedMap ReceiptStore

namespace MutationDelivery

variable {d : MutationDelivery}

theorem isPastWrites_caught {e : ThrownError} : (d.caught e).isPastWrites = true := by
  rw [caught]
  split
  · rfl
  · split
    · rfl
    · split <;> rfl

variable {result : HandlerResult} {ts : Nat}

theorem isPastWrites_afterCommit {committed : Bool} :
    (d.afterCommit committed result ts).isPastWrites = true := by
  unfold afterCommit
  split
  · exact isPastWrites_caught
  · split
    · rfl
    · split <;> rfl

end MutationDelivery

theorem isPastWrites_replayToRunResult {r : ClientReplay} :
    (replayToRunResult r).isPastWrites = true := by
  unfold replayToRunResult
  split
  · split <;> rfl
  · rfl

variable {outcome : Option RunOutcome} {receipts : ReceiptStore} {stage : DeliveryStage}
  {d : MutationDelivery} {ev : NodeEvent}

theorem StageMove.not_isPastWrites {i : Nat} (h : StageMove receipts i d ev outcome stage)
    (hstage : stage.isPastWrites = false) :
    (∃ k, stage = .readFloor ∧ d.stage = .readVerdict ∧ d.key = some k ∧
      receipts.getClientVerdict k = none) ∨
    (∃ k, stage = .run ∧ d.stage = .readFloor ∧ d.key = some k ∧ receipts.floorCovers k = false) ∨
    ∃ result ts now, stage = .flushGlobal result ts ∧ d.stage = .run ∧
      ev = .runEnds i (.returned .globalTables result ts) now := by
  cases h with
  | verdictMissing hs hkey hnone => exact .inl ⟨_, rfl, hs, hkey, hnone⟩
  | runs hs hkey hfloor => exact .inr (.inl ⟨_, rfl, hs, hkey, hfloor⟩)
  | stagedGlobal hs => exact .inr (.inr ⟨_, _, _, rfl, hs, rfl⟩)
  | verdictFound | winnerFound => exact absurd hstage (by simp [isPastWrites_replayToRunResult])
  | threw | flushFailed => exact absurd hstage (by simp [isPastWrites_caught])
  | wroteNothing => exact absurd hstage (by simp [isPastWrites_afterCommit])
  | _ => cases hstage

/-- A delivery with a key begins to run when the floor does not cover it. -/
theorem StageMove.run {i : Nat} (h : StageMove receipts i d ev outcome stage)
    (hstage : stage = .run) : ∃ k, d.key = some k ∧ receipts.floorCovers k = false := by
  obtain ⟨_, heq, -⟩ | ⟨k, -, -, hkey, hfloor⟩ | ⟨_, _, _, heq, -⟩ :=
    h.not_isPastWrites (hstage ▸ rfl)
  · cases hstage.symm.trans heq
  · exact ⟨k, hkey, hfloor⟩
  · cases hstage.symm.trans heq

variable {s : ReceiptStore}

/-- A delivery that moves comes to `recordZero` only from a run without writes. -/
theorem StageMove.recordZero {i : Nat} {v : Returned}
    (h : StageMove s i d ev outcome (.recordZero v ts)) : d.stage = .run := by
  generalize hstage : DeliveryStage.recordZero v ts = stage at h
  have hcaught : ∀ e, d.caught e ≠ .recordZero v ts := fun e => by
    rw [MutationDelivery.caught]
    split
    · rintro ⟨⟩
    · split
      · rintro ⟨⟩
      · split <;> rintro ⟨⟩
  have hreplay : ∀ r, replayToRunResult r ≠ .recordZero v ts := fun r => by
    unfold replayToRunResult
    split
    · split <;> rintro ⟨⟩
    · rintro ⟨⟩
  cases h with
  | wroteNothing hs => exact hs
  | threw hs => exact hs
  | verdictFound | winnerFound => exact absurd hstage.symm (hreplay _)
  | flushFailed => exact absurd hstage.symm (hcaught _)
  | _ => cases hstage

namespace MutationNode

variable {fits : Value → Bool} {n n' : MutationNode} {i : Nat} {d : MutationDelivery}
  {k : ReceiptKey}
  {ev : NodeEvent} {stage : DeliveryStage} {s : ReceiptStore} {ts now : Nat}

/-! ## Document writes -/

/-- The keys of the commits, one for each commit of a delivery that has one. -/
def committedKeys (n : MutationNode) : List ReceiptKey := n.commits.filterMap NodeCommit.key

/-- What the guarded runs keep. -/
structure CommittedOnce (n : MutationNode) : Prop where
  once : n.committedKeys.Nodup
  covered : ∀ {k}, k ∈ n.committedKeys → n.receipts.knows k
  /-- A delivery that runs finds the receipt of the commit. -/
  running : ∀ {i d k}, n.deliveries.get? i = some d → d.key = some k → d.stage = .run →
    k ∈ n.committedKeys → n.receipts.mutations.has k = true

theorem committedOnce_initial : CommittedOnce initial where
  once := List.nodup_nil
  covered h := by cases h
  running h := by cases h

theorem CommittedOnce.set (h : CommittedOnce n) (hrun : d.stage = .run → ∀ {k}, d.key = some k →
      n.receipts.floorCovers k = false)
    (deliveries : n'.deliveries = n.deliveries.set i d)
      (commits : n'.committedKeys = n.committedKeys)
    (has : ∀ {k}, n.receipts.mutations.has k = true → n'.receipts.mutations.has k = true)
    (covers : ∀ {k}, n.receipts.floorCovers k = true → n'.receipts.floorCovers k = true) :
    CommittedOnce n' where
  once := commits ▸ h.once
  covered hk := by
    rw [commits] at hk
    exact Or.imp has covers (h.covered hk)
  running hd hkey hstage hk := by
    rw [commits] at hk
    rw [deliveries] at hd
    rcases get?_set_eq_some.1 hd with ⟨-, rfl⟩ | ⟨-, hd⟩
    · exact has (Or.resolve_right (h.covered hk) (by simp [hrun hstage hkey]))
    · exact has (h.running hd hkey hstage hk)

/-- Receipts are removed, but none of a delivery that runs. -/
def KeepsRunning (n : MutationNode) (receipts : ReceiptStore) : Prop :=
  ∀ p ∈ n.deliveries.entries, p.2.stage.isRun = true →
    p.2.key.all (fun k => !n.receipts.mutations.has k || receipts.mutations.has k) = true

instance (n : MutationNode) (receipts : ReceiptStore) : Decidable (n.KeepsRunning receipts) := by
  unfold KeepsRunning
  infer_instance

/-- No receipt is pruned or swept while a delivery of its key runs. -/
def PruneGuard (n : MutationNode) : NodeEvent → Prop
  | .prune identity clientId ackedThrough =>
    n.KeepsRunning (n.receipts.pruneClientMutations (identity.getD "") clientId ackedThrough)
  | .sweep beforeMs => n.KeepsRunning (n.receipts.sweepExpiredClientMutations beforeMs)
  | _ => True

instance (n : MutationNode) (ev : NodeEvent) : Decidable (n.PruneGuard ev) := by
  unfold PruneGuard
  split <;> infer_instance

theorem CommittedOnce.removed {f : ReceiptStore → ReceiptStore} (h : CommittedOnce n)
    (hcovered : ∀ {k}, n.receipts.mutations.has k = true ∨ n.receipts.floorCovers k = true →
      (f n.receipts).mutations.has k = true ∨ (f n.receipts).floorCovers k = true)
    (hguard : n.KeepsRunning (f n.receipts)) : CommittedOnce (n.onReceipts f) where
  once := h.once
  covered hk := hcovered (h.covered hk)
  running {i d k} hd hkey hrun hk := by
    have hkeeps := hguard (i, d) ((get?_eq_some_iff _).1 hd) (by rw [hrun]; rfl)
    rw [hkey, Option.all_some, h.running hd hkey hrun hk] at hkeeps
    exact hkeeps

theorem committedKeys_commit {key : Option ReceiptKey} {origin : Option String} :
    (n.commit ts key origin).committedKeys = key.toList ++ n.committedKeys := by
  rw [committedKeys, commits_commit, List.filterMap_cons]
  cases key <;> rfl

theorem insertReceipt_eq_some (h : s.insertReceipt k ts now = some receipts) :
    s.mutations.has k = false ∧
      receipts.floors = s.floors ∧
      ∀ {k'}, receipts.mutations.has k' = true ↔ k' = k ∨ s.mutations.has k' = true := by
  obtain ⟨hno, h⟩ := Option.ite_none_left_eq_some.1 h
  cases h
  refine ⟨by simpa using hno, rfl, fun {k'} => ?_⟩
  rw [has_iff, has_iff, mem_keys_set]

/-- The commit of a delivery is the first one of its key. -/
theorem CommittedOnce.commit {d' : MutationDelivery} (h : CommittedOnce n)
    (hd : n.deliveries.get? i = some d) (hrun : d.stage = .run)
    (hinsert : ∀ k, d.key = some k → n.receipts.insertReceipt k ts now = some receipts)
    (hnone : d.key = none → receipts = n.receipts) (hrun' : d'.stage ≠ .run)
    (hkeys : n'.committedKeys = d.key.toList ++ n.committedKeys)
    (hreceipts : n'.receipts = receipts) (hdeliveries : n'.deliveries = n.deliveries.set i d') :
    CommittedOnce n' := by
  cases hkey : d.key with
  | none =>
    refine h.set (fun hstage => absurd hstage hrun') hdeliveries
      (by rw [hkeys, hkey]; rfl) ?_ ?_ <;>
      · rw [hreceipts, hnone hkey]
        exact id
  | some k =>
    obtain ⟨hno, hfloors, hhas⟩ := insertReceipt_eq_some (hinsert k hkey)
    have hnew : k ∉ n.committedKeys := fun hk => by
      rw [h.running hd hkey hrun hk] at hno
      cases hno
    have hkeys : n'.committedKeys = k :: n.committedKeys := by rw [hkeys, hkey]; rfl
    have hcovers : ∀ {k'}, receipts.floorCovers k' = n.receipts.floorCovers k' :=
      floorCovers_congr hfloors
    exact {
      once := hkeys ▸ List.nodup_cons.2 ⟨hnew, h.once⟩
      covered := fun {k'} hk' => by
        rw [hreceipts, ReceiptStore.knows, hcovers, hhas]
        rw [hkeys] at hk'
        rcases List.mem_cons.1 hk' with rfl | hk'
        · exact .inl (.inl rfl)
        · exact Or.imp_left .inr (h.covered hk')
      running := fun {j dj k'} hdj hkeyj hstage hk' => by
        rw [hreceipts, hhas]
        rw [hkeys] at hk'
        rw [hdeliveries] at hdj
        rcases get?_set_eq_some.1 hdj with ⟨-, rfl⟩ | ⟨-, hdj⟩
        · exact absurd hstage hrun'
        · rcases List.mem_cons.1 hk' with rfl | hk'
          · exact .inl rfl
          · exact .inr (h.running hdj hkeyj hstage hk') }

theorem afterCommit_ne_run {committed : Bool} :
    d.afterCommit committed result ts ≠ .run := fun h => by
  cases (congrArg DeliveryStage.isPastWrites h).symm.trans isPastWrites_afterCommit

theorem CommittedOnce.deliveryStepped (h : CommittedOnce n)
    (hd : n.deliveries.get? i = some d) (hstep : DeliveryStepped fits n i d ev n') :
    CommittedOnce n' := by
  cases hstep with
  | moved hmove =>
    refine h.set (fun hstage {k} hkey => ?_) rfl rfl id id
    obtain ⟨k', hk', hfloor⟩ := hmove.run hstage
    rwa [Option.some.inj (hkey.symm.trans hk')]
  | committed hrun _ hinsert hnone =>
    exact h.commit hd hrun hinsert hnone afterCommit_ne_run committedKeys_commit
      (receipts_commit ..) (congrArg (OrderedMap.set · i _) (deliveries_commit ..))
  | flushed => exact h.set (fun hstage => absurd hstage afterCommit_ne_run) rfl rfl id id
  | failed | recorded =>
    refine h.set (fun hstage => by cases hstage) rfl rfl
      (fun hk => has_recordClientVerdict.2 (.inr hk)) fun hk => ?_
    exact (floorCovers_congr floors_recordClientVerdict).trans hk
  | filled =>
    refine h.set (fun hstage => by cases hstage) rfl rfl
      (fun hk => has_updateClientVerdictValue.trans hk) fun hk => ?_
    exact (floorCovers_congr floors_updateClientVerdictValue).trans hk
  | @answered _ _ _ ts _ =>
    obtain ⟨gates, hgates⟩ := releaseGate_eq ts (n.answer i d _ _)
    rw [hgates]
    exact h.set (fun hstage => by cases hstage) rfl rfl id id

theorem CommittedOnce.step (h : CommittedOnce n) (hguard : n.PruneGuard ev)
    (hstep : n.step fits ev = some n') : CommittedOnce n' := by
  cases nodeStepped_of_step hstep with
  | delivery _ hd hs => exact h.deliveryStepped hd hs
  | @deliver sessionId identity dedup =>
    refine h.set (fun hstage {k} hkey => ?_) rfl rfl id id
    cases dedup with
    | none => cases hkey
    | some r => cases hstage
  | prune => exact h.removed knows_pruneClientMutations hguard
  | sweep => exact h.removed knows_deleteAndCover hguard
  | untouched hu =>
    have hkeys : n'.committedKeys = n.committedKeys := by
      rcases hu.commits with heq | ⟨ts, heq⟩ <;> rw [committedKeys, committedKeys, heq]
      rfl
    exact {
      once := hkeys ▸ h.once
      covered := fun hk => by
        rw [hu.receipts]
        exact h.covered (hkeys ▸ hk)
      running := fun hd hkey hstage hk => by
        rw [hu.receipts]
        exact h.running (hu.deliveries ▸ hd) hkey hstage (hkeys ▸ hk) }

/-- In every run in which no receipt is pruned or swept while a delivery of its key runs, the writes
of every identity, client id and number are committed at most once. -/
theorem committed_at_most_once {es : List NodeEvent}
    (hg : Guarded (step fits) PruneGuard initial es) (hr : run (step fits) initial es = some n) :
    n.committedKeys.Nodup :=
  (run_invariant_of_guarded (fun _ _ _ h hguard hstep => h.step hguard hstep)
    committedOnce_initial hg hr).once

/-- A mutation that returns `null` and has written documents. -/
def writesDocuments (ts : Nat) : RunOutcome := .returned .documents (.value (.value .null)) ts

/-- Two deliveries of `(c, 0)`, of the first and of a second connection, both run. The second one
commits and is answered, the client acknowledges it, and then the first one commits. -/
def pruneRun : List NodeEvent :=
  [.connect "s1", .deliver "s1" none (some ⟨"c", 0⟩), .readVerdict 0, .readFloor 0,
    .disconnect "s1",
    .connect "s2", .deliver "s2" none (some ⟨"c", 0⟩), .readVerdict 1, .readFloor 1,
    .runEnds 1 (writesDocuments 1) 10, .fillValue 1, .respond 1, .prune none "c" 0,
    .runEnds 0 (writesDocuments 2) 11]

def allFits : Value → Bool := fun _ => true

/-- The mutation is committed twice. -/
theorem prune_allows_second_commit :
    (run (step allFits) initial pruneRun).map (·.commits) =
      some [⟨2, some ⟨"", "c", 0⟩⟩, ⟨1, some ⟨"", "c", 0⟩⟩] := by
  decide +kernel

/-- Two deliveries that overlap, and the acknowledgement after both. -/
def dedupRun : List NodeEvent :=
  [.connect "s1", .deliver "s1" none (some ⟨"c", 0⟩), .readVerdict 0, .readFloor 0,
    .disconnect "s1",
    .connect "s2", .deliver "s2" none (some ⟨"c", 0⟩), .readVerdict 1, .readFloor 1,
    .runEnds 1 (writesDocuments 1) 10, .runEnds 0 (writesDocuments 2) 11,
      .readWinner 0, .fillValue 1,
    .respond 0, .respond 1, .prune none "c" 0]

def dedupNode : MutationNode := (run (step allFits) initial dedupRun).getD initial

/-- The first delivery loses, and is answered with the verdict of the second. -/
theorem committed_at_most_once_overlap :
    Guarded (step allFits) PruneGuard initial dedupRun ∧
      dedupNode.committedKeys = [⟨"", "c", 0⟩] ∧ dedupNode.committedKeys.Nodup :=
  have hg : Guarded (step allFits) PruneGuard initial dedupRun := by decide +kernel
  ⟨hg, by decide +kernel,
    committed_at_most_once hg (show run (step allFits) initial dedupRun = some dedupNode from rfl)⟩

/-! ## Deliveries one at a time -/

/-- The mutation `k` is delivered when no earlier delivery of it is under way. -/
def DeliversAlone (k : ReceiptKey) (n : MutationNode) : NodeEvent → Prop
  | .deliver _ identity (some r) => ReceiptKey.mk (identity.getD "") r.clientId r.seq = k →
      ∀ p ∈ n.deliveries.entries, p.2.key = some k → p.2.stage.isAnswered = true
  | _ => True

instance (k : ReceiptKey) (n : MutationNode) (ev : NodeEvent) :
    Decidable (DeliversAlone k n ev) := by
  unfold DeliversAlone
  split <;> infer_instance

/-- Of the deliveries of `k` at most one is under way. -/
def OneAtATime (k : ReceiptKey) (n : MutationNode) : Prop :=
  ∀ i j d d', n.deliveries.get? i = some d → n.deliveries.get? j = some d' →
    d.key = some k → d'.key = some k → d.stage.isAnswered = false →
      d'.stage.isAnswered = false → i = j

theorem oneAtATime_initial : OneAtATime k initial := fun _ _ _ _ h => by cases h

theorem DeliversAlone.answered {sessionId : String} {identity : Option String}
    {dedup : Option DedupKey} (hguard : DeliversAlone k n (.deliver sessionId identity dedup))
    (hk : (⟨sessionId, identity, dedup, stage, none, none⟩ : MutationDelivery).key = some k)
    (hd : n.deliveries.get? i = some d) (hkey : d.key = some k) : d.stage.isAnswered = true := by
  cases dedup with
  | none => cases hk
  | some r => exact hguard (Option.some.inj hk) _ ((get?_eq_some_iff _).1 hd) hkey

theorem OneAtATime.step (h : OneAtATime k n) (hguard : DeliversAlone k n ev)
    (hstep : n.step fits ev = some n') : OneAtATime k n' := by
  intro j₁ j₂ d₁ d₂ hd₁ hd₂ hk₁ hk₂ hun₁ hun₂
  cases nodeStepped_of_step hstep with
  | @delivery _ _ i d _ hd hs =>
    obtain ⟨hun, -, d', hset, hkey, -⟩ := hs.frame
    -- the delivery that steps was under way before
    have hback : ∀ {j dj}, n'.deliveries.get? j = some dj → dj.key = some k →
        dj.stage.isAnswered = false →
        ∃ d₀, n.deliveries.get? j = some d₀ ∧ d₀.key = some k ∧ d₀.stage.isAnswered = false := by
      intro j dj hdj hkj hunj
      rw [hset] at hdj
      rcases get?_set_eq_some.1 hdj with ⟨rfl, rfl⟩ | ⟨-, hdj⟩
      · exact ⟨d, hd, hkey ▸ hkj, hun⟩
      · exact ⟨dj, hdj, hkj, hunj⟩
    obtain ⟨e₁, he₁, hk₁, hun₁⟩ := hback hd₁ hk₁ hun₁
    obtain ⟨e₂, he₂, hk₂, hun₂⟩ := hback hd₂ hk₂ hun₂
    exact h _ _ _ _ he₁ he₂ hk₁ hk₂ hun₁ hun₂
  | deliver =>
    replace hd₁ := (get?_set _).symm.trans hd₁
    replace hd₂ := (get?_set _).symm.trans hd₂
    split at hd₁ <;> split at hd₂
    · exact (by assumption : _ = j₁).symm.trans (by assumption)
    · obtain rfl := Option.some.inj hd₁
      rw [hguard.answered hk₁ hd₂ hk₂] at hun₂
      cases hun₂
    · obtain rfl := Option.some.inj hd₂
      rw [hguard.answered hk₂ hd₁ hk₁] at hun₁
      cases hun₁
    · exact h _ _ _ _ hd₁ hd₂ hk₁ hk₂ hun₁ hun₂
  | prune | sweep => exact h _ _ _ _ hd₁ hd₂ hk₁ hk₂ hun₁ hun₂
  | untouched hu =>
    rw [hu.deliveries] at hd₁ hd₂
    exact h _ _ _ _ hd₁ hd₂ hk₁ hk₂ hun₁ hun₂

/-- No delivery of a mutation overlaps with another one of it. -/
def DeliverGuard (n : MutationNode) : NodeEvent → Prop
  | .deliver _ identity (some r) => ∀ p ∈ n.deliveries.entries,
      p.2.key = some ⟨identity.getD "", r.clientId, r.seq⟩ → p.2.stage.isAnswered = true
  | _ => True

instance (n : MutationNode) (ev : NodeEvent) : Decidable (n.DeliverGuard ev) := by
  unfold DeliverGuard
  split <;> infer_instance

theorem DeliverGuard.deliversAlone (h : n.DeliverGuard ev) : DeliversAlone k n ev := by
  cases ev with
  | deliver sessionId identity dedup =>
    cases dedup with
    | none => trivial
    | some r =>
      rintro rfl
      exact h
  | _ => trivial

/-! ## Global writes -/

/-- The keys of the batches that were applied. -/
def flushedKeys (n : MutationNode) : List ReceiptKey := n.globalBatches.filterMap id

/-- What a mutation with global writes returns has an encoding. -/
def EncodesGlobal : NodeEvent → Prop
  | .runEnds _ (.returned .globalTables (.value v) _) _ => v.encodable = true
  | _ => True

instance (ev : NodeEvent) : Decidable (EncodesGlobal ev) := by
  unfold EncodesGlobal
  split <;> infer_instance

/-- The deliveries of a mutation do not overlap, and the result of one with global writes can be
recorded. -/
def FlushGuard (n : MutationNode) (ev : NodeEvent) : Prop := n.DeliverGuard ev ∧ EncodesGlobal ev

instance (n : MutationNode) (ev : NodeEvent) : Decidable (n.FlushGuard ev) :=
  inferInstanceAs (Decidable (n.DeliverGuard ev ∧ EncodesGlobal ev))

/-- Where a delivery of `k` may be once a batch of `k` was applied. -/
def SafeStage (receipts : ReceiptStore) (k : ReceiptKey) : DeliveryStage → Prop
  | .readVerdict => receipts.knows k
  | .readFloor => receipts.floorCovers k = true
  | .run | .flushGlobal _ _ => False
  | .recordZero v _ => v.encodable = true
  | _ => True

/-- What the guarded runs keep. -/
structure FlushedOnce (n : MutationNode) : Prop where
  numbered : n.Numbered
  single : ∀ k, OneAtATime k n
  once : n.flushedKeys.Nodup
  /-- The receipt of a batch is there, or is about to be written. -/
  covered : ∀ {k}, k ∈ n.flushedKeys → n.receipts.knows k ∨
    ∃ i d, n.deliveries.get? i = some d ∧ d.key = some k ∧ d.stage.isRecording = true
  safe : ∀ {i d k}, n.deliveries.get? i = some d → d.key = some k → k ∈ n.flushedKeys →
    SafeStage n.receipts k d.stage
  encodes : ∀ {i d v ts}, n.deliveries.get? i = some d → d.stage = .flushGlobal (.value v) ts →
    v.encodable = true

theorem flushedOnce_initial : FlushedOnce initial where
  numbered := numbered_initial
  single := fun _ => oneAtATime_initial
  once := List.nodup_nil
  covered h := by cases h
  safe h := by cases h
  encodes h := by cases h

/-- The receipts of a step keep what a redelivery is answered with. -/
structure KeepsReceipts (receipts receipts' : ReceiptStore) : Prop where
  knows : ∀ {k}, receipts.knows k → receipts'.knows k
  covers : ∀ {k}, receipts.floorCovers k = true → receipts'.floorCovers k = true

theorem KeepsReceipts.refl : KeepsReceipts s s := ⟨id, id⟩

theorem KeepsReceipts.of_has {s' : ReceiptStore} (hfloors : s'.floors = s.floors)
    (hhas : ∀ {k}, s.mutations.has k = true → s'.mutations.has k = true) : KeepsReceipts s s' :=
  have hcovers : ∀ {k}, s.floorCovers k = true → s'.floorCovers k = true :=
    fun h => (floorCovers_congr hfloors).trans h
  ⟨fun h => h.imp hhas hcovers, hcovers⟩

theorem SafeStage.mono {s' : ReceiptStore} (hkeeps : KeepsReceipts s s') (h : SafeStage s k stage) :
    SafeStage s' k stage := by
  cases stage with
  | readVerdict => exact hkeeps.knows h
  | readFloor => exact hkeeps.covers h
  | _ => exact h

theorem FlushedOnce.set {d' : MutationDelivery} (h : FlushedOnce n)
    (hguard : n.FlushGuard ev) (hstep : n.step fits ev = some n')
    (hd : n.deliveries.get? i = some d) (hdeliveries : n'.deliveries = n.deliveries.set i d')
    (hflushed : n'.flushedKeys = n.flushedKeys) (hkey : d'.key = d.key)
    (hsafe : ∀ {k}, d.key = some k → SafeStage n.receipts k d.stage →
      SafeStage n.receipts k d'.stage)
    (hrecords : ∀ {k}, d.key = some k → SafeStage n.receipts k d.stage →
      d.stage.isRecording = true → n'.receipts.knows k)
    (hencodes : ∀ {v ts}, d'.stage = .flushGlobal (.value v) ts → v.encodable = true)
    (hkeeps : KeepsReceipts n.receipts n'.receipts) : FlushedOnce n' where
  numbered := h.numbered.step hstep
  single := fun _ => (h.single _).step hguard.1.deliversAlone hstep
  once := hflushed ▸ h.once
  covered {k} hk := by
    rw [hflushed] at hk
    rcases h.covered hk with hknows | ⟨j, dj, hdj, hkj, hrec⟩
    · exact .inl (hkeeps.knows hknows)
    · by_cases heq : i = j
      · subst heq
        cases hd.symm.trans hdj
        exact .inl (hrecords hkj (h.safe hd hkj hk) hrec)
      · exact .inr ⟨j, dj, by rw [hdeliveries, get?_set_ne _ heq, hdj], hkj, hrec⟩
  safe {j dj k} hdj hkj hk := by
    rw [hflushed] at hk
    rw [hdeliveries] at hdj
    rcases get?_set_eq_some.1 hdj with ⟨-, rfl⟩ | ⟨-, hdj⟩
    · have hk' : d.key = some k := hkey ▸ hkj
      exact (hsafe hk' (h.safe hd hk' hk)).mono hkeeps
    · exact (h.safe hdj hkj hk).mono hkeeps
  encodes {j dj v ts} hdj hstage := by
    rw [hdeliveries] at hdj
    rcases get?_set_eq_some.1 hdj with ⟨-, rfl⟩ | ⟨-, hdj⟩
    · exact hencodes hstage
    · exact h.encodes hdj hstage

/-- Past its writes only an unencodable value keeps a delivery from its receipt. -/
theorem safe_of_isPastWrites (h : stage.isPastWrites = true)
    (hzero : ∀ v ts, stage ≠ .recordZero v ts) : SafeStage s k stage := by
  cases stage with
  | recordZero v ts => exact absurd rfl (hzero v ts)
  | readVerdict | readFloor | run | flushGlobal => cases h
  | _ => trivial

theorem SafeStage.move (hsafe : SafeStage s k d.stage) (hkey : d.key = some k)
    (h : StageMove s i d ev outcome stage) : SafeStage s k stage := by
  cases hpast : stage.isPastWrites with
  | true =>
    refine safe_of_isPastWrites hpast fun v ts heq => ?_
    subst heq
    rw [h.recordZero] at hsafe
    exact hsafe
  | false =>
    obtain ⟨k', rfl, hstage, hk, hnone⟩ | ⟨k', rfl, hstage, hk, hfloor⟩ | ⟨_, _, _,
      rfl, hstage, -⟩ :=
      h.not_isPastWrites hpast
    · cases hkey.symm.trans hk
      rw [hstage] at hsafe
      refine Or.resolve_left hsafe ?_
      rw [OrderedMap.has, show s.mutations.get? k = none from hnone]
      rintro ⟨⟩
    · cases hkey.symm.trans hk
      rw [hstage, SafeStage, hfloor] at hsafe
      cases hsafe
    · rw [hstage] at hsafe
      exact hsafe

/-- A delivery of a key that ends its recording without a receipt had a value to record that has no
encoding. -/
theorem SafeStage.not_isRecording (hsafe : SafeStage s k d.stage)
    (h : StageMove s i d ev outcome stage) : d.stage.isRecording = false := by
  cases h with
  | zeroUnencodable hstage hencode =>
    rw [hstage, SafeStage, Returned.encodable, hencode] at hsafe
    cases hsafe
  | _ => simp [*]

theorem keepsReceipts_commit
    (hinsert : ∀ k, d.key = some k → n.receipts.insertReceipt k ts now = some receipts)
    (hnone : d.key = none → receipts = n.receipts) : KeepsReceipts n.receipts receipts := by
  cases hkey : d.key with
  | none => exact hnone hkey ▸ .refl
  | some k =>
    obtain ⟨-, hfloors, hhas⟩ := insertReceipt_eq_some (hinsert k hkey)
    exact .of_has hfloors fun hk => hhas.2 (.inr hk)

theorem FlushedOnce.congr (h : FlushedOnce n)
    (hguard : n.FlushGuard ev) (hstep : n.step fits ev = some n')
    (hdeliveries : n'.deliveries = n.deliveries) (hflushed : n'.flushedKeys = n.flushedKeys)
    (hkeeps : KeepsReceipts n.receipts n'.receipts) : FlushedOnce n' where
  numbered := h.numbered.step hstep
  single := fun _ => (h.single _).step hguard.1.deliversAlone hstep
  once := hflushed ▸ h.once
  covered hk := by
    rw [hflushed] at hk
    rw [hdeliveries]
    exact (h.covered hk).imp_left hkeeps.knows
  safe hd hkey hk := by
    rw [hflushed] at hk
    rw [hdeliveries] at hd
    exact (h.safe hd hkey hk).mono hkeeps
  encodes hd := h.encodes (hdeliveries ▸ hd)

/-- A batch is applied: it is the first of its key, and its receipt follows. -/
theorem FlushedOnce.flush (h : FlushedOnce n)
    (hguard : n.FlushGuard ev) (hstep : n.step fits ev = some n')
    (hd : n.deliveries.get? i = some d) (hstage : d.stage = .flushGlobal result ts)
    (hn : n' = { n with globalBatches := d.key :: n.globalBatches }.setStage i d
      (d.afterCommit false result ts)) : FlushedOnce n' := by
  have hstages : ∀ {k}, d.key = some k → (d.afterCommit false result ts).isRecording = true ∧
      SafeStage n.receipts k (d.afterCommit false result ts) := by
    intro k hkey
    have hsome := dedup_isNone_of_key hkey
    cases result with
    | commitThenThrow message =>
      simp [MutationDelivery.afterCommit, MutationDelivery.caught, hsome,
        ThrownError.isRetryableError, SafeStage]
    | value v =>
      simpa [MutationDelivery.afterCommit, hsome, SafeStage] using
        h.encodes hd hstage
  have hget : ∀ {j}, n'.deliveries.get? j =
      if i = j then some { d with stage := d.afterCommit false result ts } else
        n.deliveries.get? j := by
    rw [hn]
    exact get?_set _
  have hreceipts : n'.receipts = n.receipts := by rw [hn]; rfl
  have hflushed : n'.flushedKeys = d.key.toList ++ n.flushedKeys := by
    rw [hn]
    cases hk : d.key <;> rfl
  have hnew : ∀ {k}, d.key = some k → k ∉ n.flushedKeys := fun hkey hk => by
    have hsafe := h.safe hd hkey hk
    rw [hstage] at hsafe
    exact hsafe
  have hmem : ∀ {k}, k ∈ n'.flushedKeys ↔ d.key = some k ∨ k ∈ n.flushedKeys := by
    rw [hflushed]
    simp
  exact {
    numbered := h.numbered.step hstep
    single := fun _ => (h.single _).step hguard.1.deliversAlone hstep
    once := by
      rw [hflushed]
      cases hkey : d.key with
      | none => exact h.once
      | some k => exact List.nodup_cons.2 ⟨hnew hkey, h.once⟩
    covered := fun {k} hk => by
      rw [hreceipts]
      rcases hmem.1 hk with hkey | hk
      · exact .inr ⟨i, { d with stage := _ }, hget.trans (if_pos rfl), hkey, (hstages hkey).1⟩
      · refine (h.covered hk).imp_right ?_
        rintro ⟨j, dj, hdj, hkj, hrec⟩
        refine ⟨j, dj, ?_, hkj, hrec⟩
        rw [hget, if_neg, hdj]
        rintro rfl
        cases hd.symm.trans hdj
        exact hnew hkj hk
    safe := fun {j dj k} hdj hkj hk => by
      rw [hreceipts]
      rw [hget] at hdj
      split at hdj
      · cases hdj
        exact (hstages hkj).2
      · rename_i hne
        rcases hmem.1 hk with hkey | hk
        · -- the other deliveries of the key are answered
          have hanswered : dj.stage.isAnswered = true := by
            by_contra hun
            refine hne (h.single _ _ _ _ _ hd hdj hkey hkj ?_ (by simpa using hun))
            rw [hstage]
            rfl
          rw [DeliveryStage.isAnswered_iff.1 hanswered]
          trivial
        · exact h.safe hdj hkj hk
    encodes := fun {j dj v ts'} hdj hs => by
      rw [hget] at hdj
      split at hdj
      · cases hdj
        cases (congrArg DeliveryStage.isPastWrites hs).symm.trans
          isPastWrites_afterCommit
      · exact h.encodes hdj hs }

/-- A delivery of a key with a batch finds all earlier ones answered, hence the receipt written. -/
theorem FlushedOnce.deliver {sessionId : String} {identity : Option String}
    {dedup : Option DedupKey}
    (h : FlushedOnce n) (hguard : n.FlushGuard (.deliver sessionId identity dedup))
    (hstep : n.step fits (.deliver sessionId identity dedup) = some n')
    (hn : n' = n.deliver sessionId identity dedup) : FlushedOnce n' := by
  have hold : ∀ {j dj}, n.deliveries.get? j = some dj → n'.deliveries.get? j = some dj := by
    intro j dj hdj
    rw [hn]
    exact (get?_set_ne _ (h.numbered.ne hdj)).trans hdj
  have hnew : ∀ {j dj}, n'.deliveries.get? j = some dj → n.deliveries.get? j = some dj ∨
      dj = ⟨sessionId, identity, dedup, if dedup.isSome then .readVerdict else
        .run, none, none⟩ := by
    intro j dj hdj
    rw [hn] at hdj
    replace hdj := (get?_set _).symm.trans hdj
    split at hdj
    · exact .inr (Option.some.inj hdj).symm
    · exact .inl hdj
  have hreceipts : n'.receipts = n.receipts := by rw [hn]; rfl
  have hflushed : n'.flushedKeys = n.flushedKeys := by rw [hn]; rfl
  exact {
    numbered := h.numbered.step hstep
    single := fun _ => (h.single _).step hguard.1.deliversAlone hstep
    once := hflushed ▸ h.once
    covered := fun hk => by
      rw [hflushed] at hk
      rw [hreceipts]
      refine (h.covered hk).imp_right ?_
      rintro ⟨j, dj, hdj, hkj⟩
      exact ⟨j, dj, hold hdj, hkj⟩
    safe := fun {j dj k} hdj hkey hk => by
      rw [hflushed] at hk
      rw [hreceipts]
      rcases hnew hdj with hdj | rfl
      · exact h.safe hdj hkey hk
      · cases dedup with
        | none => cases hkey
        | some r =>
          refine (h.covered hk).resolve_right ?_
          rintro ⟨i, d, hd, hkd, hrec⟩
          rw [DeliveryStage.isAnswered_iff.1 (hguard.1.deliversAlone.answered hkey hd hkd)] at hrec
          cases hrec
    encodes := fun hdj hstage => by
      rcases hnew hdj with hdj | rfl
      · exact h.encodes hdj hstage
      · cases dedup <;> cases hstage }

theorem FlushedOnce.step (h : FlushedOnce n) (hguard : n.FlushGuard ev)
    (hstep : n.step fits ev = some n') : FlushedOnce n' := by
  cases nodeStepped_of_step hstep with
  | @delivery _ _ i d hev hd hs =>
    cases hs with
    | @moved _ outcome stage hmove =>
      refine h.set hguard hstep hd rfl rfl rfl (fun hkey hsafe => hsafe.move hkey hmove)
        (fun hkey hsafe hrec => ?_) (fun {v ts} heq => ?_) .refl
      · rw [hsafe.not_isRecording hmove] at hrec
        cases hrec
      · obtain rfl : stage = .flushGlobal (.value v) ts := heq
        obtain ⟨_, hs, -⟩ | ⟨_, hs, -⟩ | ⟨result, ts', now, hs, -, rfl⟩ :=
          hmove.not_isPastWrites rfl
        · cases hs
        · cases hs
        · cases hs
          exact hguard.2
    | committed hstage _ hinsert hnone =>
      refine h.set hguard hstep hd (congrArg (OrderedMap.set · i _) (deliveries_commit ..))
        (congrArg (List.filterMap id) (globalBatches_commit ..)) rfl (fun hkey hsafe => ?_)
          (fun hkey hsafe => ?_) (fun heq => ?_) ?_
      · rw [hstage] at hsafe
        exact hsafe.elim
      · rw [hstage] at hsafe
        exact hsafe.elim
      · cases (congrArg DeliveryStage.isPastWrites heq).symm.trans
          isPastWrites_afterCommit
      · show KeepsReceipts n.receipts (commit _ _ _ _).receipts
        rw [receipts_commit]
        exact keepsReceipts_commit hinsert hnone
    | flushed hstage => exact h.flush hguard hstep hd hstage rfl
    | failed hstage hkey | recorded hstage hkey hencode =>
      refine h.set hguard hstep hd rfl rfl rfl (fun _ _ => trivial) (fun hkey' _ _ => ?_)
        (fun heq => by cases heq)
        (.of_has floors_recordClientVerdict fun hk =>
          has_recordClientVerdict.2 (.inr hk))
      cases hkey.symm.trans hkey'
      exact .inl (has_recordClientVerdict.2 (.inl rfl))
    | filled hstage hkey hencode =>
      refine h.set hguard hstep hd rfl rfl rfl (fun _ _ => trivial) (fun _ _ hrec => ?_)
        (fun heq => by cases heq)
        (.of_has floors_updateClientVerdictValue fun hk =>
          has_updateClientVerdictValue.trans hk)
      rw [hstage] at hrec
      cases hrec
    | @answered _ _ _ ts hanswers =>
      obtain ⟨gates, hgates⟩ := releaseGate_eq ts (n.answer i d _ _)
      rw [hgates] at hstep ⊢
      refine h.set hguard hstep hd rfl rfl rfl (fun _ _ => trivial) (fun _ _ hrec => ?_)
        (fun heq => by cases heq) .refl
      generalize d.stage = stage at hanswers hrec
      cases hanswers <;> cases hrec
  | deliver => exact h.deliver hguard hstep rfl
  | prune =>
    exact h.congr hguard hstep rfl rfl
      ⟨knows_pruneClientMutations, floorCovers_pruneClientMutations⟩
  | sweep =>
    exact h.congr hguard hstep rfl rfl
      ⟨knows_deleteAndCover, floorCovers_deleteAndCover⟩
  | untouched hu =>
    refine h.congr hguard hstep hu.deliveries ?_ (hu.receipts ▸ .refl)
    rw [flushedKeys, flushedKeys, hu.globalBatches]

/-- In every run in which the deliveries of a mutation do not overlap, and what a mutation with
global writes returns has an encoding, `commitBatch` is applied at most once for every identity,
client id and number. -/
theorem global_batch_at_most_once {es : List NodeEvent}
    (hg : Guarded (step fits) FlushGuard initial es) (hr : run (step fits) initial es = some n) :
    n.flushedKeys.Nodup :=
  (run_invariant_of_guarded (fun _ _ _ h hguard hstep => h.step hguard hstep)
    flushedOnce_initial hg hr).once

/-- A mutation that returns `null` and has written to global tables. -/
def writesGlobal : RunOutcome := .returned .globalTables (.value (.value .null)) 0

/-- The client sends `(c, 0)`, loses its connection and sends it again while it runs. -/
def overlapRun : List NodeEvent :=
  [.connect "s1", .deliver "s1" none (some ⟨"c", 0⟩), .readVerdict 0, .readFloor 0,
    .disconnect "s1",
    .connect "s2", .deliver "s2" none (some ⟨"c", 0⟩), .readVerdict 1, .readFloor 1,
    .runEnds 0 writesGlobal 10, .flushGlobal 0 none, .recordZero 0 10,
    .runEnds 1 writesGlobal 11, .flushGlobal 1 none, .recordZero 1 11]

/-- Both deliveries apply their batch. -/
theorem overlapping_deliveries_flush_twice :
    (run (step allFits) initial overlapRun).map (·.globalBatches) =
      some [some ⟨"", "c", 0⟩, some ⟨"", "c", 0⟩] := by
  decide +kernel

/-- The resend comes after the first delivery is answered. -/
def resendRun : List NodeEvent :=
  [.connect "s1", .deliver "s1" none (some ⟨"c", 0⟩), .readVerdict 0, .readFloor 0,
    .disconnect "s1", .runEnds 0 writesGlobal 10, .flushGlobal 0 none, .recordZero 0 10, .respond 0,
    .connect "s2", .deliver "s2" none (some ⟨"c", 0⟩), .readVerdict 1, .respond 1]

def resentNode : MutationNode := (run (step allFits) initial resendRun).getD initial

/-- It is answered from the receipt. -/
theorem global_batch_at_most_once_resend :
    Guarded (step allFits) FlushGuard initial resendRun ∧ resentNode.flushedKeys = [⟨"", "c", 0⟩] ∧
      resentNode.flushedKeys.Nodup :=
  have hg : Guarded (step allFits) FlushGuard initial resendRun := by decide +kernel
  ⟨hg, by decide +kernel,
    global_batch_at_most_once hg
      (show run (step allFits) initial resendRun = some resentNode from rfl)⟩

end MutationNode

end Helipod
