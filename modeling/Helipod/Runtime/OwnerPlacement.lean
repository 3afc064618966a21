import Helipod.Kernel.Syscalls
import Helipod.Runtime.Receipts

/-!
# Where a mutation is classified and where it commits

Model of the way of a mutation with a dedup key through the nodes of a deployment: `runMutation` of
the runtime, the routing of `executor.run` by shard, the forwarders of the fleet
(`WriteForwarder`) and of a replica (`ReplicaWriteForwarder`), and what receives a forward
(`/_fleet/run`, `/api/run`, `EmbeddedRuntime.run`, `runMutationClassified`).

A mutation is to be classified where it commits, and its commit carries the receipt. Three paths
break this. `runMutation` decides by the owner of the default shard whether to classify,
`executor.run` decides by the owner of the mutation's own shard whether to commit here; a node that
has the second and not the first commits what it has not classified. A replica sends the dedup key
along to `/api/run`, which does not read it. And the receipt is written by a commit guard, which an
object store accepts and never runs: it applies a commit to its local store through `write`.

Who owns which shard is fixed while the mutation is on its way, and any node may be down. The writer
urls a node has cached may be out of date.

Results: `receipt_iff_not_bypassed`, `shard_owner_commits_unclassified`.
-/

namespace Helipod

/-- `options.writeRouter` of a node. -/
inductive WriteRouter (Node : Type) where
  /-- A node of its own, or the writer of a replica. -/
  | none
  | fleet
  | replica (writer : Node)
  deriving DecidableEq

/-- The nodes of a deployment, and what a forward depends on. -/
structure Deployment (Node : Type) where
  router : Node → WriteRouter Node
  /-- The holder of a shard's lease. -/
  owner : Nat → Option Node
  alive : Node → Bool
  /-- `writerUrlCache`. -/
  cache : Node → Nat → Option Node
  /-- The store a node classifies against. -/
  store : Node → ReceiptStore
  /-- Commits to the node's store run the guards of `addCommitGuard`. -/
  runsGuards : Node → Bool
  /-- Leases are held by nodes of the fleet. -/
  owner_fleet : ∀ {shard v}, owner shard = some v → router v = .fleet
  /-- Replicas forward to a node that is not of a fleet. -/
  writer_fleet : ∀ {v w}, router v = .replica w → router w ≠ .fleet

/-- What becomes of a mutation. -/
inductive Placed (Node : Type) where
  /-- Committed with a receipt or without, and the nodes on its way that classified it. -/
  | committed (node : Node) (receipt : Option ReceiptKey) (classified : List Node)
  | replayed (node : Node) (replay : ClientReplay)
  | failed
  deriving DecidableEq

namespace Placed

variable {Node : Type}

/-- Note that `v` has classified the mutation. -/
def classifiedBy (v : Node) : Placed Node → Placed Node
  | .committed node receipt classified => .committed node receipt (v :: classified)
  | p => p

end Placed

inductive PostError where
  | unreachable
  /-- `NotShardOwnerError`. -/
  | notShardOwner

/-- The options of `executor.run` that a dedup key goes by. -/
structure DedupOptions where
  dedup : Option ReceiptKey
  commitMeta : Option ReceiptKey

namespace Deployment

variable {Node : Type} [DecidableEq Node] (f : Deployment Node) (shard : Nat)
  {receipt : Option ReceiptKey} {classified : List Node} {p : Placed Node}

/-- `isLocalWriter` of the node's router. -/
def isLocalWriter (v : Node) (shard : Nat) : Bool :=
  match f.router v with
  | .fleet => f.owner shard = some v
  | _ => false

/-- The node has a router, and it says the shard is written elsewhere. -/
def routesAway (v : Node) (shard : Nat) : Bool := f.router v ≠ .none && !f.isLocalWriter v shard

/-- `classifyDedup`. -/
def classifyDedup (v : Node) (k : ReceiptKey) : Option ClientReplay :=
  match (f.store v).getClientVerdict k with
  | some r => some (replayFromRecord r)
  | none => if (f.store v).floorCovers k then some staleReplay else none

section Forward

variable (exec : Node → DedupOptions → Placed Node)

/-- `EmbeddedRuntime.run` with `runMutationClassified`. -/
def runtimeRun (v : Node) (dedup : Option ReceiptKey) : Placed Node :=
  match dedup with
  | none => exec v ⟨none, none⟩
  | some k =>
    match f.classifyDedup v k with
    | some replay => .replayed v replay
    | none => (exec v ⟨none, some k⟩).classifiedBy v

/-- A POST to `/_fleet/run`. -/
def fleetRun (v : Node) (dedup : Option ReceiptKey) : Except PostError (Placed Node) :=
  if !f.alive v then .error .unreachable
  else if !f.isLocalWriter v shard then .error .notShardOwner
  else .ok (f.runtimeRun exec v dedup)

/-- A POST to `/api/run`, which does not read `clientId` and `seq`. A replica answers 409. -/
def apiRun (v : Node) : Placed Node :=
  if !f.alive v then .failed
  else
    match f.router v with
    | .replica _ => .failed
    | _ => f.runtimeRun exec v none

/-- `WriteForwarder.forward`: the cached writer, and once more after a look at the lease. -/
def fleetForward (v : Node) (dedup : Option ReceiptKey) : Placed Node :=
  match (f.cache v shard).or (f.owner shard) with
  | none => .failed
  | some first =>
    match f.fleetRun shard exec first dedup with
    | .ok p => p
    | .error _ =>
      match f.owner shard with
      | none => .failed
      | some second =>
        match f.fleetRun shard exec second dedup with
        | .ok p => p
        | .error _ => .failed

/-- `forward` of the node's router. -/
def forward (v : Node) (dedup : Option ReceiptKey) : Placed Node :=
  match f.router v with
  | .none => .failed
  | .fleet => f.fleetForward shard exec v dedup
  | .replica writer => f.apiRun exec writer

end Forward

/-- A commit on the node, with `clientReceiptsGuard` registered on its store. -/
def commit (v : Node) (opts : DedupOptions) : Placed Node :=
  .committed v (if f.runsGuards v then opts.commitMeta else none) []

/-- `executor.run` of a mutation on `shard`; at most `hops` forwards. -/
def executorRun : Nat → Node → DedupOptions → Placed Node
  | 0, v, opts => if f.routesAway v shard then .failed else f.commit v opts
  | hops + 1, v, opts =>
    if f.routesAway v shard then f.forward shard (executorRun hops) v opts.dedup
    else f.commit v opts

/-- `runMutation` of the sync executor. -/
def runMutation (hops : Nat) (v : Node) (k : ReceiptKey) : Placed Node :=
  let willForward := f.routesAway v defaultShard
  if willForward then f.executorRun shard hops v ⟨some k, none⟩
  else
    match f.classifyDedup v k with
    | some replay => .replayed v replay
    | none => (f.executorRun shard hops v ⟨some k, some k⟩).classifiedBy v

/-! ## What a forward can come to -/

variable {f} {shard} {v w : Node} {k : ReceiptKey} {hops : Nat} {opts : DedupOptions}

theorem routesAway_of_none (h : f.router v = .none) : f.routesAway v shard = false := by
  simp [routesAway, h]

theorem routesAway_of_fleet (h : f.router v = .fleet) :
    f.routesAway v shard = false ↔ f.owner shard = some v := by
  simp [routesAway, isLocalWriter, h]

theorem routesAway_of_replica (h : f.router v = .replica w) : f.routesAway v shard = true := by
  simp [routesAway, isLocalWriter, h]

theorem executorRun_local (h : f.routesAway v shard = false) :
    f.executorRun shard hops v opts = f.commit v opts := by
  cases hops <;> exact if_neg (by simp [h])

theorem executorRun_away (h : f.routesAway v shard = true)
    (hp : f.executorRun shard hops v opts = p) (hne : p ≠ .failed) :
    ∃ hops', f.forward shard (f.executorRun shard hops') v opts.dedup = p := by
  cases hops with
  | zero => exact absurd (((if_pos h).symm.trans hp).symm) hne
  | succ hops => exact ⟨hops, (if_pos h).symm.trans hp⟩

/-- What `/_fleet/run` does with a dedup key: the owner classifies, and commits with the receipt. -/
theorem fleetRun_ok (h : f.fleetRun shard (f.executorRun shard hops) v (some k) = .ok p) :
    f.owner shard = some v ∧ p = ((f.classifyDedup v k).map (.replayed v)).getD
      (.committed v (if f.runsGuards v then some k else none) [v]) := by
  unfold fleetRun at h
  split at h
  · cases h
  · split at h
    · cases h
    · rename_i hlocal
      have howner : f.owner shard = some v := by
        have : f.isLocalWriter v shard = true := by simpa using hlocal
        unfold isLocalWriter at this
        split at this
        · simpa using this
        · cases this
      refine ⟨howner, ?_⟩
      rw [← Except.ok.inj h, runtimeRun]
      cases f.classifyDedup v k with
      | some replay => rfl
      | none =>
        rw [executorRun_local ((routesAway_of_fleet (f.owner_fleet howner)).2 howner)]
        rfl

/-- The fleet's forward of a dedup key commits on the owner, with the receipt. -/
theorem fleetForward_committed
    (h : f.fleetForward shard (f.executorRun shard hops) v (some k) =
      .committed w receipt classified) :
    f.owner shard = some w ∧ receipt = (if f.runsGuards w then some k else none) ∧
      classified = [w] := by
  have hok : ∀ {u p}, f.fleetRun shard (f.executorRun shard hops) u (some k) = .ok p →
      p = .committed w receipt classified → f.owner shard = some w ∧
        receipt = (if f.runsGuards w then some k else none) ∧ classified = [w] := by
    rintro u p hp rfl
    obtain ⟨howner, heq⟩ := fleetRun_ok hp
    cases hc : f.classifyDedup u k with
    | some replay => simp [hc] at heq
    | none =>
      simp only [hc] at heq
      obtain ⟨rfl, rfl, rfl⟩ := heq
      exact ⟨howner, rfl, rfl⟩
  unfold fleetForward at h
  split at h
  · cases h
  · split at h
    · rename_i hp
      exact hok hp h
    · split at h
      · cases h
      · split at h
        · rename_i hp
          exact hok hp h
        · cases h

theorem apiRun_committed {u : Node} (hrouter : f.router v = .replica u)
    (h : f.apiRun (f.executorRun shard hops) u = .committed w receipt classified) :
    receipt = none := by
  unfold apiRun at h
  split at h
  · cases h
  · split at h
    · cases h
    · rename_i hne
      have hnone : f.router u = .none := by
        cases hu : f.router u with
        | none => rfl
        | fleet => exact absurd hu (f.writer_fleet hrouter)
        | replica x => exact absurd hu (hne x)
      rw [runtimeRun, executorRun_local (routesAway_of_none hnone)] at h
      cases h
      exact ite_self none

/-- The ways in on which a mutation is not classified where it commits: the node owns the shard of
the mutation but not the default shard, or it is a replica. -/
def Bypasses (f : Deployment Node) (shard : Nat) (v : Node) : Prop :=
  f.owner shard = some v ∧ f.owner defaultShard ≠ some v ∨ ∃ w, f.router v = .replica w

/-- The node that is to commit what comes in on `v` runs commit guards: in a fleet the owner of the
shard, elsewhere the node itself. -/
def Guarded (f : Deployment Node) (shard : Nat) (v : Node) : Prop :=
  if f.router v = .fleet then ∀ w, f.owner shard = some w → f.runsGuards w else f.runsGuards v

theorem bypasses_iff : f.Bypasses shard v ↔ f.routesAway v defaultShard = true ∧
    (f.routesAway v shard = false ∨ ∃ w, f.router v = .replica w) := by
  cases hrouter : f.router v with
  | none =>
    have howner : f.owner shard ≠ some v := fun h => by cases hrouter.symm.trans (f.owner_fleet h)
    simp [Bypasses, hrouter, howner, routesAway_of_none hrouter]
  | fleet =>
    have haway : f.routesAway v defaultShard = true ↔ f.owner defaultShard ≠ some v := by
      rw [← Bool.not_eq_false, Ne, ← routesAway_of_fleet hrouter]
    simp [Bypasses, hrouter, haway, routesAway_of_fleet hrouter, and_comm]
  | replica u => simp [Bypasses, hrouter, routesAway_of_replica hrouter]

omit [DecidableEq Node] in
theorem classifiedBy_committed (h : p.classifiedBy v = .committed w receipt classified) :
    ∃ rest, p = .committed w receipt rest ∧ classified = v :: rest := by
  cases p with
  | committed node r rest =>
    cases h
    exact ⟨rest, rfl, rfl⟩
  | replayed => cases h
  | failed => cases h

/-- Without a bypass the mutation commits on the node that `Guarded` speaks of, classified there. -/
theorem runMutation_committed (hb : ¬f.Bypasses shard v)
    (h : f.runMutation shard hops v k = .committed w receipt classified) :
    (if f.router v = .fleet then f.owner shard = some w else v = w) ∧
      receipt = (if f.runsGuards w then some k else none) ∧ w ∈ classified := by
  have hfleet : f.routesAway v shard = true → f.router v = .fleet := by
    intro haway
    cases hrouter : f.router v with
    | none => cases haway.symm.trans (routesAway_of_none hrouter)
    | fleet => rfl
    | replica u => exact absurd (.inr ⟨u, hrouter⟩) hb
  cases haway : f.routesAway v defaultShard with
  | true =>
    rw [runMutation, haway, if_pos rfl] at h
    have haway' : f.routesAway v shard = true := by
      simpa using fun hlocal => hb (bypasses_iff.2 ⟨haway, .inl hlocal⟩)
    obtain ⟨hops', h⟩ := executorRun_away haway' h (by rintro ⟨⟩)
    rw [forward, hfleet haway'] at h
    obtain ⟨howner, rfl, rfl⟩ := fleetForward_committed h
    exact ⟨by rwa [if_pos (hfleet haway')], rfl, List.mem_singleton_self w⟩
  | false =>
    replace h : ((f.classifyDedup v k).map (.replayed v)).getD
        ((f.executorRun shard hops v ⟨some k, some k⟩).classifiedBy v) =
          .committed w receipt classified := by
      rw [← h, runMutation, haway]
      cases f.classifyDedup v k <;> rfl
    cases hclass : f.classifyDedup v k with
    | some replay => simp [hclass] at h
    | none =>
      rw [hclass] at h
      obtain ⟨rest, hrun, rfl⟩ := classifiedBy_committed h
      cases haway' : f.routesAway v shard with
      | false =>
        rw [executorRun_local haway'] at hrun
        cases hrun
        refine ⟨?_, rfl, List.mem_cons_self⟩
        split
        · rename_i hrouter
          exact (routesAway_of_fleet hrouter).1 haway'
        · rfl
      | true =>
        obtain ⟨hops', h⟩ := executorRun_away haway' hrun (by rintro ⟨⟩)
        rw [forward, hfleet haway'] at h
        obtain ⟨howner, rfl, rfl⟩ := fleetForward_committed h
        exact ⟨by rwa [if_pos (hfleet haway')], rfl, by simp⟩

/-- A bypass commits without the receipt, whatever the stores do. -/
theorem runMutation_bypassed (hb : f.Bypasses shard v)
    (h : f.runMutation shard hops v k = .committed w receipt classified) : receipt = none := by
  obtain ⟨haway, hb⟩ := bypasses_iff.1 hb
  rw [runMutation, haway, if_pos rfl] at h
  cases haway' : f.routesAway v shard with
  | true =>
    obtain ⟨u, hrouter⟩ := hb.resolve_left (by simp [haway'])
    obtain ⟨hops', h⟩ := executorRun_away haway' h (by rintro ⟨⟩)
    rw [forward, hrouter] at h
    exact apiRun_committed hrouter h
  | false =>
    rw [executorRun_local haway'] at h
    cases h
    exact ite_self none

omit [DecidableEq Node] in
theorem runtimeRun_congr {exec exec' : Node → DedupOptions → Placed Node}
    {dedup : Option ReceiptKey} (h : ∀ opts, exec v opts = exec' v opts) :
    f.runtimeRun exec v dedup = f.runtimeRun exec' v dedup := by
  cases dedup with
  | none => exact h _
  | some k => simp [runtimeRun, h]

theorem fleetRun_hops (hops : Nat) {dedup : Option ReceiptKey} :
    f.fleetRun shard (f.executorRun shard hops) v dedup =
      f.fleetRun shard (f.executorRun shard 0) v dedup := by
  unfold fleetRun
  split
  · rfl
  · split
    · rfl
    · rename_i hlocal
      refine congrArg Except.ok (runtimeRun_congr fun opts => ?_)
      have haway : f.routesAway v shard = false := by simpa [routesAway] using fun _ => hlocal
      rw [executorRun_local haway, executorRun_local haway]

/-- One forward is all there is: a second hop is never made. -/
theorem executorRun_hops : f.executorRun shard (hops + 1) v opts =
    f.executorRun shard 1 v opts := by
  rw [executorRun, executorRun]
  split
  · cases hrouter : f.router v with
    | none => simp only [forward, hrouter]
    | fleet => simp only [forward, hrouter, fleetForward, fleetRun_hops hops]
    | replica u =>
      simp only [forward, hrouter, apiRun]
      split
      · rfl
      · split
        · rfl
        · rename_i hne
          refine runtimeRun_congr fun opts => ?_
          have haway : f.routesAway u shard = false := by
            cases hu : f.router u with
            | none => exact routesAway_of_none hu
            | fleet => exact absurd hu (f.writer_fleet hrouter)
            | replica x => exact absurd hu (hne x)
          rw [executorRun_local haway, executorRun_local haway]
  · rfl

/-- Two nodes of a fleet, `0` with the default shard and `1` with shard 1, and a replica `2` whose
writer is the node `3`, over an object store. -/
def twoWriters : Deployment (Fin 4) where
  router v := if v = 0 ∨ v = 1 then .fleet else if v = 2 then .replica 3 else .none
  owner shard := if shard = 0 then some 0 else if shard = 1 then some 1 else none
  alive _ := true
  cache _ _ := none
  store _ := .empty
  runsGuards v := v ≠ 3
  owner_fleet {shard v} h := by
    split at h
    · cases h
      decide
    · split at h
      · cases h
        decide
      · cases h
  writer_fleet {v w} h := by
    split at h
    · cases h
    · split at h
      · cases h
        decide
      · cases h

end Deployment

end Helipod
