import Helipod.Lib.Runs
import Helipod.Runtime.Receipts

/-!
# Mutations on a node

Model of the path of a mutation through one node: `processMutation` of the sync handler, the
runtime's `runMutation` with its receipts, the commit with the receipts guard and the fan-out, the
gates that hold back the fan-out to the origin of a commit (`originResponseGates`), and the
runtime's drain of the fan-out. The node is the only one, and notifies from the drain
(`autoNotifyOnMutation: false`).

A delivery goes from `await` to `await`; each stage is named by what it awaits, and its event is the
awaited operation together with the code up to the next `await`. Deliveries, handshakes that prune,
sweeps, commits of other origins, disconnects and the drain interleave in any order. What a handler
does is the outcome its event carries: the retries of a conflict are part of the run, and of a
commit only its timestamp and its receipt matter here.

The queries that a notification re-runs, the socket, and failures of the store are left out.
-/

namespace Helipod

open Runs OrderedMap Option

/-! ## Deliveries -/

/-- What a handler ends with that does not throw. -/
inductive HandlerResult where
  | value (v : Returned)
  /-- `CommitThenThrow`: the writes stay, and the caller gets an error. -/
  | commitThenThrow (message : String)

/-- Which stores a mutation wrote to. The kernel does not let it write to both. -/
inductive WriteTarget where
  | nothing
  | documents
  | globalTables
  deriving DecidableEq

/-- How the transaction of `executor.run` ends, up to its commit. `commitTs` is the timestamp of the
commit, or of the snapshot if there are no documents to write. -/
inductive RunOutcome where
  | threw (e : ThrownError)
  | returned (target : WriteTarget) (result : HandlerResult) (commitTs : Nat)

inductive RunMutationResult where
  | fresh (value : Returned) (commitTs : Nat)
  | replayed (replay : ClientReplay)

/-- What a delivery awaits. -/
inductive DeliveryStage where
  /-- `classifyDedup`: `getClientVerdict`. -/
  | readVerdict
  /-- `classifyDedup`: `getClientFloor`. -/
  | readFloor
  /-- `executor.run`. -/
  | run
  /-- `commitBatch` of the global store. -/
  | flushGlobal (result : HandlerResult) (commitTs : Nat)
  /-- `handleDedupError`: `getClientVerdict` of the delivery that committed. -/
  | readWinner (e : ThrownError)
  /-- `handleDedupError`: `recordClientVerdict`. -/
  | recordFailed (e : ThrownError)
  /-- `recordZeroWriteApplied`. -/
  | recordZero (value : Returned) (commitTs : Nat)
  /-- `fillWriteMutationValue`. -/
  | fillValue (value : Returned) (commitTs : Nat)
  /-- `runMutation` has resolved. -/
  | resolved (result : RunMutationResult)
  /-- `runMutation` has rejected. -/
  | rejected (e : ThrownError)
  /-- `processMutation` has returned. -/
  | answered

namespace DeliveryStage

def isRun : DeliveryStage → Bool
  | .run => true
  | _ => false

/-- The mutation is run, and its writes are made. -/
def isPastWrites : DeliveryStage → Bool
  | .readVerdict | .readFloor | .run | .flushGlobal _ _ => false
  | _ => true

def isAnswered : DeliveryStage → Bool
  | .answered => true
  | _ => false

/-- It is about to write its receipt. -/
@[simp] def isRecording : DeliveryStage → Bool
  | .recordFailed _ | .recordZero _ _ => true
  | _ => false

theorem isAnswered_iff {stage : DeliveryStage} : stage.isAnswered = true ↔ stage = .answered := by
  cases stage <;> simp [isAnswered]

end DeliveryStage

structure MutationDelivery where
  sessionId : String
  identity : Option String
  dedup : Option DedupKey
  stage : DeliveryStage
  /-- How the run ended, once it did. -/
  outcome : Option RunOutcome
  /-- The timestamp of its commit, if it wrote documents. -/
  committedTs : Option Nat

namespace MutationDelivery

/-- The key of its receipt; anonymous clients have the identity `""`. -/
def key (d : MutationDelivery) : Option ReceiptKey :=
  d.dedup.map fun r => ⟨d.identity.getD "", r.clientId, r.seq⟩

/-- Where an error of `executor.run` leads. -/
def caught (d : MutationDelivery) (e : ThrownError) : DeliveryStage :=
  if d.dedup.isNone then .rejected e
  else if e.isDup then .readWinner e
  else if e.isRetryableError then .rejected e
  else .recordFailed e

/-- The rest of `executor.run` and `runMutation` after the commit and the flush. -/
def afterCommit (d : MutationDelivery) (committed : Bool) (result : HandlerResult)
    (commitTs : Nat) :
    DeliveryStage :=
  match result with
  | .commitThenThrow message => d.caught ⟨message, none, false, some commitTs⟩
  | .value v =>
    if d.dedup.isNone then .resolved (.fresh v commitTs)
    else if committed then .fillValue v commitTs
    else .recordZero v commitTs

theorem dedup_isNone_of_key {d : MutationDelivery} {k : ReceiptKey} (h : d.key = some k) :
    d.dedup.isNone = false := by
  cases hdedup : d.dedup with
  | none => simp [key, hdedup] at h
  | some r => rfl

end MutationDelivery

/-- `replayToRunResult`; a recorded value that cannot be decoded throws. -/
def replayToRunResult (r : ClientReplay) : DeliveryStage :=
  match r with
  | .applied commitTs (some value) =>
    match jsonToConvex value with
    | some v => .resolved (.replayed (.applied commitTs (some (convexToJson v))))
    | none => .rejected (.plain "Cannot decode JSON")
  | _ => .resolved (.replayed r)

inductive MutationResponse where
  /-- Without a value if a replay has none (`valueMissing`). -/
  | success (value : Option Value) (ts : Option Nat) (replayed : Bool)
  | failure (error : String) (code : Option String)
  deriving DecidableEq

/-- `mutationResponseTs`. -/
def mutationResponseTs (commitTs : Nat) : Option Nat := if 0 < commitTs then some commitTs else none

/-- A response with the delivery it is for. A transient failure is a retryable error; every other
response is terminal. -/
structure Answer where
  delivery : Nat
  key : Option ReceiptKey
  response : MutationResponse
  terminal : Bool

/-! ## The node -/

structure NodeCommit where
  ts : Nat
  /-- The key of the receipt it carries. -/
  key : Option ReceiptKey
  deriving DecidableEq

/-- Where the drain is with an invalidation. -/
inductive DrainPhase where
  /-- The sessions other than the origin are notified. -/
  | notifying
  /-- It awaits the gate of the commit. -/
  | parked
  | finishing
  deriving DecidableEq

structure Invalidation where
  commitTs : Nat
  origin : Option String
  deriving DecidableEq

structure MutationNode where
  receipts : ReceiptStore
  commits : List NodeCommit
  /-- The batches that were applied to the global store. -/
  globalBatches : List (Option ReceiptKey)
  lastTs : Nat
  /-- The connected sessions, with `supportsQueryDiff`. -/
  sessions : OrderedMap String Bool
  /-- All session ids so far. -/
  sessionIds : List String
  /-- `originResponseGates`: the session by commit timestamp. -/
  gates : OrderedMap Nat String
  queue : List Invalidation
  draining : Option (Invalidation × DrainPhase)
  deliveries : OrderedMap Nat MutationDelivery
  nextDelivery : Nat
  /-- The responses, newest first. -/
  answers : List Answer

inductive NodeEvent where
  | connect (sessionId : String)
  /-- A `Connect` message says whether the client can take diffs. -/
  | supportsQueryDiff (sessionId : String) (supported : Bool)
  | disconnect (sessionId : String)
  /-- A `Mutation`, or a unit of a `MutationBatch`. -/
  | deliver (sessionId : String) (identity : Option String) (dedup : Option DedupKey)
  | readVerdict (i : Nat)
  | readFloor (i : Nat)
  | runEnds (i : Nat) (outcome : RunOutcome) (now : Nat)
  /-- `commitBatch` is applied, or fails and is not. -/
  | flushGlobal (i : Nat) (failure : Option ThrownError)
  | readWinner (i : Nat)
  | recordFailed (i : Nat) (now : Nat)
  | recordZero (i : Nat) (now : Nat)
  | fillValue (i : Nat)
  | respond (i : Nat)
  /-- `ackedThrough` of a `Connect`. -/
  | prune (identity : Option String) (clientId : String) (ackedThrough : Nat)
  | sweep (beforeMs : Nat)
  /-- A commit that has no session as its origin. -/
  | commitElsewhere (ts : Nat)
  | drainNext
  /-- The others are notified; whether the commit touches a subscription of its origin. -/
  | drainOrigin (affected : Bool)
  | drainDone

/-- The delivery an event is of. -/
def NodeEvent.delivery : NodeEvent → Option Nat
  | .readVerdict i | .readFloor i | .runEnds i _ _ | .flushGlobal i _ | .readWinner i
  | .recordFailed i _ | .recordZero i _ | .fillValue i | .respond i => some i
  | _ => none

namespace MutationNode

def initial : MutationNode :=
  ⟨.empty, [], [], 0, .empty, [], .empty, [], none, .empty, 0, []⟩

def setStage (i : Nat) (d : MutationDelivery) (stage : DeliveryStage) (n : MutationNode) :
    MutationNode :=
  { n with deliveries := n.deliveries.set i { d with stage := stage } }

/-- `registerOriginResponseGate`. -/
def registerOriginResponseGate (commitTs : Nat) (sessionId : String) (n : MutationNode) :
    MutationNode :=
  if n.sessions.get? sessionId ≠ some true then n
  else if n.gates.has commitTs then n
  else { n with gates := n.gates.set commitTs sessionId }

/-- `releaseOriginResponseGate`. -/
def releaseOriginResponseGate (commitTs : Nat) (n : MutationNode) : MutationNode :=
  { n with gates := n.gates.erase commitTs }

/-- A commit lands and is fanned out. -/
def commit (ts : Nat) (key : Option ReceiptKey) (origin : Option String) (n : MutationNode) :
    MutationNode :=
  let n := { n with
    commits := ⟨ts, key⟩ :: n.commits
    lastTs := ts
    queue := n.queue ++ [⟨ts, origin⟩] }
  origin.elim n fun sessionId => n.registerOriginResponseGate ts sessionId

def answer (i : Nat) (d : MutationDelivery) (response : MutationResponse) (terminal : Bool)
    (n : MutationNode) : MutationNode :=
  { n.setStage i d .answered with answers := ⟨i, d.key, response, terminal⟩ :: n.answers }

def onReceipts (f : ReceiptStore → ReceiptStore) (n : MutationNode) : MutationNode :=
  { n with receipts := f n.receipts }

variable (fits : Value → Bool)

/-- `cappedValueJson`. -/
def capped (value : Value) : Option Value := if fits value then some value else none

/-- The documents of a run land, with the receipt of the delivery in the same transaction. -/
def commitDocuments (i : Nat) (d : MutationDelivery) (result : HandlerResult) (ts now : Nat)
    (n : MutationNode) : MutationNode :=
  let landed (receipts : ReceiptStore) :=
    ((n.onReceipts fun _ => receipts).commit ts d.key (some d.sessionId)).setStage i
      { d with committedTs := some ts } (d.afterCommit true result ts)
  match d.key with
  | none => landed n.receipts
  | some k =>
    match n.receipts.insertReceipt k ts now with
    | none => n.setStage i d (d.caught .clientMutationDup)
    | some receipts => landed receipts

/-- The run of a delivery ends. A commit takes a timestamp above all before it. -/
def runEnds (i : Nat) (d : MutationDelivery) (outcome : RunOutcome) (now : Nat) (n : MutationNode) :
    Option MutationNode :=
  let d := { d with outcome := some outcome }
  match outcome with
  | .threw e => if e.isDup ∨ e.committedTs.isSome then none else some (n.setStage i d (d.caught e))
  | .returned .nothing result ts => some (n.setStage i d (d.afterCommit false result ts))
  | .returned .globalTables result ts => some (n.setStage i d (.flushGlobal result ts))
  | .returned .documents result ts =>
    if ts ≤ n.lastTs then none else some (n.commitDocuments i d result ts now)

def flushGlobal (i : Nat) (d : MutationDelivery) (result : HandlerResult) (commitTs : Nat)
    (failure : Option ThrownError) (n : MutationNode) : MutationNode :=
  match failure with
  | some e => n.setStage i d (d.caught e)
  | none =>
    { n with globalBatches := d.key :: n.globalBatches }.setStage i d
      (d.afterCommit false result commitTs)

/-- The record of a failure. -/
def failedRecord (e : ThrownError) (now : Nat) : ClientVerdictRecord :=
  ⟨.failed, 0, none, some e.recordedCode, now⟩

/-- The record of a mutation that wrote no documents. -/
def zeroWriteRecord (commitTs : Nat) (json : Value) (now : Nat) : ClientVerdictRecord :=
  ⟨.applied, commitTs, capped fits json, none, now⟩

/-- The end of `processMutation`. -/
def respond (i : Nat) (d : MutationDelivery) (n : MutationNode) : DeliveryStage →
    Option MutationNode
  | .resolved (.fresh v commitTs) =>
    match v.encode with
    | .ok json => some ((n.answer i d (.success (some json) (mutationResponseTs commitTs) false)
        true).releaseOriginResponseGate commitTs)
    -- the error of `convexToJson` is caught, and carries no timestamp
    | .error message => some (n.answer i d (.failure message none) true)
  | .resolved (.replayed (.applied commitTs value)) =>
    some (n.answer i d (.success value (mutationResponseTs commitTs) true) true)
  | .resolved (.replayed (.failed _ code)) | .resolved (.replayed (.stale code)) =>
    some (n.answer i d (.failure code (some code)) true)
  | .rejected e =>
    let n := e.committedTs.elim n fun ts => n.releaseOriginResponseGate ts
    some (n.answer i d (.failure e.message e.sentCode) (!e.isRetryableError))
  | _ => none

/-- An event of the delivery `d`. -/
def stepDelivery (i : Nat) (d : MutationDelivery) (n : MutationNode) : NodeEvent →
    Option MutationNode
  | .readVerdict _ =>
    match d.stage, d.key with
    | .readVerdict, some k => some (n.setStage i d
        (((n.receipts.getClientVerdict k).map fun r => replayToRunResult (replayFromRecord r)).getD
          .readFloor))
    | _, _ => none
  | .readFloor _ =>
    match d.stage, d.key with
    | .readFloor, some k =>
      some (n.setStage i d (if n.receipts.floorCovers k then
        replayToRunResult staleReplay else .run))
    | _, _ => none
  | .runEnds _ outcome now =>
    match d.stage with
    | .run => n.runEnds i d outcome now
    | _ => none
  | .flushGlobal _ failure =>
    match d.stage with
    | .flushGlobal result commitTs =>
      if failure.any fun e => e.isDup || e.committedTs.isSome then none
      else some (n.flushGlobal i d result commitTs failure)
    | _ => none
  | .readWinner _ =>
    match d.stage, d.key with
    | .readWinner e, some k => some (n.setStage i d
        (((n.receipts.getClientVerdict k).map fun r => replayToRunResult (replayFromRecord r)).getD
          (.rejected e)))
    | _, _ => none
  | .recordFailed _ now =>
    match d.stage, d.key with
    | .recordFailed e, some k =>
      some ((n.onReceipts (·.recordClientVerdict k (failedRecord e now))).setStage i d
        (.rejected e))
    | _, _ => none
  | .recordZero _ now =>
    match d.stage, d.key with
    | .recordZero v commitTs, some k =>
      match v.encode with
      | .ok json =>
        some ((n.onReceipts (·.recordClientVerdict k
          (zeroWriteRecord fits commitTs json now))).setStage i d (.resolved (.fresh v commitTs)))
      | .error message => some (n.setStage i d (.rejected (.plain message)))
    | _, _ => none
  | .fillValue _ =>
    match d.stage, d.key with
    | .fillValue v commitTs, some k =>
      match v.encode with
      | .ok json =>
          some ((n.onReceipts (·.updateClientVerdictValue k (capped fits json))).setStage i d
          (.resolved (.fresh v commitTs)))
      | .error _ => some (n.setStage i d (.resolved (.fresh v commitTs)))
    | _, _ => none
  | .respond _ => n.respond i d d.stage
  | _ => none

/-- The session of an invalidation's origin, if it can take diffs. -/
def diffCapableOrigin (n : MutationNode) (inv : Invalidation) : Bool :=
  inv.origin.any fun sessionId => n.sessions.get? sessionId = some true

def disconnect (sessionId : String) (n : MutationNode) : MutationNode :=
  { n with
    sessions := n.sessions.erase sessionId
    gates := n.gates.filterMap fun _ s => if s = sessionId then none else some s }

/-- A delivery begins with the classification if it has a dedup key. -/
def deliver (sessionId : String) (identity : Option String) (dedup : Option DedupKey)
    (n : MutationNode) : MutationNode :=
  { n with
    deliveries := n.deliveries.set n.nextDelivery
      ⟨sessionId, identity, dedup, if dedup.isSome then .readVerdict else .run, none, none⟩
    nextDelivery := n.nextDelivery + 1 }

def step (n : MutationNode) : NodeEvent → Option MutationNode
  | .connect sessionId =>
    if sessionId ∈ n.sessionIds then none
    else some { n with
      sessions := n.sessions.set sessionId false, sessionIds := sessionId :: n.sessionIds }
  | .supportsQueryDiff sessionId supported =>
    if n.sessions.has sessionId then some { n with sessions := n.sessions.set sessionId supported }
    else none
  | .disconnect sessionId => if n.sessions.has sessionId then
      some (n.disconnect sessionId) else none
  | .deliver sessionId identity dedup =>
    if n.sessions.has sessionId then some (n.deliver sessionId identity dedup) else none
  | .prune identity clientId ackedThrough =>
    some (n.onReceipts (·.pruneClientMutations (identity.getD "") clientId ackedThrough))
  | .sweep beforeMs => some (n.onReceipts (·.sweepExpiredClientMutations beforeMs))
  | .commitElsewhere ts => if ts ≤ n.lastTs then none else some (n.commit ts none none)
  | .drainNext =>
    match n.draining, n.queue with
    | none, inv :: queue => some { n with draining := some (inv, .notifying), queue := queue }
    | _, _ => none
  | .drainOrigin affected =>
    match n.draining with
    | some (inv, .notifying) =>
      let parks := affected && n.diffCapableOrigin inv && n.gates.has inv.commitTs
      some { n with draining := some (inv, if parks then .parked else .finishing) }
    | _ => none
  | .drainDone =>
    match n.draining with
    | some (_, .finishing) => some { n with draining := none }
    -- the gate is resolved when it is dropped
    | some (inv, .parked) =>
      if n.gates.has inv.commitTs then none else some { n with draining := none }
    | _ => none
  | .readVerdict i => (n.deliveries.get? i).bind fun d => n.stepDelivery fits i d (.readVerdict i)
  | .readFloor i => (n.deliveries.get? i).bind fun d => n.stepDelivery fits i d (.readFloor i)
  | .runEnds i outcome now =>
    (n.deliveries.get? i).bind fun d => n.stepDelivery fits i d (.runEnds i outcome now)
  | .flushGlobal i failure =>
    (n.deliveries.get? i).bind fun d => n.stepDelivery fits i d (.flushGlobal i failure)
  | .readWinner i => (n.deliveries.get? i).bind fun d => n.stepDelivery fits i d (.readWinner i)
  | .recordFailed i now =>
    (n.deliveries.get? i).bind fun d => n.stepDelivery fits i d (.recordFailed i now)
  | .recordZero i now =>
    (n.deliveries.get? i).bind fun d => n.stepDelivery fits i d (.recordZero i now)
  | .fillValue i => (n.deliveries.get? i).bind fun d => n.stepDelivery fits i d (.fillValue i)
  | .respond i => (n.deliveries.get? i).bind fun d => n.stepDelivery fits i d (.respond i)

end MutationNode

/-! ## What a step can do -/

/-- The moves of a delivery that change nothing but its stage. -/
inductive StageMove (receipts : ReceiptStore) (i : Nat) (d : MutationDelivery) :
    NodeEvent → Option RunOutcome → DeliveryStage → Prop
  | verdictFound {k r} : d.stage = .readVerdict → d.key = some k →
      receipts.getClientVerdict k = some r →
      StageMove receipts i d (.readVerdict i) d.outcome (replayToRunResult (replayFromRecord r))
  | verdictMissing {k} : d.stage = .readVerdict → d.key = some k →
      receipts.getClientVerdict k = none → StageMove receipts i d (.readVerdict i)
        d.outcome .readFloor
  | stale {k} : d.stage = .readFloor → d.key = some k → receipts.floorCovers k = true →
      StageMove receipts i d (.readFloor i) d.outcome (.resolved (.replayed staleReplay))
  | runs {k} : d.stage = .readFloor → d.key = some k → receipts.floorCovers k = false →
      StageMove receipts i d (.readFloor i) d.outcome .run
  | threw {e now} : d.stage = .run → e.isDup = false → e.committedTs = none →
      StageMove receipts i d (.runEnds i (.threw e) now) (some (.threw e)) (d.caught e)
  | wroteNothing {result ts now} : d.stage = .run →
      StageMove receipts i d (.runEnds i (.returned .nothing result ts) now)
        (some (.returned .nothing result ts)) (d.afterCommit false result ts)
  | stagedGlobal {result ts now} : d.stage = .run →
      StageMove receipts i d (.runEnds i (.returned .globalTables result ts) now)
        (some (.returned .globalTables result ts)) (.flushGlobal result ts)
  | duplicate {k result ts now} : d.stage = .run → d.key = some k →
      receipts.mutations.has k = true →
      StageMove receipts i d (.runEnds i (.returned .documents result ts) now)
        (some (.returned .documents result ts)) (.readWinner .clientMutationDup)
  | flushFailed {result ts e} : d.stage = .flushGlobal result ts → e.isDup = false →
      e.committedTs = none →
      StageMove receipts i d (.flushGlobal i (some e)) d.outcome (d.caught e)
  | winnerFound {e k r} : d.stage = .readWinner e → d.key = some k →
      receipts.getClientVerdict k = some r →
      StageMove receipts i d (.readWinner i) d.outcome (replayToRunResult (replayFromRecord r))
  | winnerMissing {e k} : d.stage = .readWinner e → d.key = some k →
      receipts.getClientVerdict k = none →
        StageMove receipts i d (.readWinner i) d.outcome (.rejected e)
  | zeroUnencodable {v ts now message} : d.stage = .recordZero v ts → v.encode = .error message →
      StageMove receipts i d (.recordZero i now) d.outcome (.rejected (.plain message))
  | fillUnencodable {v ts message} : d.stage = .fillValue v ts → v.encode = .error message →
      StageMove receipts i d (.fillValue i) d.outcome (.resolved (.fresh v ts))

/-- The response that a delivery is given, whether it is terminal, and the gate that is released. -/
inductive Answers : DeliveryStage → MutationResponse → Bool → Option Nat → Prop
  | fresh {v ts json} : v.encode = .ok json →
      Answers (.resolved (.fresh v ts)) (.success (some json) (mutationResponseTs ts) false)
        true (some ts)
  | unencodable {v ts message} : v.encode = .error message →
      Answers (.resolved (.fresh v ts)) (.failure message none) true none
  | applied {ts value} : Answers (.resolved (.replayed (.applied ts value)))
      (.success value (mutationResponseTs ts) true) true none
  | failed {ts code} : Answers (.resolved (.replayed (.failed ts code)))
      (.failure code (some code)) true none
  | stale {code} : Answers (.resolved (.replayed (.stale code)))
      (.failure code (some code)) true none
  | rejected {e} : Answers (.rejected e) (.failure e.message e.sentCode) (!e.isRetryableError)
      e.committedTs

namespace MutationNode

/-- Release a gate, if there is one to release. -/
def releaseGate (ts : Option Nat) (n : MutationNode) : MutationNode :=
  ts.elim n fun ts => n.releaseOriginResponseGate ts

theorem releaseGate_eq (ts : Option Nat) (n : MutationNode) :
    ∃ gates, n.releaseGate ts = { n with gates := gates } := by
  cases ts <;> exact ⟨_, rfl⟩

/-- What an event of the delivery `d` can do. -/
inductive DeliveryStepped (fits : Value → Bool) (n : MutationNode) (i : Nat)
    (d : MutationDelivery) : NodeEvent → MutationNode → Prop
  | moved {ev outcome stage} : StageMove n.receipts i d ev outcome stage →
      DeliveryStepped fits n i d ev (n.setStage i { d with outcome := outcome } stage)
  | committed {result ts now receipts} : d.stage = .run → n.lastTs < ts →
      (∀ k, d.key = some k → n.receipts.insertReceipt k ts now = some receipts) →
      (d.key = none → receipts = n.receipts) →
      DeliveryStepped fits n i d (.runEnds i (.returned .documents result ts) now)
        (((n.onReceipts fun _ => receipts).commit ts d.key
        (some d.sessionId)).setStage i
          { d with outcome := some (.returned .documents result ts), committedTs := some ts }
          (d.afterCommit true result ts))
  | flushed {ev result ts} : d.stage = .flushGlobal result ts →
      DeliveryStepped fits n i d ev
        ({ n with globalBatches := d.key :: n.globalBatches }.setStage i d
        (d.afterCommit false result ts))
  | failed {ev e k now} : d.stage = .recordFailed e → d.key = some k →
      DeliveryStepped fits n i d ev ((n.onReceipts (·.recordClientVerdict k
        (failedRecord e now))).setStage i d (.rejected e))
  | recorded {ev v ts k json now} : d.stage = .recordZero v ts → d.key = some k →
      v.encode = .ok json → DeliveryStepped fits n i d ev ((n.onReceipts (·.recordClientVerdict k
        (zeroWriteRecord fits ts json now))).setStage i d (.resolved (.fresh v ts)))
  | filled {ev v ts k json} : d.stage = .fillValue v ts → d.key = some k → v.encode = .ok json →
      DeliveryStepped fits n i d ev ((n.onReceipts (·.updateClientVerdictValue k
        (capped fits json))).setStage i d (.resolved (.fresh v ts)))
  | answered {ev response terminal ts} : Answers d.stage response terminal ts →
      DeliveryStepped fits n i d ev ((n.answer i d response terminal).releaseGate ts)

variable {fits : Value → Bool} {n n' : MutationNode} {i : Nat} {d : MutationDelivery}

theorem deliveryStepped_commitDocuments {result : HandlerResult} {ts now : Nat}
    (hstage : d.stage = .run) (hts : n.lastTs < ts) :
    DeliveryStepped fits n i d (.runEnds i (.returned .documents result ts) now)
      (n.commitDocuments i { d with outcome := some (.returned .documents result ts) }
        result ts now) := by
  rw [commitDocuments]
  split
  · rename_i hkey
    have hkey : d.key = none := hkey
    refine .committed hstage hts (fun k hk => ?_) fun _ => rfl
    rw [hkey] at hk
    cases hk
  · rename_i k hkey
    have hkey : d.key = some k := hkey
    split
    · rename_i hinsert
      have hhas : n.receipts.mutations.has k = true := by
        by_contra hno
        rw [ReceiptStore.insertReceipt, if_neg hno] at hinsert
        cases hinsert
      have hsome : d.dedup.isNone = false := MutationDelivery.dedup_isNone_of_key hkey
      have hcaught : MutationDelivery.caught
        { d with outcome := some (.returned .documents result ts) }
          .clientMutationDup = .readWinner .clientMutationDup := by
        rw [MutationDelivery.caught, if_neg (by simp [hsome])]
        rfl
      rw [hcaught]
      exact .moved (.duplicate hstage hkey hhas)
    · rename_i receipts hinsert
      refine .committed hstage hts (fun k' hk' => ?_) fun hnone => ?_
      · rwa [← Option.some.inj (hkey.symm.trans hk')]
      · rw [hkey] at hnone
        cases hnone

theorem answers_of_respond {stage : DeliveryStage} (h : n.respond i d stage = some n') :
    ∃ response terminal ts, Answers stage response terminal ts ∧
      n' = (n.answer i d response terminal).releaseGate ts := by
  unfold respond at h
  split at h
  · split at h
    · rename_i json hjson
      exact ⟨_, _, _, .fresh hjson, (Option.some.inj h).symm⟩
    · rename_i message hmessage
      exact ⟨_, _, _, .unencodable hmessage, (Option.some.inj h).symm⟩
  · exact ⟨_, _, _, .applied, (Option.some.inj h).symm⟩
  · exact ⟨_, _, _, .failed, (Option.some.inj h).symm⟩
  · exact ⟨_, _, _, .stale, (Option.some.inj h).symm⟩
  · rename_i e
    refine ⟨_, _, _, .rejected, (Option.some.inj h).symm.trans ?_⟩
    cases e.committedTs <;> rfl
  · cases h

theorem deliveryStepped_of_stepDelivery {ev : NodeEvent} (hev : ev.delivery = some i)
    (h : n.stepDelivery fits i d ev = some n') : DeliveryStepped fits n i d ev n' := by
  cases ev with
  | readVerdict j =>
    cases hev
    simp only [stepDelivery] at h
    split at h
    · rename_i k hstage hkey
      cases h
      cases hr : n.receipts.getClientVerdict k with
      | none => exact .moved (.verdictMissing hstage hkey hr)
      | some r => exact .moved (.verdictFound hstage hkey hr)
    · cases h
  | readFloor j =>
    cases hev
    simp only [stepDelivery] at h
    split at h
    · rename_i k hstage hkey
      cases h
      cases hf : n.receipts.floorCovers k with
      | false => exact .moved (.runs hstage hkey hf)
      | true => exact .moved (.stale hstage hkey hf)
    · cases h
  | runEnds j outcome now =>
    cases hev
    simp only [stepDelivery] at h
    split at h
    · rename_i hstage
      cases outcome with
      | threw e =>
        obtain ⟨hne, h⟩ := ite_none_left_eq_some.1 h
        cases h
        obtain ⟨hdup, hts⟩ : e.isDup = false ∧ e.committedTs = none := by simpa using hne
        exact .moved (.threw hstage hdup hts)
      | returned target result ts =>
        cases target with
        | nothing =>
          cases h
          exact .moved (.wroteNothing hstage)
        | globalTables =>
          cases h
          exact .moved (.stagedGlobal hstage)
        | documents =>
          obtain ⟨hts, h⟩ := ite_none_left_eq_some.1 h
          cases h
          exact deliveryStepped_commitDocuments hstage (not_le.1 hts)
    · cases h
  | flushGlobal j failure =>
    cases hev
    simp only [stepDelivery] at h
    split at h
    · rename_i result ts hstage
      obtain ⟨hne, h⟩ := ite_none_left_eq_some.1 h
      cases h
      cases failure with
      | none => exact .flushed hstage
      | some e =>
        obtain ⟨hdup, hts⟩ : e.isDup = false ∧ e.committedTs = none := by simpa using hne
        exact .moved (.flushFailed hstage hdup hts)
    · cases h
  | readWinner j =>
    cases hev
    simp only [stepDelivery] at h
    split at h
    · rename_i e k hstage hkey
      cases h
      cases hr : n.receipts.getClientVerdict k with
      | none => exact .moved (.winnerMissing hstage hkey hr)
      | some r => exact .moved (.winnerFound hstage hkey hr)
    · cases h
  | recordFailed j now =>
    simp only [stepDelivery] at h
    split at h
    · rename_i e k hstage hkey
      cases h
      exact .failed hstage hkey
    · cases h
  | recordZero j now =>
    cases hev
    simp only [stepDelivery] at h
    split at h
    · rename_i v ts k hstage hkey
      split at h
      · rename_i json hjson
        cases h
        exact .recorded hstage hkey hjson
      · rename_i message hmessage
        cases h
        exact .moved (.zeroUnencodable hstage hmessage)
    · cases h
  | fillValue j =>
    cases hev
    simp only [stepDelivery] at h
    split at h
    · rename_i v ts k hstage hkey
      split at h
      · rename_i json hjson
        cases h
        exact .filled hstage hkey hjson
      · rename_i message hmessage
        cases h
        exact .moved (.fillUnencodable hstage hmessage)
    · cases h
  | respond j =>
    obtain ⟨response, terminal, ts, hanswers, rfl⟩ := answers_of_respond h
    exact .answered hanswers
  | _ => cases h

/-- Deliveries, receipts and keyed commits stay as they are. -/
structure Untouched (n n' : MutationNode) : Prop where
  receipts : n'.receipts = n.receipts
  deliveries : n'.deliveries = n.deliveries
  globalBatches : n'.globalBatches = n.globalBatches
  answers : n'.answers = n.answers
  nextDelivery : n'.nextDelivery = n.nextDelivery
  commits : n'.commits = n.commits ∨ ∃ ts, n'.commits = ⟨ts, none⟩ :: n.commits
  lastTs : n.lastTs ≤ n'.lastTs
  /-- The gates of a session stay no longer than it is connected. -/
  gates : ∀ {ts sessionId}, n'.gates.get? ts = some sessionId → n.gates.get? ts = some sessionId ∧
    (n.sessions.has sessionId = true → n'.sessions.has sessionId = true)

/-- What a step can do. -/
inductive NodeStepped (fits : Value → Bool) (n : MutationNode) : NodeEvent → MutationNode → Prop
  | delivery {ev n' i d} : ev.delivery = some i → n.deliveries.get? i = some d →
      DeliveryStepped fits n i d ev n' → NodeStepped fits n ev n'
  | deliver {sessionId identity dedup} : n.sessions.has sessionId = true →
      NodeStepped fits n (.deliver sessionId identity dedup) (n.deliver sessionId identity dedup)
  | prune {identity clientId ackedThrough} :
      NodeStepped fits n (.prune identity clientId ackedThrough)
      (n.onReceipts (·.pruneClientMutations (identity.getD "") clientId ackedThrough))
  | sweep {beforeMs} : NodeStepped fits n (.sweep beforeMs)
      (n.onReceipts (·.sweepExpiredClientMutations beforeMs))
  | untouched {ev n'} : Untouched n n' → NodeStepped fits n ev n'

theorem untouched_sessions {sessions : OrderedMap String Bool} {sessionIds : List String}
    (h : ∀ {sessionId}, n.sessions.has sessionId = true → sessions.has sessionId = true) :
    Untouched n { n with sessions := sessions, sessionIds := sessionIds } :=
  ⟨rfl, rfl, rfl, rfl, rfl, .inl rfl, le_rfl, fun hgate => ⟨hgate, h⟩⟩

theorem untouched_drain {queue : List Invalidation}
    {draining : Option (Invalidation × DrainPhase)} :
    Untouched n { n with queue := queue, draining := draining } :=
  ⟨rfl, rfl, rfl, rfl, rfl, .inl rfl, le_rfl, fun hgate => ⟨hgate, id⟩⟩

theorem untouched_disconnect {sessionId : String} : Untouched n (n.disconnect sessionId) := by
  refine ⟨rfl, rfl, rfl, rfl, rfl, .inl rfl, le_rfl, fun {ts s} hgate => ?_⟩
  replace hgate := (get?_filterMap _ _).symm.trans hgate
  obtain ⟨s', hs', hgate⟩ := bind_eq_some_iff.1 hgate
  obtain ⟨hne, hgate⟩ := ite_none_left_eq_some.1 hgate
  cases hgate
  refine ⟨hs', fun hhas => ?_⟩
  show ((n.sessions.erase sessionId).get? s).isSome = true
  rw [get?_erase, if_neg (Ne.symm hne)]
  exact hhas

theorem nodeStepped_of_step {ev : NodeEvent} (h : n.step fits ev = some n') :
    NodeStepped fits n ev n' := by
  have hdelivery : ∀ {j ev}, ev.delivery = some j →
      ((n.deliveries.get? j).bind fun d => n.stepDelivery fits j d ev) = some n' →
      NodeStepped fits n ev n' := by
    intro j ev hev h
    obtain ⟨d, hd, h⟩ := bind_eq_some_iff.1 h
    exact .delivery hev hd (deliveryStepped_of_stepDelivery hev h)
  have has_set : ∀ {a b} {sessionId : String}, n.sessions.has sessionId = true →
      (n.sessions.set a b).has sessionId = true := fun h =>
    (has_iff _).2 ((mem_keys_set _).2 (.inr ((has_iff _).1 h)))
  cases ev with
  | connect sessionId =>
    obtain ⟨-, h⟩ := ite_none_left_eq_some.1 h
    cases h
    exact .untouched (untouched_sessions has_set)
  | supportsQueryDiff sessionId supported =>
    obtain ⟨-, h⟩ := ite_none_right_eq_some.1 h
    cases h
    exact .untouched (untouched_sessions has_set)
  | disconnect sessionId =>
    obtain ⟨-, h⟩ := ite_none_right_eq_some.1 h
    cases h
    exact .untouched untouched_disconnect
  | deliver sessionId identity dedup =>
    obtain ⟨hsession, h⟩ := ite_none_right_eq_some.1 h
    cases h
    exact .deliver hsession
  | prune identity clientId ackedThrough =>
    cases h
    exact .prune
  | sweep beforeMs =>
    cases h
    exact .sweep
  | commitElsewhere ts =>
    obtain ⟨hts, h⟩ := ite_none_left_eq_some.1 h
    cases h
    exact .untouched ⟨rfl, rfl, rfl, rfl, rfl, .inr ⟨_, rfl⟩, (not_le.1 hts).le,
      fun hgate => ⟨hgate, id⟩⟩
  | drainNext | drainOrigin affected =>
    rw [step] at h
    split at h
    · cases h
      exact .untouched untouched_drain
    · cases h
  | drainDone =>
    rw [step] at h
    split at h
    · cases h
      exact .untouched untouched_drain
    · obtain ⟨-, h⟩ := ite_none_left_eq_some.1 h
      cases h
      exact .untouched untouched_drain
    · cases h
  | readVerdict j | readFloor j | runEnds j outcome now | flushGlobal j failure | readWinner j =>
    exact hdelivery rfl h
  | recordFailed j now | recordZero j now | fillValue j | respond j => exact hdelivery rfl h

section Commit

variable (n : MutationNode) (ts : Nat) (key : Option ReceiptKey) (origin : Option String)

theorem commit_eq : ∃ gates, n.commit ts key origin = { n with
    commits := ⟨ts, key⟩ :: n.commits
    lastTs := ts
    queue := n.queue ++ [⟨ts, origin⟩]
    gates := gates } := by
  cases origin with
  | none => exact ⟨_, rfl⟩
  | some sessionId =>
    show ∃ gates, registerOriginResponseGate ts sessionId _ = _
    unfold registerOriginResponseGate
    split
    · exact ⟨_, rfl⟩
    · split <;> exact ⟨_, rfl⟩

@[simp] theorem commits_commit : (n.commit ts key origin).commits = ⟨ts, key⟩ :: n.commits := by
  obtain ⟨_, h⟩ := commit_eq n ts key origin
  rw [h]

@[simp] theorem receipts_commit : (n.commit ts key origin).receipts = n.receipts := by
  obtain ⟨_, h⟩ := commit_eq n ts key origin
  rw [h]

@[simp] theorem deliveries_commit : (n.commit ts key origin).deliveries = n.deliveries := by
  obtain ⟨_, h⟩ := commit_eq n ts key origin
  rw [h]

@[simp] theorem nextDelivery_commit : (n.commit ts key origin).nextDelivery = n.nextDelivery := by
  obtain ⟨_, h⟩ := commit_eq n ts key origin
  rw [h]

@[simp] theorem globalBatches_commit :
    (n.commit ts key origin).globalBatches = n.globalBatches := by
  obtain ⟨_, h⟩ := commit_eq n ts key origin
  rw [h]

@[simp] theorem answers_commit : (n.commit ts key origin).answers = n.answers := by
  obtain ⟨_, h⟩ := commit_eq n ts key origin
  rw [h]

end Commit

/-- An event of a delivery sets this delivery only, which was not answered before. -/
theorem DeliveryStepped.frame {ev : NodeEvent} (h : DeliveryStepped fits n i d ev n') :
    d.stage.isAnswered = false ∧ n'.nextDelivery = n.nextDelivery ∧
      ∃ d', n'.deliveries = n.deliveries.set i d' ∧ d'.key = d.key ∧
        d'.sessionId = d.sessionId := by
  cases h with
  | moved hmove =>
    refine ⟨?_, rfl, _, rfl, rfl, rfl⟩
    cases hmove <;> rename_i hstage _ <;> simp [*, DeliveryStage.isAnswered]
  | committed hstage =>
    refine ⟨by rw [hstage]; rfl, ?_, ?_⟩
    · exact nextDelivery_commit ..
    · exact ⟨_, congrArg (OrderedMap.set · i _) (deliveries_commit ..), rfl, rfl⟩
  | flushed hstage | failed hstage | recorded hstage =>
    exact ⟨by rw [hstage]; rfl, rfl, _, rfl, rfl, rfl⟩
  | filled hstage => exact ⟨by rw [hstage]; rfl, rfl, _, rfl, rfl, rfl⟩
  | @answered _ _ _ ts hanswers =>
    obtain ⟨gates, hgates⟩ := releaseGate_eq ts (n.answer i d _ _)
    rw [hgates]
    refine ⟨?_, rfl, { d with stage := .answered }, rfl, rfl, rfl⟩
    cases hstage : d.stage with
    | answered =>
      rw [hstage] at hanswers
      cases hanswers
    | _ => rfl

/-- The deliveries are numbered below the next one. -/
def Numbered (n : MutationNode) : Prop := ∀ i d, n.deliveries.get? i = some d → i < n.nextDelivery

theorem numbered_initial : initial.Numbered := fun _ _ h => by cases h

theorem Numbered.step {ev : NodeEvent} (h : n.Numbered) (hstep : n.step fits ev = some n') :
    n'.Numbered := by
  intro j dj hj
  cases nodeStepped_of_step hstep with
  | delivery _ hd hs =>
    obtain ⟨-, hnext, d', hset, -⟩ := hs.frame
    rw [hset] at hj
    rw [hnext]
    rcases get?_set_eq_some.1 hj with ⟨rfl, -⟩ | ⟨-, hj⟩
    · exact h _ _ hd
    · exact h _ _ hj
  | deliver =>
    rcases get?_set_eq_some.1 hj with ⟨rfl, -⟩ | ⟨-, hj⟩
    · exact Nat.lt_succ_self _
    · exact Nat.lt_succ_of_lt (h _ _ hj)
  | prune => exact h _ _ hj
  | sweep => exact h _ _ hj
  | untouched hu =>
    rw [hu.deliveries] at hj
    exact hu.nextDelivery ▸ h _ _ hj

theorem Numbered.ne (h : n.Numbered) (hd : n.deliveries.get? i = some d) : n.nextDelivery ≠ i :=
  (h _ _ hd).ne'

end MutationNode

end Helipod
