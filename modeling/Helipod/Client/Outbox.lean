import Helipod.Client.OutboxStorage

/-!
# The client and its outbox

Model of the mutation side of `client/src/client.ts` and of `client/src/outbox-drain.ts`: calls of
`mutation`, their promises, the frames that go out, the resume handshake, the drain, the tokens, and
what a tab does with the records that it shares with other tabs.

A handler of the source runs to its next `await`; here each such piece is a function on `Tab`.
Writes to the store are started by a handler and take effect later, in the order in which they were
started; reads have a beginning and an end. Subscriptions are left out: of a transition only its
timestamp matters here, and whether one is still to come is an input of the handlers that ask.
-/

namespace Helipod

/-! ## State -/

/-- The options of a client, and the digest it uses. -/
structure OutboxConfig where
  /-- There is an outbox. -/
  outbox : Bool
  maxQueueSize : Nat
  chunkSize : Nat
  /-- `poisonPolicy` is `"pause"`. -/
  pauses : Bool
  /-- The mutations with an entry in `optimisticUpdates`. -/
  registered : String → Bool
  sha256Hex : String → String

/-- A mutation as it goes over the wire. -/
structure MutationBatchEntry where
  requestId : Nat
  call : Nat
  enqueuedUnder : Option String
  ref : Option ClientMutationRef
  deriving DecidableEq

inductive ClientFrame where
  | setAuth (token : Option String)
  | connect (held ackedThrough : List ClientMutationRef)
  | mutation (entry : MutationBatchEntry)
  | mutationBatch (entries : List MutationBatchEntry)
  deriving DecidableEq

/-- A frame that the server has still to answer on this connection. The mutations of a batch are
answered in order. -/
inductive OpenRequest where
  | mutations (requestIds : List Nat)
  | connect (held : List ClientMutationRef)
  deriving DecidableEq

def OpenRequest.requestIds : OpenRequest → List Nat
  | .mutations requestIds => requestIds
  | .connect _ => []

/-- How a promise of `mutation` ended. -/
inductive Settlement where
  | resolved
  | rejected (message : String) (code : Option String)
  deriving DecidableEq

/-- What a leader tells the other tabs about a mutation that it settled. -/
inductive OutboxBroadcast where
  | settled (ref : ClientMutationRef) (commitTs : Nat)
  | failed (ref : ClientMutationRef)
  deriving DecidableEq

def OutboxBroadcast.ref : OutboxBroadcast → ClientMutationRef
  | .settled ref _ | .failed ref => ref

/-- A digest that is being computed, and what it was asked for by. -/
inductive Digest where
  /-- `setAuth`. -/
  | token (token : String)
  /-- `setSessionFingerprint(null)`. -/
  | fallback (token : String)
  /-- `setSessionFingerprint` with a session. -/
  | session (key : String)
  deriving DecidableEq

/-- What a client knows about who is using it. -/
structure SessionIdentity where
  hasSetAuth : Bool
  lastAuthToken : Option String
  outboxFingerprint : String
  /-- The key of a managed session. -/
  sessionFingerprintKey : Option String
  /-- The digests that are not done. -/
  digests : List Digest
  deriving DecidableEq

/-- A mutation of the chunk in flight. -/
structure ChunkEntry where
  requestId : Nat
  ref : ClientMutationRef
  udfPath : String
  deriving DecidableEq

/-- How far `becomeLeader` has come. -/
inductive Hydration where
  | waiting
  /-- It leads and reads the store. -/
  | reading
  /-- The read is done. -/
  | read (entries : List OutboxEntry)
  /-- The log has the entries. -/
  | pruning
  | done
  deriving DecidableEq

structure Tab where
  reconciler : Reconciler
  /-- The requests with a pending promise. -/
  pendingMutationCallbacks : List Nat
  settlements : List (Nat × Settlement)
  nextRequestId : Nat
  outboxClientId : String
  outboxNextSeq : Nat
  outboxOrderCounter : Nat
  identity : SessionIdentity
  closed : Bool
  outboxArmed : Bool
  outboxConnectSent : Bool
  outboxAwaitingBaseline : Bool
  outboxPendingDrops : List Nat
  leader : Bool
  /-- `close` was called. -/
  stopped : Bool
  paused : Bool
  /-- The chunk in flight. The drain holds the entries themselves, so they may have left the log. -/
  active : Option (List ChunkEntry)
  hydration : Hydration
  /-- What `mirrorFromStore` has read and not yet gone through. -/
  mirrorRead : Option (List OutboxEntry)
  /-- The writes that were started and are not done, oldest first. -/
  writes : List OutboxWrite
  openRequests : List OpenRequest
  /-- The frames of this connection, newest first. -/
  sent : List ClientFrame
  /-- The frames of the connections before. -/
  sentBefore : List (List ClientFrame)
  posted : List OutboxBroadcast
  /-- The numbers that nobody waits for any more: the tab has learnt or decided how their mutation
  ended, or the mutation goes on under another number. The code keeps no such list. -/
  retired : List ClientMutationRef

namespace Tab

/-- `AUTH_REFRESH_UDF_PATH`. -/
def authRefreshUdfPath : String := "auth:refresh"

/-- The tab as it is constructed, with an id that was just minted. -/
def create (clientId : String) : Tab where
  reconciler := .initial
  pendingMutationCallbacks := []
  settlements := []
  nextRequestId := 0
  outboxClientId := clientId
  outboxNextSeq := 0
  outboxOrderCounter := 0
  identity := ⟨false, none, "anon", none, []⟩
  closed := false
  outboxArmed := false
  outboxConnectSent := false
  outboxAwaitingBaseline := false
  outboxPendingDrops := []
  leader := false
  stopped := false
  paused := false
  active := none
  hydration := .waiting
  mirrorRead := none
  writes := []
  openRequests := []
  sent := []
  sentBefore := []
  posted := []
  retired := []

variable (cfg : OutboxConfig) (updaters : Updaters)

def log (t : Tab) : MutationLog := t.reconciler.log

/-! ## Pieces -/

def onReconciler (f : Reconciler → Reconciler) (t : Tab) : Tab :=
  { t with reconciler := f t.reconciler }

/-- A frame that is sent while the transport is down is lost. -/
def send (frame : ClientFrame) (t : Tab) : Tab :=
  if t.closed then t else { t with sent := frame :: t.sent }

def startWrite (w : OutboxWrite) (t : Tab) : Tab := { t with writes := t.writes ++ [w] }

def post (b : OutboxBroadcast) (t : Tab) : Tab := { t with posted := b :: t.posted }

def retire (ref : ClientMutationRef) (t : Tab) : Tab := { t with retired := ref :: t.retired }

/-- `resolvePending` and `rejectPending`. -/
def settlePending (requestId : Nat) (s : Settlement) (t : Tab) : Tab :=
  if requestId ∈ t.pendingMutationCallbacks then
    { t with
      pendingMutationCallbacks := t.pendingMutationCallbacks.filter (· ≠ requestId)
      settlements := (requestId, s) :: t.settlements }
  else t

def resolvePending (requestId : Nat) : Tab → Tab := settlePending requestId .resolved

def rejectPending (requestId : Nat) (message : String) (code : Option String) : Tab → Tab :=
  settlePending requestId (.rejected message code)

def outboxDequeue (ref : ClientMutationRef) : Tab → Tab := startWrite (.dequeue ref)

def outboxUpdateStatus (ref : ClientMutationRef) (status : OutboxEntryStatus) : Tab → Tab :=
  startWrite (.updateStatus ref status none)

/-- A failure stays in the store as such. -/
def outboxMarkFailed (ref : ClientMutationRef) (message : String) (code : Option String) :
    Tab → Tab :=
  startWrite (.updateStatus ref .failed (some ⟨message, code⟩))

def toOutboxEntry (e : PendingMutation) (ref : ClientMutationRef) : OutboxEntry where
  __ := e
  ref := ref
  status := if e.status = .unsent then .unsent else .inflight
  error := none

def findOutboxEntry (ref : ClientMutationRef) (t : Tab) : Option (Nat × PendingMutation) :=
  t.log.entries.find? fun p => p.2.ref = some ref

/-- Durable, and nobody in this tab waits for it. -/
def isMirroredEntry (requestId : Nat) (e : PendingMutation) (t : Tab) : Bool :=
  e.durable && requestId ∉ t.pendingMutationCallbacks

/-- `max(now, counter + 1)`, the next position in the queue. -/
def nextOutboxOrder (now : Nat) (t : Tab) : Nat :=
  if now ≤ t.outboxOrderCounter then t.outboxOrderCounter + 1 else now

def hasOutboxBacklog (t : Tab) : Bool :=
  t.active.isSome || t.log.values.any fun e => e.status.isQueued

def outboxQueueDepth (t : Tab) : Nat :=
  (t.log.values.filter fun e => e.ref.isSome && !e.status.isCompleted).length

def batchEntry (requestId : Nat) (e : PendingMutation) : MutationBatchEntry :=
  ⟨requestId, e.call, e.enqueuedUnder, e.ref⟩

/-! ## Layers of settled mutations -/

def dropAfterBaseline (requestId : Nat) (t : Tab) : Tab :=
  if t.outboxAwaitingBaseline then
    { t with outboxPendingDrops := t.outboxPendingDrops ++ [requestId] }
  else t.onReconciler (.onVerdictAfterBaseline updaters requestId)

def markBaselineAdopted (t : Tab) : Tab :=
  t.outboxPendingDrops.foldl
    (fun t requestId => t.onReconciler (.onVerdictAfterBaseline updaters requestId))
    { t with outboxAwaitingBaseline := false, outboxPendingDrops := [] }

/-! ## Calls of `mutation` -/

/-- Put a mutation on the wire. -/
def sendMutation (requestId : Nat) (e : PendingMutation) (t : Tab) : Tab :=
  { (t.onReconciler (.modify requestId fun e => { e with status := .inflight })).send
      (.mutation (batchEntry requestId e)) with
    openRequests := t.openRequests ++ [.mutations [requestId]] }

/-- The entry of a new call. -/
def newEntry (call : Nat) (udfPath : String) (update useOutbox : Bool) (now : Nat) (t : Tab) :
    PendingMutation where
  call := call
  enqueuedUnder := t.identity.lastAuthToken
  udfPath := udfPath
  update := update
  touched := false
  status := .unsent
  ref := if useOutbox then some ⟨t.outboxClientId, t.outboxNextSeq⟩ else none
  order := if useOutbox then t.nextOutboxOrder now else 0
  identityFingerprint := if useOutbox then some t.identity.outboxFingerprint else none
  durable := false

/-- The promise of a new call is pending; it is sent or queued, and written down. -/
def issue (requestId : Nat) (entry : PendingMutation) (direct : Bool) (t : Tab) : Tab :=
  let t := { t with pendingMutationCallbacks := requestId :: t.pendingMutationCallbacks }
  let t := if direct then t.sendMutation requestId entry else t
  entry.ref.elim t fun ref => t.startWrite (.append requestId
    (toOutboxEntry { entry with status := if direct then .inflight else .unsent } ref))

/-- `mutation`. A full queue rejects the call and leaves no trace; an update that throws takes the
call back, but its number is spent. -/
def mutation (call : Nat) (udfPath : String) (update transient : Bool) (now : Nat)
    (t : Tab) : Tab :=
  let useOutbox := cfg.outbox && !transient
  if useOutbox && decide (cfg.maxQueueSize ≤ t.outboxQueueDepth) then t
  else
    let entry := t.newEntry call udfPath update useOutbox now
    let queueBusy := useOutbox && t.hasOutboxBacklog
    let (reconciler, threw) := t.reconciler.initiate updaters t.nextRequestId entry
    let t' :=
      { t with
        reconciler := reconciler
        nextRequestId := t.nextRequestId + 1
        outboxNextSeq := if useOutbox then t.outboxNextSeq + 1 else t.outboxNextSeq
        outboxOrderCounter := if useOutbox then entry.order else t.outboxOrderCounter }
    if threw then { t' with retired := entry.ref.toList ++ t.retired }
    else t'.issue t.nextRequestId entry (!(t.closed || queueBusy))

/-! ## Identity -/

end Tab

namespace SessionIdentity

variable (cfg : OutboxConfig)

/-- The fingerprint of a token, once its digest is done. -/
def fingerprintOf : Option String → String
  | none => "anon"
  | some s => if s = "" then "anon" else cfg.sha256Hex s

/-- The fingerprint of the last token: at once if there is no token, else when its digest is done.
-/
def followToken (digest : String → Digest) (s : SessionIdentity) : SessionIdentity :=
  match s.lastAuthToken with
  | none => { s with outboxFingerprint := "anon" }
  | some token =>
    if token = "" then { s with outboxFingerprint := "anon" }
    else { s with digests := s.digests ++ [digest token] }

def setAuth (token : Option String) (s : SessionIdentity) : SessionIdentity :=
  let s := { s with hasSetAuth := true, lastAuthToken := token }
  if cfg.outbox && s.sessionFingerprintKey.isNone then s.followToken .token else s

def sessionKey (sessionId : String) : String := "session:" ++ sessionId

def setSessionFingerprint (sessionId : Option String) (s : SessionIdentity) : SessionIdentity :=
  if !cfg.outbox then s
  else
    match sessionId with
    | none => { s with sessionFingerprintKey := none }.followToken .fallback
    | some id =>
      { s with
        sessionFingerprintKey := some (sessionKey id)
        digests := s.digests ++ [.session (sessionKey id)] }

/-- A digest is done. Whether it still counts depends on what asked for it. -/
def digestDone (d : Digest) (s : SessionIdentity) : SessionIdentity :=
  let s := { s with digests := s.digests.erase d }
  match d with
  | .token token =>
    if s.lastAuthToken = some token then { s with outboxFingerprint := cfg.sha256Hex token } else s
  | .fallback token =>
    if s.lastAuthToken = some token ∧ s.sessionFingerprintKey = none then
      { s with outboxFingerprint := cfg.sha256Hex token }
    else s
  | .session key =>
    if s.sessionFingerprintKey = some key then { s with outboxFingerprint := cfg.sha256Hex key }
    else s

end SessionIdentity

namespace Tab

variable (cfg : OutboxConfig) (updaters : Updaters)

def onIdentity (f : SessionIdentity → SessionIdentity) (t : Tab) : Tab :=
  { t with identity := f t.identity }

def setAuth (token : Option String) (t : Tab) : Tab :=
  (t.onIdentity (.setAuth cfg token)).send (.setAuth token)

/-! ## The drain -/

/-- Durable entries that may be sent, in the order of the queue. -/
def drainableEntries (t : Tab) : List (Nat × PendingMutation) :=
  (t.log.entries.filter fun p => p.2.ref.isSome && p.2.durable && p.2.status.isQueued).insertionSort
    fun a b => a.2.order ≤ b.2.order

def canDrain (t : Tab) : Bool :=
  t.leader && !t.stopped && !t.paused && t.active.isNone && !t.closed && t.outboxArmed &&
    !t.drainableEntries.isEmpty

/-- The status of an entry that the drain holds, in the log and in the store. -/
def setStatus (requestId : Nat) (ref : ClientMutationRef) (status : MutationStatus)
    (stored : OutboxEntryStatus) (t : Tab) : Tab :=
  (t.onReconciler (.modify requestId fun e => { e with status := status })).outboxUpdateStatus ref
    stored

def revertActive (t : Tab) : Tab :=
  (t.active.getD []).foldl (fun t c => t.setStatus c.requestId c.ref .unsent .unsent)
    { t with active := none }

def offlineIdentityChanged : String := "OFFLINE_IDENTITY_CHANGED"

/-- The number of a request, if the log has it. -/
def refOf (requestId : Nat) (t : Tab) : Option ClientMutationRef :=
  (t.log.get? requestId).bind (·.ref)

/-- A mutation is over, so its number is not waited for. -/
def retireRequest (requestId : Nat) (t : Tab) : Tab :=
  (t.refOf requestId).elim t fun ref => t.retire ref

/-- `drainSettleTerminal`. -/
def settleTerminal (requestId : Nat) (code : Option String) (message : String) (t : Tab) : Tab :=
  let ref := t.refOf requestId
  let t := (t.retireRequest requestId).rejectPending requestId message code
  let t := ref.elim t fun ref => t.outboxMarkFailed ref message code
  let t := t.onReconciler (.onMutationFailure updaters requestId)
  ref.elim t fun ref => t.post (.failed ref)

/-- `drainSettleApplied`. -/
def settleApplied (requestId : Nat) (replayed : Bool) (ts : Option Nat) (t : Tab) : Tab :=
  let ref := t.refOf requestId
  let t := (t.retireRequest requestId).resolvePending requestId
  let t := ref.elim t fun ref => t.outboxDequeue ref
  if !t.log.has requestId then t
  else
    let t :=
      if replayed then t.dropAfterBaseline updaters requestId
      else t.onReconciler (.onMutationSuccess updaters requestId ts)
    ref.elim t fun ref => t.post (.settled ref (ts.getD 0))

def identityMessage (udfPath : String) : String :=
  "mutation \"" ++ udfPath ++ "\" dropped: the session identity changed since it was queued"

/-- The loop of `flushChunk` over the entries that were drainable when it began. -/
def collectChunk (currentFingerprint : String) :
    List (Nat × PendingMutation) → List (Nat × PendingMutation) → Tab →
      Tab × List (Nat × PendingMutation)
  | [], chunk, t => (t, chunk)
  | (requestId, e) :: rest, chunk, t =>
    if cfg.chunkSize ≤ chunk.length then (t, chunk)
    else if e.identityFingerprint.isSome && e.identityFingerprint ≠ some currentFingerprint then
      collectChunk currentFingerprint rest chunk
        (t.settleTerminal updaters requestId (some offlineIdentityChanged)
          (identityMessage e.udfPath))
    else
      match e.ref with
      | none => collectChunk currentFingerprint rest chunk t
      | some ref => collectChunk currentFingerprint rest (chunk ++ [(requestId, e)])
          (t.setStatus requestId ref .inflight .inflight)

/-- Send a chunk; it is in flight then. -/
def sendBatch (chunk : List (Nat × PendingMutation)) (t : Tab) : Tab :=
  { t.send (.mutationBatch (chunk.map fun p => batchEntry p.1 p.2)) with
    active := some (chunk.filterMap fun p => p.2.ref.map fun ref => ⟨p.1, ref, p.2.udfPath⟩)
    openRequests := t.openRequests ++ [.mutations (chunk.map Prod.fst)] }

def flushChunk (t : Tab) : Tab :=
  let r := t.collectChunk cfg updaters t.identity.outboxFingerprint t.drainableEntries []
  if r.2.isEmpty then r.1 else r.1.sendBatch r.2

/-- The rest of a chunk after one of its mutations is settled. -/
def dropFromActive (requestId : Nat) (t : Tab) : Tab :=
  let rest := (t.active.getD []).filter fun c => c.requestId ≠ requestId
  { t with active := if rest.isEmpty then none else some rest }

def failedMessage (udfPath : String) : String := "mutation \"" ++ udfPath ++ "\" failed"

/-- The drain's part of a response to a mutation of its chunk. -/
def onDrainResponse (c : ChunkEntry) (result : MutationResult) (t : Tab) : Tab :=
  match result with
  | .success _ ts replayed _ =>
    (t.settleApplied updaters c.requestId replayed ts).dropFromActive c.requestId
  | .failure _ (some code) =>
    if cfg.pauses then { t with paused := true }.revertActive
    else (t.settleTerminal updaters c.requestId (some code)
      (failedMessage c.udfPath)).dropFromActive c.requestId
  | .failure _ none => t.revertActive

/-! ## The handshake -/

def sendConnect (t : Tab) : Tab :=
  let held := outboxHeldFromLog t.log
  { t.send (.connect held (outboxAckedThrough held)) with
    openRequests := t.openRequests ++ [.connect held] }

def beginBaselineAwait (expectTransition : Bool) (t : Tab) : Tab :=
  let t := { t with outboxAwaitingBaseline := expectTransition }
  if expectTransition then t else t.markBaselineAdopted updaters

def initiateHandshake (expectTransition : Bool) (t : Tab) : Tab :=
  if t.outboxConnectSent || t.closed || !cfg.outbox then t
  else
    ({ t with outboxConnectSent := true }.beginBaselineAwait updaters expectTransition).sendConnect

/-- A verdict that rejects: the promise, the record and the entry. -/
def settleRejected (ref : ClientMutationRef) (message : String) (code : Option String) (t : Tab) :
    Tab :=
  let entry := t.findOutboxEntry ref
  let t := t.retire ref
  let t := entry.elim t fun p => t.rejectPending p.1 message code
  let t := t.outboxMarkFailed ref message code
  entry.elim t fun p => t.onReconciler (.onMutationFailure updaters p.1)

def settleVerdict (t : Tab) (v : ClientMutationVerdict) : Tab :=
  let entry := t.findOutboxEntry v.ref
  match v.verdict with
  | .applied =>
    let t := t.retire v.ref
    let t := entry.elim t fun p => t.resolvePending p.1
    let t := t.outboxDequeue v.ref
    entry.elim t fun p => t.dropAfterBaseline updaters p.1
  | .failed => t.settleRejected updaters v.ref
      (failedMessage ((entry.map fun p => p.2.udfPath).getD "unknown")) v.code
  | .stale => t.settleRejected updaters v.ref "mutation disowned (STALE_CLIENT)"
      (some (v.code.getD "STALE_CLIENT"))
  | .unknown => t

/-- What is recorded with a mutation that a reset fails. -/
def resetMessage : String :=
  "the server disowned this client's mutation history (swept/foreign timeline)"

/-- The message of an `OfflineClientResetError`. -/
def offlineClientResetMessage : String :=
  resetMessage ++ "; its identity was reset and this in-flight-at-disconnect mutation, whose " ++
    "outcome is unknowable, was rejected rather than blindly resent"

def offlineClientReset : String := "OFFLINE_CLIENT_RESET"

/-- A reset fails an entry that the connection closed on. -/
def resetParked (requestId : Nat) (ref : Option ClientMutationRef) (t : Tab) : Tab :=
  let t := ref.elim t fun ref =>
    (t.retire ref).outboxMarkFailed ref resetMessage (some offlineClientReset)
  (t.rejectPending requestId offlineClientResetMessage (some offlineClientReset)).onReconciler
    (.onMutationFailure updaters requestId)

/-- Give an entry the next number, and write it down under that. -/
def renumber (now requestId : Nat) (e : PendingMutation) (t : Tab) : Tab :=
  let ref := ⟨t.outboxClientId, t.outboxNextSeq⟩
  let order := t.nextOutboxOrder now
  { t.onReconciler (.modify requestId fun e => { e with ref := some ref, order := order }) with
    outboxNextSeq := t.outboxNextSeq + 1
    outboxOrderCounter := order }.startWrite
      (.append requestId (toOutboxEntry { e with order := order } ref))

/-- A reset gives an unsent entry a number of the new client id. -/
def rekey (now requestId : Nat) (e : PendingMutation) (t : Tab) : Tab :=
  (e.ref.elim t fun ref => (t.retire ref).outboxDequeue ref).renumber now requestId e

/-- One entry of the loop in `onClientReset`. The loop goes over the entries as they were when it
began; one that has left the log meanwhile is still given a new number. -/
def resetEntry (now : Nat) (t : Tab) (p : Nat × PendingMutation) : Tab :=
  let e := (t.log.get? p.1).getD p.2
  match e.status with
  | .parked => t.resetParked updaters p.1 e.ref
  | .unsent => t.rekey now p.1 e
  | _ => t

/-- `onClientReset`, up to its first `await`. -/
def onClientReset (fresh : String) (now : Nat) (t : Tab) : Tab :=
  t.log.entries.foldl (resetEntry updaters now)
    { t with outboxClientId := fresh, outboxNextSeq := 0 }

def handleConnectAck (known : Bool) (results : List ClientMutationVerdict) (fresh : String)
    (now : Nat) (t : Tab) : Tab :=
  let t := { t with outboxArmed := true }
  if known then results.foldl (settleVerdict updaters) t else t.onClientReset updaters fresh now

/-! ## The connection -/

def undeliveredMessage : String :=
  "mutation outcome unknown: the connection closed before a response arrived"

/-- Write down that an entry was parked. -/
def noteParked (t : Tab) (requestId : Nat) : Tab :=
  (t.refOf requestId).elim t fun ref => t.outboxUpdateStatus ref .parked

/-- The entries and promises at a close. -/
def closeEntries (t : Tab) : Tab :=
  let rejected := t.reconciler.disposed t.outboxArmed .reject
  let parked := t.reconciler.disposed t.outboxArmed .park
  let t := t.onReconciler (.closeSession updaters t.outboxArmed)
  let t := rejected.foldl (fun t requestId => t.rejectPending requestId undeliveredMessage none) t
  parked.foldl noteParked t

/-- The next frames belong to another connection. -/
def hangUp (t : Tab) : Tab :=
  { t with openRequests := [], sent := [], sentBefore := t.sent :: t.sentBefore }

def onTransportClosed (t : Tab) : Tab :=
  ({ t with closed := true, outboxConnectSent := false }.revertActive.closeEntries updaters).hangUp

/-- `close`: the drain lets go of its chunk without a word. -/
def close (t : Tab) : Tab :=
  { t with stopped := true, leader := false, active := none }.onTransportClosed updaters

/-- Without an outbox, unsent mutations are sent again under their request ids. -/
def flushUnsent (t : Tab) : Tab :=
  (t.log.entries.filter fun p => p.2.status = .unsent).foldl (fun t p => t.sendMutation p.1 p.2) t

/-- The server does not know the identity of a new connection. -/
def replayAuth (t : Tab) : Tab :=
  if t.identity.hasSetAuth then t.send (.setAuth t.identity.lastAuthToken) else t

def onTransportReopened (expectTransition : Bool) (t : Tab) : Tab :=
  let t := { t with closed := false }.replayAuth
  if cfg.outbox then t.initiateHandshake cfg updaters expectTransition else t.flushUnsent

/-- A transition that is taken over. -/
def onTransition (endTs : Nat) (t : Tab) : Tab :=
  let t := t.onReconciler (.ingestTransition updaters endTs)
  if t.outboxAwaitingBaseline then t.markBaselineAdopted updaters else t

/-- A response outside the drain. -/
def onDirectResponse (requestId : Nat) (result : MutationResult) (t : Tab) : Tab :=
  let ref := t.refOf requestId
  let t := t.retireRequest requestId
  match result with
  | .success _ ts _ _ =>
    let t := (t.resolvePending requestId).onReconciler (.onMutationSuccess updaters requestId ts)
    ref.elim t fun ref => t.outboxDequeue ref
  | .failure error code =>
    let t := (t.rejectPending requestId error code).onReconciler
      (.onMutationFailure updaters requestId)
    ref.elim t fun ref => t.outboxMarkFailed ref error code

def onMutationResponse (requestId : Nat) (result : MutationResult) (t : Tab) : Tab :=
  match (t.active.getD []).find? fun c => c.requestId = requestId with
  | some c => t.onDrainResponse cfg updaters c result
  | none => t.onDirectResponse updaters requestId result

/-! ## Records of other sessions and tabs -/

/-- A queued refresh of the session is never replayed. -/
def dropNonReplayable (e : OutboxEntry) (t : Tab) : Tab :=
  (t.retire e.ref).outboxMarkFailed e.ref
    ("mutation \"" ++ e.udfPath ++
      "\" dropped at hydrate: durable auth-refresh replay is never safe")
    (some "NON_REPLAYABLE_MUTATION_DROPPED")

def hydratedEntry (e : OutboxEntry) : PendingMutation where
  __ := e
  update := cfg.registered e.udfPath
  touched := false
  status := .unsent
  ref := some e.ref
  durable := true

/-- `addHydratedEntry`: a record becomes an entry unless the log has it. -/
def addHydratedEntry (t : Tab) (e : OutboxEntry) : Tab :=
  if e.udfPath = authRefreshUdfPath then t.dropNonReplayable e
  else if (t.findOutboxEntry e.ref).isSome then t
  else
    { t.onReconciler (.addHydrated updaters t.nextRequestId (hydratedEntry cfg e)) with
      nextRequestId := t.nextRequestId + 1
      outboxOrderCounter := max t.outboxOrderCounter e.order }

/-- The part of `hydrateOnce` and of `mirrorFromStore` that adds entries. -/
def addActive (entries : List OutboxEntry) (t : Tab) : Tab :=
  (entries.filter fun e => e.status.isActive).foldl (addHydratedEntry cfg updaters) t

/-- What a read has of a number. -/
def storedFor (entries : List OutboxEntry) (ref : ClientMutationRef) : Option OutboxEntry :=
  entries.find? fun s => s.ref = ref

/-- One entry of the loop in `mirrorFromStore` over the log. -/
def mirrorEntry (entries : List OutboxEntry) (t : Tab) (p : Nat × PendingMutation) : Tab :=
  let e := (t.log.get? p.1).getD p.2
  match e.ref with
  | none => t
  | some ref =>
    let stored := storedFor entries ref
    if !t.isMirroredEntry p.1 e || e.status.isCompleted || stored.any fun s =>
      s.status.isActive then t
    else if stored.any fun s => s.status = .failed then
      t.onReconciler (.onMutationFailure updaters p.1)
    else t.dropAfterBaseline updaters p.1

/-- `mirrorFromStore` after its read. -/
def mirrorFromStore (entries : List OutboxEntry) (t : Tab) : Tab :=
  let t := t.addActive cfg updaters entries
  t.log.entries.foldl (mirrorEntry updaters entries) t

def onCrossTabSettle (b : OutboxBroadcast) (t : Tab) : Tab :=
  match t.findOutboxEntry b.ref with
  | none => t
  | some (requestId, e) =>
    if t.isMirroredEntry requestId e then
      match b with
      | .settled _ commitTs =>
        t.onReconciler (.onMutationSuccess updaters requestId (some commitTs))
      | .failed _ => t.onReconciler (.onMutationFailure updaters requestId)
    else t

/-- The oldest write is done. An append that worked makes its entry durable. -/
def writeDone (ok : Bool) (t : Tab) : Tab :=
  let t' := { t with writes := t.writes.tail }
  match t.writes.head? with
  | some (.append requestId _) =>
    if ok then t'.onReconciler (.modify requestId fun e => { e with durable := true }) else t'
  | _ => t'

end Tab

/-! ## Steps -/

inductive TabEvent where
  /-- A call of `mutation`; `call` names it. -/
  | mutation (call : Nat) (udfPath : String) (update transient : Bool) (now : Nat)
  | setAuth (token : Option String)
  | setSessionFingerprint (sessionId : Option String)
  | digestDone (d : Digest)
  /-- The connection is lost. -/
  | transportClosed
  | transportReopened (expectTransition : Bool)
  /-- The application calls `close`. -/
  | close
  /-- A transition that the client takes over. -/
  | transition (endTs : Nat)
  /-- The next response to an open request. A batch may stop at a failure without a code. -/
  | mutationResponse (request : Nat) (result : MutationResult) (stops : Bool)
  /-- The answer to a `Connect`. A reset mints `fresh`. -/
  | connectAck (request : Nat) (known : Bool) (results : List ClientMutationVerdict)
      (fresh : String) (now : Nat)
  | gateTimeout (requestId : Nat)
  | becomeLeader
  | hydrateRead (entries : List OutboxEntry)
  | hydrated
  | ensureInitialHandshake (expectTransition : Bool)
  | mirrorRead (entries : List OutboxEntry)
  | mirrored
  | crossTabSettle (b : OutboxBroadcast)
  /-- The drain flushes its next chunk. It waits for the baseline before, which only delays it. -/
  | drain
  | resume
  | writeDone (ok : Bool)

namespace Tab

variable (cfg : OutboxConfig) (updaters : Updaters)

/-- The requests that stay open after the next response to one of them. -/
def answerNext (request : Nat) (stops : Bool) (requestIds : List Nat) (t : Tab) : Tab :=
  { t with
    openRequests :=
      if stops || requestIds.tail.isEmpty then t.openRequests.eraseIdx request
      else t.openRequests.set request (.mutations requestIds.tail) }

def isTransient : MutationResult → Bool
  | .failure _ none => true
  | _ => false

def step (t : Tab) : TabEvent → Option Tab
  | .mutation call udfPath update transient now =>
    some (t.mutation cfg updaters call udfPath update transient now)
  | .setAuth token => some (t.setAuth cfg token)
  | .setSessionFingerprint sessionId => some (t.onIdentity (.setSessionFingerprint cfg sessionId))
  | .digestDone d =>
    if d ∈ t.identity.digests then some (t.onIdentity (.digestDone cfg d)) else none
  | .transportClosed => if t.closed then none else some (t.onTransportClosed updaters)
  | .transportReopened expect =>
    if t.closed ∧ ¬t.stopped then some (t.onTransportReopened cfg updaters expect) else none
  | .close => some (t.close updaters)
  | .transition endTs => if t.closed then none else some (t.onTransition updaters endTs)
  | .mutationResponse request result stops =>
    match t.openRequests[request]? with
    | some (.mutations (requestId :: rest)) =>
      if t.closed ∨ (stops ∧ ¬isTransient result) then none
      else some ((t.answerNext request stops (requestId :: rest)).onMutationResponse cfg updaters
        requestId result)
    | _ => none
  | .connectAck request known results fresh now =>
    match t.openRequests[request]? with
    | some (.connect held) =>
      if t.closed ∨ ∃ v ∈ results, v.ref ∉ held then none
      else
        some ({ t with openRequests := t.openRequests.eraseIdx request }.handleConnectAck updaters
          known results fresh now)
    | _ => none
  | .gateTimeout requestId => some (t.onReconciler (.onGateTimeout updaters requestId))
  | .becomeLeader =>
    if cfg.outbox ∧ ¬t.stopped ∧ t.hydration = .waiting then
      some { t with leader := true, hydration := .reading }
    else none
  | .hydrateRead entries =>
    if t.hydration = .reading then some { t with hydration := .read entries } else none
  | .hydrated =>
    match t.hydration with
    | .read entries => some ({ t with hydration := .pruning }.addActive cfg updaters entries)
    | _ => none
  | .ensureInitialHandshake expect =>
    if t.hydration = .pruning then
      let t := { t with hydration := .done }
      some (if t.stopped || t.closed || t.drainableEntries.isEmpty then t
        else t.initiateHandshake cfg updaters expect)
    else none
  | .mirrorRead entries =>
    if cfg.outbox ∧ t.mirrorRead = none then some { t with mirrorRead := some entries } else none
  | .mirrored =>
    t.mirrorRead.map fun entries =>
      { t with mirrorRead := none }.mirrorFromStore cfg updaters entries
  | .crossTabSettle b => if t.stopped then none else some (t.onCrossTabSettle updaters b)
  | .drain => if t.canDrain then some (t.flushChunk cfg updaters) else none
  | .resume => some { t with paused := false }
  | .writeDone ok => if t.writes.isEmpty then none else some (t.writeDone ok)

end Tab

end Helipod
