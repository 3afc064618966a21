import Helipod.Sync.Protocol

/-!
# The mutation log

Model of `client/src/mutation-log.ts`, `client/src/delivery-policy.ts` and of the part of
`client/src/reconcile.ts` that keeps the log: which mutations a client has not confirmed, what a
close of the connection does with each of them, and which entries are dropped for the sake of their
optimistic layers. What the layers show is left out.

An update is code of the application. All the log depends on is whether it throws on a pass over
the log and whether it writes to a query, so an update is a function of the pass.
-/

namespace Helipod

/-! ## Entries -/

inductive MutationStatus where
  /-- Queued; it counts as not sent. -/
  | unsent
  /-- Sent, no response yet. -/
  | inflight
  /-- Answered; the layer waits for the commit. -/
  | completed (commitTs : Nat)
  /-- The connection closed on it, and it waits for the drain. -/
  | parked
  deriving DecidableEq

namespace MutationStatus

def isCompleted : MutationStatus → Bool
  | .completed _ => true
  | _ => false

/-- The entries behind which a new mutation has to queue. -/
def isQueued : MutationStatus → Bool
  | .unsent | .parked => true
  | _ => false

end MutationStatus

structure PendingMutation where
  /-- The call of `mutation` it comes from; it stands for the payload. -/
  call : Nat
  /-- The token that was set last when `mutation` was called. -/
  enqueuedUnder : Option String
  udfPath : String
  /-- It has an optimistic update. -/
  update : Bool
  /-- The update wrote to a query on its last run. -/
  touched : Bool
  status : MutationStatus
  /-- Client id and number, if it goes through the outbox. -/
  ref : Option ClientMutationRef
  order : Nat
  identityFingerprint : Option String
  durable : Bool
  deriving DecidableEq

/-- Entries by request id, in the order of the requests. -/
abbrev MutationLog := OrderedMap Nat PendingMutation

/-- Change the entry of a request, if there is one. -/
def MutationLog.modify (log : MutationLog) (requestId : Nat)
    (f : PendingMutation → PendingMutation) :
    MutationLog :=
  match log.get? requestId with
  | some e => log.set requestId (f e)
  | none => log

theorem MutationLog.get?_modify (log : MutationLog) (requestId k : Nat)
    (f : PendingMutation → PendingMutation) :
    (MutationLog.modify log requestId f).get? k =
      if requestId = k then (log.get? k).map f else log.get? k := by
  rw [MutationLog.modify]
  split
  · rename_i e he
    rw [OrderedMap.get?_set]
    split
    · rename_i heq
      rw [← heq, he]
      rfl
    · rfl
  · rename_i hnone
    split
    · rename_i heq
      rw [← heq, hnone]
      rfl
    · rfl

/-! ## Closing -/

inductive CloseDisposition where
  | retain
  | park
  | reject
  | drop
  deriving DecidableEq

/-- What a close does with an entry. -/
def closeDisposition (armed : Bool) (e : PendingMutation) : CloseDisposition :=
  match e.status with
  | .unsent | .parked => .retain
  | .inflight => if armed && e.durable then .park else .reject
  | .completed _ => .drop

/-! ## The reconciler -/

/-- For each pass over the log and each request: `none` if the update throws, else whether it
writes to a query. -/
abbrev Updaters := Nat → Nat → Option Bool

structure Reconciler where
  log : MutationLog
  observedTs : Nat
  /-- The passes over the log so far. -/
  passes : Nat
  /-- The requests whose entry was dropped because the update threw on a replay. -/
  thrown : List Nat

def versionCoversCommit (maxObservedTs commitTs : Nat) : Bool :=
  commitTs ≤ maxObservedTs && 0 < commitTs

namespace Reconciler

variable (updaters : Updaters)

def initial : Reconciler := ⟨.empty, 0, 0, []⟩

/-- The log after one pass: entries whose update throws are gone. -/
def replay (r : Reconciler) : MutationLog :=
  r.log.filterMap fun requestId e =>
    if e.update then (updaters r.passes requestId).map fun touched => { e with touched := touched }
    else some e

/-- The requests whose update throws on the next pass. -/
def throwing (r : Reconciler) : List Nat :=
  (r.log.entries.filter fun p => p.2.update && (updaters r.passes p.1).isNone).map Prod.fst

def rebuild (r : Reconciler) : Reconciler :=
  { r with
    log := r.replay updaters
    passes := r.passes + 1
    thrown := r.throwing updaters ++ r.thrown }

theorem get?_replay (r : Reconciler) (k : Nat) :
    (r.replay updaters).get? k = (r.log.get? k).bind fun e =>
      if e.update then (updaters r.passes k).map fun touched => { e with touched := touched }
      else some e :=
  OrderedMap.get?_filterMap _ _

theorem mem_throwing {r : Reconciler} {k : Nat} : k ∈ r.throwing updaters ↔
    ∃ e, r.log.get? k = some e ∧ e.update = true ∧ updaters r.passes k = none := by
  simp [throwing, ← OrderedMap.get?_eq_some_iff]

/-- Add an entry and run all updates; then whether its own update threw. -/
def initiate (requestId : Nat) (entry : PendingMutation) (r : Reconciler) : Reconciler × Bool :=
  let r := { r with log := r.log.set requestId entry }
  if entry.update then
    let throwing := r.throwing updaters
    ({ r with
        log := r.replay updaters
        passes := r.passes + 1
        thrown := throwing.filter (· ≠ requestId) ++ r.thrown }, requestId ∈ throwing)
  else (r, false)

def addHydrated (requestId : Nat) (entry : PendingMutation) (r : Reconciler) : Reconciler :=
  let r := { r with log := r.log.set requestId entry }
  if entry.update then r.rebuild updaters else r

/-- An entry after a transition: a completed one is gone once its commit is observed. -/
def afterTransition (observedTs : Nat) (e : PendingMutation) : Option PendingMutation :=
  match e.status with
  | .completed commitTs => if versionCoversCommit observedTs commitTs then none else some e
  | _ => some e

/-- The log part of a transition. -/
def ingestTransition (endTs : Nat) (r : Reconciler) : Reconciler :=
  let observedTs := max r.observedTs endTs
  rebuild updaters
    { r with observedTs := observedTs, log := r.log.filterMap fun _ => afterTransition observedTs }

def delete (requestId : Nat) (r : Reconciler) : Reconciler :=
  { r with log := r.log.erase requestId }

def modify (requestId : Nat) (f : PendingMutation → PendingMutation)
    (r : Reconciler) : Reconciler :=
  { r with log := MutationLog.modify r.log requestId f }

/-- The response came: drop the layer, or hold it until the commit is observed. -/
def onMutationSuccess (requestId : Nat) (ts : Option Nat) (r : Reconciler) : Reconciler :=
  match r.log.get? requestId with
  | none => r
  | some entry =>
    if !entry.update || !entry.touched then r.delete requestId
    else
      let commitTs := ts.getD 0
      if commitTs = 0 || versionCoversCommit r.observedTs commitTs then
        (r.delete requestId).rebuild updaters
      else r.modify requestId fun e => { e with status := .completed commitTs }

def onMutationFailure (requestId : Nat) (r : Reconciler) : Reconciler :=
  if r.log.has requestId then (r.delete requestId).rebuild updaters else r

/-- The same for a verdict whose commit the baseline includes. -/
def onVerdictAfterBaseline (requestId : Nat) (r : Reconciler) : Reconciler :=
  if r.log.has requestId then (r.delete requestId).rebuild updaters else r

/-- The commit of a completed mutation was not observed for too long. -/
def onGateTimeout (requestId : Nat) (r : Reconciler) : Reconciler :=
  match r.log.get? requestId with
  | some e => if e.status.isCompleted then (r.delete requestId).rebuild updaters else r
  | none => r

/-- The requests with a disposition, in order. -/
def disposed (armed : Bool) (d : CloseDisposition) (r : Reconciler) : List Nat :=
  (r.log.entries.filter fun p => closeDisposition armed p.2 = d).map Prod.fst

/-- An entry after a close. A parked one stays without its update. -/
def afterClose (armed : Bool) (e : PendingMutation) : Option PendingMutation :=
  match closeDisposition armed e with
  | .retain => some e
  | .park => some { e with status := .parked, update := false }
  | .reject | .drop => none

def closeSession (armed : Bool) (r : Reconciler) : Reconciler :=
  rebuild updaters { r with log := r.log.filterMap fun _ => afterClose armed, observedTs := 0 }

end Reconciler

end Helipod
