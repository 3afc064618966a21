import Helipod.Client.MutationLog

/-!
# The stored outbox and the handshake

Model of `client/src/outbox-storage.ts` and `client/src/connect-handshake.ts`: the records that the
tabs of one origin share, the writes to them, and what a `Connect` message says about the mutations
of a log.
-/

namespace Helipod

/-! ## Records -/

inductive OutboxEntryStatus where
  | unsent
  | inflight
  | parked
  | completed
  | failed
  deriving DecidableEq

/-- The statuses that are hydrated. -/
def OutboxEntryStatus.isActive : OutboxEntryStatus → Bool
  | .unsent | .inflight | .parked => true
  | .completed | .failed => false

structure OutboxEntryError where
  message : String
  code : Option String
  deriving DecidableEq

structure OutboxEntry where
  ref : ClientMutationRef
  /-- The call of `mutation` it comes from, and the token set last at that call. -/
  call : Nat
  enqueuedUnder : Option String
  udfPath : String
  order : Nat
  status : OutboxEntryStatus
  identityFingerprint : Option String
  error : Option OutboxEntryError
  deriving DecidableEq

/-- A write that was started. An append confirms the entry of a request when it is done. -/
inductive OutboxWrite where
  | append (requestId : Nat) (entry : OutboxEntry)
  | updateStatus (ref : ClientMutationRef) (status : OutboxEntryStatus)
      (error : Option OutboxEntryError)
  | dequeue (ref : ClientMutationRef)
  deriving DecidableEq

/-! ## The handshake -/

/-- A mutation that still waits for its verdict. -/
def MutationStatus.isHeld : MutationStatus → Bool
  | .unsent | .inflight | .parked => true
  | .completed _ => false

def outboxHeldFromLog (log : MutationLog) : List ClientMutationRef :=
  log.values.filterMap fun e => if e.status.isHeld then e.ref else none

/-- The lowest number held for each client id. -/
def lowestHeld (held : List ClientMutationRef) : OrderedMap String Nat :=
  held.foldl (fun lowest ref =>
    match lowest.get? ref.clientId with
    | some cur => if ref.seq < cur then lowest.set ref.clientId ref.seq else lowest
    | none => lowest.set ref.clientId ref.seq) .empty

/-- For each client id the number below its lowest held one. -/
def outboxAckedThrough (held : List ClientMutationRef) : List ClientMutationRef :=
  (lowestHeld held).entries.filterMap fun p => if 0 < p.2 then some ⟨p.1, p.2 - 1⟩ else none

end Helipod
