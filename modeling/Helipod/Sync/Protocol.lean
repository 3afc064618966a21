import Helipod.Sync.CommitDiffer

/-!
# The sync protocol

Model of `sync/src/protocol.ts`: versions, what a transition modifies, and the messages of the
server. Every transition takes a session from one version to the next; the three ways in which
the handler moves a version are here, next to the versions.
-/

namespace Helipod

/-! ## Versions -/

@[ext] structure StateVersion where
  /-- Counts the changes of the query set. -/
  querySet : Nat
  /-- The latest commit that is reflected; 0 for none. -/
  ts : Nat
  deriving DecidableEq

namespace StateVersion

/-- `INITIAL_VERSION`. -/
def initial : StateVersion := ⟨0, 0⟩

/-- The version after a `ModifyQuerySet` or a `SetAuth`. -/
def nextQuerySet (v : StateVersion) : StateVersion := { v with querySet := v.querySet + 1 }

/-- The version after the answers to a write. The timestamp of a write to a global table is not
one of this store, and is left out. -/
def afterWrite (v : StateVersion) (commitTs : Nat) (isGlobal : Bool) : StateVersion :=
  { v with ts := if isGlobal then v.ts else commitTs }

/-- The version after `emitEmptyFrontier`. -/
def atFrontier (v : StateVersion) (ts : Nat) : StateVersion := { v with ts := ts }

end StateVersion

def versionsEqual (a b : StateVersion) : Bool := a.querySet = b.querySet && a.ts = b.ts

@[simp] theorem versionsEqual_iff {a b : StateVersion} : versionsEqual a b = true ↔ a = b := by
  simp [versionsEqual, StateVersion.ext_iff]

/-! ## Messages of the server -/

/-- How a client has to start over with the rows of a diffable query. -/
inductive Reset where
  | byId
  | range (orderDir : ScanOrder)
  | page (orderDir : ScanOrder) (pageMeta : PageMeta)
  deriving DecidableEq

inductive StateModification where
  | queryUpdated (queryId : Nat) (value : Value) (hash : Option String)
  | queryFailed (queryId : Nat) (error : String)
  | queryRemoved (queryId : Nat)
  | queryUnchanged (queryId : Nat)
  | queryDiff (queryId : Nat) (changes : List Change) (checksum : BitVec 32) (reset : Option Reset)
      (hash : Option String)
  deriving DecidableEq

structure Transition where
  startVersion : StateVersion
  endVersion : StateVersion
  modifications : List StateModification
  deriving DecidableEq

/-- What a `MutationResponse` says. A code stands for a verdict that the server has recorded. -/
inductive MutationResult where
  | success (value : Option Value) (ts : Option Nat) (replayed valueMissing : Bool)
  | failure (error : String) (code : Option String)

inductive Verdict where
  | applied
  | failed
  | stale
  | unknown
  deriving DecidableEq

/-- A mutation of an outbox: the client that made it and its number there. -/
structure ClientMutationRef where
  clientId : String
  seq : Nat
  deriving DecidableEq

structure ClientMutationVerdict where
  ref : ClientMutationRef
  verdict : Verdict
  commitTs : Option Nat
  value : Option Value
  valueMissing : Bool
  code : Option String
  deriving DecidableEq

inductive ServerMessage where
  | transition (t : Transition)
  | mutationResponse (requestId : String) (result : MutationResult)
  | actionResponse (requestId : String) (result : Except String Value)
  | connectAck (known : Bool) (results : List ClientMutationVerdict) (deploymentId : String)
  | broadcast (topic : String) (event : Value)
  | fatalError (message : String)
  | ping

def ServerMessage.isTransition : ServerMessage → Bool
  | .transition _ => true
  | _ => false

end Helipod
