import Helipod.Values.Json

/-!
# Client mutation receipts

Model of the receipts that make a resend safe: the two tables of the document store
(`client_mutations`, `client_floors`) with their operations (`docstore-sqlite`), and the parts of
`client-dedup.ts` that read and write them.

A receipt is the verdict of a mutation under its identity, client id and number. A floor covers the
numbers whose receipts were removed. Each operation here is one transaction of the store.

The time of a record is what the caller says it is. The cap on the size of a recorded value is a
parameter: whether the JSON of a value fits.
-/

namespace Helipod

open OrderedMap

open Except (map_eq_ok bind_eq_ok)

/-! ## What handlers return and throw -/

/-- What a handler may return: a value, or a structure with something in it that has no encoding
(`undefined`, a function, a symbol), given by its `typeof`. -/
inductive Returned where
  | value (v : Value)
  | array (xs : List Returned)
  | object (fs : List (JsString × Returned))
  | other (typeOf : String)

namespace Returned

mutual

/-- `convexToJson` on anything; the error is the message of a `TypeError`. -/
def encode : Returned → Except String Value
  | .value v => .ok (convexToJson v)
  | .array xs => (encodeList xs).map .array
  | .object fs => (encodeFields fs).map .object
  | .other typeOf => .error ("Cannot encode value of type " ++ typeOf)
  termination_by structural r => r

def encodeList : List Returned → Except String (List Value)
  | [] => .ok []
  | x :: xs => do .ok ((← encode x) :: (← encodeList xs))
  termination_by structural xs => xs

def encodeFields : List (JsString × Returned) → Except String (List (JsString × Value))
  | [] => .ok []
  | (k, x) :: fs => do .ok ((escapeKey k, ← encode x) :: (← encodeFields fs))
  termination_by structural fs => fs

end

/-- Whether it can be sent to a client. -/
def encodable (r : Returned) : Bool := r.encode.isOk

end Returned

/-- A thrown error, as far as the handlers look at it. -/
structure ThrownError where
  message : String
  /-- `code` and `retryable` of a `HelipodError`. -/
  helipod : Option (String × Bool)
  /-- A `CommitGuardRejection` of the receipts guard. -/
  isDup : Bool
  /-- The timestamp that a throw after the commit carries. -/
  committedTs : Option Nat
  deriving DecidableEq

namespace ThrownError

def isRetryableError (e : ThrownError) : Bool := e.helipod.any Prod.snd

/-- The code that is recorded with a failure. -/
def recordedCode (e : ThrownError) : String := (e.helipod.map Prod.fst).getD "MUTATION_FAILED"

/-- The code that is sent with a failure. -/
def sentCode (e : ThrownError) : Option String :=
  if e.isRetryableError then none else e.helipod.map Prod.fst

/-- Any error that is not a `HelipodError`. -/
def plain (message : String) : ThrownError := ⟨message, none, false, none⟩

/-- A unique violation of the guard's insert. -/
def clientMutationDup : ThrownError :=
  ⟨"commit guard rejected unit: CLIENT_MUTATION_DUP",
    some ("COMMIT_GUARD_REJECTION", true), true, none⟩

end ThrownError

/-! ## The store -/

structure DedupKey where
  clientId : String
  seq : Nat
  deriving DecidableEq

/-- The primary key of `client_mutations`. -/
structure ReceiptKey where
  identity : String
  clientId : String
  seq : Nat
  deriving DecidableEq

inductive RecordedVerdict where
  | applied
  | failed
  deriving DecidableEq

structure ClientVerdictRecord where
  verdict : RecordedVerdict
  commitTs : Nat
  value : Option Value
  errorCode : Option String
  createdAt : Nat
  deriving DecidableEq

/-- `client_mutations` and `client_floors`. -/
structure ReceiptStore where
  mutations : OrderedMap ReceiptKey ClientVerdictRecord
  floors : OrderedMap (String × String) Nat

namespace ReceiptStore

def empty : ReceiptStore := ⟨.empty, .empty⟩

def getClientVerdict (s : ReceiptStore) (k : ReceiptKey) : Option ClientVerdictRecord :=
  s.mutations.get? k

def getClientFloor (s : ReceiptStore) (identity clientId : String) : Option Nat :=
  s.floors.get? (identity, clientId)

/-- The floor is at the number or above. -/
def floorCovers (s : ReceiptStore) (k : ReceiptKey) : Bool :=
  (s.getClientFloor k.identity k.clientId).any fun floor => k.seq ≤ floor

/-- A redelivery is answered from the store. -/
def knows (s : ReceiptStore) (k : ReceiptKey) : Prop :=
  s.mutations.has k = true ∨ s.floorCovers k = true

/-- `INSERT OR IGNORE`. -/
def recordClientVerdict (s : ReceiptStore) (k : ReceiptKey) (r : ClientVerdictRecord) :
    ReceiptStore :=
  if s.mutations.has k then s else { s with mutations := s.mutations.set k r }

def updateClientVerdictValue (s : ReceiptStore) (k : ReceiptKey) (value : Option Value) :
    ReceiptStore :=
  match s.mutations.get? k with
  | none => s
  | some r => { s with mutations := s.mutations.set k { r with value := value } }

/-- The plain `INSERT` of `clientReceiptsGuard`; `none` on a unique violation. -/
def insertReceipt (s : ReceiptStore) (k : ReceiptKey) (commitTs now : Nat) : Option ReceiptStore :=
  if s.mutations.has k then none
  else some { s with mutations := s.mutations.set k ⟨.applied, commitTs, none, none, now⟩ }

/-- A floor never goes down. -/
def raiseFloor (s : ReceiptStore) (client : String × String) (seq : Nat) : ReceiptStore :=
  { s with floors := s.floors.set client ((s.floors.get? client).elim seq (max seq)) }

/-- Remove the receipts with a property, and raise the floors of their clients over them. -/
def deleteAndCover (s : ReceiptStore) (p : ReceiptKey → ClientVerdictRecord → Bool) :
    ReceiptStore :=
  let deleted := (s.mutations.entries.filter fun e => p e.1 e.2).map Prod.fst
  deleted.foldl (fun s k => s.raiseFloor (k.identity, k.clientId) k.seq)
    { s with mutations := s.mutations.filterMap fun k r => if p k r then none else some r }

/-- `pruneClientMutations` with `ackedThrough`, as `Connect` calls it. -/
def pruneClientMutations (s : ReceiptStore) (identity clientId : String) (ackedThrough : Nat) :
    ReceiptStore :=
  (s.deleteAndCover fun k _ =>
    k.identity = identity && k.clientId = clientId && k.seq ≤ ackedThrough).raiseFloor
      (identity, clientId) ackedThrough

def sweepExpiredClientMutations (s : ReceiptStore) (beforeMs : Nat) : ReceiptStore :=
  s.deleteAndCover fun _ r => r.createdAt < beforeMs

end ReceiptStore

/-! ## Replays -/

inductive ClientReplay where
  /-- Without a value if none was recorded. -/
  | applied (commitTs : Nat) (value : Option Value)
  | failed (commitTs : Nat) (code : String)
  | stale (code : String)
  deriving DecidableEq

def replayFromRecord (r : ClientVerdictRecord) : ClientReplay :=
  match r.verdict with
  | .applied => .applied r.commitTs r.value
  | .failed => .failed r.commitTs (r.errorCode.getD "MUTATION_FAILED")

/-- `STALE_CLIENT`. -/
def staleReplay : ClientReplay := .stale "STALE_CLIENT"

/-! ## Lemmas -/

namespace Returned

mutual

theorem exists_of_encode : ∀ {r : Returned} {j : Value}, r.encode = .ok j → ∃ v, j = convexToJson v
  | .value v, j, h => ⟨v, (Except.ok.inj h).symm⟩
  | .array xs, j, h => by
    obtain ⟨js, hxs, rfl⟩ := map_eq_ok.1 h
    obtain ⟨vs, rfl⟩ := exists_of_encodeList hxs
    exact ⟨.array vs, rfl⟩
  | .object fs, j, h => by
    obtain ⟨js, hfs, rfl⟩ := map_eq_ok.1 h
    obtain ⟨vs, rfl⟩ := exists_of_encodeFields hfs
    exact ⟨.object vs, rfl⟩

theorem exists_of_encodeList : ∀ {xs : List Returned} {js : List Value},
    encodeList xs = .ok js → ∃ vs, js = convexToJsonList vs
  | [], js, h => ⟨[], (Except.ok.inj h).symm⟩
  | x :: xs, js, h => by
    obtain ⟨j, hx, h⟩ := bind_eq_ok.1 h
    obtain ⟨js', hxs, h⟩ := bind_eq_ok.1 h
    obtain ⟨v, rfl⟩ := exists_of_encode hx
    obtain ⟨vs, rfl⟩ := exists_of_encodeList hxs
    exact ⟨v :: vs, (Except.ok.inj h).symm⟩

theorem exists_of_encodeFields : ∀ {fs : List (JsString × Returned)} {js : List (JsString × Value)},
    encodeFields fs = .ok js → ∃ vs, js = convexToJsonFields vs
  | [], js, h => ⟨[], (Except.ok.inj h).symm⟩
  | (k, x) :: fs, js, h => by
    obtain ⟨j, hx, h⟩ := bind_eq_ok.1 h
    obtain ⟨js', hfs, h⟩ := bind_eq_ok.1 h
    obtain ⟨v, rfl⟩ := exists_of_encode hx
    obtain ⟨vs, rfl⟩ := exists_of_encodeFields hfs
    exact ⟨(k, v) :: vs, (Except.ok.inj h).symm⟩

end

end Returned

namespace ReceiptStore

variable {s : ReceiptStore} {k k' : ReceiptKey}

theorem has_recordClientVerdict {r : ClientVerdictRecord} :
    (s.recordClientVerdict k r).mutations.has k' = true ↔ k' = k ∨ s.mutations.has k' = true := by
  rw [recordClientVerdict]
  split
  · rename_i hhas
    exact ⟨.inr, fun h => h.elim (fun heq => heq ▸ hhas) id⟩
  · rw [has_iff, has_iff, mem_keys_set]

theorem has_updateClientVerdictValue {value : Option Value} :
    (s.updateClientVerdictValue k value).mutations.has k' = s.mutations.has k' := by
  rw [updateClientVerdictValue]
  split
  · rfl
  · rename_i r hr
    rw [OrderedMap.has, OrderedMap.has, get?_set]
    split
    · rename_i heq
      rw [← heq, hr]
      rfl
    · rfl

@[simp] theorem floors_recordClientVerdict {r : ClientVerdictRecord} :
    (s.recordClientVerdict k r).floors = s.floors := by
  rw [recordClientVerdict]
  split <;> rfl

@[simp] theorem floors_updateClientVerdictValue {value : Option Value} :
    (s.updateClientVerdictValue k value).floors = s.floors := by
  rw [updateClientVerdictValue]
  split <;> rfl

theorem floorCovers_congr {s' : ReceiptStore} (h : s'.floors = s.floors) :
    s'.floorCovers k = s.floorCovers k := by
  rw [floorCovers, floorCovers, getClientFloor, getClientFloor, h]

theorem floorCovers_raiseFloor {client : String × String} {seq : Nat} :
    (s.raiseFloor client seq).floorCovers k = true ↔
      s.floorCovers k = true ∨ client = (k.identity, k.clientId) ∧ k.seq ≤ seq := by
  rw [floorCovers, floorCovers, getClientFloor, getClientFloor, raiseFloor, get?_set]
  split
  · rename_i heq
    subst heq
    cases s.floors.get? (k.identity, k.clientId) with
    | none => simp
    | some floor => simp [or_comm]
  · rename_i hne
    simp [hne]

theorem mutations_foldl_raiseFloor (l : List ReceiptKey) : ∀ s : ReceiptStore,
    (l.foldl (fun s k => s.raiseFloor (k.identity, k.clientId) k.seq)
      s).mutations = s.mutations := by
  induction l with
  | nil => exact fun s => rfl
  | cons k l ih => exact fun s => ih _

theorem floorCovers_foldl_raiseFloor {l : List ReceiptKey} : ∀ {s : ReceiptStore},
    s.floorCovers k = true ∨ k ∈ l →
      (l.foldl (fun s k => s.raiseFloor (k.identity, k.clientId) k.seq) s).floorCovers
        k = true := by
  induction l with
  | nil => exact fun h => h.resolve_right List.not_mem_nil
  | cons k' l ih =>
    intro s h
    refine ih ?_
    rcases h with h | h
    · exact .inl (floorCovers_raiseFloor.2 (.inl h))
    · rcases List.mem_cons.1 h with rfl | h
      · exact .inl (floorCovers_raiseFloor.2 (.inr ⟨rfl, le_rfl⟩))
      · exact .inr h

variable {p : ReceiptKey → ClientVerdictRecord → Bool}

theorem get?_deleteAndCover : (s.deleteAndCover p).mutations.get? k =
    (s.mutations.get? k).bind fun r => if p k r then none else some r := by
  rw [deleteAndCover, mutations_foldl_raiseFloor]
  exact get?_filterMap _ _

/-- What is removed is covered afterwards, and what was covered stays so. -/
theorem knows_deleteAndCover (h : s.knows k) : (s.deleteAndCover p).knows k := by
  rcases h with h | h
  · obtain ⟨r, hr⟩ := Option.isSome_iff_exists.1 h
    by_cases hp : p k r = true
    · refine .inr (floorCovers_foldl_raiseFloor (.inr (List.mem_map.2 ⟨(k, r), ?_, rfl⟩)))
      exact List.mem_filter.2 ⟨(get?_eq_some_iff _).1 hr, hp⟩
    · refine .inl ?_
      rw [OrderedMap.has, get?_deleteAndCover, hr, Option.bind_some, if_neg hp]
      rfl
  · exact .inr (floorCovers_foldl_raiseFloor (.inl h))

/-- The floor covers what a prune removes, and more. -/
theorem knows_pruneClientMutations {identity clientId : String} {ackedThrough : Nat}
    (h : s.knows k) : (s.pruneClientMutations identity clientId ackedThrough).knows k :=
  (knows_deleteAndCover h).imp_right fun hf => floorCovers_raiseFloor.2 (.inl hf)

theorem floorCovers_deleteAndCover (h : s.floorCovers k = true) :
    (s.deleteAndCover p).floorCovers k = true :=
  floorCovers_foldl_raiseFloor (.inl h)

theorem floorCovers_pruneClientMutations {identity clientId : String} {ackedThrough : Nat}
    (h : s.floorCovers k = true) :
    (s.pruneClientMutations identity clientId ackedThrough).floorCovers k = true :=
  floorCovers_raiseFloor.2 (.inl (floorCovers_deleteAndCover h))

end ReceiptStore

end Helipod
