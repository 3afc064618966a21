import Helipod.Kernel.Mutations

/-!
# Ordinary and global tables in one mutation

Model of a mutation on ordinary tables and on tables that live in another store (`.global()`): the
global branches of `handleDbInsert`, `handleDbReplace` and `handleDbDelete`
(`executor/src/kernel.ts`), `GlobalTxn` (`executor/src/global-txn.ts`) and the guard `markWrite`.
Syscalls overlap as they like. Each runs from `await` to `await`, a body goes on after a syscall has
thrown, and the contexts of its facades share the transaction, the buffer of global writes and the
flags of the guard.

The answer of the global store to a read is left open. `GlobalTxn` joins a table name and an id to
one key with a zero character in between, which no table name has; here the key is the pair.

Results: `never_both_stores`.
-/

namespace Helipod

open Runs

/-! ## The buffer of global writes -/

inductive GlobalWriteOp where
  | insert (table : String) (doc : DocumentValue)
  | replace (table : String) (id : JsString) (doc : DocumentValue)
  | delete (table : String) (id : JsString)
  deriving DecidableEq

structure GlobalTxn where
  ops : List GlobalWriteOp
  /-- The current staged document, or `none` for a staged delete. -/
  overlay : OrderedMap (String × JsString) (Option DocumentValue)

namespace GlobalTxn

def empty : GlobalTxn := ⟨[], .empty⟩

/-- `String(doc._id)` of a document whose id is a string. -/
def idText (doc : DocumentValue) : JsString :=
  match JsValue.property doc idField with
  | .value (.string id) => id
  | _ => []

/-- `stageInsert`, `stageReplace` and `stageDelete`. -/
def stage (g : GlobalTxn) : GlobalWriteOp → GlobalTxn
  | .insert table doc => ⟨g.ops ++ [.insert table doc],
      g.overlay.set (table, idText doc) (some doc)⟩
  | .replace table id doc =>
    ⟨g.ops ++ [.replace table id doc],
      g.overlay.set (table, id) (some (setField doc idField (.string id)))⟩
  | .delete table id => ⟨g.ops ++ [.delete table id], g.overlay.set (table, id) none⟩

def hasWrites (g : GlobalTxn) : Bool := 0 < g.ops.length

end GlobalTxn

/-! ## The guard -/

inductive StoreKind where
  | ordinary
  | global
  deriving DecidableEq, Repr

/-- `ctx.writeStores`. -/
structure WriteStores where
  ordinary : Bool
  global : Bool
  deriving DecidableEq, Repr

namespace WriteStores

def mark (w : WriteStores) : StoreKind → WriteStores
  | .ordinary => { w with ordinary := true }
  | .global => { w with global := true }

/-- `markWrite` throws a `CrossStoreWriteError`. The flag is set all the same. -/
def crossed (w : WriteStores) : Bool := w.ordinary && w.global

end WriteStores

/-! ## Handlers -/

/-- What the kernel context says about global tables. -/
structure GlobalContext where
  kernel : KernelContext
  /-- `meta.mode === "global"`. -/
  isGlobal : TableMeta → Bool
  /-- A global store is configured. -/
  bound : Bool
  /-- Rules are in force, and the table has a write policy. -/
  writePolicy : TableMeta → Bool

/-- A syscall on a global table, cut at its `await`s. -/
inductive GlobalHandler where
  | done (result : Except KernelError (Option JsString))
  | get (table : String) (id : JsString) (next : Option DocumentValue → GlobalHandler)
  /-- `markWrite`, then the write if there is a store for it. -/
  | write (op : GlobalWriteOp) (bound : Bool) (result : Option JsString)

/-- Write policies are not supported on global tables. -/
def GlobalContext.refuses (ctx : GlobalContext) (tableMeta : TableMeta) : Bool :=
  !ctx.kernel.privileged && ctx.writePolicy tableMeta

def handleGlobalInsert (ctx : GlobalContext) (tableMeta : TableMeta) (value : DocumentValue)
    (generated : Bytes) : GlobalHandler :=
  if ctx.refuses tableMeta || !ctx.bound then .done (.error .forbiddenOperation)
  else if JsValue.property value idField ≠ .undefined then .done (.error .invalidClientId)
  else if !tableMeta.documentValidator (eraseField value idField) then
    .done (.error .documentValidation)
  else
    match encodeDocumentId ⟨tableMeta.tableNumber, generated⟩ with
    | .error e => .done (.error (.documentId e))
    | .ok id =>
      .write (.insert tableMeta.name (setField (setField (eraseField value idField) idField
        (.string id)) creationTimeField ctx.kernel.now)) true (some id)

def handleGlobalReplace (ctx : GlobalContext) (tableMeta : TableMeta) (id : JsString)
    (value : DocumentValue) : GlobalHandler :=
  if ctx.refuses tableMeta || !ctx.bound then .done (.error .forbiddenOperation)
  else
    .get tableMeta.name id fun
      | none => .done (.error .documentNotFound)
      | some old =>
        let userFields := eraseField (eraseField value idField) creationTimeField
        if !tableMeta.documentValidator userFields then .done (.error .documentValidation)
        else
          .write (.replace tableMeta.name id (setField (setField userFields idField (.string id))
            creationTimeField (creationTimeOf ctx.kernel old))) true none

/-- The guard comes before the question whether there is a store. -/
def handleGlobalDelete (ctx : GlobalContext) (tableMeta : TableMeta) (id : JsString) :
    GlobalHandler :=
  if ctx.refuses tableMeta then .done (.error .forbiddenOperation)
  else .write (.delete tableMeta.name id) ctx.bound none

/-- The table a syscall names, if the kernel gets as far as looking at its mode. -/
def Syscall.table (ctx : KernelContext) : Syscall → Option TableMeta
  | .insert table _ _ => (requireTable ctx table).toOption
  | .replace id _ | .delete id =>
    (decodeDocumentId id).toOption.bind fun internalId => (requireOwnTable ctx internalId).toOption

def Syscall.globalHandler (ctx : GlobalContext) (tableMeta : TableMeta) : Syscall → GlobalHandler
  | .insert _ value generated => handleGlobalInsert ctx tableMeta value generated
  | .replace id value => handleGlobalReplace ctx tableMeta id value
  | .delete id => handleGlobalDelete ctx tableMeta id

/-- A syscall in flight. `awaiting` waits for the global store. -/
inductive StoreSyscall where
  | ordinary (s : InFlight)
  | running (handler : GlobalHandler)
  | awaiting (next : Option DocumentValue → GlobalHandler)

/-- The syscall begins, on the table's store. -/
def Syscall.dispatch (ctx : GlobalContext) (s : Syscall) : StoreSyscall :=
  match (s.table ctx.kernel).filter fun tableMeta =>
    ctx.kernel.dbWrite && ctx.isGlobal tableMeta with
  | some tableMeta => .running (s.globalHandler ctx tableMeta)
  | none => .ordinary (.running (s.handler ctx.kernel))

/-! ## A mutation -/

structure CrossStoreBody where
  txn : TransactionContext DocumentValue
  globalTxn : GlobalTxn
  writeStores : WriteStores
  issued : List (Option StoreSyscall)

inductive CrossStoreEvent where
  | issue (ctx : GlobalContext) (s : Syscall)
  /-- Syscall `k` runs to its next `await`: `allowed` is the verdict of a write policy, and `answer`
  is what the global store holds, if one of them is awaited. -/
  | resume (k : Nat) (allowed : Bool) (answer : Option DocumentValue)
  /-- The body reads. -/
  | read (op : CtxOp DocumentValue)

namespace CrossStoreBody

def new (snapshotTs : Nat) : CrossStoreBody := ⟨{ snapshotTs }, .empty, ⟨false, false⟩, []⟩

variable (catalog : Catalog) (docs : InternalDocumentId → Option DocumentValue)

/-- A syscall on an ordinary table. If it stages now, the guard comes first. -/
def ordinaryStep (b : CrossStoreBody) (k : Nat) (s : InFlight) (allowed : Bool) : CrossStoreBody :=
  let next := s.step catalog docs b.txn.staged allowed
  let issued := b.issued.set k (next.2.map .ordinary)
  match s with
  | .running (.stage ..) =>
    let writeStores := b.writeStores.mark .ordinary
    if writeStores.crossed then { b with writeStores, issued }
    else { b with writeStores, issued, txn := next.1.foldl (TransactionContext.apply []) b.txn }
  | _ => { b with issued, txn := next.1.foldl (TransactionContext.apply []) b.txn }

/-- A syscall on a global table. `get` looks at the buffer before its first `await`. -/
def globalStep (b : CrossStoreBody) (k : Nat) : GlobalHandler → CrossStoreBody
  | .done _ => { b with issued := b.issued.set k none }
  | .get table id next =>
    { b with
      issued := b.issued.set k (some
        (match b.globalTxn.overlay.get? (table, id) with
        | some value => .running (next value)
        | none => .awaiting next)) }
  | .write op bound _ =>
    let writeStores := b.writeStores.mark .global
    let issued := b.issued.set k none
    if writeStores.crossed || !bound then { b with writeStores, issued }
    else { b with writeStores, issued, globalTxn := b.globalTxn.stage op }

def step (b : CrossStoreBody) : CrossStoreEvent → Option CrossStoreBody
  | .issue ctx s =>
    let kernel := { ctx.kernel with catalog, snapshotTs := b.txn.snapshotTs }
    some { b with issued := b.issued ++ [some (s.dispatch { ctx with kernel })] }
  | .resume k allowed answer =>
    (b.issued[k]?).join.map fun
      | .ordinary s => b.ordinaryStep catalog docs k s allowed
      | .running handler => b.globalStep k handler
      | .awaiting next => { b with issued := b.issued.set k (some (.running (next answer))) }
  | .read op => if op.isRead then some { b with txn := b.txn.apply [] op } else none

/-! ## The guard tells the stores apart -/

/-- Whoever has written has set the flag, and only one has. -/
structure Apart (b : CrossStoreBody) : Prop where
  ordinary : b.txn.staged ≠ .empty → b.writeStores.ordinary = true
  global : b.globalTxn.ops ≠ [] → b.writeStores.global = true
  single : b.txn.staged = .empty ∨ b.globalTxn.ops = []

variable {catalog : Catalog} {docs : InternalDocumentId → Option DocumentValue}
  {b b' : CrossStoreBody}

/-- A step that writes nothing may set flags. -/
theorem Apart.frame (h : b.Apart)
    (same : (b'.txn.staged, b'.globalTxn) = (b.txn.staged, b.globalTxn))
    (hordinary : b.writeStores.ordinary = true → b'.writeStores.ordinary = true)
    (hglobal : b.writeStores.global = true → b'.writeStores.global = true) : b'.Apart := by
  obtain ⟨hstaged, hglobalTxn⟩ := Prod.mk.inj same
  refine ⟨fun hne => hordinary (h.ordinary ?_), fun hne => hglobal (h.global ?_), ?_⟩
  · rwa [← hstaged]
  · rwa [← hglobalTxn]
  · rw [hstaged, hglobalTxn]
    exact h.single

theorem Apart.ordinaryStep (h : b.Apart) (k : Nat) (s : InFlight) (allowed : Bool) :
    (b.ordinaryStep catalog docs k s allowed).Apart := by
  unfold CrossStoreBody.ordinaryStep
  rcases s.step_cases catalog docs b.txn.staged allowed with
    ⟨docId, oldDoc, newDoc, result, rfl, -⟩ | ⟨hread, -⟩
  · simp only
    split
    · exact h.frame rfl (fun _ => rfl) id
    · -- the other flag is down, so nothing is buffered for the global store
      rename_i hcrossed
      have hflag : b.writeStores.global = false := by
        simpa [WriteStores.crossed, WriteStores.mark] using hcrossed
      have hops : b.globalTxn.ops = [] := by
        by_contra hne
        rw [h.global hne] at hflag
        cases hflag
      exact ⟨fun _ => rfl, fun hne => absurd hops hne, .inr hops⟩
  · have hsame := b.txn.sameWrites_foldl [] fun op hop => CtxOp.keepsWrites_of_isRead (hread op hop)
    split
    · simp only
      split
      · exact h.frame rfl (fun _ => rfl) id
      · exact h.frame (by rw [hsame.staged]) (fun _ => rfl) id
    · exact h.frame (by rw [hsame.staged]) id id

theorem Apart.globalStep (h : b.Apart) (k : Nat) (handler : GlobalHandler) :
    (b.globalStep k handler).Apart := by
  cases handler with
  | done result => exact h.frame rfl id id
  | get table id next => exact h.frame rfl (fun h => h) fun h => h
  | write op bound result =>
    simp only [CrossStoreBody.globalStep]
    split
    · exact h.frame rfl id fun _ => rfl
    · rename_i hcond
      have hflag : b.writeStores.ordinary = false := by
        simp only [WriteStores.crossed, WriteStores.mark, Bool.or_eq_true, not_or] at hcond
        simpa using hcond.1
      have hstaged : b.txn.staged = .empty := by
        by_contra hne
        rw [h.ordinary hne] at hflag
        cases hflag
      exact ⟨fun hne => absurd hstaged hne, fun _ => rfl, .inl hstaged⟩

theorem Apart.step (h : b.Apart) {e : CrossStoreEvent} (hs : b.step catalog docs e = some b') :
    b'.Apart := by
  cases e with
  | issue ctx s =>
    cases hs
    exact h.frame rfl id id
  | resume k allowed answer =>
    obtain ⟨s, -, rfl⟩ := Option.map_eq_some_iff.1 hs
    cases s with
    | ordinary s => exact h.ordinaryStep k s allowed
    | running handler => exact h.globalStep k handler
    | awaiting next => exact h.frame rfl id id
  | read op =>
    simp only [CrossStoreBody.step] at hs
    split at hs <;> cases hs
    rename_i hop
    have hsame := b.txn.sameWrites_apply [] (CtxOp.keepsWrites_of_isRead hop)
    exact h.frame (by rw [hsame.staged]) id id

theorem Apart.new (snapshotTs : Nat) : (CrossStoreBody.new snapshotTs).Apart :=
  ⟨fun h => absurd rfl h, fun h => absurd rfl h, .inl rfl⟩

end CrossStoreBody

open CrossStoreBody in
/-- Over any catalog and any documents: whatever syscalls a mutation issues, however they overlap
and whichever of them throw, at every moment it has staged no write or buffered no global one. -/
theorem never_both_stores {catalog : Catalog} {docs : InternalDocumentId → Option DocumentValue}
    {snapshotTs : Nat} {events : List CrossStoreEvent} {b : CrossStoreBody}
    (hrun : run (CrossStoreBody.step catalog docs) (new snapshotTs) events = some b) :
    ¬ (0 < b.txn.staged.size ∧ b.globalTxn.hasWrites = true) := by
  have hapart : b.Apart :=
    run_invariant (I := Apart) (fun _ _ _ h hs => h.step hs) (.new snapshotTs) hrun
  rintro ⟨hstaged, hops⟩
  rcases hapart.single with h | h
  · rw [h] at hstaged
    exact absurd hstaged (by simp [OrderedMap.size, OrderedMap.empty])
  · simp [GlobalTxn.hasWrites, h] at hops

namespace CrossStoreExample

open KernelExample

/-- The kernel example with a second table, `cities`, in the global store. -/
def catalog : Catalog where
  tables := [⟨"items", 1, fun _ => true, none⟩, ⟨"cities", 2, fun _ => true, none⟩]
  indexes := [byTag]
  indexIds_nodup := List.nodup_singleton _

def globalContext : GlobalContext where
  kernel := kernelContext
  isGlobal := fun tableMeta => tableMeta.tableNumber = 2
  bound := true
  writePolicy := fun _ => false

def insertInto (table : String) : CrossStoreEvent :=
  .issue globalContext (.insert table [] (List.replicate 16 (byte 5)))

/-- Both inserts are under way when the one into `items` stages. The one into `cities` throws, and
so does the next one into `items`. -/
def caught : List CrossStoreEvent :=
  [insertInto "items", insertInto "cities", .resume 0 true none, .resume 0 true none,
    .resume 1 true none, insertInto "items", .resume 2 true none, .resume 2 true none]

end CrossStoreExample

open CrossStoreBody CrossStoreExample in
/-- A mutation that goes on after a `CrossStoreWriteError`. -/
theorem never_both_stores_caught : ∃ b,
    run (CrossStoreBody.step catalog fun _ => none) (new 0) caught = some b ∧
      b.txn.staged.size = 1 ∧ b.writeStores = ⟨true, true⟩ ∧
      ¬ (0 < b.txn.staged.size ∧ b.globalTxn.hasWrites = true) := by
  refine exists_some_imp (fun b => b.txn.staged.size = 1 ∧ b.writeStores = ⟨true, true⟩)
    (by decide +kernel) fun b hrun ⟨hsize, hflags⟩ => ?_
  exact ⟨hsize, hflags, never_both_stores hrun⟩

end Helipod
