import Helipod.IdCodec
import Helipod.QueryEngine.IndexManager

/-!
# The write syscalls of the kernel

Model of `handleDbInsert`, `handleDbReplace` and `handleDbDelete`
(`executor/src/kernel.ts`) on ordinary tables. A handler runs from one `await` to the
next: it reads a document, waits for the verdict of a write policy, and at the end
stages its write and the index entries in one synchronous piece. A policy may read
the database and decide as it likes, so its verdict is left open.

The arguments are the converted ones; an id that the kernel generates is an argument
of `insert`.
-/

namespace Helipod

/-! ## Catalog and context -/

structure TableMeta where
  name : String
  tableNumber : Nat
  /-- Does the table's document validator accept the user fields? -/
  documentValidator : DocumentValue → Bool
  shardKey : Option JsString

structure Catalog where
  tables : List TableMeta
  indexes : List IndexSpec
  /-- The storage ids of the indexes are distinct. -/
  indexIds_nodup : (indexes.map IndexSpec.indexId).Nodup

namespace Catalog

def getTable (c : Catalog) (name : String) : Option TableMeta :=
  c.tables.find? fun m => m.name = name

def getTableByNumber (c : Catalog) (n : Nat) : Option TableMeta :=
  c.tables.find? fun m => m.tableNumber = n

def indexesForTable (c : Catalog) (tableNumber : Nat) : List IndexSpec :=
  c.indexes.filter fun idx => idx.tableNumber = tableNumber

end Catalog

/-- The default shard. -/
def defaultShard : Nat := 0

structure KernelContext where
  catalog : Catalog
  dbWrite : Bool
  privileged : Bool
  /-- The path of the running component. -/
  namespacePath : String
  shardId : Nat
  shardDeclared : Bool
  /-- The shard of an encoded shard-key value. -/
  router : Bytes → Nat
  snapshotTs : Nat

inductive KernelError where
  | functionNotFound
  | forbiddenOperation
  | documentValidation
  | invalidClientId
  | idAlreadyInUse
  | documentNotFound
  | documentId (e : DocumentIdError)
  | indexKey (e : EncodeError)
  deriving DecidableEq

/-! ## Guards -/

def getFullTableName (name componentPath : String) : String :=
  if componentPath = "" then name else componentPath ++ "/" ++ name

/-- The part of a full table name before the last slash. -/
def componentPathOf (fullName : String) : String :=
  String.ofList ((fullName.toList.reverse.dropWhile (· ≠ '/')).drop 1).reverse

def requireTable (ctx : KernelContext) (name : String) : Except KernelError TableMeta :=
  match ctx.catalog.getTable
    (if ctx.privileged then name else getFullTableName name ctx.namespacePath) with
  | some tableMeta => .ok tableMeta
  | none => .error .functionNotFound

/-- Resolve the table of an id and reject it outside the component's namespace. -/
def requireOwnTable (ctx : KernelContext) (id : InternalDocumentId) :
    Except KernelError TableMeta :=
  match ctx.catalog.getTableByNumber id.tableNumber with
  | none => .error .functionNotFound
  | some tableMeta =>
    if ctx.privileged || componentPathOf tableMeta.name = ctx.namespacePath then .ok tableMeta
    else .error .forbiddenOperation

def encodeShardKey (doc : DocumentValue) (shardKey : JsString) : Except KernelError Bytes :=
  (encodeIndexKey [JsValue.property doc shardKey]).mapError .indexKey

inductive WriteOp where
  | insert | replace | delete
  deriving DecidableEq

/-- An unsharded document is changed on the default shard only; a sharded one on the shard
of its key, by a mutation that declares its shard or is privileged. -/
def enforceShardWrite (ctx : KernelContext) (tableMeta : TableMeta) (doc : DocumentValue)
    (op : WriteOp) : Except KernelError Unit :=
  match tableMeta.shardKey with
  | none =>
    if op ≠ .insert ∧ ctx.shardId ≠ defaultShard then .error .forbiddenOperation else .ok ()
  | some shardKey =>
    if !ctx.privileged && !ctx.shardDeclared then .error .forbiddenOperation
    else
      (encodeShardKey doc shardKey).bind fun key =>
        if ctx.router key ≠ ctx.shardId then .error .forbiddenOperation else .ok ()

def enforceShardKeyImmutable (ctx : KernelContext) (tableMeta : TableMeta)
    (oldDoc newDoc : DocumentValue) : Except KernelError Unit :=
  match tableMeta.shardKey with
  | none => .ok ()
  | some shardKey =>
    if ctx.privileged then .ok ()
    else
      (encodeShardKey oldDoc shardKey).bind fun before =>
        (encodeShardKey newDoc shardKey).bind fun after =>
          if before ≠ after then .error .forbiddenOperation else .ok ()

/-! ## Handlers -/

/-- A syscall handler, cut at its `await`s. -/
inductive Handler where
  | done (result : Except KernelError (Option JsString))
  | get (id : InternalDocumentId) (next : Option DocumentValue → Handler)
  | enforceWrite (row : DocumentValue) (next : Handler)
  /-- `put` or `delete`, then `maintainIndexes`, then return. -/
  | stage (id : InternalDocumentId) (oldDoc newDoc : Option DocumentValue)
      (result : Option JsString)

/-- Go on with the value or throw. -/
def Handler.attempt {α : Type} : Except KernelError α → (α → Handler) → Handler
  | .ok a, next => next a
  | .error e, _ => .done (.error e)

/-- `{ ...fields, [name]: value }`. -/
def setField (fields : DocumentValue) (name : JsString) (value : Value) : DocumentValue :=
  if fields.any fun f => f.1 = name then
    fields.map fun f => if f.1 = name then (name, value) else f
  else fields ++ [(name, value)]

def eraseField (fields : DocumentValue) (name : JsString) : DocumentValue :=
  fields.filter fun f => f.1 ≠ name

/-- `Number(ctx.snapshotTs)`. -/
def KernelContext.now (ctx : KernelContext) : Value := .number (.ofNat ctx.snapshotTs)

/-- The end of `handleDbInsert`, once the id is known. -/
def insertAt (ctx : KernelContext) (tableMeta : TableMeta) (userValue : DocumentValue)
    (id : InternalDocumentId) : Handler :=
  .attempt ((encodeDocumentId id).mapError .documentId) fun docId =>
    let doc := setField (setField userValue idField (.string docId)) creationTimeField ctx.now
    .attempt (enforceShardWrite ctx tableMeta doc .insert) fun _ =>
      .enforceWrite doc (.stage id none (some doc) (some docId))

/-- `generated` are the bytes `newDocumentId` draws if the value brings no `_id`. -/
def handleDbInsert (ctx : KernelContext) (table : String) (value : DocumentValue)
    (generated : Bytes) : Handler :=
  if !ctx.dbWrite then .done (.error .forbiddenOperation)
  else
    .attempt (requireTable ctx table) fun tableMeta =>
      let userValue := eraseField value idField
      if !tableMeta.documentValidator userValue then .done (.error .documentValidation)
      else
        match JsValue.property value idField with
        | .undefined => insertAt ctx tableMeta userValue ⟨tableMeta.tableNumber, generated⟩
        | .value (.string suppliedId) =>
          match decodeDocumentId suppliedId with
          | .error _ => .done (.error .invalidClientId)
          | .ok decoded =>
            if decoded.tableNumber ≠ tableMeta.tableNumber ∨ tableMeta.shardKey.isSome ∨
                ctx.shardId ≠ defaultShard then .done (.error .invalidClientId)
            else
              .get decoded fun existing =>
                if existing.isSome then .done (.error .idAlreadyInUse)
                else insertAt ctx tableMeta userValue decoded
        | _ => .done (.error .invalidClientId)

/-- `oldDoc._creationTime ?? Number(ctx.snapshotTs)`. -/
def creationTimeOf (ctx : KernelContext) (oldDoc : DocumentValue) : Value :=
  match oldDoc.find? fun f => f.1 = creationTimeField with
  | some (_, .null) => ctx.now
  | some (_, v) => v
  | none => ctx.now

/-- `_id` becomes the id as the caller spelled it. -/
def handleDbReplace (ctx : KernelContext) (id : JsString) (value : DocumentValue) : Handler :=
  if !ctx.dbWrite then .done (.error .forbiddenOperation)
  else
    .attempt ((decodeDocumentId id).mapError .documentId) fun internalId =>
      .attempt (requireOwnTable ctx internalId) fun tableMeta =>
        .get internalId fun
          | none => .done (.error .documentNotFound)
          | some oldDoc =>
            .enforceWrite oldDoc <|
              if !tableMeta.documentValidator
                  (eraseField (eraseField value idField) creationTimeField) then
                .done (.error .documentValidation)
              else
                let newDoc := setField (setField value idField (.string id)) creationTimeField
                  (creationTimeOf ctx oldDoc)
                .attempt (enforceShardKeyImmutable ctx tableMeta oldDoc newDoc) fun _ =>
                  .attempt (enforceShardWrite ctx tableMeta newDoc .replace) fun _ =>
                    .enforceWrite newDoc (.stage internalId (some oldDoc) (some newDoc) none)

def handleDbDelete (ctx : KernelContext) (id : JsString) : Handler :=
  if !ctx.dbWrite then .done (.error .forbiddenOperation)
  else
    .attempt ((decodeDocumentId id).mapError .documentId) fun internalId =>
      .attempt (requireOwnTable ctx internalId) fun tableMeta =>
        .get internalId fun
          | none => .stage internalId none none none
          | some oldDoc =>
            .attempt (enforceShardWrite ctx tableMeta oldDoc .delete) fun _ =>
              .enforceWrite oldDoc (.stage internalId (some oldDoc) none none)

inductive Syscall where
  | insert (table : String) (value : DocumentValue) (generated : Bytes)
  | replace (id : JsString) (value : DocumentValue)
  | delete (id : JsString)
  deriving DecidableEq

def Syscall.handler (ctx : KernelContext) : Syscall → Handler
  | .insert table value generated => handleDbInsert ctx table value generated
  | .replace id value => handleDbReplace ctx id value
  | .delete id => handleDbDelete ctx id

/-! ## Staging -/

/-- The point ranges of the index keys a change of a document writes. -/
def indexWriteRanges (indexes : List IndexSpec) (oldDoc newDoc : Option DocumentValue) :
    List KeyRange :=
  indexes.flatMap fun idx =>
    ([oldDoc, newDoc].filterMap fun doc =>
      (extractKey? doc idx.fields).toOption.join).map fun key =>
      pointRange idx.indexId.keyspace key

/-- What `put`/`delete` and `maintainIndexes` do to the transaction context. If a key cannot
be encoded, `maintainIndexes` throws after the document has been staged. -/
def stageOps (catalog : Catalog) (id : InternalDocumentId) (oldDoc newDoc : Option DocumentValue) :
    List (CtxOp DocumentValue) :=
  (match newDoc with
    | some doc => .put id doc
    | none => .delete id) ::
  match computeIndexUpdates (catalog.indexesForTable id.tableNumber) oldDoc newDoc id with
  | .error _ => []
  | .ok updates =>
    .stageIndexUpdates updates ::
      (indexWriteRanges (catalog.indexesForTable id.tableNumber) oldDoc newDoc).map .recordWrite

/-! ## Execution -/

/-- A syscall in flight: its handler, or what follows the answer of the store. -/
inductive InFlight where
  | running (handler : Handler)
  | awaiting (id : InternalDocumentId) (next : Option DocumentValue → Handler)

/-- Run a syscall to its next `await`: what it does to the transaction context, and what is left
of it. `docs` answers for the store at the transaction's snapshot and `staged` are its own
writes at this moment; `allowed` is the verdict of the write policy, if one is awaited. -/
def InFlight.step (catalog : Catalog) (docs : InternalDocumentId → Option DocumentValue)
    (staged : OrderedMap InternalDocumentId (Option DocumentValue)) (allowed : Bool) :
    InFlight → List (CtxOp DocumentValue) × Option InFlight
  | .running (.done _) => ([], none)
  | .running (.get id next) =>
    -- `get` looks at the transaction's own writes before its first `await`
    match staged.get? id with
    | some value => ([.get id], some (.running (next value)))
    | none => ([.get id], some (.awaiting id next))
  | .awaiting id next =>
    ([.look (pointRange (docKeyspace id) id.internalId)], some (.running (next (docs id))))
  | .running (.enforceWrite _ next) => ([], if allowed then some (.running next) else none)
  | .running (.stage id oldDoc newDoc _) => (stageOps catalog id oldDoc newDoc, none)

/-! ## Example catalog -/

namespace KernelExample

/-- One table with one index, on the field `tag`. -/
def byTag : IndexSpec := ⟨1, "by_tag", [js "tag"]⟩

def catalog : Catalog where
  tables := [⟨"items", 1, fun _ => true, none⟩]
  indexes := [byTag]
  indexIds_nodup := by decide

def kernelContext : KernelContext where
  catalog := catalog
  dbWrite := true
  privileged := false
  namespacePath := ""
  shardId := defaultShard
  shardDeclared := false
  router := fun _ => defaultShard
  snapshotTs := 0

def item : InternalDocumentId := ⟨1, List.replicate 16 (byte 5)⟩

def itemId : JsString := (encodeDocumentId item).toOption.getD []

def insertItem (fields : DocumentValue) : Syscall := .insert "items" fields item.internalId

end KernelExample

end Helipod
