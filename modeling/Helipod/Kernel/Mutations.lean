import Helipod.Kernel.IndexLog
import Helipod.Transactor.Contexts
import Helipod.Transactor.SingleWriter

/-!
# Mutations and the index log

Model of mutations that issue one write syscall at a time on a `SingleWriterTransactor`:
the transactor's own steps, and the syscalls of each running body, which advance from
`await` to `await` between them. Bodies read as they like and write through syscalls only.

A handler stages its document before it computes the index keys. If a key cannot be
encoded, the syscall throws with the document staged, and a body that catches the error
commits a document without index entries.

Results: `live_index_entries`, `missing_index_entries`.
-/

namespace Helipod

open OrderedMap List Option

open Except (mapError_eq_ok)
open Store

/-! ## Model -/

/-- A transactor whose bodies are mutations, with the syscall each body awaits. -/
structure KernelTransactor where
  base : SingleWriterTransactor DocumentValue
  syscalls : OrderedMap Nat InFlight

inductive KernelEvent where
  | transactor (e : Event DocumentValue)
  | call (i : Nat) (ctx : KernelContext) (s : Syscall)
  /-- The syscall of body `i` runs to its next `await`. -/
  | resume (i : Nat) (allowed : Bool)

namespace KernelTransactor

/-- Bodies write through syscalls only, and do not end while they await one. -/
def permits (t : KernelTransactor) : Event DocumentValue → Bool
  | .op _ op => op.isRead
  | .bodyReturns i | .bodyThrows i _ => (t.syscalls.get? i).isNone
  | _ => true

/-- The kernel context of a mutation whose transaction has this context. -/
def contextFor (catalog : Catalog) (ctx : KernelContext) (txn : TransactionContext DocumentValue) :
    KernelContext :=
  { ctx with catalog, snapshotTs := txn.snapshotTs }

/-- The documents at the snapshot of a transaction. -/
def snapshot (t : KernelTransactor) (txn : TransactionContext DocumentValue) :
    InternalDocumentId → Option DocumentValue :=
  docsAt t.base.store.log (some txn.snapshotTs)

def step (catalog : Catalog) (t : KernelTransactor) : KernelEvent → Option KernelTransactor
  | .transactor e => if t.permits e then (t.base.step e).map fun base => { t with base } else none
  | .call i ctx s =>
    (t.base.writer.calls[i]?).bind fun c =>
      if c.phase = .body ∧ t.syscalls.get? i = none then
        some { t with
          syscalls := t.syscalls.set i (.running (s.handler (contextFor catalog ctx c.ctx))) }
      else none
  | .resume i allowed =>
    (t.base.writer.calls[i]?).bind fun c =>
      (t.syscalls.get? i).bind fun s =>
        let next := s.step catalog (t.snapshot c.ctx) c.ctx.staged allowed
        (Runs.run SingleWriterTransactor.step t.base (next.1.map (.op i))).map fun base =>
          { base
            syscalls :=
              match next.2 with
              | some s => t.syscalls.set i s
              | none => t.syscalls.erase i }

def new (store : Store DocumentValue) (shard : Nat) (groupCommit : Bool) : KernelTransactor :=
  ⟨.new store shard groupCommit, .empty⟩

end KernelTransactor

/-! ## Steps that keep the indexes -/

/-- The id an insert generates, if it gets that far. -/
def Syscall.generatedId (ctx : KernelContext) : Syscall → Option InternalDocumentId
  | .insert table value generated =>
    match requireTable ctx table, JsValue.property value idField with
    | .ok tableMeta, .undefined => some ⟨tableMeta.tableNumber, generated⟩
    | _, _ => none
  | _ => none

/-- A document that the transaction wrote but never read is new. -/
def TransactionContext.unreadIdsNew (log : List (Commit DocumentValue))
    (ctx : TransactionContext DocumentValue) : Bool :=
  ctx.staged.keys.all fun id => decide (docKey id ∈ ctx.validatedReads.keys) ||
    log.all fun d => d.unit.documents.all fun e => e.id ≠ id

/-- The index keys of every staged write can be encoded, and the ids that the kernel generates
name no other document: none the transaction sees and, when it commits, none of the log. -/
def KernelTransactor.regular (catalog : Catalog) (t : KernelTransactor) : KernelEvent → Bool
  | .call i ctx s =>
    (t.base.writer.calls[i]?).all fun c =>
      (s.generatedId (contextFor catalog ctx c.ctx)).all fun id =>
        (visible (t.snapshot c.ctx) c.ctx.staged id).isNone
  | .resume i _ => (t.syscalls.get? i).all fun s => s.keysEncode catalog
  | .transactor .land => t.base.writer.inflight.all fun e =>
    e.1.isNone || e.2.ctx.unreadIdsNew t.base.store.log
  | .transactor _ => true

/-! ## Handlers that know the document they change -/

theorem property_setField (fields : DocumentValue) (name : JsString) (value : Value) :
    JsValue.property (setField fields name value) name = .value value := by
  unfold setField
  split
  · rename_i hany
    have hfind : (fields.map fun f => if f.1 = name then (name, value) else f).find?
        (fun f => f.1 = name) = some (name, value) := by
      induction fields with
      | nil => simp at hany
      | cons f fields ih =>
        by_cases hf : f.1 = name
        · simp [hf]
        · simpa [hf] using ih (by simpa [hf] using hany)
    rw [JsValue.property, hfind]
  · rename_i hany
    have hnone : fields.find? (fun f => f.1 = name) = none :=
      find?_eq_none.2 fun f hf heq => hany (any_eq_true.2 ⟨f, hf, heq⟩)
    simp [JsValue.property, hnone]

theorem property_setField_ne (fields : DocumentValue) {name name' : JsString} (value : Value)
    (hne : name ≠ name') :
    JsValue.property (setField fields name value) name' = JsValue.property fields name' := by
  suffices h : (setField fields name value).find? (fun f => f.1 = name') =
      fields.find? fun f => f.1 = name' by
    rw [JsValue.property, h, JsValue.property]
  have hmap : ∀ fs : DocumentValue, (fs.map fun f => if f.1 = name then (name, value) else f).find?
      (fun f => f.1 = name') = fs.find? fun f => f.1 = name' := by
    intro fs
    induction fs with
    | nil => rfl
    | cons f fs ih => by_cases hf : f.1 = name <;> by_cases hf' : f.1 = name' <;> simp_all
  unfold setField
  split
  · exact hmap fields
  · simp [hne]

theorem idField_ne_creationTimeField : creationTimeField ≠ idField := by decide +kernel

theorem isDocument_setField {fields : DocumentValue} {s : JsString} {id : InternalDocumentId}
    (h : decodeDocumentId s = .ok id) (time : Value) :
    IsDocument (setField (setField fields idField (.string s)) creationTimeField time) id := by
  refine ⟨s, ?_, h⟩
  rw [property_setField_ne _ _ idField_ne_creationTimeField, property_setField]

/-- Whatever the handler stages, it replaces the document that the transaction sees, by one
with the same id. -/
def Handler.Safe (docs : InternalDocumentId → Option DocumentValue) : Handler → Prop
  | .done _ => True
  | .get id next => (next (docs id)).Safe docs
  | .enforceWrite _ next => next.Safe docs
  | .stage id oldDoc newDoc _ => docs id = oldDoc ∧ ∀ doc, newDoc = some doc → IsDocument doc id

def InFlight.Safe (base : InternalDocumentId → Option DocumentValue) (staged : StagedWrites) :
    InFlight → Prop
  | .running handler => handler.Safe (visible base staged)
  | .awaiting id next => staged.get? id = none ∧ (next (base id)).Safe (visible base staged)

namespace Handler.Safe

variable {docs : InternalDocumentId → Option DocumentValue} {ctx : KernelContext}

theorem attempt {α : Type} {x : Except KernelError α} {next : α → Handler}
    (h : ∀ a, x = .ok a → (next a).Safe docs) : (Handler.attempt x next).Safe docs := by
  cases x with
  | error e => trivial
  | ok a => exact h a rfl

theorem insertAt (tableMeta : TableMeta) (userValue : DocumentValue) {id : InternalDocumentId}
    (h : docs id = none) : (insertAt ctx tableMeta userValue id).Safe docs := by
  refine attempt fun docId hid => attempt fun _ _ => ⟨h, ?_⟩
  rintro doc hdoc
  cases hdoc
  exact isDocument_setField (decodeDocumentId_encode (mapError_eq_ok.1 hid)) _

theorem handleDbInsert (table : String) (value : DocumentValue) (generated : Bytes)
    (h : ∀ id, (Syscall.insert table value generated).generatedId ctx = some id → docs id = none) :
    (handleDbInsert ctx table value generated).Safe docs := by
  unfold Helipod.handleDbInsert
  split
  · trivial
  · refine attempt fun tableMeta htable => ?_
    simp only
    split
    · trivial
    · split
      · rename_i hprop
        refine insertAt _ _ (h _ ?_)
        simp [Syscall.generatedId, htable, hprop]
      · rename_i suppliedId hprop
        split
        · trivial
        · rename_i decoded hdec
          split
          · trivial
          · -- the handler goes on only if it has read that there is no such document
            show (if _ then _ else _ : Handler).Safe docs
            split
            · trivial
            · rename_i hnone
              exact insertAt _ _ (by simpa using hnone)
      · trivial

theorem handleDbReplace (id : JsString) (value : DocumentValue) :
    (handleDbReplace ctx id value).Safe docs := by
  unfold Helipod.handleDbReplace
  split
  · trivial
  · refine attempt fun internalId hid => attempt fun tableMeta _ => ?_
    rw [Handler.Safe]
    cases hold : docs internalId with
    | none => trivial
    | some oldDoc =>
      show (if _ then _ else _ : Handler).Safe docs
      split
      · trivial
      · refine attempt fun _ _ => attempt fun _ _ => ⟨hold, ?_⟩
        rintro doc hdoc
        cases hdoc
        exact isDocument_setField (mapError_eq_ok.1 hid) _

theorem handleDbDelete (id : JsString) : (handleDbDelete ctx id).Safe docs := by
  unfold Helipod.handleDbDelete
  split
  · trivial
  · refine attempt fun internalId hid => attempt fun tableMeta _ => ?_
    rw [Handler.Safe]
    cases hold : docs internalId with
    | none => exact ⟨hold, by simp⟩
    | some oldDoc => exact attempt fun _ _ => ⟨hold, by simp⟩

theorem handler (s : Syscall) (h : ∀ id, s.generatedId ctx = some id → docs id = none) :
    (s.handler ctx).Safe docs := by
  cases s with
  | insert table value generated => exact handleDbInsert table value generated h
  | replace id value => exact handleDbReplace id value
  | delete id => exact handleDbDelete id

end Handler.Safe

/-! ## Operations of a body -/

/-- Operations of a body change its context and nothing else. -/
theorem SingleWriterTransactor.run_ops {V : Type} {t t' : SingleWriterTransactor V} {i : Nat}
    {c : Call V} {ops : List (CtxOp V)} (hi : t.writer.calls[i]? = some c)
    (hr : Runs.run SingleWriterTransactor.step t (ops.map (.op i)) = some t') :
    t' = ⟨t.store, t.writer.setCall i
      { c with ctx := ops.foldl (TransactionContext.apply t.store.landed) c.ctx }⟩ := by
  induction ops generalizing t c with
  | nil =>
    cases hr
    have hset : t'.writer.calls.set i c = t'.writer.calls := by
      obtain ⟨hlt, rfl⟩ := List.getElem?_eq_some_iff.1 hi
      exact set_getElem_self hlt
    simp [ShardWriter.setCall, hset]
  | cons op ops ih =>
    obtain ⟨m, hm, hr⟩ := Runs.run_cons_eq_some.1 hr
    obtain ⟨⟨store, w, out⟩, hw, rfl⟩ := map_eq_some_iff.1 hm
    obtain ⟨d, hd, hs⟩ := bind_eq_some_iff.1 hw
    obtain ⟨w₁, hw₁, heq⟩ := map_eq_some_iff.1 hs
    rw [hi] at hd
    cases hd
    cases heq
    simp only [ShardWriter.stepCall] at hw₁
    split at hw₁ <;> cases hw₁
    rw [ih (List.getElem?_set_self (List.getElem?_eq_some_iff.1 hi).1) hr]
    simp [ShardWriter.setCall]

namespace InFlight

/-- A syscall stages its write and is over, or only reads and stays safe. -/
theorem step_cases (s : InFlight) (catalog : Catalog)
    (docs : InternalDocumentId → Option DocumentValue) (staged : StagedWrites) (allowed : Bool) :
    (∃ id oldDoc newDoc result, s = .running (.stage id oldDoc newDoc result) ∧
      s.step catalog docs staged allowed = (stageOps catalog id oldDoc newDoc, none)) ∨
    (∀ op ∈ (s.step catalog docs staged allowed).1, op.isRead = true) ∧
      ∀ s', (s.step catalog docs staged allowed).2 = some s' → s.Safe docs staged →
        s'.Safe docs staged := by
  match s with
  | .running (.done r) => exact .inr ⟨by simp [step], by simp [step]⟩
  | .running (.get id next) =>
    refine .inr ?_
    cases hs : staged.get? id with
    | some value =>
      simp only [step, hs, mem_singleton, forall_eq, Option.some.injEq, forall_eq']
      refine ⟨rfl, fun h => ?_⟩
      have hvis : visible docs staged id = value := by rw [visible, hs]; rfl
      exact hvis ▸ h
    | none =>
      simp only [step, hs, mem_singleton, forall_eq, Option.some.injEq, forall_eq']
      refine ⟨rfl, fun h => ⟨hs, ?_⟩⟩
      have hvis : visible docs staged id = docs id := by rw [visible, hs]; rfl
      exact hvis ▸ h
  | .awaiting id next =>
    simp only [step, mem_singleton, forall_eq, Option.some.injEq, forall_eq']
    exact .inr ⟨rfl, fun h => h.2⟩
  | .running (.enforceWrite row next) =>
    refine .inr ⟨by simp [step], fun s' hs' h => ?_⟩
    cases allowed with
    | false => simp [step] at hs'
    | true =>
      cases hs'
      exact h
  | .running (.stage id oldDoc newDoc result) => exact .inl ⟨id, oldDoc, newDoc, result, rfl, rfl⟩

end InFlight

/-! ## The invariant -/

theorem Store.docsAt_append {V : Type} {log log' : List (Commit V)} {b : Nat}
    (h : ∀ d ∈ log', b < d.ts) : docsAt (log ++ log') (some b) = docsAt log (some b) := by
  funext id
  have hnil : log'.filter (fun d => admits (some b) d.ts) = [] :=
    filter_eq_nil_iff.2 fun d hd => by simpa [admits] using h d hd
  rw [docsAt, docsAt, ← getIn_filter, filter_append, hnil, append_nil, getIn_filter]

namespace KernelTransactor

/-- The staged entries of every transaction are in step with its writes, over its snapshot;
the syscalls in flight know the documents they change. -/
structure Inv (catalog : Catalog) (t : KernelTransactor) : Prop where
  base : t.base.Inv
  log : IndexedLog catalog t.base.store.log
  contexts : ∀ ctx, t.base.writer.HasContext ctx →
    Indexed catalog (t.snapshot ctx) ctx.staged ctx.indexUpdates
  syscalls : ∀ i s, t.syscalls.get? i = some s → ∃ c, t.base.writer.calls[i]? = some c ∧
    c.phase = .body ∧ s.Safe (t.snapshot c.ctx) c.ctx.staged

namespace Inv

variable {catalog : Catalog} {t t' : KernelTransactor} {i : Nat}

theorem init {store : Store DocumentValue} {shard : Nat} (h : store.OpenedBy shard)
    (hlog : IndexedLog catalog store.log) (group : Bool) : Inv catalog (new store shard group) where
  base := .init h group
  log := hlog
  contexts := by
    rintro ctx (⟨c, hc, -⟩ | ⟨e, he, -⟩)
    · exact absurd hc not_mem_nil
    · exact absurd he not_mem_nil
  syscalls i s hs := by simp [new] at hs

variable (h : Inv catalog t)
include h

/-- A transaction that lands was in step over its snapshot; what it has read has not changed
since, and what it has not read is new. -/
theorem indexed_landed {base' : SingleWriterTransactor DocumentValue} (hinv' : base'.Inv)
    (hnew : ∀ d ∈ base'.store.log, d ∉ t.base.store.log →
      (some d.ts, d.unit) ∈ t.base.writer.inflight)
    {x : Commit DocumentValue} (hx : x ∈ base'.store.log)
      (hin : (some x.ts, x.unit) ∈ t.base.writer.inflight)
    (hids : x.unit.ctx.unreadIdsNew t.base.store.log = true)
    (hsnap : docsAt base'.store.log (some x.unit.ctx.snapshotTs) = t.snapshot x.unit.ctx) :
    Indexed catalog (docsAt (before base'.store.log x.ts) none) x.unit.ctx.staged
      x.unit.ctx.indexUpdates := by
  refine (h.contexts _ (.inr ⟨_, hin, rfl⟩)).congr fun id hid => ?_
  rw [← hsnap]
  have hlt : x.unit.ctx.snapshotTs < x.ts :=
    hinv'.writer.occ.snap_lt (x.ts, x.unit.ctx.abs) ⟨x, hx, hinv'.docs.own x hx, rfl⟩
  -- the commits that wrote the document are below the snapshot exactly if they are older
  have hsame : ∀ d ∈ base'.store.log, Writes d id →
    (d.ts < x.ts ↔ d.ts ≤ x.unit.ctx.snapshotTs) := by
    rintro d hd ⟨e, he, rfl⟩
    obtain ⟨hcomplete, hcovers⟩ := hinv'.docs.log d hd
    have hkey := hcomplete.mem_keys he
    refine ⟨fun hdx => ?_, fun hle => by omega⟩
    rcases Bool.or_eq_true _ _ |>.mp (all_eq_true.1 hids e.id hid) with hread | hfresh
    · exact (hinv'.writer.no_missed_commit hx hd (hinv'.docs.own x hx) (hinv'.docs.own d hd) hdx
        (of_decide_eq_true hread) (hcovers e.id hkey)).1
    · by_cases hold : d ∈ t.base.store.log
      · have := all_eq_true.1 (all_eq_true.1 hfresh d hold) e he
        simp at this
      · have hne : ((some d.ts, d.unit) : Option Nat × StagedUnit DocumentValue) ≠
            (some x.ts, x.unit) := by
          intro heq
          have := (Prod.mk.inj heq).1
          simp only [Option.some.injEq] at this
          omega
        exact absurd hid
          (ShardWriter.docsApart_of_mem h.base.docs.apart (hnew d hd hold) hin hne hkey)
  have hall : base'.store.log = base'.store.log.filter fun _ => true := by simp
  have hget : getIn (before base'.store.log x.ts) id none =
      getIn base'.store.log id (some x.unit.ctx.snapshotTs) := by
    conv_rhs => rw [hall]
    refine getIn_congr fun d hd hw => ?_
    have := hsame d hd hw
    simpa [admits] using this
  rw [docsAt, docsAt, hget]

/-- The steps of the transactor itself. -/
theorem transactor {e : Event DocumentValue} (hp : t.permits e = true)
    (hg : t.regular catalog (.transactor e) = true)
    {base' : SingleWriterTransactor DocumentValue} (hs : t.base.step e = some base') :
    Inv catalog { t with base := base' } := by
  have hinv' := h.base.step hs
  obtain ⟨⟨store, w, out⟩, hw, rfl⟩ := map_eq_some_iff.1 hs
  obtain ⟨new, hlog, hnew⟩ := h.base.writer.step_landed h.base.docs hw
  have hstable : ∀ ctx, t.base.writer.HasContext ctx →
      docsAt store.log (some ctx.snapshotTs) = t.snapshot ctx := by
    intro ctx hctx
    rw [hlog]
    exact docsAt_append fun d hd => (hnew d hd).2.2.2 ctx hctx
  refine ⟨hinv', ⟨hinv'.docs.sorted, fun d hd => (hinv'.docs.log d hd).1, ?_⟩, ?_, ?_⟩
  · intro x hx
    have hx' : x ∈ t.base.store.log ++ new := hlog ▸ hx
    rcases mem_append.1 hx' with hold | hx'
    · have hbefore : before store.log x.ts = before t.base.store.log x.ts := by
        have hnil : before new x.ts = [] := before_eq_nil fun d hd => ((hnew d hd).2.2.1 x hold).le
        rw [hlog, before_append, hnil, append_nil]
      rw [hbefore]
      exact h.log.indexed x hold
    · obtain ⟨rfl, hin, -, -⟩ := hnew x hx'
      have hids : x.unit.ctx.unreadIdsNew t.base.store.log = true := by
        simpa using all_eq_true.1 hg _ hin
      refine h.indexed_landed hinv' (fun d hd hnot => ?_) hx hin hids
        (hstable _ (.inr ⟨_, hin, rfl⟩))
      have hd' : d ∈ t.base.store.log ++ new := hlog ▸ hd
      rcases mem_append.1 hd' with hd' | hd'
      · exact absurd hd' hnot
      · exact (hnew d hd').2.1
  · intro ctx hctx
    rcases ShardWriter.HasContext.step hctx hw with hctx | rfl | ⟨i, op, c, rfl, hi, hbody, rfl⟩
    · show Indexed catalog (docsAt store.log (some ctx.snapshotTs)) _ _
      rw [hstable ctx hctx]
      exact h.contexts ctx hctx
    · exact Indexed.empty
    · have hold := ShardWriter.HasContext.of_call hi (by rw [hbody]; rfl)
      have hsame := c.ctx.sameWrites_apply t.base.store.landed (CtxOp.keepsWrites_of_isRead hp)
      show Indexed catalog (docsAt store.log (some (c.ctx.apply _ op).snapshotTs)) _ _
      rw [hsame.snapshotTs, hsame.staged, hsame.indexUpdates, hstable _ hold]
      exact h.contexts c.ctx hold
  · intro i s hsys
    obtain ⟨c, hi, hbody, hsafe⟩ := h.syscalls i s hsys
    have hold := ShardWriter.HasContext.of_call hi (by rw [hbody]; rfl)
    rcases ShardWriter.step_body hw hi hbody with hi' | ⟨op, rfl, hi'⟩ | rfl | ⟨b, rfl⟩
    · refine ⟨c, hi', hbody, ?_⟩
      show s.Safe (docsAt store.log (some c.ctx.snapshotTs)) _
      rw [hstable _ hold]
      exact hsafe
    · refine ⟨_, hi', hbody, ?_⟩
      have hsame := c.ctx.sameWrites_apply t.base.store.landed (CtxOp.keepsWrites_of_isRead hp)
      show s.Safe (docsAt store.log (some (c.ctx.apply _ op).snapshotTs)) (c.ctx.apply _ op).staged
      rw [hsame.snapshotTs, hsame.staged, hstable _ hold]
      exact hsafe
    -- the body awaits a syscall, so it does not end
    · simp [permits, show t.syscalls.get? i = some s from hsys] at hp
    · simp [permits, show t.syscalls.get? i = some s from hsys] at hp

theorem call {ctx : KernelContext} {s : Syscall} (hg : t.regular catalog (.call i ctx s) = true)
    (hs : t.step catalog (.call i ctx s) = some t') :
    Inv catalog t' := by
  obtain ⟨c, hi, hs⟩ := bind_eq_some_iff.1 hs
  split at hs <;> cases hs
  rename_i hbody
  refine ⟨h.base, h.log, h.contexts, fun j s' hs' => ?_⟩
  rcases get?_set_eq_some.1 hs' with ⟨rfl, rfl⟩ | ⟨-, hs'⟩
  · refine ⟨c, hi, hbody.1, Handler.Safe.handler s fun id hid => ?_⟩
    have hfresh : ((s.generatedId (contextFor catalog ctx c.ctx)).all fun id =>
        (visible (t.snapshot c.ctx) c.ctx.staged id).isNone) = true := by
      have hg : ((t.base.writer.calls[j]?).all _) = true := hg
      rw [hi] at hg
      exact hg
    rw [hid] at hfresh
    exact isNone_iff_eq_none.1 hfresh
  · exact h.syscalls j s' hs'

/-- A syscall that runs to its next `await` leaves its context in step. -/
theorem indexed_resume {c : Call DocumentValue} {s : InFlight}
    (hi : t.base.writer.calls[i]? = some c) (hbody : c.phase = .body)
    (hsafe : s.Safe (t.snapshot c.ctx) c.ctx.staged) (hkeys : s.keysEncode catalog = true)
    (allowed : Bool) :
    let ops := (s.step catalog (t.snapshot c.ctx) c.ctx.staged allowed).1
    let ctx := ops.foldl (TransactionContext.apply t.base.store.landed) c.ctx
    ctx.snapshotTs = c.ctx.snapshotTs ∧
      Indexed catalog (t.snapshot c.ctx) ctx.staged ctx.indexUpdates := by
  have hold := h.contexts c.ctx (.of_call hi (by rw [hbody]; rfl))
  rcases s.step_cases catalog (t.snapshot c.ctx) c.ctx.staged allowed
    with ⟨id, oldDoc, newDoc, result, rfl, hstep⟩ | ⟨hread, -⟩
  · rw [hstep]
    cases hus : computeIndexUpdates (catalog.indexesForTable id.tableNumber) oldDoc newDoc id with
    | error e => simp [InFlight.keysEncode, hus, Except.toBool] at hkeys
    | ok us =>
      obtain ⟨hsnap, hstaged, hupdates⟩ :=
        c.ctx.foldl_stageOps t.base.store.landed catalog id oldDoc newDoc
      refine ⟨hsnap, ?_⟩
      rw [hstaged, hupdates, stagedUpdates, hus]
      have hwrite : StagedWrite catalog (t.snapshot c.ctx) c.ctx.staged id oldDoc newDoc us :=
        ⟨hsafe.1, hus⟩
      exact hwrite.indexed hsafe.2 hold (h.log.entriesFor _).indexable
  · have hsame := c.ctx.sameWrites_foldl t.base.store.landed
      fun op hop => CtxOp.keepsWrites_of_isRead (hread op hop)
    refine ⟨hsame.snapshotTs, ?_⟩
    rw [hsame.staged, hsame.indexUpdates]
    exact hold

theorem resume {allowed : Bool} (hg : t.regular catalog (.resume i allowed) = true)
    (hs : t.step catalog (.resume i allowed) = some t') : Inv catalog t' := by
  obtain ⟨c, hi, hs⟩ := bind_eq_some_iff.1 hs
  obtain ⟨s, hsys, hs⟩ := bind_eq_some_iff.1 hs
  obtain ⟨base', hrun, rfl⟩ := map_eq_some_iff.1 hs
  have hinv' := Runs.run_invariant
    (fun _ _ _ hi hs => SingleWriterTransactor.Inv.step hi hs) h.base hrun
  obtain ⟨c', hi', hbody, hsafe⟩ := h.syscalls i s hsys
  rw [hi] at hi'
  cases hi'
  have hkeys : s.keysEncode catalog = true := by
    have hg : ((t.syscalls.get? i).all _) = true := hg
    rw [hsys] at hg
    exact hg
  obtain ⟨hsnap, hindexed⟩ := h.indexed_resume hi hbody hsafe hkeys allowed
  have hlen : i < t.base.writer.calls.length := (List.getElem?_eq_some_iff.1 hi).1
  obtain rfl := SingleWriterTransactor.run_ops hi hrun
  refine ⟨hinv', h.log, fun ctx hctx => ?_, fun j s' hs' => ?_⟩
  · rcases ShardWriter.HasContext.setCall hctx with hctx | rfl
    · exact h.contexts ctx hctx
    · show Indexed catalog (docsAt t.base.store.log (some _)) _ _
      rw [hsnap]
      exact hindexed
  · by_cases hij : i = j
    · subst hij
      refine ⟨_, List.getElem?_set_self hlen, hbody, ?_⟩
      rcases s.step_cases catalog (t.snapshot c.ctx) c.ctx.staged allowed
        with ⟨id, oldDoc, newDoc, result, rfl, hstep⟩ | ⟨hread, hnext⟩
      · simp [hstep, get?_erase] at hs'
      · have hsame := c.ctx.sameWrites_foldl t.base.store.landed
          fun op hop => CtxOp.keepsWrites_of_isRead (hread op hop)
        cases hn : (s.step catalog (t.snapshot c.ctx) c.ctx.staged allowed).2 with
        | none => simp [hn, get?_erase] at hs'
        | some s'' =>
          simp only [hn, get?_set_self, Option.some.injEq] at hs'
          subst hs'
          show s''.Safe (docsAt t.base.store.log (some _)) _
          rw [hsame.snapshotTs, hsame.staged]
          exact hnext s'' hn hsafe
    · have hsys' : t.syscalls.get? j = some s' := by
        cases hn : (s.step catalog (t.snapshot c.ctx) c.ctx.staged allowed).2 with
        | none => simpa [hn, get?_erase, hij] using hs'
        | some s'' => simpa [hn, get?_set, hij] using hs'
      obtain ⟨d, hd, hdbody, hdsafe⟩ := h.syscalls j s' hsys'
      exact ⟨d, (getElem?_set_ne hij).trans hd, hdbody, hdsafe⟩

theorem step {e : KernelEvent} (hg : t.regular catalog e = true)
    (hs : t.step catalog e = some t') : Inv catalog t' := by
  cases e with
  | transactor e =>
    simp only [KernelTransactor.step] at hs
    split at hs
    · obtain ⟨base', hb, rfl⟩ := map_eq_some_iff.1 hs
      exact h.transactor ‹_› hg hb
    · simp at hs
  | call i ctx s => exact h.call hg hs
  | resume i allowed => exact h.resume hg hs

end Inv

end KernelTransactor

/-! ## Live entries -/

open KernelTransactor in
/-- In every run in which the index keys of all written documents can be encoded and generated
ids are new, for every index and at every timestamp: the live entries are those of the live
documents of the table, one for each, and a scan of the whole index returns each of these
documents once and in key order. -/
theorem live_index_entries {catalog : Catalog} {store : Store DocumentValue} {shard : Nat}
    (hstore : store.OpenedBy shard) (hlog : IndexedLog catalog store.log) {group : Bool}
    {events : List KernelEvent} (hregular : Runs.Guarded (KernelTransactor.step catalog)
      (fun t e => t.regular catalog e = true) (new store shard group) events) {t : KernelTransactor}
    (hrun : Runs.run (KernelTransactor.step catalog) (new store shard group) events = some t) :
    ∀ idx ∈ catalog.indexes, ∀ bound : Option Nat,
      (∀ key id, entryAt t.base.store.log bound idx.indexId key = some (.nonClustered id) ↔
        id.tableNumber = idx.tableNumber ∧ ∃ doc, docsAt t.base.store.log bound id = some doc ∧
          extractIndexKey doc idx.fields = .ok key) ∧
      (∀ id doc, id.tableNumber = idx.tableNumber → docsAt t.base.store.log bound id = some doc →
        ∃! key, entryAt t.base.store.log bound idx.indexId key = some (.nonClustered id)) ∧
      (∀ key id doc, (key, id, doc) ∈ indexScan t.base.store.log idx.indexId bound []
        none false none ↔
        id.tableNumber = idx.tableNumber ∧ docsAt t.base.store.log bound id = some doc ∧
          extractIndexKey doc idx.fields = .ok key) ∧
      ((indexScan t.base.store.log idx.indexId bound [] none false none).map fun r => r.2.1).Nodup ∧
      (indexScan t.base.store.log idx.indexId bound [] none false none).Pairwise
        fun r r' => compareKeyBytes r.1 r'.1 = .lt := by
  have hinv := Runs.run_invariant_of_guarded (fun _ _ _ hi hg hs => Inv.step hi hg hs)
    (Inv.init hstore hlog group) hregular hrun
  intro idx hidx bound
  have hentries := hinv.log.entriesFor bound
  refine ⟨hentries.iff idx hidx, fun id doc ht hd => ?_, fun key id doc =>
    hentries.indexScan_iff hidx, hentries.indexScan_ids_nodup hidx, ?_⟩
  · obtain ⟨-, hkeys⟩ := hentries.indexable id doc hd
    obtain ⟨key, hkey⟩ := hkeys idx hidx ht.symm
    refine ⟨key, (hentries.iff idx hidx key id).2 ⟨ht, doc, hd, hkey⟩, fun key' he => ?_⟩
    obtain ⟨-, doc', hd', hkey'⟩ := (hentries.iff idx hidx key' id).1 he
    rw [hd] at hd'
    cases hd'
    rw [hkey] at hkey'
    exact (Except.ok.inj hkey').symm
  · exact (indexScan_sorted _ _ _).imp fun hlt => compareKeyBytes_eq_lt.2 hlt

namespace MutationExample

open KernelExample

def emptyStore : Store DocumentValue := ⟨[], 0⟩

/-- Body `i`: insert an item with the given tag and return, whether the syscall throws or not. -/
def insertTagged (i : Nat) (tag : Value) : List KernelEvent :=
  [.transactor (.start 8), .call i kernelContext (insertItem [(js "tag", tag)]), .resume i true,
    .resume i true, .transactor (.bodyReturns i)]

def commitAt (i ts : Nat) : List KernelEvent :=
  [.acquire i, .prevAnswered, .allocate [ts], .land, .resolve].map .transactor

end MutationExample

open KernelExample MutationExample KernelTransactor in
/-- An item with an array as its tag is staged before the index key turns out not to exist. The
body catches the error and commits a document that no index entry points to. -/
theorem missing_index_entries : ∃ t,
    Runs.run (KernelTransactor.step catalog) (new emptyStore 0 false)
      (insertTagged 0 (.array []) ++ commitAt 0 1) = some t ∧
    byTag ∈ catalog.indexes ∧ item.tableNumber = byTag.tableNumber ∧
    (docsAt t.base.store.log none item).isSome = true ∧
    (∀ key, entryAt t.base.store.log none byTag.indexId key = none) ∧
    indexScan t.base.store.log byTag.indexId none [] none false none = [] := by
  refine Runs.exists_some_imp (fun t => (docsAt t.base.store.log none item).isSome = true ∧
    ∀ d ∈ t.base.store.log, d.unit.ctx.indexUpdates.isEmpty = true) (by decide +kernel)
      fun t _ ⟨hdoc, hlog⟩ => ?_
  have hentry : ∀ key, entryAt t.base.store.log none byTag.indexId key = none := by
    intro key
    cases he : entryAt t.base.store.log none byTag.indexId key with
    | none => rfl
    | some value =>
      obtain ⟨d, hd, u, hu, -⟩ := mem_indexKeys.1 (mem_indexKeys_of_entryAt he)
      rw [isEmpty_iff.1 (hlog d hd)] at hu
      simp at hu
  refine ⟨mem_singleton.2 rfl, rfl, hdoc, hentry, ?_⟩
  rw [indexScan_whole, filterMap_eq_nil_iff]
  intro key _
  cases hrow : scanRow t.base.store.log byTag.indexId none key with
  | none => rfl
  | some row =>
    have := (scanRow_eq_some.1 (show _ = some (row.1, row.2.1, row.2.2) from hrow)).2.1
    rw [hentry key] at this
    simp at this

namespace MutationExample

open KernelExample

/-- Body `i`: replace the item by one with another tag. -/
def retagItem (i : Nat) (id : JsString) (tag : Value) : List KernelEvent :=
  [.transactor (.start 8), .call i kernelContext (.replace id [(js "tag", tag)]),
    .resume i true, .resume i true, .resume i true, .resume i true, .resume i true,
    .transactor (.bodyReturns i)]

def retagged : List KernelEvent :=
  insertTagged 0 (.string (js "a")) ++ commitAt 0 1 ++ retagItem 1 itemId (.string (js "b")) ++
    commitAt 1 2

end MutationExample

open KernelExample MutationExample KernelTransactor in
/-- An item is inserted and gets another tag: one live entry at each of the two timestamps. -/
theorem live_index_entries_retagged : ∃ t,
    Runs.run (KernelTransactor.step catalog) (new emptyStore 0 false) retagged = some t ∧
    t.base.store.log.length = 2 ∧
    (∃! key, entryAt t.base.store.log (some 1) byTag.indexId key = some (.nonClustered item)) ∧
    ∃! key, entryAt t.base.store.log (some 2) byTag.indexId key = some (.nonClustered item) := by
  refine Runs.exists_some_imp (fun t => t.base.store.log.length = 2 ∧
    (docsAt t.base.store.log (some 1) item).isSome = true ∧
      (docsAt t.base.store.log (some 2) item).isSome = true) (by decide +kernel)
        fun t ht ⟨hlen, h1, h2⟩ => ?_
  obtain ⟨doc₁, h1⟩ := isSome_iff_exists.1 h1
  obtain ⟨doc₂, h2⟩ := isSome_iff_exists.1 h2
  have hlive := live_index_entries (openedBy_empty 0) (IndexedLog.nil : IndexedLog catalog [])
    (by decide +kernel) ht byTag (mem_singleton.2 rfl)
  exact ⟨hlen, (hlive (some 1)).2.1 item doc₁ rfl h1, (hlive (some 2)).2.1 item doc₂ rfl h2⟩

end Helipod
