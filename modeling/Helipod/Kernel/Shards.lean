import Helipod.Kernel.Mutations
import Helipod.Transactor.Writes

/-!
# Mutations on a sharded transactor

Model of mutations that run on the shards of one `ShardedTransactor`. A mutation issues write
syscalls, which may overlap; each advances from `await` to `await`. Bodies read as they like, write
through syscalls only, and do not end while one of theirs is under way.

A handler is told what the transaction sees: a document of the log, or one of its own writes. What
it stages depends on that and on its arguments. `Handler.Stages` is a property of everything a
handler can stage, whatever it is told.

Results: `ShardedKernel.Inv.step`, `ShardedKernel.Inv.writes_step`.
-/

namespace Helipod

open Runs Store ShardedTransactor List Option

/-! ## What a handler can stage -/

/-- What a syscall knows of a document it has been told. -/
abbrev Knowledge := InternalDocumentId → DocumentValue → Prop

/-- Whatever the handler is told, its write has property `P` and replaces a document that it knows.
What can be known may grow until it asks. -/
def Handler.Stages (P : InternalDocumentId → Option DocumentValue → Option DocumentValue → Prop) :
    Handler → Knowledge → Prop
  | .done _, _ => True
  | .get id next, seen => ∀ seen' : Knowledge, (∀ id doc, seen id doc → seen' id doc) →
      (next none).Stages P seen' ∧ ∀ doc, seen' id doc → (next (some doc)).Stages P seen'
  | .enforceWrite _ next, seen => next.Stages P seen
  | .stage id oldDoc newDoc _, seen => P id oldDoc newDoc ∧ ∀ doc, oldDoc = some doc → seen id doc

/-- The rest of a syscall, with the read it awaits. -/
def InFlight.handler : InFlight → Handler
  | .running handler => handler
  | .awaiting id next => .get id next

section Handler

variable {P : InternalDocumentId → Option DocumentValue → Option DocumentValue → Prop}
  {seen seen' : Knowledge}

theorem Handler.Stages.mono {h : Handler} (hs : h.Stages P seen)
    (hle : ∀ id doc, seen id doc → seen' id doc) : h.Stages P seen' := by
  induction h with
  | done r => trivial
  | get id next => exact fun later hlater => hs later fun id doc hd => hlater id doc (hle id doc hd)
  | enforceWrite row next ih => exact ih hs
  | stage id oldDoc newDoc r => exact ⟨hs.1, fun doc hdoc => hle id doc (hs.2 doc hdoc)⟩

theorem Handler.Stages.attempt {α : Type} {x : Except KernelError α} {next : α → Handler}
    (h : ∀ a, x = .ok a → (next a).Stages P seen) : (Handler.attempt x next).Stages P seen := by
  cases x with
  | error e => trivial
  | ok a => exact h a rfl

/-- A syscall stages its write and is over, or only reads and goes on. -/
theorem InFlight.stages_step {s : InFlight} (hs : s.handler.Stages P seen) (catalog : Catalog)
    {docs : InternalDocumentId → Option DocumentValue} {staged : StagedWrites} (allowed : Bool)
    (hdocs : ∀ id doc, docs id = some doc → seen id doc)
    (hstaged : ∀ id doc, staged.get? id = some (some doc) → seen id doc) :
    (∃ id oldDoc newDoc r, s = .running (.stage id oldDoc newDoc r) ∧
      s.step catalog docs staged allowed = (stageOps catalog id oldDoc newDoc, none)) ∨
    (∀ op ∈ (s.step catalog docs staged allowed).1, op.isRead = true) ∧
      ∀ s', (s.step catalog docs staged allowed).2 = some s' → s'.handler.Stages P seen := by
  match s with
  | .running (.done r) => exact .inr ⟨by simp [step], by simp [step]⟩
  | .running (.get id next) =>
    refine .inr ?_
    obtain ⟨hnone, hsome⟩ := hs seen fun _ _ h => h
    cases hget : staged.get? id with
    | some value =>
      simp only [step, hget, mem_singleton, forall_eq, Option.some.injEq, forall_eq']
      refine ⟨rfl, ?_⟩
      cases value with
      | none => exact hnone
      | some doc => exact hsome doc (hstaged id doc hget)
    | none =>
      simp only [step, hget, mem_singleton, forall_eq, Option.some.injEq, forall_eq']
      exact ⟨rfl, hs⟩
  | .awaiting id next =>
    obtain ⟨hnone, hsome⟩ := hs seen fun _ _ h => h
    simp only [step, mem_singleton, forall_eq, Option.some.injEq, forall_eq']
    refine .inr ⟨rfl, ?_⟩
    cases hdoc : docs id with
    | none => exact hnone
    | some doc => exact hsome doc (hdocs id doc hdoc)
  | .running (.enforceWrite row next) =>
    refine .inr ⟨by simp [step], fun s' hs' => ?_⟩
    cases allowed with
    | false => simp [step] at hs'
    | true =>
      cases hs'
      exact hs
  | .running (.stage id oldDoc newDoc r) => exact .inl ⟨id, oldDoc, newDoc, r, rfl, rfl⟩

end Handler

/-! ## Model -/

/-- A syscall of call `call` on shard `shard`. -/
structure ShardSyscall where
  shard : Nat
  call : Nat
  privileged : Bool
  /-- What is left of it, if it is not over. -/
  state : Option InFlight

structure ShardedKernel where
  base : ShardedTransactor DocumentValue
  issued : List ShardSyscall

inductive ShardedKernelEvent where
  | transactor (e : ShardedEvent DocumentValue)
  | call (shard i : Nat) (ctx : KernelContext) (s : Syscall)
  /-- Syscall `k` runs to its next `await`. -/
  | resume (k : Nat) (allowed : Bool)

namespace ShardedKernel

@[simp] def new (store : Store DocumentValue) (group : Bool) (seedTs : Option Nat) :
    ShardedKernel :=
  ⟨.new store group seedTs, []⟩

/-- The body of the call awaits a syscall. -/
def awaits (t : ShardedKernel) (shard i : Nat) : Bool :=
  t.issued.any fun e => e.shard = shard ∧ e.call = i ∧ e.state.isSome

def permits (t : ShardedKernel) : ShardedEvent DocumentValue → Bool
  | .shard _ (.op _ op) => op.isRead
  | .shard shard (.bodyReturns i) | .shard shard (.bodyThrows i _) => !t.awaits shard i
  | _ => true

variable (catalog : Catalog) (router : Bytes → Nat) {id : InternalDocumentId}
  {value : Option DocumentValue} {shard i : Nat}

/-- The kernel context of a mutation that runs on the shard, with this transaction. -/
def contextFor (ctx : KernelContext) (shard : Nat) (txn : TransactionContext DocumentValue) :
    KernelContext :=
  { ctx with catalog, router, shardId := shard, snapshotTs := txn.snapshotTs }

def step (t : ShardedKernel) : ShardedKernelEvent → Option ShardedKernel
  | .transactor e => if t.permits e then (t.base.step e).map fun base => { t with base } else none
  | .call shard i ctx s =>
    (t.base.callOf shard i).bind fun c =>
      if c.phase = .body then
        let handler := s.handler (contextFor catalog router ctx shard c.ctx)
        some { t with issued := t.issued ++ [⟨shard, i, ctx.privileged, some (.running handler)⟩] }
      else none
  | .resume k allowed =>
    (t.issued[k]?).bind fun e => e.state.bind fun s => (t.base.callOf e.shard e.call).bind fun c =>
      let next := s.step catalog (docsAt t.base.store.log (some c.ctx.snapshotTs))
        c.ctx.staged allowed
      (run ShardedTransactor.step t.base (next.1.map fun op => .shard e.shard (.op e.call op))).map
        fun base => { base, issued := t.issued.set k { e with state := next.2 } }

/-! ## The invariant -/

/-- The document has been committed, or the transaction has a write of that id. -/
def Seen (log : List (Commit DocumentValue)) (txn : TransactionContext DocumentValue) : Knowledge :=
  fun id doc => (∃ d ∈ log, ∃ e ∈ d.unit.documents, e.id = id ∧ e.value = some doc) ∨
    txn.staged.has id = true

variable {catalog : Catalog} {router : Bytes → Nat} {t t' : ShardedKernel}
  {P : Nat → Bool → InternalDocumentId → Option DocumentValue → Option DocumentValue → Prop}

/-- Every syscall under way belongs to a running body, and what it can stage has property `P`. -/
structure Inv (P : Nat → Bool → InternalDocumentId → Option DocumentValue →
    Option DocumentValue → Prop) (t : ShardedKernel) : Prop where
  numbered : t.base.Numbered
  unbuilt : t.base.Unbuilt
  issued : ∀ e ∈ t.issued, ∀ s, e.state = some s → ∃ c, t.base.callOf e.shard e.call = some c ∧
    c.phase = .body ∧ s.handler.Stages (P e.shard e.privileged) (Seen t.base.store.log c.ctx)

theorem Inv.new (store : Store DocumentValue) (group : Bool) (seedTs : Option Nat) :
    Inv P (ShardedKernel.new store group seedTs) where
  numbered := fun _ _ hw => by simp at hw
  unbuilt := fun _ hc => by simp at hc
  issued := fun _ he => by cases he

variable {txn : TransactionContext DocumentValue} {log : List (Commit DocumentValue)}

theorem Seen.mono {log' : List (Commit DocumentValue)} {txn' : TransactionContext DocumentValue}
    (hlog : ∃ new, log' = log ++ new)
    (htxn : ∀ id, txn.staged.has id = true → txn'.staged.has id = true) {doc : DocumentValue}
    (h : Seen log txn id doc) : Seen log' txn' id doc := by
  obtain ⟨new, rfl⟩ := hlog
  rcases h with ⟨d, hd, hrest⟩ | h
  · exact .inl ⟨d, mem_append_left _ hd, hrest⟩
  · exact .inr (htxn id h)

theorem committed_of_docsAt {bound : Option Nat} {doc : DocumentValue}
    (h : docsAt log bound id = some doc) :
    ∃ d ∈ log, ∃ e ∈ d.unit.documents, e.id = id ∧ e.value = some doc := by
  obtain ⟨⟨ts, doc'⟩, hget, rfl⟩ := map_eq_some_iff.1 h
  obtain ⟨r, hr, hv⟩ := bind_eq_some_iff.1 hget
  obtain ⟨v, hv, heq⟩ := map_eq_some_iff.1 hv
  cases heq
  obtain ⟨d, hd, hmem⟩ := mem_flatMap.1 (Versioned.readAt_mem hr)
  obtain ⟨e, he, rfl⟩ := mem_map.1 hmem
  obtain ⟨he, hid⟩ := mem_filter.1 he
  exact ⟨d, hd, e, he, by simpa using hid, hv⟩

/-- One step of a syscall that reads the log at its transaction's snapshot, under its own writes. -/
theorem stages_step_at {P : InternalDocumentId → Option DocumentValue → Option DocumentValue → Prop}
    {s : InFlight} (hs : s.handler.Stages P (Seen log txn)) (catalog : Catalog) (allowed : Bool) :
    (∃ id oldDoc newDoc r, s = .running (.stage id oldDoc newDoc r) ∧
      s.step catalog (docsAt log (some txn.snapshotTs)) txn.staged allowed =
        (stageOps catalog id oldDoc newDoc, none)) ∨
    (∀ op ∈ (s.step catalog (docsAt log (some txn.snapshotTs)) txn.staged allowed).1,
      op.isRead = true) ∧
      ∀ s', (s.step catalog (docsAt log (some txn.snapshotTs)) txn.staged allowed).2 = some s' →
        s'.handler.Stages P (Seen log txn) :=
  InFlight.stages_step hs catalog allowed (fun _ _ hdoc => .inl (committed_of_docsAt hdoc))
    fun _ _ hget => .inr (by rw [OrderedMap.has, hget]; rfl)

theorem has_staged_apply {landed : List Nat} (op : CtxOp DocumentValue)
    (h : txn.staged.has id = true) : (txn.apply landed op).staged.has id = true := by
  cases op with
  | put id' v | delete id' => exact (OrderedMap.has_set _).trans (by rw [h, Bool.or_true])
  | _ => exact h

variable {base : ShardedTransactor DocumentValue}

/-- A step of the transactor that ends no body while it awaits a syscall. -/
theorem Inv.base_step (h : Inv P t) {e : ShardedEvent DocumentValue}
    (hends : ∀ shard i, t.awaits shard i = true →
      e ≠ .shard shard (.bodyReturns i) ∧ ∀ b, e ≠ .shard shard (.bodyThrows i b))
    (hs : t.base.step e = some base) :
    Inv P { t with base } := by
  refine ⟨h.numbered.step hs, h.unbuilt.step hs, fun e' he' s hstate => ?_⟩
  obtain ⟨c, hc, hbody, hstages⟩ := h.issued e' he' s hstate
  have hlog := log_step hs
  have hends := hends e'.shard e'.call (any_eq_true.2 ⟨e', he', by simp [hstate]⟩)
  rcases step_body h.unbuilt hs hc hbody with hc' | ⟨op, rfl, hc'⟩ | rfl | ⟨b, rfl⟩
  · exact ⟨c, hc', hbody, hstages.mono fun _ _ hseen => hseen.mono hlog fun _ hid => hid⟩
  · exact ⟨_, hc', hbody, hstages.mono fun _ _ hseen => hseen.mono hlog fun _ =>
      has_staged_apply op⟩
  · exact absurd rfl hends.1
  · exact absurd rfl (hends.2 b)

/-- The operations of a syscall are operations of its body. -/
theorem Inv.run_ops {ops : List (CtxOp DocumentValue)} (h : Inv P t) {c : Call DocumentValue}
    (hc : t.base.callOf shard i = some c) (hbody : c.phase = .body)
    (hr : run ShardedTransactor.step t.base
    (ops.map fun op => .shard shard (.op i op)) = some base) :
    Inv P { t with base } ∧ ∃ c', base.callOf shard i = some c' ∧ c'.phase = .body ∧
      ∀ id doc, Seen t.base.store.log c.ctx id doc → Seen base.store.log c'.ctx id doc := by
  induction ops generalizing t c with
  | nil =>
    cases hr
    exact ⟨h, c, hc, hbody, fun _ _ hseen => hseen⟩
  | cons op ops ih =>
    obtain ⟨m, hm, hr⟩ := run_cons_eq_some.1 hr
    have hinv : Inv P { t with base := m } := h.base_step (by simp) hm
    have hlog := log_step hm
    obtain ⟨c₁, hc₁, hbody₁, hseen⟩ : ∃ c₁, m.callOf shard i = some c₁ ∧ c₁.phase = .body ∧
        ∀ id doc, Seen t.base.store.log c.ctx id doc → Seen m.store.log c₁.ctx id doc := by
      rcases step_body h.unbuilt hm hc hbody with hc' | ⟨op, -, hc'⟩ | heq | ⟨b, heq⟩
      · exact ⟨c, hc', hbody, fun _ _ hseen => hseen.mono hlog fun _ hid => hid⟩
      · exact ⟨_, hc', hbody, fun _ _ hseen => hseen.mono hlog fun _ => has_staged_apply op⟩
      · cases heq
      · cases heq
    obtain ⟨hinv', c', hc', hbody', hseen'⟩ := ih hinv hc₁ hbody₁ hr
    exact ⟨hinv', c', hc', hbody', fun id doc hd => hseen' id doc (hseen id doc hd)⟩

theorem Inv.call (h : Inv P t) {ctx : KernelContext} {s : Syscall}
    (hs : t.step catalog router (.call shard i ctx s) = some t')
    (hstages : ∀ txn seen, (s.handler (contextFor catalog router ctx shard txn)).Stages
      (P shard ctx.privileged) seen) : Inv P t' := by
  obtain ⟨c, hc, hs⟩ := bind_eq_some_iff.1 hs
  split at hs <;> cases hs
  rename_i hbody
  refine ⟨h.numbered, h.unbuilt, fun e he s' hstate => ?_⟩
  rcases mem_append.1 he with he | he
  · exact h.issued e he s' hstate
  · rw [mem_singleton.1 he] at hstate ⊢
    cases hstate
    exact ⟨c, hc, hbody, hstages c.ctx _⟩

theorem Inv.resume (h : Inv P t) {k : Nat} {allowed : Bool}
    (hs : t.step catalog router (.resume k allowed) = some t') : Inv P t' := by
  obtain ⟨e, he, hs⟩ := bind_eq_some_iff.1 hs
  obtain ⟨s, hstate, hs⟩ := bind_eq_some_iff.1 hs
  obtain ⟨c, hc, hs⟩ := bind_eq_some_iff.1 hs
  obtain ⟨base, hrun, rfl⟩ := map_eq_some_iff.1 hs
  obtain ⟨c₀, hc₀, hbody, hstages⟩ := h.issued e (mem_of_getElem? he) s hstate
  obtain rfl : c = c₀ := Option.some.inj (hc.symm.trans hc₀)
  obtain ⟨hinv, c', hc', hbody', hseen⟩ := h.run_ops hc hbody hrun
  refine ⟨hinv.numbered, hinv.unbuilt, fun e' he' s' hstate' => ?_⟩
  rcases mem_or_eq_of_mem_set he' with he' | rfl
  · exact hinv.issued e' he' s' hstate'
  · rcases stages_step_at hstages catalog allowed with ⟨id, oldDoc, newDoc, r, -,
      hstep⟩ | ⟨-, hnext⟩
    · simp [hstep] at hstate'
    · exact ⟨c', hc', hbody', (hnext s' hstate').mono hseen⟩

theorem Inv.transactor (h : Inv P t) {e : ShardedEvent DocumentValue}
    (hs : t.step catalog router (.transactor e) = some t') : Inv P t' := by
  simp only [ShardedKernel.step] at hs
  split at hs
  · rename_i hp
    obtain ⟨base, hbase, rfl⟩ := map_eq_some_iff.1 hs
    refine h.base_step (fun shard i hawaits => ⟨?_, fun b => ?_⟩) hbase
    · rintro rfl
      simp [permits, hawaits] at hp
    · rintro rfl
      simp [permits, hawaits] at hp
  · cases hs

/-- Every step keeps the invariant, if what a new syscall can stage has property `P`. -/
theorem Inv.step (h : Inv P t) {e : ShardedKernelEvent} (hs : t.step catalog router e = some t')
    (hcall : ∀ shard i ctx s, e = .call shard i ctx s → ∀ txn seen,
      (s.handler (contextFor catalog router ctx shard txn)).Stages (P shard ctx.privileged) seen) :
    Inv P t' := by
  cases e with
  | transactor e => exact h.transactor hs
  | call shard i ctx s => exact h.call hs (hcall shard i ctx s rfl)
  | resume k allowed => exact h.resume hs

/-! ## Writes -/

theorem stages_of_mem_stageOps {id id' : InternalDocumentId}
    {oldDoc newDoc value : Option DocumentValue}
    {op : CtxOp DocumentValue} (hop : op ∈ stageOps catalog id oldDoc newDoc)
    (hstages : op.Stages id' value) : id' = id ∧ value = newDoc := by
  rcases mem_cons.1 hop with rfl | hop
  · cases newDoc with
    | none | some doc => exact ⟨hstages.1.symm, hstages.2⟩
  · split at hop
    · cases hop
    · rcases mem_cons.1 hop with rfl | hop
      · exact hstages.elim
      · obtain ⟨range, -, rfl⟩ := mem_map.1 hop
        exact hstages.elim

theorem not_stages_of_isRead {op : CtxOp DocumentValue} (h : op.isRead = true) :
    ¬ op.Stages id value := by
  cases op <;> first | exact fun hs => hs | cases h

theorem writes_run_ops {base' : ShardedTransactor DocumentValue}
    {ops : List (CtxOp DocumentValue)} (hn : base.Numbered)
    (hr : run ShardedTransactor.step base (ops.map fun op => .shard shard (.op i op)) = some base')
    {shard' : Nat} (h : base'.Writes shard' id value) :
    base.Writes shard' id value ∨ shard' = shard ∧ ∃ op ∈ ops, op.Stages id value := by
  induction ops generalizing base with
  | nil =>
    cases hr
    exact .inl h
  | cons op ops ih =>
    obtain ⟨m, hm, hr⟩ := run_cons_eq_some.1 hr
    rcases ih (hn.step hm) hr with hw | ⟨rfl, op', hop', hst⟩
    · rcases hw.step hn hm with hw | ⟨j, op', heq, hst⟩
      · exact .inl hw
      · cases heq
        exact .inr ⟨rfl, op, mem_cons_self, hst⟩
    · exact .inr ⟨rfl, op', mem_cons_of_mem _ hop', hst⟩

/-- Syscall `k` stages this write now. -/
def StagesNow (t : ShardedKernel) (k : Nat) (e : ShardSyscall) (id : InternalDocumentId)
    (oldDoc newDoc : Option DocumentValue) : Prop :=
  t.issued[k]? = some e ∧ ∃ r, e.state = some (.running (.stage id oldDoc newDoc r))

/-- What is written after a step was written before, or a syscall has just staged it. -/
theorem Inv.writes_step (h : Inv P t) {e : ShardedKernelEvent}
    (hs : t.step catalog router e = some t') {shard : Nat} (hw : t'.base.Writes shard id value) :
    t.base.Writes shard id value ∨ ∃ k allowed sys oldDoc c, e = .resume k allowed ∧
      t.StagesNow k sys id oldDoc value ∧ sys.shard = shard ∧
        t.base.callOf shard sys.call = some c ∧
      c.phase = .body ∧ P shard sys.privileged id oldDoc value ∧
      ∀ doc, oldDoc = some doc → Seen t.base.store.log c.ctx id doc := by
  cases e with
  | transactor e =>
    simp only [ShardedKernel.step] at hs
    split at hs
    · rename_i hp
      obtain ⟨base, hbase, rfl⟩ := map_eq_some_iff.1 hs
      rcases hw.step h.numbered hbase with hw | ⟨i, op, rfl, hst⟩
      · exact .inl hw
      · exact absurd hst (not_stages_of_isRead hp)
    · cases hs
  | call shard' i ctx s =>
    obtain ⟨c, -, hs⟩ := bind_eq_some_iff.1 hs
    split at hs <;> cases hs
    exact .inl hw
  | resume k allowed =>
    obtain ⟨e, he, hs⟩ := bind_eq_some_iff.1 hs
    obtain ⟨s, hstate, hs⟩ := bind_eq_some_iff.1 hs
    obtain ⟨c, hc, hs⟩ := bind_eq_some_iff.1 hs
    obtain ⟨base, hrun, rfl⟩ := map_eq_some_iff.1 hs
    obtain ⟨c₀, hc₀, hbody, hstages⟩ := h.issued e (mem_of_getElem? he) s hstate
    obtain rfl : c = c₀ := Option.some.inj (hc.symm.trans hc₀)
    rcases writes_run_ops h.numbered hrun hw with hw | ⟨rfl, op, hop, hst⟩
    · exact .inl hw
    · rcases stages_step_at hstages catalog allowed with
        ⟨id', oldDoc, newDoc, r, rfl, hstep⟩ | ⟨hread, -⟩
      · rw [hstep] at hop
        obtain ⟨rfl, rfl⟩ := stages_of_mem_stageOps hop hst
        exact .inr ⟨k, allowed, e, oldDoc, c, rfl, ⟨he, r, hstate⟩, rfl, hc, hbody,
          hstages.1, hstages.2⟩
      · exact absurd hst (not_stages_of_isRead (hread op hop))

end ShardedKernel

namespace ShardedKernelExample

def onShard (shard : Nat) (es : List (Event DocumentValue)) : List ShardedKernelEvent :=
  es.map fun e => .transactor (.shard shard e)

def create (shard : Nat) : List ShardedKernelEvent :=
  [.request shard, .seedAnswered shard, .created shard].map .transactor

def commit (shard i ts : Nat) : List ShardedKernelEvent :=
  onShard shard [.bodyReturns i, .acquire i, .prevAnswered, .allocate [ts], .land, .resolve]

end ShardedKernelExample

end Helipod
