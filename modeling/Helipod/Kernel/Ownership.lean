import Helipod.Kernel.Shards

/-!
# Shards own their documents

The write guards of the kernel: a document of a sharded table is written on the shard of its
shard-key value. They look at the document that the mutation sees. A delete that sees none stages a
tombstone without any guard, and a privileged replace may change the key, after which the shard of
the new key writes the document.

Results: `owner_commits_every_revision`, `other_shard_commits`.
-/

namespace Helipod

open List

open Except (bind_eq_ok)
open Runs Store

/-! ## Ownership -/

/-- The tables of this number are sharded by the field. -/
def Catalog.ShardedBy (c : Catalog) (tableNumber : Nat) (shardKey : JsString) : Prop :=
  (∃ m ∈ c.tables, m.tableNumber = tableNumber) ∧
    ∀ m ∈ c.tables, m.tableNumber = tableNumber → m.shardKey = some shardKey

/-- `shardOfDoc` is the shard. -/
def RoutesTo (router : Bytes → Nat) (shardKey : JsString) (doc : DocumentValue) (shard : Nat) :
    Prop :=
  ∃ key, encodeShardKey doc shardKey = .ok key ∧ router key = shard

instance (router : Bytes → Nat) (shardKey : JsString) (doc : DocumentValue) (shard : Nat) :
    Decidable (RoutesTo router shardKey doc shard) :=
  match h : encodeShardKey doc shardKey with
  | .ok key => decidable_of_iff (router key = shard) (by simp [RoutesTo, h])
  | .error _ => isFalse (by simp [RoutesTo, h])

variable {shardKey : JsString}

theorem RoutesTo.unique {router : Bytes → Nat} {doc : DocumentValue} {shard shard' : Nat}
    (h : RoutesTo router shardKey doc shard) (h' : RoutesTo router shardKey doc shard') :
    shard = shard' := by
  obtain ⟨key, hkey, rfl⟩ := h
  obtain ⟨key', hkey', rfl⟩ := h'
  rw [hkey] at hkey'
  cases hkey'
  rfl

/-- All revisions of a sharded document are committed by one shard, that of its key. -/
def OwnedLog (catalog : Catalog) (router : Bytes → Nat) (log : List (Commit DocumentValue)) :
    Prop :=
  ∀ shardKey, ∀ d ∈ log, ∀ e ∈ d.unit.documents, catalog.ShardedBy e.id.tableNumber shardKey →
    (∀ doc, e.value = some doc → RoutesTo router shardKey doc d.shard) ∧
    ∀ d' ∈ log, ∀ e' ∈ d'.unit.documents, e'.id = e.id → d'.shard = d.shard ∧
      ∀ doc, e'.value = some doc → RoutesTo router shardKey doc d.shard

/-! ## Handlers -/

/-- What a write of a sharded document on a shard has been checked for: the new document belongs to
the shard, and so does the old one, except in a privileged replace. -/
def StagesOwned (catalog : Catalog) (router : Bytes → Nat) (shard : Nat) (privileged : Bool)
    (id : InternalDocumentId) (oldDoc newDoc : Option DocumentValue) : Prop :=
  ∀ shardKey, catalog.ShardedBy id.tableNumber shardKey →
    (∀ doc, newDoc = some doc → RoutesTo router shardKey doc shard) ∧
    ∀ doc, oldDoc = some doc → privileged = false ∨ newDoc = none →
      RoutesTo router shardKey doc shard

abbrev KernelContext.Owned (ctx : KernelContext) :=
  StagesOwned ctx.catalog ctx.router ctx.shardId ctx.privileged

variable {ctx : KernelContext} {tableMeta : TableMeta}

theorem routesTo_of_enforceShardWrite {doc : DocumentValue} {op : WriteOp}
    (h : enforceShardWrite ctx tableMeta doc op = .ok ())
    (hkey : tableMeta.shardKey = some shardKey) : RoutesTo ctx.router shardKey doc ctx.shardId := by
  simp only [enforceShardWrite, hkey] at h
  split at h
  · cases h
  · obtain ⟨key, hencode, h⟩ := bind_eq_ok.1 h
    simp only [ite_not] at h
    split at h
    · exact ⟨key, hencode, ‹_›⟩
    · cases h

theorem encodeShardKey_of_immutable {oldDoc newDoc : DocumentValue}
    (h : enforceShardKeyImmutable ctx tableMeta oldDoc newDoc = .ok ())
    (hkey : tableMeta.shardKey = some shardKey) (hpriv : ctx.privileged = false) :
    encodeShardKey oldDoc shardKey = encodeShardKey newDoc shardKey := by
  simp only [enforceShardKeyImmutable, hkey, hpriv] at h
  obtain ⟨before, hold, h⟩ := bind_eq_ok.1 h
  obtain ⟨after, hnew, h⟩ := bind_eq_ok.1 h
  simp only [ite_not] at h
  split at h
  · rename_i heq
    rw [hold, hnew, heq]
  · cases h

theorem mem_tables_of_requireTable {name : String} {m : TableMeta}
    (h : requireTable ctx name = .ok m) : m ∈ ctx.catalog.tables := by
  unfold requireTable at h
  split at h
  · rename_i hget
    cases h
    exact mem_of_find?_eq_some hget
  · cases h

variable {id : InternalDocumentId}

theorem mem_tables_of_requireOwnTable {m : TableMeta} (h : requireOwnTable ctx id = .ok m) :
    m ∈ ctx.catalog.tables ∧ m.tableNumber = id.tableNumber := by
  unfold requireOwnTable at h
  split at h
  · cases h
  · rename_i hget
    split at h
    · cases h
      exact ⟨mem_of_find?_eq_some hget, by simpa using find?_some hget⟩
    · cases h

namespace Handler.Stages

variable {ctx : KernelContext} {seen : Knowledge}

theorem insertAt_owned (hmem : tableMeta ∈ ctx.catalog.tables) (userValue : DocumentValue)
    (hid : tableMeta.tableNumber = id.tableNumber) :
    (insertAt ctx tableMeta userValue id).Stages ctx.Owned seen := by
  refine attempt fun docId _ => attempt fun _ hwrite =>
    ⟨fun shardKey hsharded => ⟨?_, by simp⟩, by simp⟩
  rintro doc hdoc
  cases hdoc
  exact routesTo_of_enforceShardWrite hwrite (hsharded.2 _ hmem hid)

theorem handleDbInsert_owned (table : String) (value : DocumentValue) (generated : Bytes) :
    (handleDbInsert ctx table value generated).Stages ctx.Owned seen := by
  unfold handleDbInsert
  split
  · trivial
  · refine attempt fun tableMeta htable => ?_
    have hmem := mem_tables_of_requireTable htable
    simp only
    split
    · trivial
    · split
      · exact insertAt_owned hmem _ rfl
      · split
        · trivial
        · split
          · trivial
          · rename_i hrefuse
            have hid : tableMeta.tableNumber = _ :=
              (not_ne_iff.1 fun hne => hrefuse (.inl hne)).symm
            exact fun _ _ => ⟨insertAt_owned hmem _ hid, fun _ _ => trivial⟩
      · trivial

theorem handleDbReplace_owned (id : JsString) (value : DocumentValue) :
    (handleDbReplace ctx id value).Stages ctx.Owned seen := by
  unfold handleDbReplace
  split
  · trivial
  · refine attempt fun internalId _ => attempt fun tableMeta htable => fun seen' _ => ⟨trivial, ?_⟩
    obtain ⟨hmem, hnumber⟩ := mem_tables_of_requireOwnTable htable
    intro oldDoc hseen
    split
    · trivial
    · refine attempt fun _ himmutable => attempt fun _ hwrite => ⟨fun shardKey hsharded => ?_, ?_⟩
      · have hkey := hsharded.2 _ hmem hnumber
        have hroutes := routesTo_of_enforceShardWrite hwrite hkey
        refine ⟨by rintro doc hdoc; cases hdoc; exact hroutes, ?_⟩
        rintro doc hdoc (hpriv | hnone)
        · cases hdoc
          rwa [RoutesTo, encodeShardKey_of_immutable himmutable hkey hpriv]
        · cases hnone
      · rintro doc hdoc
        cases hdoc
        exact hseen

theorem handleDbDelete_owned (id : JsString) : (handleDbDelete ctx id).Stages ctx.Owned seen := by
  unfold handleDbDelete
  split
  · trivial
  · refine attempt fun internalId _ => attempt fun tableMeta htable => fun seen' _ => ⟨?_, ?_⟩
    · exact ⟨by simp [StagesOwned], by simp⟩
    · obtain ⟨hmem, hnumber⟩ := mem_tables_of_requireOwnTable htable
      intro oldDoc hseen
      refine attempt fun _ hwrite => ⟨fun shardKey hsharded => ⟨by simp, ?_⟩, ?_⟩
      · rintro doc hdoc -
        cases hdoc
        exact routesTo_of_enforceShardWrite hwrite (hsharded.2 _ hmem hnumber)
      · rintro doc hdoc
        cases hdoc
        exact hseen

theorem handler_owned (s : Syscall) : (s.handler ctx).Stages ctx.Owned seen := by
  cases s with
  | insert table value generated => exact handleDbInsert_owned table value generated
  | replace id value => exact handleDbReplace_owned id value
  | delete id => exact handleDbDelete_owned id

end Handler.Stages

/-! ## Ids written by other shards -/

/-- The writer has a write of the id, in a transaction, in a unit or still to be made a log entry.
-/
def ShardWriter.carriesId {V : Type} (w : ShardWriter V) (id : InternalDocumentId) : Bool :=
  (w.calls.any fun c => c.phase.live && c.ctx.staged.has id) ||
  (w.inflight.any fun u => u.2.ctx.staged.has id || u.2.documents.any fun e => e.id = id) ||
  match w.mutex with
  | some (.reading _ _ _ todo) => todo.any fun p => p.1 = id
  | _ => false

theorem ShardWriter.Carries.carriesId {V : Type} {w : ShardWriter V} {value : Option V}
    (h : w.Carries id value) : w.carriesId id = true := by
  simp only [ShardWriter.carriesId, Bool.or_eq_true, any_eq_true, Bool.and_eq_true]
  rcases h with ⟨ctx, ⟨c, hc, hlive, rfl⟩ | ⟨u, hu, rfl⟩, hget⟩ | ⟨u, hu, e, he, hid, -⟩ |
      ⟨i, ctx, read, todo, hm, hmem⟩
  · exact .inl (.inl ⟨c, hc, hlive, by simp [hget]⟩)
  · exact .inl (.inr ⟨u, hu, .inl (by simp [hget])⟩)
  · exact .inl (.inr ⟨u, hu, .inr ⟨e, he, by simpa using hid⟩⟩)
  · exact .inr (by rw [hm]; exact any_eq_true.2 ⟨_, hmem, by simp⟩)

/-- Another shard has committed a revision of the id, or is about to. -/
def ShardedTransactor.writtenElsewhere {V : Type} (t : ShardedTransactor V) (shard : Nat)
    (id : InternalDocumentId) : Bool :=
  (t.store.log.any fun d => d.shard ≠ shard ∧ d.unit.documents.any fun e => e.id = id) ||
  t.shards.entries.any fun p => p.1 ≠ shard ∧ p.2.carriesId id

theorem ShardedTransactor.Writes.shard_eq {V : Type} {t : ShardedTransactor V} {shard shard' : Nat}
    {value : Option V} (h : t.Writes shard' id value) (hnot : t.writtenElsewhere shard id = false) :
    shard' = shard := by
  by_contra hne
  simp only [writtenElsewhere, Bool.or_eq_false_iff, any_eq_false, decide_eq_true_eq,
    not_and] at hnot
  rcases h with ⟨d, hd, rfl, e, he, hid, -⟩ | ⟨w, hw, hcarries⟩
  · exact hnot.1 d hd hne (any_eq_true.2 ⟨e, he, decide_eq_true hid⟩)
  · exact hnot.2 _ ((OrderedMap.get?_eq_some_iff _).1 hw) hne hcarries.carriesId

/-! ## Runs -/

namespace ShardedKernel

variable {catalog : Catalog} {router : Bytes → Nat} {t t' : ShardedKernel}

/-- What the guards of the kernel do not see, for one write of a sharded document: without an old
document, no other shard has written the id; a privileged replace finds the old document on
its shard. -/
def keepsOwner (catalog : Catalog) (router : Bytes → Nat) (t : ShardedKernel) :
    ShardedKernelEvent → Bool
  | .resume k _ =>
    match t.issued[k]? with
    | some ⟨shard, _, privileged, some (.running (.stage id oldDoc newDoc _))⟩ =>
      match (catalog.getTableByNumber id.tableNumber).bind TableMeta.shardKey, oldDoc, newDoc with
      | some _, none, _ => !t.base.writtenElsewhere shard id
      | some shardKey, some doc, some _ => !privileged || RoutesTo router shardKey doc shard
      | _, _, _ => true
    | _ => true
  | _ => true

/-- Every write of a sharded document, committed or on its way, is made by the shard of its key. -/
structure Owned (catalog : Catalog) (router : Bytes → Nat) (t : ShardedKernel) : Prop where
  inv : Inv (StagesOwned catalog router) t
  routes : ∀ shardKey shard id doc, catalog.ShardedBy id.tableNumber shardKey →
    t.base.Writes shard id (some doc) → RoutesTo router shardKey doc shard
  one : ∀ shardKey id, catalog.ShardedBy id.tableNumber shardKey → ∀ shard value shard' value',
    t.base.Writes shard id value → t.base.Writes shard' id value' → shard = shard'

theorem Owned.new {store : Store DocumentValue} (h : OwnedLog catalog router store.log)
    (group : Bool)
    (seedTs : Option Nat) : Owned catalog router (ShardedKernel.new store group seedTs) := by
  have hlog : ∀ {shard id value}, (ShardedKernel.new store group seedTs).base.Writes
    shard id value →
      ∃ d ∈ store.log, d.shard = shard ∧ ∃ e ∈ d.unit.documents, e.id = id ∧ e.value = value := by
    rintro shard id value (hw | ⟨w, hw, -⟩)
    · exact hw
    · simp at hw
  refine ⟨.new store group seedTs, ?_, ?_⟩
  · intro shardKey shard id doc hsharded hw
    obtain ⟨d, hd, rfl, e, he, rfl, hv⟩ := hlog hw
    exact (h shardKey d hd e he hsharded).1 doc hv
  · intro shardKey id hsharded shard value shard' value' hw hw'
    obtain ⟨d, hd, rfl, e, he, rfl, -⟩ := hlog hw
    obtain ⟨d', hd', rfl, e', he', hid, -⟩ := hlog hw'
    exact ((h shardKey d hd e he hsharded).2 d' hd' e' he' hid).1.symm

theorem shardKey_of_shardedBy {n : Nat} (h : catalog.ShardedBy n shardKey) :
    (catalog.getTableByNumber n).bind TableMeta.shardKey = some shardKey := by
  obtain ⟨⟨m, hm, hn⟩, hall⟩ := h
  cases hfind : catalog.getTableByNumber n with
  | none => exact absurd (decide_eq_true hn) (find?_eq_none.1 hfind m hm)
  | some m' =>
    exact hall m' (mem_of_find?_eq_some hfind) (by simpa using find?_some hfind)

/-- A syscall that stages a write finds that only its own shard has written the id. -/
theorem Owned.alone (h : Owned catalog router t) {k : Nat} {allowed : Bool} {sys : ShardSyscall}
    {oldDoc newDoc : Option DocumentValue} {c : Call DocumentValue}
    (hsharded : catalog.ShardedBy id.tableNumber shardKey)
    (hkeeps : t.keepsOwner catalog router (.resume k allowed) = true)
    (hnow : t.StagesNow k sys id oldDoc newDoc) (hc : t.base.callOf sys.shard sys.call = some c)
    (hbody : c.phase = .body)
    (howned : StagesOwned catalog router sys.shard sys.privileged id oldDoc newDoc)
    (hseen : ∀ doc, oldDoc = some doc → Seen t.base.store.log c.ctx id doc) {shard : Nat}
    {value : Option DocumentValue} (hw : t.base.Writes shard id value) : shard = sys.shard := by
  obtain ⟨hk, r, hstate⟩ := hnow
  obtain ⟨sysShard, call, privileged, state⟩ := sys
  cases hstate
  have hkey := shardKey_of_shardedBy hsharded
  cases oldDoc with
  | none =>
    simp only [keepsOwner, hk, hkey, Bool.not_eq_true'] at hkeeps
    exact hw.shard_eq hkeeps
  | some doc =>
    -- the document seen belongs to this shard, by the handler's check or by the condition
    have hroutes : RoutesTo router shardKey doc sysShard := by
      cases newDoc with
      | none => exact (howned shardKey hsharded).2 doc rfl (.inr rfl)
      | some new =>
        cases privileged with
        | false => exact (howned shardKey hsharded).2 doc rfl (.inl rfl)
        | true => simpa [keepsOwner, hk, hkey] using hkeeps
    rcases hseen doc rfl with ⟨d, hd, e, he, hid, hv⟩ | hstaged
    · have hcommitted : t.base.Writes d.shard id (some doc) := .inl ⟨d, hd, rfl, e, he, hid, hv⟩
      rw [h.one shardKey id hsharded _ _ _ _ hw hcommitted]
      exact (h.routes shardKey _ id doc hsharded hcommitted).unique hroutes
    · obtain ⟨w, hw', hi⟩ := Option.bind_eq_some_iff.1 hc
      obtain ⟨v, hv⟩ := Option.isSome_iff_exists.1 hstaged
      have hown : t.base.Writes sysShard id v :=
        .inr ⟨w, hw', .inl ⟨c.ctx, .of_call hi (by rw [hbody]; rfl), hv⟩⟩
      exact h.one shardKey id hsharded _ _ _ _ hw hown

theorem Owned.step (h : Owned catalog router t) {e : ShardedKernelEvent}
    (hkeeps : t.keepsOwner catalog router e = true) (hs : t.step catalog router e = some t') :
    Owned catalog router t' := by
  -- a write is an old one, or only its shard has written the id so far
  have hwrites : ∀ shardKey shard id value, catalog.ShardedBy id.tableNumber shardKey →
      t'.base.Writes shard id value → t.base.Writes shard id value ∨
        (∀ doc, value = some doc → RoutesTo router shardKey doc shard) ∧
        (∃ k allowed sys oldDoc, e = .resume k allowed ∧ t.StagesNow k sys id oldDoc value ∧
          sys.shard = shard) ∧
        ∀ shard' value', t.base.Writes shard' id value' → shard' = shard := by
    intro shardKey shard id value hsharded hw
    rcases h.inv.writes_step hs hw with hold |
      ⟨k, allowed, sys, oldDoc, c, rfl, hnow, rfl, hc, hbody, howned, hseen⟩
    · exact .inl hold
    · exact .inr ⟨(howned shardKey hsharded).1, ⟨k, allowed, sys, oldDoc, rfl, hnow, rfl⟩,
        fun _ _ hw' => h.alone hsharded hkeeps hnow hc hbody howned hseen hw'⟩
  refine ⟨h.inv.step hs ?_, ?_, ?_⟩
  · rintro shard i ctx s rfl txn seen
    exact @Handler.Stages.handler_owned (contextFor catalog router ctx shard txn) seen s
  · intro shardKey shard id doc hsharded hw
    rcases hwrites shardKey shard id _ hsharded hw with hold | ⟨hnew, -⟩
    · exact h.routes shardKey shard id doc hsharded hold
    · exact hnew doc rfl
  · intro shardKey id hsharded shard value shard' value' hw hw'
    rcases hwrites shardKey shard id _ hsharded hw with
      hold | ⟨-, ⟨k, allowed, sys, old, rfl, hnow, rfl⟩, halone⟩
    · rcases hwrites shardKey shard' id _ hsharded hw' with hold' | ⟨-, -, halone⟩
      · exact h.one shardKey id hsharded _ _ _ _ hold hold'
      · exact halone _ _ hold
    · rcases hwrites shardKey shard' id _ hsharded hw' with
        hold' | ⟨-, ⟨k', _, sys', _, heq, hnow', rfl⟩, -⟩
      · exact (halone _ _ hold').symm
      · -- both are the write of the one syscall that runs
        cases heq
        rw [Option.some.inj (hnow.1.symm.trans hnow'.1)]

theorem Owned.log (h : Owned catalog router t) : OwnedLog catalog router t.base.store.log := by
  have hwrites : ∀ d ∈ t.base.store.log, ∀ e ∈ d.unit.documents,
    t.base.Writes d.shard e.id e.value :=
    fun d hd e he => .inl ⟨d, hd, rfl, e, he, rfl, rfl⟩
  intro shardKey d hd e he hsharded
  refine ⟨fun doc hv => h.routes shardKey _ _ doc hsharded (hv ▸ hwrites d hd e he), ?_⟩
  intro d' hd' e' he' hid
  have hw' := hid ▸ hwrites d' hd' e' he'
  have hshard := h.one shardKey e.id hsharded _ _ _ _ hw' (hwrites d hd e he)
  exact ⟨hshard, fun doc hv => h.routes shardKey _ _ doc hsharded (hshard ▸ hv ▸ hw')⟩

end ShardedKernel

/-- In every run of mutations on any shards in which
* a write that sees no document (an insert, or a delete of an unseen document) is of an id that no
  other shard has written or is writing, and
* a privileged replace finds the old document on its own shard,

every committed revision of a sharded document, insert, replace or tombstone, is committed by the
shard of its shard-key value, and by one shard only. -/
theorem owner_commits_every_revision {catalog : Catalog} {router : Bytes → Nat}
    {store : Store DocumentValue} {group : Bool} {seedTs : Option Nat}
    {events : List ShardedKernelEvent}
    {t : ShardedKernel} (hstore : OwnedLog catalog router store.log)
    (hkeeps : Guarded (ShardedKernel.step catalog router)
      (fun t e => t.keepsOwner catalog router e = true) (.new store group seedTs) events)
    (hrun : run (ShardedKernel.step catalog router) (.new store group seedTs) events = some t) :
    OwnedLog catalog router t.base.store.log := by
  have howned : ShardedKernel.Owned catalog router t :=
    run_invariant_of_guarded (fun _ _ _ h hg hs => h.step hg hs)
      (.new hstore group seedTs) hkeeps hrun
  exact howned.log

namespace OwnershipExample

open KernelExample ShardedKernelExample

/-- Items are sharded by their room. -/
def shardedCatalog : Catalog where
  tables := [⟨"items", 1, fun _ => true, some (js "room")⟩]
  indexes := []
  indexIds_nodup := by decide

/-- Two shards; room `bb` is on shard 0 and room `a` on shard 1. -/
def router (key : Bytes) : Nat := key.length % 2

def context (privileged : Bool) : KernelContext :=
  { kernelContext with privileged, shardDeclared := true }

def inRoom (room : String) : DocumentValue := [(js "room", .string (js room))]

/-- Call `i` of the shard issues syscall `k`, which runs to its end in `pieces` pieces. -/
def syscall (shard i k pieces : Nat) (privileged : Bool) (s : Syscall) : List ShardedKernelEvent :=
  .call shard i (context privileged) s :: List.replicate pieces (.resume k true)

/-- Shard 0 inserts an item in room `bb`, as syscall 0 and call 0, and commits at 1. -/
def insertInRoom : List ShardedKernelEvent :=
  onShard 0 [.start 8] ++ syscall 0 0 0 2 false (insertItem (inRoom "bb")) ++ commit 0 0 1

/-- Shard 1 takes its snapshot before the item is there, and deletes it after. -/
def deleteUnseen : List ShardedKernelEvent :=
  create 0 ++ create 1 ++ onShard 1 [.start 8] ++ insertInRoom ++
  syscall 1 0 1 3 false (.delete itemId) ++ commit 1 0 2

/-- A privileged mutation of shard 1 moves the item to room `a`. -/
def moveItem : List ShardedKernelEvent :=
  create 0 ++ insertInRoom ++ create 1 ++ onShard 1 [.start 8] ++
  syscall 1 0 1 5 true (.replace itemId (inRoom "a")) ++ commit 1 0 2

/-- Shard 0 deletes the item it has inserted. -/
def deleteItem : List ShardedKernelEvent :=
  create 0 ++ insertInRoom ++ onShard 0 [.start 8] ++
    syscall 0 1 1 4 false (.delete itemId) ++ commit 0 1 2

/-- The shards that have committed a revision of the document, in commit order. -/
def committers (t : ShardedKernel) (id : InternalDocumentId) : List Nat :=
  (t.base.store.log.filter fun d => d.unit.documents.any fun e => e.id = id).map Commit.shard

end OwnershipExample

open OwnershipExample KernelExample MutationExample in
/-- The shard of an item inserts it and deletes it. -/
theorem owner_commits_every_revision_deleted :
    ∃ t, run (ShardedKernel.step shardedCatalog router) (.new emptyStore false none)
      deleteItem = some t ∧
      committers t item = [0, 0] ∧ OwnedLog shardedCatalog router t.base.store.log := by
  refine exists_some_imp (committers · item = [0, 0]) (by decide +kernel) fun t hrun hshards => ?_
  have hempty : OwnedLog shardedCatalog router emptyStore.log := fun _ d hd => by cases hd
  exact ⟨hshards, owner_commits_every_revision hempty (by decide +kernel) hrun⟩

open OwnershipExample KernelExample MutationExample in
/-- Room `bb` is on shard 0, which commits the item at 1. Shard 1 commits a tombstone of it at 2 if
its mutation took its snapshot before, and a new revision if its mutation is privileged. -/
theorem other_shard_commits :
    RoutesTo router (js "room") (inRoom "bb") 0 ∧
    (∃ t, run (ShardedKernel.step shardedCatalog router) (.new emptyStore false none)
      deleteUnseen = some t ∧
      committers t item = [0, 1] ∧ docsAt t.base.store.log none item = none) ∧
    ∃ t, run (ShardedKernel.step shardedCatalog router) (.new emptyStore false none)
      moveItem = some t ∧ committers t item = [0, 1] := by
  decide +kernel

end Helipod
