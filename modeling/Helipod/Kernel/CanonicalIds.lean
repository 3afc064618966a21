import Helipod.Kernel.Shards
import Helipod.Sync.CommitDiffer

/-!
# The spelling of stored ids

`handleDbInsert` stores the canonical spelling of the id, also for an id that the client supplies.
`handleDbReplace` decodes the id it is given and stores the text itself, and decoding accepts many
spellings of one id. So a replace can store a document whose `_id` differs from the id under which
the sync layer publishes it.

Results: `stored_ids_canonical`, `replace_stores_other_spelling`.
-/

namespace Helipod

open Runs Store

/-! ## Canonical documents -/

/-- The `_id` of the document is what `encodeDocumentId` gives. -/
def IsCanonical (doc : DocumentValue) (id : InternalDocumentId) : Prop :=
  ∃ s, encodeDocumentId id = .ok s ∧ JsValue.property doc idField = .value (.string s)

/-- Every live revision of the log is canonical. -/
def CanonicalLog (log : List (Commit DocumentValue)) : Prop :=
  ∀ d ∈ log, ∀ e ∈ d.unit.documents, ∀ doc, e.value = some doc → IsCanonical doc e.id

/-- A write leaves no document or a canonical one. -/
def StagesCanonical (id : InternalDocumentId) (_ newDoc : Option DocumentValue) : Prop :=
  ∀ doc, newDoc = some doc → IsCanonical doc id

/-- The id is the canonical spelling of what it decodes to, if it decodes at all. -/
def isCanonicalSpelling (id : JsString) : Bool :=
  (decodeDocumentId id).toOption.all fun internalId => encodeDocumentId internalId = .ok id

/-- A replace names its document by the canonical spelling. -/
def Syscall.spellsCanonically : Syscall → Bool
  | .replace id _ => isCanonicalSpelling id
  | _ => true

def ShardedKernelEvent.spellsCanonically : ShardedKernelEvent → Bool
  | .call _ _ _ s => s.spellsCanonically
  | _ => true

theorem isCanonical_setField {fields : DocumentValue} {s : JsString} {id : InternalDocumentId}
    (h : encodeDocumentId id = .ok s) (time : Value) :
    IsCanonical (setField (setField fields idField (.string s)) creationTimeField time) id := by
  refine ⟨s, h, ?_⟩
  rw [property_setField_ne _ _ idField_ne_creationTimeField, property_setField]

/-! ## Handlers -/

namespace Handler.Stages

variable {ctx : KernelContext} {seen : Knowledge}

theorem insertAt_canonical (tableMeta : TableMeta) (userValue : DocumentValue)
    (id : InternalDocumentId) :
    (insertAt ctx tableMeta userValue id).Stages StagesCanonical seen := by
  refine attempt fun docId hid => attempt fun _ _ => ⟨?_, fun _ h => by cases h⟩
  rintro doc hdoc
  cases hdoc
  exact isCanonical_setField (Except.mapError_eq_ok.1 hid) _

theorem handleDbInsert_canonical (table : String) (value : DocumentValue) (generated : Bytes) :
    (handleDbInsert ctx table value generated).Stages StagesCanonical seen := by
  unfold handleDbInsert
  split
  · trivial
  · refine attempt fun tableMeta _ => ?_
    simp only
    split
    · trivial
    · split
      · exact insertAt_canonical ..
      · split
        · trivial
        · split
          · trivial
          · exact fun _ _ => ⟨insertAt_canonical .., fun _ _ => trivial⟩
      · trivial

theorem handleDbReplace_canonical {id : JsString} (hid : isCanonicalSpelling id = true)
    (value : DocumentValue) : (handleDbReplace ctx id value).Stages StagesCanonical seen := by
  unfold handleDbReplace
  split
  · trivial
  · refine attempt fun internalId hdec => attempt fun tableMeta _ => fun seen' _ => ⟨trivial, ?_⟩
    intro oldDoc hseen
    split
    · trivial
    · refine attempt fun _ _ => attempt fun _ _ => ⟨?_, ?_⟩
      · rintro doc hdoc
        cases hdoc
        exact isCanonical_setField
          (by simpa [isCanonicalSpelling, Except.mapError_eq_ok.1 hdec, Except.toOption]
            using hid) _
      · rintro doc hdoc
        cases hdoc
        exact hseen

theorem handleDbDelete_canonical (id : JsString) :
    (handleDbDelete ctx id).Stages StagesCanonical seen := by
  unfold handleDbDelete
  split
  · trivial
  · refine attempt fun internalId _ => attempt fun tableMeta _ => fun seen' _ => ⟨?_, ?_⟩
    · exact ⟨by simp [StagesCanonical], by simp⟩
    · intro oldDoc hseen
      refine attempt fun _ _ => ⟨by simp [StagesCanonical], ?_⟩
      rintro doc hdoc
      cases hdoc
      exact hseen

theorem handler_canonical {s : Syscall} (h : s.spellsCanonically = true) :
    (s.handler ctx).Stages StagesCanonical seen := by
  cases s with
  | insert table value generated => exact handleDbInsert_canonical table value generated
  | replace id value => exact handleDbReplace_canonical h value
  | delete id => exact handleDbDelete_canonical id

end Handler.Stages

/-! ## Runs -/

namespace ShardedKernel

variable {catalog : Catalog} {router : Bytes → Nat} {t t' : ShardedKernel}

/-- Every write, committed or on its way, is canonical. -/
structure Canonical (t : ShardedKernel) : Prop where
  inv : Inv (fun _ _ => StagesCanonical) t
  writes : ∀ shard id doc, t.base.Writes shard id (some doc) → IsCanonical doc id

theorem Canonical.new {store : Store DocumentValue} (h : CanonicalLog store.log) (group : Bool)
    (seedTs : Option Nat) : Canonical (ShardedKernel.new store group seedTs) where
  inv := .new store group seedTs
  writes := by
    rintro shard id doc (⟨d, hd, -, e, he, rfl, hv⟩ | ⟨w, hw, -⟩)
    · exact h d hd e he doc hv
    · simp at hw

theorem Canonical.step (h : Canonical t) {e : ShardedKernelEvent}
    (hspell : e.spellsCanonically = true)
    (hs : t.step catalog router e = some t') : Canonical t' where
  inv := h.inv.step hs <| by
    rintro shard i ctx s rfl txn seen
    exact Handler.Stages.handler_canonical hspell
  writes := by
    intro shard id doc hw
    rcases h.inv.writes_step hs hw with hold | ⟨_, _, _, _, _, _, _, _, _, _, hnew, _⟩
    · exact h.writes shard id doc hold
    · exact hnew doc rfl

theorem Canonical.log (h : Canonical t) : CanonicalLog t.base.store.log := by
  intro d hd e he doc hv
  exact h.writes d.shard e.id doc (.inl ⟨d, hd, rfl, e, he, rfl, hv⟩)

end ShardedKernel

theorem CanonicalLog.get {log : List (Commit DocumentValue)} (h : CanonicalLog log)
    {id : InternalDocumentId} {bound : Option Nat} {ts : Nat} {doc : DocumentValue}
    (hget : getIn log id bound = some (ts, doc)) : IsCanonical doc id := by
  have hdoc : docsAt log bound id = some doc := by rw [docsAt, hget]; rfl
  obtain ⟨d, hd, e, he, rfl, hv⟩ := ShardedKernel.committed_of_docsAt hdoc
  exact h d hd e he doc hv

/-- In every run whose replaces name their documents by the canonical spelling, whatever the inserts
and deletes are given: every committed live document has the canonical spelling of its id as
its `_id`; so does every document that a read at any bound returns, and it is the id under
which the differ publishes the document. -/
theorem stored_ids_canonical {catalog : Catalog} {router : Bytes → Nat}
    {store : Store DocumentValue}
    {group : Bool} {seedTs : Option Nat} {events : List ShardedKernelEvent} {t : ShardedKernel}
    (hstore : CanonicalLog store.log)
    (hspell : Guarded (ShardedKernel.step catalog router) (fun _ e => e.spellsCanonically = true)
      (.new store group seedTs) events)
    (hrun : run (ShardedKernel.step catalog router) (.new store group seedTs) events = some t) :
    CanonicalLog t.base.store.log ∧
    (∀ id bound ts doc, t.base.store.get id bound = some (ts, doc) → IsCanonical doc id) ∧
    ∀ d ∈ t.base.store.log, ∀ e ∈ d.unit.documents, ∀ doc, e.value = some doc →
      ∀ commitTs published, writtenDoc commitTs e = .ok published →
        JsValue.property doc idField = .value (.string published.docId) := by
  have hcanon : ShardedKernel.Canonical t :=
    run_invariant_of_guarded (fun _ _ _ h hg hs => h.step hg hs)
      (.new hstore group seedTs) hspell hrun
  refine ⟨hcanon.log, fun id bound ts doc hget => hcanon.log.get hget, ?_⟩
  intro d hd e he doc hv commitTs published hpub
  obtain ⟨s, hs, hprop⟩ := hcanon.log d hd e he doc hv
  obtain ⟨docId, hdocId, rfl⟩ := writtenDoc_eq_ok.1 hpub
  rw [hs] at hdocId
  cases hdocId
  exact hprop

namespace SpellingExample

open KernelExample ShardedKernelExample

def router : Bytes → Nat := fun _ => defaultShard

/-- Call `i` issues the syscall, with index `i` too, which runs to its end in `steps` pieces; then
the call commits at `ts`. -/
def mutation (i steps ts : Nat) (s : Syscall) : List ShardedKernelEvent :=
  onShard 0 [.start 8] ++ .call 0 i kernelContext s :: List.replicate steps (.resume i true) ++
  commit 0 i ts

/-- The id in upper case. -/
def shoutedId : JsString := itemId.map fun u =>
  if 97 ≤ u.val ∧ u.val ≤ 122 then codeUnit (u.val - 32) else u

end SpellingExample

open SpellingExample KernelExample MutationExample ShardedKernelExample in
/-- A document that is inserted and replaced by its canonical id keeps it. -/
theorem stored_ids_canonical_replaced :
    let events := create 0 ++ mutation 0 2 1 (insertItem []) ++ mutation 1 5 2 (.replace itemId [])
    ∃ t, run (ShardedKernel.step catalog router) (.new emptyStore false none) events = some t ∧
      t.base.store.log.length = 2 ∧ CanonicalLog t.base.store.log := by
  refine exists_some_imp (·.base.store.log.length = 2) (by decide +kernel) fun t hrun hlen => ?_
  have hempty : CanonicalLog emptyStore.log := fun d hd => by cases hd
  exact ⟨hlen, (stored_ids_canonical hempty (by decide +kernel) hrun).1⟩

open SpellingExample KernelExample MutationExample ShardedKernelExample in
/-- A replace through the upper-case spelling of the id stores that spelling. The differ publishes
the document under the canonical one. -/
theorem replace_stores_other_spelling :
    ∃ t, run (ShardedKernel.step catalog router) (.new emptyStore false none)
        (create 0 ++ mutation 0 2 1 (insertItem []) ++
          mutation 1 5 2 (.replace shoutedId [])) = some t ∧
      ∃ doc, t.base.store.get item none = some (2, doc) ∧
        JsValue.property doc idField = .value (.string shoutedId) ∧
        encodeDocumentId item = .ok itemId ∧ shoutedId ≠ itemId ∧ ¬ IsCanonical doc item ∧
        ∃ d ∈ t.base.store.log, ∃ e ∈ d.unit.documents, e.value = some doc ∧
          (writtenDoc 2 e).map WrittenDoc.docId = .ok itemId := by
  obtain ⟨t, hrun, ⟨ts, doc⟩, hget, hts, hprop, hpub⟩ :
      ∃ t, run (ShardedKernel.step catalog router) (.new emptyStore false none)
        (create 0 ++ mutation 0 2 1 (insertItem []) ++
          mutation 1 5 2 (.replace shoutedId [])) = some t ∧
      ∃ r, t.base.store.get item none = some r ∧ r.1 = 2 ∧
        JsValue.property r.2 idField = .value (.string shoutedId) ∧
        ∃ d ∈ t.base.store.log, ∃ e ∈ d.unit.documents, e.value = some r.2 ∧
          (writtenDoc 2 e).map WrittenDoc.docId = .ok itemId := by decide +kernel
  have hitem : encodeDocumentId item = .ok itemId := by decide +kernel
  have hne : shoutedId ≠ itemId := by decide +kernel
  refine ⟨t, hrun, doc, hts ▸ hget, hprop, hitem, hne, ?_, hpub⟩
  rintro ⟨s, hs, hcanon⟩
  have hsame : shoutedId = s := Value.string.inj (JsValue.value.inj (hprop.symm.trans hcanon))
  exact hne (hsame.trans (Except.ok.inj (hs.symm.trans hitem)))

end Helipod
