import Helipod.Kernel.Syscalls

/-!
# Staged writes and staged index entries

What the staged documents and the staged index entries of one transaction have to do
with each other, and that a write syscall keeps it if it maintains the indexes from
the document its transaction really sees and no key fails to encode.

Results:
* `StagedWrite.indexed`, `TransactionContext.foldl_stageOps`
* `keyOf_inj`: two documents never share an index key.
-/

namespace Helipod

open OrderedMap List

open Except (map_eq_ok bind_eq_ok)

/-! ## Keys and owners -/

/-- The `_id` field of the document spells the id. -/
def IsDocument (doc : DocumentValue) (id : InternalDocumentId) : Prop :=
  ∃ s, JsValue.property doc idField = .value (.string s) ∧ decodeDocumentId s = .ok id

/-- The key is one of a document with this id. -/
def KeyOf (fields : List JsString) (key : Bytes) (id : InternalDocumentId) : Prop :=
  ∃ doc, IsDocument doc id ∧ extractIndexKey doc fields = .ok key

theorem keyOf_inj {fields : List JsString} {key : Bytes} {id id' : InternalDocumentId}
    (h : KeyOf fields key id) (h' : KeyOf fields key id') : id = id' := by
  obtain ⟨doc, ⟨s, hs, hid⟩, hkey⟩ := h
  obtain ⟨doc', ⟨s', hs', hid'⟩, hkey'⟩ := h'
  have heq := extractIndexKey_id hkey hkey' (by rw [hs]; rfl) (by rw [hs']; rfl)
  have hss : s = s' := utf8Encode_injOn_ascii (isAscii_of_decodeDocumentId hid)
    (isAscii_of_decodeDocumentId hid') (compareKeyBytes_eq_eq.1 heq)
  rw [hss, hid'] at hid
  exact (Except.ok.inj hid).symm

/-! ## The last update of a key -/

def lastUpdate (updates : List DatabaseIndexUpdate) (indexId : IndexId) (key : Bytes) :
    Option IndexUpdateValue :=
  (updates.reverse.find? fun u => u.indexId = indexId ∧ u.key = key).map (·.value)

@[simp] theorem lastUpdate_nil (indexId : IndexId) (key : Bytes) :
    lastUpdate [] indexId key = none := rfl

theorem lastUpdate_append (us vs : List DatabaseIndexUpdate) (indexId : IndexId) (key : Bytes) :
    lastUpdate (us ++ vs) indexId key =
      (lastUpdate vs indexId key).or (lastUpdate us indexId key) := by
  simp only [lastUpdate, reverse_append, find?_append]
  cases vs.reverse.find? fun u => u.indexId = indexId ∧ u.key = key <;> rfl

variable {us : List DatabaseIndexUpdate} {id : InternalDocumentId}

theorem lastUpdate_eq_none {indexId : IndexId} {key : Bytes}
    (h : ∀ u ∈ us, u.indexId ≠ indexId) : lastUpdate us indexId key = none := by
  rw [lastUpdate, Option.map_eq_none_iff, find?_eq_none]
  intro u hu
  simp [h u (mem_reverse.1 hu)]

theorem lastUpdate_indexUpdatesFor (indexId : IndexId) (oldKey newKey : Option Bytes)
    (docId : InternalDocumentId) (key : Bytes) :
    lastUpdate (indexUpdatesFor indexId oldKey newKey docId) indexId key =
      if newKey = some key then some (.nonClustered docId)
      else if oldKey = some key then some .deleted else none := by
  cases newKey with
  | none =>
    cases oldKey with
    | none => simp [indexUpdatesFor]
    | some k => by_cases hk : k = key <;> simp [indexUpdatesFor, lastUpdate]
  | some n =>
    cases oldKey with
    | none => by_cases hn : n = key <;> simp [indexUpdatesFor, lastUpdate]
    | some k =>
      by_cases hn : n = key
      · by_cases hk : n = k <;> simp [indexUpdatesFor, lastUpdate, hn]
      · by_cases hk : n = k
        · subst hk
          simp [indexUpdatesFor, lastUpdate, hn]
        · by_cases hkk : k = key <;> simp [indexUpdatesFor, lastUpdate, hn, hk]

/-! ## The updates of one write -/

variable {oldDoc : Option DocumentValue} {newDoc : Option DocumentValue} {specs : List IndexSpec}

theorem computeIndexUpdates_cons {idx : IndexSpec}
    (h : computeIndexUpdates (idx :: specs) oldDoc newDoc id = .ok us) :
    ∃ oldKey newKey rest, extractKey? oldDoc idx.fields = .ok oldKey ∧
      extractKey? newDoc idx.fields = .ok newKey ∧
      computeIndexUpdates specs oldDoc newDoc id = .ok rest ∧
      us = indexUpdatesFor idx.indexId oldKey newKey id ++ rest := by
  obtain ⟨oldKey, ho, h⟩ := bind_eq_ok.1 h
  obtain ⟨newKey, hn, h⟩ := bind_eq_ok.1 h
  obtain ⟨rest, hr, h⟩ := bind_eq_ok.1 h
  exact ⟨oldKey, newKey, rest, ho, hn, hr, (Except.ok.inj h).symm⟩

theorem indexId_of_mem_indexUpdatesFor {indexId : IndexId} {oldKey newKey : Option Bytes}
    {u : DatabaseIndexUpdate}
    (h : u ∈ indexUpdatesFor indexId oldKey newKey id) : u.indexId = indexId := by
  cases oldKey <;> cases newKey <;> simp only [indexUpdatesFor] at h
  all_goals (repeat' split at h) <;> simp at h
  all_goals grind

theorem indexId_of_mem_computeIndexUpdates
    (h : computeIndexUpdates specs oldDoc newDoc id = .ok us) :
    ∀ u ∈ us, u.indexId ∈ specs.map IndexSpec.indexId := by
  induction specs generalizing us with
  | nil =>
    cases h
    simp
  | cons idx specs ih =>
    obtain ⟨oldKey, newKey, rest, -, -, hrest, rfl⟩ := computeIndexUpdates_cons h
    intro u hu
    rcases mem_append.1 hu with hu | hu
    · rw [indexId_of_mem_indexUpdatesFor hu]
      exact mem_cons_self
    · exact mem_cons_of_mem _ (ih hrest u hu)

/-- The last update of a key, for each index of the table that was written. -/
theorem lastUpdate_computeIndexUpdates (hnodup : (specs.map IndexSpec.indexId).Nodup)
    (h : computeIndexUpdates specs oldDoc newDoc id = .ok us) {idx : IndexSpec}
    (hidx : idx ∈ specs) :
    ∃ oldKey newKey, extractKey? oldDoc idx.fields = .ok oldKey ∧
      extractKey? newDoc idx.fields = .ok newKey ∧
      ∀ key, lastUpdate us idx.indexId key =
        if newKey = some key then some (.nonClustered id)
        else if oldKey = some key then some .deleted else none := by
  induction specs generalizing us with
  | nil => simp at hidx
  | cons idx' specs ih =>
    obtain ⟨oldKey, newKey, rest, ho, hn, hrest, rfl⟩ := computeIndexUpdates_cons h
    obtain ⟨hnot, hnodup⟩ := nodup_cons.1 hnodup
    rcases mem_cons.1 hidx with rfl | hmem
    · refine ⟨oldKey, newKey, ho, hn, fun key => ?_⟩
      have hnone : lastUpdate rest idx.indexId key = none := by
        refine lastUpdate_eq_none fun u hu heq => hnot ?_
        exact heq ▸ indexId_of_mem_computeIndexUpdates hrest u hu
      rw [lastUpdate_append, hnone, Option.none_or, lastUpdate_indexUpdatesFor]
    · obtain ⟨oldKey', newKey', ho', hn', hlast⟩ := ih hnodup hrest hmem
      refine ⟨oldKey', newKey', ho', hn', fun key => ?_⟩
      have hne : idx'.indexId ≠ idx.indexId := by
        intro heq
        exact hnot (heq ▸ mem_map_of_mem hmem)
      have hnone : lastUpdate (indexUpdatesFor idx'.indexId oldKey newKey id) idx.indexId key =
          none := by
        refine lastUpdate_eq_none fun u hu => ?_
        rw [indexId_of_mem_indexUpdatesFor hu]
        exact hne
      rw [lastUpdate_append, hnone, Option.or_none, hlast]

theorem extractKey?_eq_some {doc : Option DocumentValue} {fields : List JsString}
    {key : Option Bytes} (h : extractKey? doc fields = .ok key) {k : Bytes} :
    key = some k ↔ ∃ d, doc = some d ∧ extractIndexKey d fields = .ok k := by
  cases doc with
  | none =>
    cases h
    simp
  | some d =>
    obtain ⟨k', hd, rfl⟩ := map_eq_ok.1 h
    simp [hd]

/-! ## The invariant -/

abbrev StagedWrites := OrderedMap InternalDocumentId (Option DocumentValue)

/-- The documents under their ids as a transaction reads them: its own writes over what the
store holds. -/
def visible (base : InternalDocumentId → Option DocumentValue) (staged : StagedWrites)
    (id : InternalDocumentId) : Option DocumentValue :=
  (staged.get? id).getD (base id)

/-- The stored documents carry their ids and have keys in all indexes of their tables. -/
def IndexableBase (catalog : Catalog) (base : InternalDocumentId → Option DocumentValue) : Prop :=
  ∀ id doc, base id = some doc → IsDocument doc id ∧
    ∀ idx ∈ catalog.indexes, idx.tableNumber = id.tableNumber →
      ∃ key, extractIndexKey doc idx.fields = .ok key

/-- No entry points at a key that its staged document does not have. -/
def SoundEntries (catalog : Catalog) (staged : StagedWrites) (updates : List DatabaseIndexUpdate) :
    Prop :=
  ∀ idx ∈ catalog.indexes, ∀ key id,
    lastUpdate updates idx.indexId key = some (.nonClustered id) →
    id.tableNumber = idx.tableNumber ∧
      ∃ doc, staged.get? id = some (some doc) ∧ extractIndexKey doc idx.fields = .ok key

/-- The staged index entries turn the entries for the documents of the store into the entries
for the documents the transaction sees. -/
structure Indexed (catalog : Catalog) (base : InternalDocumentId → Option DocumentValue)
    (staged : StagedWrites) (updates : List DatabaseIndexUpdate) : Prop where
  documents : ∀ id doc, staged.get? id = some (some doc) → IsDocument doc id
  sound : SoundEntries catalog staged updates
  complete : ∀ idx ∈ catalog.indexes, ∀ id doc, id.tableNumber = idx.tableNumber →
    staged.get? id = some (some doc) → ∃ key, extractIndexKey doc idx.fields = .ok key ∧
      lastUpdate updates idx.indexId key = some (.nonClustered id)
  removed : ∀ idx ∈ catalog.indexes, ∀ id value doc key, id.tableNumber = idx.tableNumber →
    staged.get? id = some value → base id = some doc → extractIndexKey doc idx.fields = .ok key →
    (∀ doc', value = some doc' → extractIndexKey doc' idx.fields ≠ .ok key) →
    lastUpdate updates idx.indexId key = some .deleted
  owned : ∀ idx ∈ catalog.indexes, ∀ key value, lastUpdate updates idx.indexId key = some value →
    ∃ id ∈ staged.keys, KeyOf idx.fields key id

namespace Indexed

variable {catalog : Catalog} {base : InternalDocumentId → Option DocumentValue}
  {staged : StagedWrites} {updates : List DatabaseIndexUpdate}

theorem empty : Indexed catalog base .empty [] where
  documents _ _ h := by simp at h
  sound _ _ _ _ h := by simp at h
  complete _ _ _ _ _ h := by simp at h
  removed _ _ _ _ _ _ _ h := by simp at h
  owned _ _ _ _ h := by simp at h

/-- Only the stored documents of staged ids matter. -/
theorem congr {base' : InternalDocumentId → Option DocumentValue}
    (h : Indexed catalog base staged updates) (hb : ∀ id ∈ staged.keys, base' id = base id) :
    Indexed catalog base' staged updates :=
  { h with
    removed := fun idx hidx id value doc key ht hs hd =>
      h.removed idx hidx id value doc key ht hs
        (hb id ((has_iff _).1 (by simp [hs])) ▸ hd) }

variable {doc : DocumentValue}

theorem isDocument_visible (h : Indexed catalog base staged updates)
    (hbase : IndexableBase catalog base) {id : InternalDocumentId}
    (hv : visible base staged id = some doc) : IsDocument doc id := by
  unfold visible at hv
  cases hs : staged.get? id with
  | none => exact (hbase id doc (by simpa [hs] using hv)).1
  | some value => exact h.documents id doc (by simpa [hs] using hv)

end Indexed

/-! ## One staged write -/

/-- A write whose index updates are computed from the document the transaction sees. -/
structure StagedWrite (catalog : Catalog) (base : InternalDocumentId → Option DocumentValue)
    (staged : StagedWrites) (id : InternalDocumentId) (oldDoc newDoc : Option DocumentValue)
    (us : List DatabaseIndexUpdate) : Prop where
  seen : visible base staged id = oldDoc
  updates : computeIndexUpdates (catalog.indexesForTable id.tableNumber) oldDoc newDoc id = .ok us

/-- The keys of the two documents in an index, and the last update of every key after the
write. -/
structure WriteKeys (idx : IndexSpec) (id : InternalDocumentId)
    (oldDoc newDoc : Option DocumentValue)
    (before after : Bytes → Option IndexUpdateValue) (oldKey newKey : Option Bytes) : Prop where
  old : ∀ k, oldKey = some k ↔ ∃ d, oldDoc = some d ∧ extractIndexKey d idx.fields = .ok k
  new : ∀ k, newKey = some k ↔ ∃ d, newDoc = some d ∧ extractIndexKey d idx.fields = .ok k
  isSome : ∀ d, newDoc = some d → ∃ k, newKey = some k
  last : ∀ key, after key =
    if newKey = some key then some (.nonClustered id)
    else if oldKey = some key then some .deleted else before key

namespace StagedWrite

variable {catalog : Catalog} {base : InternalDocumentId → Option DocumentValue}
  {staged : StagedWrites} {updates us : List DatabaseIndexUpdate} {id id' : InternalDocumentId}
  {oldDoc newDoc : Option DocumentValue} {idx : IndexSpec} {key : Bytes}

theorem get?_ne (hne : id' ≠ id) : (staged.set id newDoc).get? id' = staged.get? id' :=
  get?_set_ne _ (Ne.symm hne)

variable (hw : StagedWrite catalog base staged id oldDoc newDoc us)
include hw

theorem lastUpdate_other (ht : idx.tableNumber ≠ id.tableNumber) (key : Bytes) :
    lastUpdate (updates ++ us) idx.indexId key = lastUpdate updates idx.indexId key := by
  rw [lastUpdate_append, lastUpdate_eq_none, Option.none_or]
  intro u hu heq
  obtain ⟨idx', hidx', hid⟩ := mem_map.1 (indexId_of_mem_computeIndexUpdates hw.updates u hu)
  have ht' : idx'.tableNumber = id.tableNumber := by simpa using (mem_filter.1 hidx').2
  exact ht ((congrArg IndexId.tableNumber (heq.symm.trans hid.symm)).trans ht')

theorem writeKeys (updates : List DatabaseIndexUpdate) (hidx : idx ∈ catalog.indexes)
    (ht : idx.tableNumber = id.tableNumber) :
    ∃ oldKey newKey, WriteKeys idx id oldDoc newDoc (lastUpdate updates idx.indexId)
      (lastUpdate (updates ++ us) idx.indexId) oldKey newKey := by
  have hspec : idx ∈ catalog.indexesForTable id.tableNumber :=
    mem_filter.2 ⟨hidx, by simpa using ht⟩
  have hnodup : ((catalog.indexesForTable id.tableNumber).map IndexSpec.indexId).Nodup :=
    catalog.indexIds_nodup.sublist (filter_sublist.map _)
  obtain ⟨oldKey, newKey, ho, hn, hlast⟩ := lastUpdate_computeIndexUpdates hnodup hw.updates hspec
  refine ⟨oldKey, newKey, fun k => extractKey?_eq_some ho, fun k => extractKey?_eq_some hn, ?_, ?_⟩
  · rintro d rfl
    obtain ⟨k, hd, -⟩ := map_eq_ok.1 hn
    exact ⟨k, (extractKey?_eq_some hn).2 ⟨d, rfl, hd⟩⟩
  · intro key
    rw [lastUpdate_append, hlast]
    split
    · rfl
    · split <;> rfl

theorem isDocument_old (h : Indexed catalog base staged updates)
    (hbase : IndexableBase catalog base) : ∀ d, oldDoc = some d → IsDocument d id :=
  fun _ hd => h.isDocument_visible hbase (hw.seen.trans hd)

/-- A key of another document is neither the old nor the new one, so its entry stays. -/
theorem lastUpdate_apart
    (hdoc : ∀ doc, newDoc = some doc → IsDocument doc id) (h : Indexed catalog base staged updates)
    (hbase : IndexableBase catalog base) (hidx : idx ∈ catalog.indexes) (hne : id' ≠ id)
    (hkey : KeyOf idx.fields key id') :
    lastUpdate (updates ++ us) idx.indexId key = lastUpdate updates idx.indexId key := by
  by_cases ht : idx.tableNumber = id.tableNumber
  · obtain ⟨oldKey, newKey, hk⟩ := hw.writeKeys updates hidx ht
    rw [hk.last, if_neg, if_neg]
    · intro ho
      obtain ⟨d, hd, hdk⟩ := (hk.old key).1 ho
      exact hne (keyOf_inj hkey ⟨d, hw.isDocument_old h hbase d hd, hdk⟩)
    · intro hn
      obtain ⟨d, hd, hdk⟩ := (hk.new key).1 hn
      exact hne (keyOf_inj hkey ⟨d, hdoc d hd, hdk⟩)
  · exact hw.lastUpdate_other ht key

theorem sound (h : SoundEntries catalog staged updates) :
    SoundEntries catalog (staged.set id newDoc) (updates ++ us) := by
  intro idx hidx key id' hlast
  by_cases ht : idx.tableNumber = id.tableNumber
  · obtain ⟨oldKey, newKey, hk⟩ := hw.writeKeys updates hidx ht
    rw [hk.last] at hlast
    split at hlast
    · rename_i hn
      cases hlast
      obtain ⟨d, hd, hdk⟩ := (hk.new key).1 hn
      exact ⟨ht.symm, d, by rw [get?_set_self, hd], hdk⟩
    · split at hlast
      · simp at hlast
      · rename_i ho
        obtain ⟨ht', doc, hs, hdk⟩ := h idx hidx key id' hlast
        -- for the written document itself this would be the old key
        have hne : id' ≠ id := by
          rintro rfl
          refine ho ((hk.old key).2 ⟨doc, ?_, hdk⟩)
          rw [← hw.seen, visible, hs]
          rfl
        exact ⟨ht', doc, (get?_ne hne).trans hs, hdk⟩
  · rw [hw.lastUpdate_other ht] at hlast
    obtain ⟨ht', doc, hs, hdk⟩ := h idx hidx key id' hlast
    have hne : id' ≠ id := by
      rintro rfl
      exact ht ht'.symm
    exact ⟨ht', doc, (get?_ne hne).trans hs, hdk⟩

variable (hdoc : ∀ doc, newDoc = some doc → IsDocument doc id)
  (h : Indexed catalog base staged updates) (hbase : IndexableBase catalog base)
include hdoc h hbase

theorem complete (hidx : idx ∈ catalog.indexes) (ht : id'.tableNumber = idx.tableNumber)
    (hs : (staged.set id newDoc).get? id' = some (some doc)) :
    ∃ key, extractIndexKey doc idx.fields = .ok key ∧
      lastUpdate (updates ++ us) idx.indexId key = some (.nonClustered id') := by
  by_cases hid : id' = id
  · subst hid
    rw [get?_set_self] at hs
    obtain ⟨oldKey, newKey, hk⟩ := hw.writeKeys updates hidx ht.symm
    obtain ⟨key, hn⟩ := hk.isSome doc (Option.some.inj hs)
    obtain ⟨d, hd, hdk⟩ := (hk.new key).1 hn
    rw [Option.some.inj hs] at hd
    cases hd
    exact ⟨key, hdk, by rw [hk.last, if_pos hn]⟩
  · rw [get?_ne hid] at hs
    obtain ⟨key, hdk, hlast⟩ := h.complete idx hidx id' doc ht hs
    refine ⟨key, hdk, ?_⟩
    rw [hw.lastUpdate_apart hdoc h hbase hidx hid ⟨doc, h.documents id' doc hs, hdk⟩, hlast]

theorem removed (hidx : idx ∈ catalog.indexes) {value : Option DocumentValue}
    (ht : id'.tableNumber = idx.tableNumber) (hs : (staged.set id newDoc).get? id' = some value)
    (hb : base id' = some doc) (hdk : extractIndexKey doc idx.fields = .ok key)
    (hgone : ∀ doc', value = some doc' → extractIndexKey doc' idx.fields ≠ .ok key) :
    lastUpdate (updates ++ us) idx.indexId key = some .deleted := by
  by_cases hid : id' = id
  · subst hid
    rw [get?_set_self] at hs
    obtain ⟨oldKey, newKey, hk⟩ := hw.writeKeys updates hidx ht.symm
    have hnew : newKey ≠ some key := by
      intro hn
      obtain ⟨d, hd, hdk'⟩ := (hk.new key).1 hn
      exact hgone d ((Option.some.inj hs).symm.trans hd) hdk'
    rw [hk.last, if_neg hnew]
    split
    · rfl
    · rename_i ho
      -- the stored document was replaced by an earlier write of the transaction
      cases hprev : staged.get? id' with
      | none =>
        refine absurd ((hk.old key).2 ⟨doc, ?_, hdk⟩) ho
        rw [← hw.seen, visible, hprev]
        exact hb
      | some prev =>
        refine h.removed idx hidx id' prev doc key ht hprev hb hdk ?_
        rintro doc' rfl hdk'
        refine ho ((hk.old key).2 ⟨doc', ?_, hdk'⟩)
        rw [← hw.seen, visible, hprev]
        rfl
  · rw [get?_ne hid] at hs
    rw [hw.lastUpdate_apart hdoc h hbase hidx hid ⟨doc, (hbase id' doc hb).1, hdk⟩]
    exact h.removed idx hidx id' value doc key ht hs hb hdk hgone

theorem owned (hidx : idx ∈ catalog.indexes) {value : IndexUpdateValue}
    (hlast : lastUpdate (updates ++ us) idx.indexId key = some value) :
    ∃ id' ∈ (staged.set id newDoc).keys, KeyOf idx.fields key id' := by
  have hself : id ∈ (staged.set id newDoc).keys := (mem_keys_set _).2 (.inl rfl)
  have hprev : lastUpdate updates idx.indexId key = some value →
      ∃ id' ∈ (staged.set id newDoc).keys, KeyOf idx.fields key id' := by
    intro hlast
    obtain ⟨id', hid', hkey⟩ := h.owned idx hidx key value hlast
    exact ⟨id', (mem_keys_set _).2 (.inr hid'), hkey⟩
  by_cases ht : idx.tableNumber = id.tableNumber
  · obtain ⟨oldKey, newKey, hk⟩ := hw.writeKeys updates hidx ht
    rw [hk.last] at hlast
    split at hlast
    · rename_i hn
      obtain ⟨d, hd, hdk⟩ := (hk.new key).1 hn
      exact ⟨id, hself, d, hdoc d hd, hdk⟩
    · split at hlast
      · rename_i ho
        obtain ⟨d, hd, hdk⟩ := (hk.old key).1 ho
        exact ⟨id, hself, d, hw.isDocument_old h hbase d hd, hdk⟩
      · exact hprev hlast
  · rw [hw.lastUpdate_other ht] at hlast
    exact hprev hlast

theorem indexed : Indexed catalog base (staged.set id newDoc) (updates ++ us) where
  documents id' doc hs := by
    by_cases hid : id' = id
    · subst hid
      rw [get?_set_self] at hs
      exact hdoc doc (Option.some.inj hs)
    · exact h.documents id' doc ((get?_ne hid).symm.trans hs)
  sound := hw.sound h.sound
  complete _ hidx _ _ ht hs := hw.complete hdoc h hbase hidx ht hs
  removed _ hidx _ _ _ _ ht hs hb hdk hgone := hw.removed hdoc h hbase hidx ht hs hb hdk hgone
  owned _ hidx _ _ hlast := hw.owned hdoc h hbase hidx hlast

end StagedWrite

/-! ## Operations on a context -/

/-- The operation only reads. -/
def CtxOp.isRead {V : Type} : CtxOp V → Bool
  | .get _ | .look _ | .recordRead _ | .recordReadUnvalidated _ => true
  | _ => false

/-- If the syscall stages its write now, the index keys can be encoded. -/
def InFlight.keysEncode (catalog : Catalog) : InFlight → Bool
  | .running (.stage id oldDoc newDoc _) =>
    (computeIndexUpdates (catalog.indexesForTable id.tableNumber) oldDoc newDoc id).isOk
  | _ => true

/-- The index updates a write stages: none if a key cannot be encoded. -/
def stagedUpdates (catalog : Catalog) (id : InternalDocumentId)
    (oldDoc newDoc : Option DocumentValue) :
    List DatabaseIndexUpdate :=
  match computeIndexUpdates (catalog.indexesForTable id.tableNumber) oldDoc newDoc id with
  | .ok us => us
  | .error _ => []

/-- The operation stages nothing. -/
def CtxOp.keepsWrites {V : Type} : CtxOp V → Bool
  | .put _ _ | .delete _ | .stageIndexUpdates _ => false
  | _ => true

theorem CtxOp.keepsWrites_of_isRead {V : Type} {op : CtxOp V} (h : op.isRead = true) :
    op.keepsWrites = true := by
  cases op <;> first | rfl | cases h

namespace TransactionContext

variable {V : Type}

/-- The same transaction with the same staged writes. -/
structure SameWrites (ctx ctx' : TransactionContext V) : Prop where
  snapshotTs : ctx'.snapshotTs = ctx.snapshotTs
  staged : ctx'.staged = ctx.staged
  indexUpdates : ctx'.indexUpdates = ctx.indexUpdates

theorem sameWrites_apply (ctx : TransactionContext V) (landed : List Nat) {op : CtxOp V}
    (h : op.keepsWrites = true) : SameWrites ctx (ctx.apply landed op) := by
  cases op <;> first | exact ⟨rfl, rfl, rfl⟩ | cases h

theorem sameWrites_foldl (ctx : TransactionContext V) (landed : List Nat) {ops : List (CtxOp V)}
    (h : ∀ op ∈ ops, op.keepsWrites = true) : SameWrites ctx (ops.foldl (apply landed) ctx) := by
  induction ops generalizing ctx with
  | nil => exact ⟨rfl, rfl, rfl⟩
  | cons op ops ih =>
    have hop := sameWrites_apply ctx landed (h op mem_cons_self)
    have hops := ih (ctx.apply landed op) fun op hop => h op (mem_cons_of_mem _ hop)
    exact ⟨hops.snapshotTs.trans hop.snapshotTs, hops.staged.trans hop.staged,
      hops.indexUpdates.trans hop.indexUpdates⟩

theorem foldl_stageOps (ctx : TransactionContext DocumentValue) (landed : List Nat)
    (catalog : Catalog) (id : InternalDocumentId) (oldDoc newDoc : Option DocumentValue) :
    let ctx' := (stageOps catalog id oldDoc newDoc).foldl (apply landed) ctx
    ctx'.snapshotTs = ctx.snapshotTs ∧ ctx'.staged = ctx.staged.set id newDoc ∧
      ctx'.indexUpdates = ctx.indexUpdates ++ stagedUpdates catalog id oldDoc newDoc := by
  have hranges : ∀ op ∈ (indexWriteRanges (catalog.indexesForTable id.tableNumber)
    oldDoc newDoc).map
      CtxOp.recordWrite, (op : CtxOp DocumentValue).keepsWrites = true := by
    intro op hop
    obtain ⟨range, -, rfl⟩ := mem_map.1 hop
    rfl
  cases hus : computeIndexUpdates (catalog.indexesForTable id.tableNumber) oldDoc newDoc id with
  | error e =>
    simp only [stageOps, stagedUpdates, hus, append_nil]
    cases newDoc <;> exact ⟨rfl, rfl, rfl⟩
  | ok us =>
    have hsame := sameWrites_foldl ((ctx.stage id newDoc).stageIndexUpdates us) landed hranges
    simp only [stageOps, stagedUpdates, hus]
    cases newDoc <;> exact ⟨hsame.snapshotTs, hsame.staged, hsame.indexUpdates⟩

end TransactionContext

end Helipod
