import Helipod.ObjectStore.SqliteDocStore
import Helipod.Values.Json

/-!
# The migration dump

Model of `docstore/src/migration-dump.ts`: the current state of a store as text, and its import into
another store, with the check of the table numbers. The constants `format` and `version`, which only
`parseDump` reads, are left out. `SqliteDocStore.commitWriteBatch` is what allocates timestamps
after the import; no commit guard is registered.

A dump has the live documents only. If the last commits of the source were deletes, the newest row
of the target is older than the dump's `frontierTs`, which the import does not read, and the target
allocates timestamps that the source has used. A deletion marker of an index, which the dump does
have, then hides what is committed below it.

Results: `imported_reads_agree`, `import_reuses_timestamps`.
-/

namespace Helipod

open VersionTable SqliteDocStore Option

/-! ## The wire form -/

structure WireInternalDocumentId where
  tableNumber : Nat
  internalId : JsString

structure WireResolvedDocument where
  id : WireInternalDocumentId
  value : Value

structure WireDocumentLogEntry where
  ts : String
  id : WireInternalDocumentId
  value : Option WireResolvedDocument
  prevTs : Option String

inductive WireDatabaseIndexValue where
  | deleted
  | nonClustered (docId : WireInternalDocumentId)

structure WireIndexWrite where
  ts : String
  indexId : IndexId
  key : JsString
  value : WireDatabaseIndexValue

structure MigrationDump where
  deploymentId : Option String
  /-- `fullTableName → tableNumber` of the source. -/
  tableNumbers : List (String × Nat)
  frontierTs : String
  documents : List WireDocumentLogEntry
  indexUpdates : List WireIndexWrite

/-- A row of `documents`. -/
abbrev DocumentEntry := (InternalDocumentId × Nat) × DocumentRow Value

/-- A row of `indexes`. -/
abbrev IndexEntry := ((IndexId × Bytes) × Nat) × IndexUpdateValue

/-- `BigInt(text)` of a decimal text. -/
def bigIntOf (text : String) : Option Nat :=
  if text.toList ≠ [] ∧ text.toList.all Char.isDigit then some (Nat.ofDigitChars 10 text.toList 0)
  else none

def encodeId (id : InternalDocumentId) : WireInternalDocumentId :=
  ⟨id.tableNumber, bytesToBase64 id.internalId⟩

/-- `none` where `atob` throws. -/
def decodeId (id : WireInternalDocumentId) : Option InternalDocumentId :=
  (base64ToBytes id.internalId).map fun internalId => ⟨id.tableNumber, internalId⟩

def encodeDoc (id : InternalDocumentId) (value : Value) : WireResolvedDocument :=
  ⟨encodeId id, convexToJson value⟩

/-- The id of the resolved document is decoded with it, and not used. -/
def decodeDoc (doc : WireResolvedDocument) : Option Value :=
  (decodeId doc.id).bind fun _ => jsonToConvex doc.value

def encodeDocEntry (e : DocumentEntry) : WireDocumentLogEntry where
  ts := toString e.1.2
  id := encodeId e.1.1
  value := e.2.value.map (encodeDoc e.1.1)
  prevTs := e.2.prevTs.map toString

/-- Decode a field that may be `null`. -/
def decodeNullable {α β : Type} (decode : α → Option β) : Option α → Option (Option β)
  | none => some none
  | some a => (decode a).map some

def decodeDocEntry (e : WireDocumentLogEntry) : Option DocumentEntry :=
  (bigIntOf e.ts).bind fun ts => (decodeId e.id).bind fun id =>
    (decodeNullable decodeDoc e.value).bind fun value =>
      (decodeNullable bigIntOf e.prevTs).map fun prevTs => ((id, ts), ⟨prevTs, value⟩)

def encodeIdxValue : IndexUpdateValue → WireDatabaseIndexValue
  | .deleted => .deleted
  | .nonClustered docId => .nonClustered (encodeId docId)

def decodeIdxValue : WireDatabaseIndexValue → Option IndexUpdateValue
  | .deleted => some .deleted
  | .nonClustered docId => (decodeId docId).map .nonClustered

def encodeIdxWrite (w : IndexEntry) : WireIndexWrite where
  ts := toString w.1.2
  indexId := w.1.1.1
  key := bytesToBase64 w.1.1.2
  value := encodeIdxValue w.2

def decodeIdxWrite (w : WireIndexWrite) : Option IndexEntry :=
  (bigIntOf w.ts).bind fun ts => (base64ToBytes w.key).bind fun key =>
    (decodeIdxValue w.value).map fun value => (((w.indexId, key), ts), value)

/-! ## Export and import -/

def exportDumpFromStore (store : SqliteDocStore Value) (tableNumbers : List (String × Nat))
    (deploymentId : Option String) : MigrationDump where
  deploymentId
  tableNumbers
  frontierTs := toString store.maxTimestamp
  documents := store.dumpCurrentState.documents.map encodeDocEntry
  indexUpdates := store.dumpCurrentState.indexUpdates.map encodeIdxWrite

def decodeDumpRows (dump : MigrationDump) : Option (SegmentPayload Value) :=
  (dump.documents.mapM decodeDocEntry).bind fun documents =>
    (dump.indexUpdates.mapM decodeIdxWrite).map fun indexUpdates => ⟨documents, indexUpdates⟩

inductive ImportError where
  /-- Rows use a table number that the dump does not name. -/
  | corruptDump (tableNumber : Nat)
  | missingTable (name : String)
  | differingNumber (name : String) (dumped target : Nat)
  | undecodable
  deriving DecidableEq

/-- The table numbers of the rows, each once. -/
def tableNumbersInDump (dump : MigrationDump) : List Nat :=
  (dump.documents.map (·.id.tableNumber) ++ dump.indexUpdates.filterMap fun w =>
    match w.value with
    | .deleted => none
    | .nonClustered docId => some docId.tableNumber).eraseDups

def assertImportableTableNumber (dump : MigrationDump) (target : List (String × Nat)) (n : Nat) :
    Except ImportError Unit :=
  -- of two names with one number the map keeps the last
  match dump.tableNumbers.reverse.find? fun p => p.2 = n with
  | none => .error (.corruptDump n)
  | some (name, _) =>
    match target.find? fun p => p.1 = name with
    | none => .error (.missingTable name)
    | some (_, m) => if m ≠ n then .error (.differingNumber name n m) else .ok ()

def assertImportableTableNumbers (dump : MigrationDump) (target : List (String × Nat)) :
    Except ImportError Unit :=
  (tableNumbersInDump dump).forM (assertImportableTableNumber dump target)

/-- The store after the import, and the counts. -/
def applyDumpToStore (store : SqliteDocStore Value) (dump : MigrationDump)
    (target : List (String × Nat)) : Except ImportError (SqliteDocStore Value × Nat × Nat) :=
  (assertImportableTableNumbers dump target).bind fun _ =>
    match decodeDumpRows dump with
    | none => .error .undecodable
    | some rows => .ok (store.write rows, rows.documents.length, rows.indexUpdates.length)

namespace SqliteDocStore

variable {V : Type}

/-- Stamp the rows of a unit with `MAX(ts) + 1` and insert them; a document written twice throws. -/
def commitUnit (s : SqliteDocStore V) (unit : CommitUnit V) : Option (SqliteDocStore V × Nat) :=
  let commitTs := s.maxTimestamp + 1
  if (unit.documents.map DocumentLogEntry.id).Nodup then
    some (s.write (unit.stamp commitTs), commitTs)
  else none

/-- All units or none. -/
def commitWriteBatch (s : SqliteDocStore V) : List (CommitUnit V) →
    Option (SqliteDocStore V × List Nat)
  | [] => some (s, [])
  | unit :: units => (s.commitUnit unit).bind fun p =>
    (p.1.commitWriteBatch units).map fun q => (q.1, p.2 :: q.2)

/-! ## Allocation -/

theorem maxTimestamp_le_write (s : SqliteDocStore V) (rows : SegmentPayload V) :
    s.maxTimestamp ≤ (s.write rows).maxTimestamp := by
  refine maxTimestamp_le fun id ts h => le_maxTimestamp id ?_
  exact get?_putAll_ne_none h

theorem lt_of_mem_commitWriteBatch {s t : SqliteDocStore V} {units : List (CommitUnit V)}
    {tss : List Nat} (h : s.commitWriteBatch units = some (t, tss)) {ts : Nat} (hts : ts ∈ tss) :
    s.maxTimestamp < ts := by
  induction units generalizing s tss with
  | nil =>
    cases h
    cases hts
  | cons unit units ih =>
    obtain ⟨⟨m, first⟩, hunit, h⟩ := bind_eq_some_iff.1 h
    obtain ⟨⟨t', rest⟩, hrest, heq⟩ := map_eq_some_iff.1 h
    cases heq
    simp only [commitUnit] at hunit
    split at hunit
    · cases hunit
      rcases List.mem_cons.1 hts with rfl | hts
      · exact Nat.lt_succ_self _
      · exact (maxTimestamp_le_write s _).trans_lt (ih hrest hts)
    · cases hunit

end SqliteDocStore

/-! ## Round trip of the rows -/

/-- Every value of the store is well formed, as the values of a running program are. -/
def SqliteDocStore.WellFormedValues (s : SqliteDocStore Value) : Prop :=
  ∀ id ts row, s.documents.get? (id, ts) = some row → ∀ value, row.value = some value →
    value.wellFormed = true

theorem bigIntOf_toString (n : Nat) : bigIntOf (toString n) = some n := by
  have hlist : (toString n).toList = Nat.toDigits 10 n := Nat.toList_repr
  have hall : (Nat.toDigits 10 n).all Char.isDigit = true :=
    List.all_eq_true.2 fun c hc => Nat.isDigit_of_mem_toDigits (by decide) (by decide) hc
  rw [bigIntOf, hlist, if_pos ⟨Nat.toDigits_ne_nil, hall⟩,
    Nat.ofDigitChars_toDigits (by decide) (by decide)]

theorem decodeId_encodeId (id : InternalDocumentId) : decodeId (encodeId id) = some id := by
  rw [decodeId, encodeId, base64ToBytes_bytesToBase64]
  rfl

theorem decodeDoc_encodeDoc (id : InternalDocumentId) {value : Value}
    (h : value.wellFormed = true) : decodeDoc (encodeDoc id value) = some value := by
  rw [decodeDoc, encodeDoc, decodeId_encodeId]
  exact jsonToConvex_convexToJson value h

theorem decodeNullable_map {α β : Type} {encode : β → α} {decode : α → Option β} {x : Option β}
    (h : ∀ b, x = some b → decode (encode b) = some b) :
    decodeNullable decode (x.map encode) = some x := by
  cases x with
  | none => rfl
  | some b => rw [map_some, decodeNullable, h b rfl]; rfl

theorem decodeDocEntry_encodeDocEntry {e : DocumentEntry}
    (h : ∀ value, e.2.value = some value → value.wellFormed = true) :
    decodeDocEntry (encodeDocEntry e) = some e := by
  rw [decodeDocEntry, encodeDocEntry, bigIntOf_toString, decodeId_encodeId,
    decodeNullable_map fun value hv => decodeDoc_encodeDoc e.1.1 (h value hv),
    decodeNullable_map fun n _ => bigIntOf_toString n]
  rfl

theorem decodeIdxWrite_encodeIdxWrite (w : IndexEntry) :
    decodeIdxWrite (encodeIdxWrite w) = some w := by
  have hvalue : decodeIdxValue (encodeIdxValue w.2) = some w.2 := by
    cases w.2 with
    | deleted => rfl
    | nonClustered docId => rw [encodeIdxValue, decodeIdxValue, decodeId_encodeId]; rfl
  rw [decodeIdxWrite, encodeIdxWrite, bigIntOf_toString, base64ToBytes_bytesToBase64, hvalue]
  rfl

theorem decodeDumpRows_export {s : SqliteDocStore Value} (h : s.WellFormedValues)
    (tableNumbers : List (String × Nat)) (deploymentId : Option String) :
    decodeDumpRows (exportDumpFromStore s tableNumbers deploymentId) = some s.dumpCurrentState := by
  have hdocs : ∀ e ∈ s.dumpCurrentState.documents, decodeDocEntry (encodeDocEntry e) = some e := by
    rintro ⟨⟨id, ts⟩, row⟩ he
    have hview := dumpCurrentState_documents.1 he
    exact decodeDocEntry_encodeDocEntry fun value hv =>
      h id ts row (latest_eq_some.1 (view_eq_some.1 hview).1).1 value hv
  rw [decodeDumpRows, exportDumpFromStore, List.mapM_map, List.mapM_map,
    List.mapM_eq_pure (f := decodeDocEntry ∘ encodeDocEntry) hdocs,
    List.mapM_eq_pure (f := decodeIdxWrite ∘ encodeIdxWrite) fun w _ =>
      decodeIdxWrite_encodeIdxWrite w,
    List.map_id', List.map_id']
  rfl

/-! ## The imported store -/

namespace SqliteDocStore

variable {V : Type} {s : SqliteDocStore V}

theorem alike_import (b : Option Nat) (hdocs : ∀ T, b = some T → Within s.documents T)
    (hindexes : ∀ T, b = some T → Within s.indexes T) :
    Alike (empty.write s.dumpCurrentState) s b := by
  have hview : ∀ {κ ρ : Type} [DecidableEq κ] {live : ρ → Bool} {t : VersionTable κ ρ} (k : κ),
      (∀ T, b = some T → Within t T) →
      (putAll .empty (t.current live)).view live k b = t.view live k b := by
    intro κ ρ _ live t k hin
    cases b with
    | none => exact view_putAll_current
    | some T =>
      have hle : ∀ m, t.get? (k, m) ≠ none → m ≤ T := fun m => hin T rfl k m
      rw [view_of_le hle (admits_some.2 le_rfl), ← view_putAll_current]
      refine view_of_le (fun m hm => ?_) (admits_some.2 le_rfl)
      obtain ⟨r, hr⟩ := ne_none_iff_exists'.1 hm
      exact hle m (by simp [(latest_eq_some.1 (view_eq_some.1 (get?_putAll_current.1 hr)).1).1])
  exact ⟨fun id => hview id hdocs, fun key => hview key hindexes⟩

/-- The newest row of the imported store is that of the newest live document. -/
theorem maxTimestamp_import_le :
    (empty.write s.dumpCurrentState).maxTimestamp ≤ s.maxTimestamp := by
  refine maxTimestamp_le fun id ts h => le_maxTimestamp id ?_
  obtain ⟨row, hrow⟩ := ne_none_iff_exists'.1 h
  simp [(latest_eq_some.1 (view_eq_some.1 (get?_putAll_current.1 hrow)).1).1]

/-- The import reaches the frontier exactly if a live document is as new. -/
theorem maxTimestamp_import_eq : (empty.write s.dumpCurrentState).maxTimestamp = s.maxTimestamp ↔
    s.maxTimestamp = 0 ∨ ∃ id doc, s.get id none = some doc ∧ doc.ts = s.maxTimestamp := by
  constructor
  · intro heq
    by_contra hnot
    rw [not_or] at hnot
    -- without such a document every imported row is older
    have hlt : (empty.write s.dumpCurrentState).maxTimestamp ≤ s.maxTimestamp - 1 := by
      refine maxTimestamp_le fun id ts h => ?_
      obtain ⟨row, hrow⟩ := ne_none_iff_exists'.1 h
      have hview := get?_putAll_current.1 hrow
      obtain ⟨hlatest, hlive⟩ := view_eq_some.1 hview
      obtain ⟨value, hvalue⟩ := isSome_iff_exists.1 hlive
      have hget : s.get id none = some ⟨ts, row.prevTs, id, value⟩ := by
        rw [get, hlatest]
        simp [hvalue]
      have hne : ts ≠ s.maxTimestamp := fun h => hnot.2 ⟨id, _, hget, h⟩
      have hle : ts ≤ s.maxTimestamp := le_maxTimestamp id (by simp [(latest_eq_some.1 hlatest).1])
      omega
    omega
  · rintro (hzero | ⟨id, doc, hget, hts⟩)
    · exact le_antisymm maxTimestamp_import_le (by omega)
    · refine le_antisymm maxTimestamp_import_le ?_
      rw [get_eq_view] at hget
      obtain ⟨⟨ts, row⟩, hview, hdoc⟩ := bind_eq_some_iff.1 hget
      obtain ⟨value, -, rfl⟩ := map_eq_some_iff.1 hdoc
      rw [← hts]
      have hrow : (empty.write s.dumpCurrentState).documents.get? (id, ts) = some row :=
        get?_putAll_current.2 hview
      exact le_maxTimestamp id (by simp [hrow])

end SqliteDocStore

/-- Export a store with well-formed values and import the dump into an empty store, where the table
numbers match. Then the target gives the same answers to `get` and `scan` at the latest state, and
to `index_scan` at every timestamp that the source has reached. All timestamps that it allocates are
above the dump's `frontierTs` exactly if the source has no documents or a live one as new as that.
-/
theorem imported_reads_agree {s : SqliteDocStore Value} (hs : s.WellFormedValues)
    {tableNumbers target : List (String × Nat)} {deploymentId : Option String}
    {dump : MigrationDump} (hdump : exportDumpFromStore s tableNumbers deploymentId = dump)
    (htarget : assertImportableTableNumbers dump target = .ok ()) :
    ∃ t counts, applyDumpToStore .empty dump target = .ok (t, counts) ∧
      (∀ id, t.get id none = s.get id none) ∧
      (∀ tableNumber, t.scan tableNumber none = s.scan tableNumber none) ∧
      (∀ T, Within s.documents T → Within s.indexes T → ∀ indexId start stop order limit,
        t.indexScan indexId T start stop order limit =
          s.indexScan indexId T start stop order limit) ∧
      ((∀ units t' tss, t.commitWriteBatch units = some (t', tss) → ∀ ts ∈ tss,
          ∃ frontierTs, bigIntOf dump.frontierTs = some frontierTs ∧ frontierTs < ts) ↔
        s.maxTimestamp = 0 ∨ ∃ id doc, s.get id none = some doc ∧ doc.ts = s.maxTimestamp) := by
  subst hdump
  have hrows := decodeDumpRows_export hs tableNumbers deploymentId
  have hlatest : SqliteDocStore.Alike (.write .empty s.dumpCurrentState) s none :=
    alike_import none (by simp) (by simp)
  have hfrontier : bigIntOf (exportDumpFromStore s tableNumbers deploymentId).frontierTs =
      some s.maxTimestamp := bigIntOf_toString _
  have happly : applyDumpToStore .empty (exportDumpFromStore s tableNumbers deploymentId) target =
      .ok (.write .empty s.dumpCurrentState, s.dumpCurrentState.documents.length,
        s.dumpCurrentState.indexUpdates.length) := by
    rw [applyDumpToStore, htarget, Except.bind, hrows]
  refine ⟨_, _, happly, hlatest.get, hlatest.scan, ?_, ?_⟩
  · intro T hdocs hindexes
    have halike : SqliteDocStore.Alike (.write .empty s.dumpCurrentState) s (some T) :=
      alike_import (some T) (fun _ h => by cases h; exact hdocs) fun _ h => by
        cases h; exact hindexes
    exact halike.indexScan
  · rw [← maxTimestamp_import_eq, hfrontier]
    constructor
    · intro hall
      -- a commit without documents is given the timestamp after the newest one
      obtain ⟨t', hbatch⟩ : ∃ t, (write .empty s.dumpCurrentState).commitWriteBatch
        [⟨[], []⟩] = some (t, [_]) :=
        ⟨_, rfl⟩
      obtain ⟨frontierTs, hsome, hlt⟩ := hall _ t' _ hbatch _ List.mem_cons_self
      cases hsome
      exact le_antisymm maxTimestamp_import_le (Nat.lt_succ_iff.1 hlt)
    · intro heq units t' tss hbatch ts hts
      exact ⟨_, rfl, heq ▸ lt_of_mem_commitWriteBatch hbatch hts⟩

namespace DumpExample

def docX : InternalDocumentId := ⟨1, List.replicate 16 (byte 1)⟩

def docY : InternalDocumentId := ⟨1, List.replicate 16 (byte 2)⟩

def byName : IndexId := ⟨1, "by_name"⟩

def key : Bytes := [byte 7]

def tableNumbers : List (String × Nat) := [("items", 1)]

def insertDoc (id : InternalDocumentId) : CommitUnit Value :=
  ⟨[⟨id, none, some (.object [])⟩], [⟨byName, key, .nonClustered id⟩]⟩

def deleteDoc (id : InternalDocumentId) (prevTs : Nat) : CommitUnit Value :=
  ⟨[⟨id, some prevTs, none⟩], [⟨byName, key, .deleted⟩]⟩

def committed (units : List (CommitUnit Value)) : SqliteDocStore Value :=
  ((SqliteDocStore.empty.commitWriteBatch units).map Prod.fst).getD .empty

/-- The store after importing the dump of another. -/
def imported (s : SqliteDocStore Value) : SqliteDocStore Value :=
  match applyDumpToStore .empty (exportDumpFromStore s tableNumbers none) tableNumbers with
  | .ok (t, _) => t
  | .error _ => .empty

end DumpExample

open DumpExample in
/-- A store with one live document. -/
theorem imported_reads_agree_live :
    ∃ t counts, applyDumpToStore .empty
        (exportDumpFromStore (DumpExample.committed [insertDoc docX]) tableNumbers none)
        tableNumbers = .ok (t, counts) ∧
      (∀ id, t.get id none = (DumpExample.committed [insertDoc docX]).get id none) ∧
      ∀ units t' tss, t.commitWriteBatch units = some (t', tss) → ∀ ts ∈ tss, 1 < ts := by
  have hvalues : (DumpExample.committed [insertDoc docX]).WellFormedValues := by
    have h : ∀ e ∈ (DumpExample.committed [insertDoc docX]).documents.entries,
        e.2.value.all Value.wellFormed = true := by decide +kernel
    intro id ts row hrow value hvalue
    have := h _ ((OrderedMap.get?_eq_some_iff _).1 hrow)
    simpa [hvalue] using this
  have htarget : assertImportableTableNumbers
      (exportDumpFromStore (DumpExample.committed [insertDoc docX]) tableNumbers none)
        tableNumbers = .ok () := by decide +kernel
  obtain ⟨t, counts, happly, hget, -, -, hiff⟩ := imported_reads_agree hvalues rfl htarget
  refine ⟨t, counts, happly, hget, fun units t' tss hbatch ts hts => ?_⟩
  obtain ⟨frontierTs, hf, hlt⟩ := hiff.2 (.inr ⟨docX, by decide +kernel⟩) units t' tss hbatch ts hts
  obtain rfl : 1 = frontierTs := Option.some.inj (.trans (by decide +kernel) hf)
  exact hlt

open DumpExample in
/-- A document is inserted at 1 and deleted at 2, so `frontierTs` is 2 and the dump has no document.
The target commits another one at 1, and its index entry is hidden by the deletion marker at 2. -/
theorem import_reuses_timestamps :
    (exportDumpFromStore (DumpExample.committed [insertDoc docX, deleteDoc docX 1]) tableNumbers
      none).frontierTs = "2" ∧
    ∃ t, (imported (DumpExample.committed [insertDoc docX, deleteDoc docX 1])).commitWriteBatch
        [insertDoc docY] = some (t, [1]) ∧
      (t.get docY none).isSome = true ∧ t.indexScan byName 2 [] none .asc none = [] := by
  refine ⟨by decide +kernel, ?_⟩
  obtain ⟨⟨t, tss⟩, hbatch, rfl, hget, hscan⟩ :
      ∃ out, (imported (DumpExample.committed [insertDoc docX, deleteDoc docX 1])).commitWriteBatch
        [insertDoc docY] = some out ∧ out.2 = [1] ∧ (out.1.get docY none).isSome = true ∧
          (out.1.indexScan byName 2 [] none .asc none).isEmpty = true := by decide +kernel
  exact ⟨t, hbatch, hget, List.isEmpty_iff.1 hscan⟩

end Helipod
