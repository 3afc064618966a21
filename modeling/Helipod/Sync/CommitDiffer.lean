import Helipod.QueryEngine.QueryRuntime
import Helipod.Values.Json

/-!
# Row diffs

Model of `sync/src/change.ts`, `sync/src/classify.ts` and `sync/src/commit-differ.ts`:
the rows a diffable subscription holds by document id, the changes a commit makes
to them, and which queries are diffable. `buildWrittenDocs` of
`transactor/src/shard-writer.ts` is what the differ works from.

A row is the JSON form of a document. Key ranges and document keys are kept as
bytes where the source has their base-64 text; order keys are texts, as the
client gets them.
-/

namespace Helipod

/-! ## Changes -/

structure RowVersion where
  row : DocumentValue
  ts : Nat
  orderKey : Option JsString
  deriving DecidableEq

abbrev RowMap := OrderedMap JsString RowVersion

inductive Change where
  | add (key : JsString) (version : RowVersion)
  | remove (key : JsString)
  | edit (key : JsString) (version : RowVersion)
  deriving DecidableEq

def Change.apply (rows : RowMap) : Change → RowMap
  | .add key version => rows.set key version
  | .remove key => rows.erase key
  | .edit key version => rows.set key version

/-- The one function that server and client both apply changes with. -/
def applyChanges (rows : RowMap) (changes : List Change) : RowMap := changes.foldl Change.apply rows

/-! ## Diffable reads -/

structure ByIdRead where
  keyspace : Keyspace
  key : Bytes
  docId : JsString
  deriving DecidableEq

/-- A range of one document of a table. -/
def isPointRange (r : KeyRange) : Bool :=
  match r.keyspace, r.stop with
  | .table _, some stop => compareKeyBytes stop (keySuccessor r.start) = .eq
  | _, _ => false

/-- The id in a single document; the empty string where there is none. -/
def singleDocId : Value → Option JsString
  | .null => some []
  | .object fields =>
    match JsValue.property fields idField with
    | .value (.string id) => some id
    | _ => none
  -- a byte string is an object without an `_id`
  | _ => none

def classifyByIdRead (value : Value) (readRanges : List KeyRange) : Option ByIdRead :=
  match readRanges with
  | [r] =>
    if isPointRange r then (singleDocId value).map fun docId => ⟨r.keyspace, r.start, docId⟩
    else none
  | _ => none

structure PageMeta where
  nextCursor : Option JsString
  hasMore : Bool
  scanCapped : Bool
  deriving DecidableEq

structure RangeRead where
  /-- The index that is scanned. -/
  keyspace : Keyspace
  bounds : KeyRange
  filters : List FilterExpr
  order : ScanOrder
  fields : List JsString
  /-- Present if the range is a page. -/
  pageMeta : Option PageMeta

/-! ## Written documents -/

structure WrittenDoc where
  key : Bytes
  keyspace : Keyspace
  docId : JsString
  newRow : Option DocumentValue
  wasPresent : Bool
  ts : Nat
  deriving DecidableEq

def writtenDoc (commitTs : Nat) (e : DocumentLogEntry DocumentValue) :
    Except DocumentIdError WrittenDoc :=
  (encodeDocumentId e.id).map fun docId =>
    ⟨e.id.internalId, docKeyspace e.id, docId, e.value.map convexToJsonFields, e.prevTs.isSome,
      commitTs⟩

def buildWrittenDocs (entries : List (DocumentLogEntry DocumentValue)) (commitTs : Nat) :
    Except DocumentIdError (List WrittenDoc) :=
  entries.mapM (writtenDoc commitTs)

/-! ## One document -/

/-- The change a written document asks for. -/
def byIdChange (prev : RowMap) (wd : WrittenDoc) : Change :=
  match wd.newRow with
  | none => .remove wd.docId
  | some row =>
    if !wd.wasPresent || !prev.has wd.docId then .add wd.docId ⟨row, wd.ts, none⟩
    else .edit wd.docId ⟨row, wd.ts, none⟩

/-- A written document of another keyspace is only reported on the console. -/
def byIdChangesFor (prev : RowMap) : Option WrittenDoc → List Change × RowMap
  | none => ([], prev)
  | some wd => ([byIdChange prev wd], applyChanges prev [byIdChange prev wd])

def byIdResetChanges (docId : JsString) (row : Option DocumentValue) (ts : Nat) :
    List Change × RowMap :=
  match row with
  | none => ([], .empty)
  | some row => ([.add docId ⟨row, ts, none⟩], OrderedMap.empty.set docId ⟨row, ts, none⟩)

/-! ## Ranges -/

inductive DifferError where
  | indexKey (e : EncodeError)
  | filter (e : CompareError)
  | invalidBase64
  deriving DecidableEq

def orderKeyFor (range : RangeRead) (row : DocumentValue) : Except EncodeError JsString :=
  (extractIndexKey row range.fields).map bytesToBase64

def inBounds (range : RangeRead) (orderKey : JsString) : Except DifferError Bool :=
  match base64ToBytes orderKey with
  | none => .error .invalidBase64
  | some key => .ok (keyInRange key range.bounds)

def passesFilters (range : RangeRead) (row : DocumentValue) : Except CompareError Bool :=
  everyClause row range.filters

/-- `String(row._id)` of a document, whose `_id` is a string. -/
def rowId (row : DocumentValue) : JsString :=
  match JsValue.property row idField with
  | .value (.string id) => id
  | _ => []

def rangeResetRow (range : RangeRead) (ts : Nat) (row : DocumentValue) :
    Except EncodeError (JsString × RowVersion) :=
  (orderKeyFor range row).map fun orderKey => (rowId row, ⟨row, ts, some orderKey⟩)

def rangeResetChanges (range : RangeRead) (orderedDocs : List DocumentValue) (ts : Nat) :
    Except EncodeError (List Change × RowMap) :=
  (orderedDocs.mapM (rangeResetRow range ts)).map fun rows =>
    (rows.map fun r => .add r.1 r.2, rows.foldl (fun m r => m.set r.1 r.2) .empty)

/-- Is the new row of a written document in the range? The order key comes with the answer. -/
def rangeMembership (range : RangeRead) (wd : WrittenDoc) :
    Except DifferError (Option RowVersion) :=
  match wd.newRow with
  | none => .ok none
  | some row => do
    let orderKey ← (orderKeyFor range row).mapError .indexKey
    if !(← inBounds range orderKey) then return none
    if !(← (passesFilters range row).mapError .filter) then return none
    return some ⟨row, wd.ts, some orderKey⟩

/-- The change for one written document; `before` is read from the map as it was. -/
def rangeChange (prev : RowMap) (docId : JsString) : Option RowVersion → List Change
  | some version => if prev.has docId then [.edit docId version] else [.add docId version]
  | none => if prev.has docId then [.remove docId] else []

def rangeChanges (range : RangeRead) (prev : RowMap) :
    List WrittenDoc → Except DifferError (List Change)
  | [] => .ok []
  | wd :: wds => do
    let after ← rangeMembership range wd
    let rest ← rangeChanges range prev wds
    return rangeChange prev wd.docId after ++ rest

def rangeChangesFor (range : RangeRead) (prev : RowMap) (writtenDocs : List WrittenDoc) :
    Except DifferError (List Change × RowMap) :=
  (rangeChanges range prev writtenDocs).map fun changes => (changes, applyChanges prev changes)

/-! ## Commits -/

abbrev Documents := InternalDocumentId → Option DocumentValue

/-- A commit with the written documents it carries to the sync tier. -/
structure WrittenCommit where
  ts : Nat
  entries : List (DocumentLogEntry DocumentValue)
  writtenDocs : List WrittenDoc
  built : buildWrittenDocs entries ts = .ok writtenDocs

namespace WrittenCommit

/-- The documents after the commit. -/
def apply (docs : Documents) (c : WrittenCommit) : Documents := fun id =>
  match c.entries.find? fun e => e.id = id with
  | some e => e.value
  | none => docs id

/-- The written document at a key, as the handler looks it up. -/
def docAt (c : WrittenCommit) (keyspace : Keyspace) (key : Bytes) : Option WrittenDoc :=
  c.writtenDocs.find? fun w => w.keyspace = keyspace ∧ w.key = key

end WrittenCommit

theorem buildWrittenDocs_forall {entries : List (DocumentLogEntry DocumentValue)} {ts : Nat}
    {wds : List WrittenDoc} (h : buildWrittenDocs entries ts = .ok wds) :
    List.Forall₂ (fun e wd => writtenDoc ts e = .ok wd) entries wds :=
  Except.forall₂_of_mapM_eq_ok h

theorem writtenDoc_eq_ok {ts : Nat} {e : DocumentLogEntry DocumentValue} {wd : WrittenDoc} :
    writtenDoc ts e = .ok wd ↔ ∃ docId, encodeDocumentId e.id = .ok docId ∧
      wd = ⟨e.id.internalId, docKeyspace e.id, docId, e.value.map convexToJsonFields,
        e.prevTs.isSome, ts⟩ := by
  rw [writtenDoc, Except.map_eq_ok]
  simp [eq_comm]

/-- The written document at a document's key is that of the entry of the document. -/
theorem WrittenCommit.docAt_find (c : WrittenCommit) (id : InternalDocumentId) :
    (c.docAt (docKeyspace id) id.internalId = none ∧ c.entries.find? (fun e => e.id = id) = none) ∨
    ∃ e wd, c.docAt (docKeyspace id) id.internalId = some wd ∧
      c.entries.find? (fun e => e.id = id) = some e ∧ e.id = id ∧ writtenDoc c.ts e = .ok wd := by
  have hmatch : ∀ {e : DocumentLogEntry DocumentValue} {wd : WrittenDoc},
      writtenDoc c.ts e = .ok wd →
      ((wd.keyspace = docKeyspace id ∧ wd.key = id.internalId) ↔ e.id = id) := by
    intro e wd hwd
    obtain ⟨docId, -, rfl⟩ := writtenDoc_eq_ok.1 hwd
    constructor
    · rintro ⟨hks, hkey⟩
      exact InternalDocumentId.ext_iff.2 ⟨Keyspace.table.inj hks, hkey⟩
    · rintro rfl
      exact ⟨rfl, rfl⟩
  have hall := buildWrittenDocs_forall c.built
  unfold docAt
  generalize c.entries = entries at hall
  generalize c.writtenDocs = wds at hall
  induction hall with
  | nil => exact .inl ⟨rfl, rfl⟩
  | @cons e wd entries wds hwd _ ih =>
    by_cases he : e.id = id
    · refine .inr ⟨e, wd, ?_, ?_, he, hwd⟩
      · rw [List.find?_cons_of_pos (by simpa using (hmatch hwd).2 he)]
      · rw [List.find?_cons_of_pos (by simpa using he)]
    · rw [List.find?_cons_of_neg (by simpa using fun h h' => he ((hmatch hwd).1 ⟨h, h'⟩)),
        List.find?_cons_of_neg (by simpa using he)]
      exact ih

namespace WrittenCommit

variable (c : WrittenCommit)

theorem encoded_of_mem {e : DocumentLogEntry DocumentValue} (he : e ∈ c.entries) :
    ∃ encoded, encodeDocumentId e.id = .ok encoded := by
  rcases c.docAt_find e.id with ⟨-, hnone⟩ | ⟨e', wd, -, -, hid, hwd⟩
  · exact absurd (List.find?_eq_none.1 hnone e he) (by simp)
  · obtain ⟨encoded, hencoded, -⟩ := writtenDoc_eq_ok.1 hwd
    exact ⟨encoded, hid ▸ hencoded⟩

theorem apply_of_not_mem {docs : Documents} {id : InternalDocumentId}
    (h : id ∉ c.entries.map (·.id)) : c.apply docs id = docs id := by
  have hnone : c.entries.find? (fun e => e.id = id) = none := by
    simpa using fun e he heq => h (List.mem_map.2 ⟨e, he, heq⟩)
  rw [apply, hnone]

/-- Documents whose ids can be encoded can be written in one commit. -/
theorem exists_of_encoded (docs : Documents) {ids : List InternalDocumentId}
    (h : ∀ id ∈ ids, ∃ encoded, encodeDocumentId id = .ok encoded) :
    ∃ c : WrittenCommit, c.entries = ids.map fun id => ⟨id, none, docs id⟩ := by
  have hbuilt : ∃ wds, buildWrittenDocs (ids.map fun id => ⟨id, none, docs id⟩) 0 = .ok wds := by
    unfold buildWrittenDocs
    induction ids with
    | nil => exact ⟨[], rfl⟩
    | cons id ids ih =>
      obtain ⟨encoded, hencoded⟩ := h id List.mem_cons_self
      obtain ⟨wds, hwds⟩ := ih fun id' hid => h id' (List.mem_cons_of_mem _ hid)
      rw [List.map_cons, List.mapM_cons, hwds, writtenDoc_eq_ok.2 ⟨encoded, hencoded, rfl⟩]
      exact ⟨_, rfl⟩
  obtain ⟨wds, hwds⟩ := hbuilt
  exact ⟨⟨0, _, wds, hwds⟩, rfl⟩

end WrittenCommit

theorem find?_map_id (docs : Documents) (ids : List InternalDocumentId) (id : InternalDocumentId) :
    (ids.map fun id => (⟨id, none, docs id⟩ : DocumentLogEntry DocumentValue)).find?
        (fun e => e.id = id) = if id ∈ ids then some ⟨id, none, docs id⟩ else none := by
  induction ids with
  | nil => rfl
  | cons id' ids ih =>
    by_cases h : id' = id
    · subst h
      simp
    · simp [h, ih, Ne.symm h]

end Helipod
