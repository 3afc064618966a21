import Helipod.Client.Render

/-!
# Diffs of range and page subscriptions

A query that returns the rows of one index range, or of one page of it, is answered with
the changes each commit makes to those rows. The first run may see commits that are still
to be drained; they are then applied to rows that have them already.

Results:
* `foldl_apply_docsAt`, `range_diff_eq_scan`
* `Tracks.rangeChangesFor`: one commit keeps the rows in step with the documents.
-/

namespace Helipod

open OrderedMap ScanOrder List Option

/-! ## Subscriptions -/

def rangeReadOf (q : ScanQuery) (bounds : KeyRange) (pageMeta : Option PageMeta) : RangeRead :=
  ⟨q.keyspace, bounds, q.filters, q.order, q.index.fields, pageMeta⟩

/-- The reads that `classifyDiffableRange` and `classifyDiffablePage` accept, with the rows they
returned. -/
inductive Classified (q : ScanQuery) (log : List (Commit DocumentValue)) (bound : Option Nat) :
    RangeRead → List ScanRow → Prop where
  | range {r : CollectResult} : q.limit = none → collect q log bound = .ok r →
      Classified q log bound (rangeReadOf q r.readRange none) r.documents
  | page {r : PaginatedResult} {pageSize : Nat} {maxScan : Option Nat} :
      paginate q log bound pageSize maxScan = .ok r → r.scanCapped = false →
      Classified q log bound
        (rangeReadOf q r.pageBounds (some ⟨r.nextCursor, r.hasMore, r.scanCapped⟩)) r.page

/-- The written documents of the table of a range. -/
def tableDocs (range : RangeRead) (c : WrittenCommit) : List WrittenDoc :=
  c.writtenDocs.filter fun w => w.keyspace.tableOf = range.keyspace.tableOf

/-- The rows of the range and the changes sent, commit by commit. -/
def drain (range : RangeRead) (rows : RowMap) :
    List WrittenCommit → Except DifferError (List (List Change) × RowMap)
  | [] => .ok ([], rows)
  | c :: cs => (rangeChangesFor range rows (tableDocs range c)).bind fun (changes, next) =>
    (drain range next cs).map fun (rest, final) => (changes :: rest, final)

/-- The rows an index scan of the bounds yields. -/
def rangeScan (log : List (Commit DocumentValue)) (indexId : IndexId) (range : RangeRead)
    (bound : Option Nat) : List ScanRow :=
  Store.indexScan log indexId bound range.bounds.start range.bounds.stop (range.order = .desc) none

/-- A subscription in a history of commits: its first run at `snapshot`, and the commits after
`drainedTo`, which the sync tier has still to drain. -/
structure RangeSubscription where
  catalog : Catalog
  log : List (Commit DocumentValue)
  indexed : IndexedLog catalog log
  query : ScanQuery
  index_mem : query.index ∈ catalog.indexes
  snapshot : Nat
  range : RangeRead
  first : List ScanRow
  classified : Classified query log (some snapshot) range first
  /-- The timestamp of the session at the first run. -/
  ts : Nat
  drainedTo : Nat
  drainedTo_le : drainedTo ≤ snapshot
  drained : List WrittenCommit
  drained_eq : drained.map (fun w => (w.ts, w.entries)) =
    (log.filter fun c => drainedTo < c.ts).map fun c => (c.ts, c.unit.documents)

namespace RangeSubscription

variable (sub : RangeSubscription)

def tableNumber : Nat := sub.query.index.tableNumber

def resetChanges : Except EncodeError (List Change × RowMap) :=
  rangeResetChanges sub.range (sub.first.map fun r => convexToJsonFields r.2.2) sub.ts

/-- The documents that were ever written to the table. -/
def Written (doc : DocumentValue) : Prop :=
  ∃ c ∈ sub.log, ∃ e ∈ c.unit.documents, e.id.tableNumber = sub.tableNumber ∧ e.value = some doc

/-- What the JSON form leaves as it is. -/
def SameInTransport : Prop := ∀ doc, sub.Written doc → convexToJsonFields doc = doc

/-- The rows of the first run carry the ids under which commits report them. -/
def FirstCanonical : Prop := ∀ r ∈ sub.first, encodeDocumentId r.2.1 = .ok (rowId r.2.2)

/-- A page with more to come has a row to end at. -/
def PageEnds : Prop := ∀ m, sub.range.pageMeta = some m → m.hasMore = true → sub.first ≠ []

/-- No filter throws on a document of the table. -/
def FiltersDefined : Prop :=
  ∀ doc, sub.Written doc → ∃ b, everyClause doc sub.range.filters = .ok b

end RangeSubscription

/-! ## Rows of documents -/

/-- The row of a document in the range, with its order key. -/
def shownRow (range : RangeRead) (doc : DocumentValue) : Option (DocumentValue × Option JsString) :=
  match extractIndexKey doc range.fields with
  | .ok key =>
    if keyInRange key range.bounds && decide (everyClause doc range.filters = .ok true) then
      some (doc, some (bytesToBase64 key))
    else none
  | .error _ => none

variable {range : RangeRead}

theorem shownRow_eq_some {doc row : DocumentValue} {orderKey : Option JsString} :
    shownRow range doc = some (row, orderKey) ↔ row = doc ∧ ∃ key,
      extractIndexKey doc range.fields = .ok key ∧ keyInRange key range.bounds = true ∧
      everyClause doc range.filters = .ok true ∧ orderKey = some (bytesToBase64 key) := by
  unfold shownRow
  cases extractIndexKey doc range.fields with
  | error e => simp
  | ok key =>
    by_cases hin : keyInRange key range.bounds = true ∧ everyClause doc range.filters = .ok true
    · simp only [hin.1, hin.2, decide_true, Bool.and_self, if_true, Option.some.injEq,
        Prod.mk.injEq, Except.ok.injEq, exists_eq_left', true_and]
      exact and_congr eq_comm eq_comm
    · have hand : (keyInRange key range.bounds &&
          decide (everyClause doc range.filters = .ok true)) = false := by simpa using hin
      simp only [hand, if_false, reduceCtorEq, Except.ok.injEq, exists_eq_left', false_iff]
      exact fun h => hin ⟨h.2.1, h.2.2.1⟩

/-- What a map shows of a row. -/
def RowVersion.shown (version : RowVersion) : DocumentValue × Option JsString :=
  (version.row, version.orderKey)

/-- What the differ needs of a document: it survives transport, has a key and a verdict. -/
structure Diffable (range : RangeRead) (doc : DocumentValue) : Prop where
  json : convexToJsonFields doc = doc
  key : ∃ key, extractIndexKey doc range.fields = .ok key
  verdict : ∃ b, everyClause doc range.filters = .ok b

theorem rangeMembership_of_diffable (wd : WrittenDoc) {value : Option DocumentValue}
    (hrow : wd.newRow = value.map convexToJsonFields)
    (h : ∀ doc, value = some doc → Diffable range doc) :
    ∃ after, rangeMembership range wd = .ok after ∧
      after.map RowVersion.shown = value.bind (shownRow range) := by
  unfold rangeMembership
  cases value with
  | none =>
    rw [hrow]
    exact ⟨none, rfl, rfl⟩
  | some doc =>
    obtain ⟨hjson, ⟨key, hkey⟩, ⟨b, hb⟩⟩ := h doc rfl
    have hshown : shownRow range doc =
        if keyInRange key range.bounds && b then some (doc, some (bytesToBase64 key))
          else none := by
      rw [shownRow, hkey]
      simp [hb]
    rw [hrow, map_some, hjson, bind_some, hshown]
    simp only [orderKeyFor, hkey, Except.map, Except.mapError, bind, Except.bind,
      inBounds, base64ToBytes_bytesToBase64, passesFilters, hb]
    cases keyInRange key range.bounds with
    | false => exact ⟨none, rfl, rfl⟩
    | true =>
      cases b with
      | false => exact ⟨none, rfl, rfl⟩
      | true => exact ⟨some ⟨doc, wd.ts, some (bytesToBase64 key)⟩, rfl, rfl⟩

theorem encodeDocumentId_inj {id id' : InternalDocumentId} {s : JsString}
    (h : encodeDocumentId id = .ok s) (h' : encodeDocumentId id' = .ok s) : id = id' :=
  Except.ok.inj ((decodeDocumentId_encode h).symm.trans (decodeDocumentId_encode h'))

/-! ## One commit -/

/-- The changes for a list of documents and their memberships. -/
def membershipChanges (prev : RowMap) (afters : List (JsString × Option RowVersion)) :
    List Change :=
  afters.flatMap fun p => rangeChange prev p.1 p.2

/-- Where the map still has what `prev` had, the change for a document leaves its membership. -/
theorem get?_rangeChange {prev rows : RowMap} {docId : JsString} (after : Option RowVersion)
    (h : rows.get? docId = prev.get? docId) (k : JsString) :
    (applyChanges rows (rangeChange prev docId after)).get? k =
      if docId = k then after else rows.get? k := by
  cases after with
  | some version =>
    have hset : applyChanges rows (rangeChange prev docId (some version)) =
      rows.set docId version := by
      rw [rangeChange]
      split <;> rfl
    rw [hset, get?_set]
  | none =>
    cases hp : prev.has docId with
    | true =>
      have herase : applyChanges rows (rangeChange prev docId none) = rows.erase docId := by
        rw [rangeChange, hp]
        rfl
      rw [herase, get?_erase]
    | false =>
      have hsame : applyChanges rows (rangeChange prev docId none) = rows := by
        rw [rangeChange, hp]
        rfl
      rw [hsame]
      split
      · rename_i heq
        rw [← heq, h]
        simpa using hp
      · rfl

theorem get?_membershipChanges (prev : RowMap) {afters : List (JsString × Option RowVersion)} :
    ∀ rows : RowMap, (afters.map Prod.fst).Nodup →
      (∀ p ∈ afters, rows.get? p.1 = prev.get? p.1) → ∀ k,
      (applyChanges rows (membershipChanges prev afters)).get? k =
        match afters.find? fun p => p.1 = k with
        | some p => p.2
        | none => rows.get? k := by
  induction afters with
  | nil => intro rows _ _ k; rfl
  | cons p afters ih =>
    intro rows hnodup hsame k
    obtain ⟨hnew, hrest⟩ := nodup_cons.1 hnodup
    have hone := get?_rangeChange p.2 (hsame p mem_cons_self)
    have hsame' : ∀ q ∈ afters,
        (applyChanges rows (rangeChange prev p.1 p.2)).get? q.1 = prev.get? q.1 := by
      intro q hq
      have hne : p.1 ≠ q.1 := fun heq => hnew (heq ▸ List.mem_map.2 ⟨q, hq, rfl⟩)
      rw [hone, if_neg hne]
      exact hsame q (mem_cons_of_mem _ hq)
    rw [membershipChanges, flatMap_cons, applyChanges, foldl_append]
    refine (ih _ hrest hsame' k).trans ?_
    by_cases hk : p.1 = k
    · have hnone : afters.find? (fun q => q.1 = k) = none :=
        find?_eq_none.2 fun q hq heq =>
          hnew (List.mem_map.2 ⟨q, hq, (by simpa using heq : q.1 = k).trans hk.symm⟩)
      rw [hnone, find?_cons_of_pos (by simpa using hk)]
      exact (hone k).trans (if_pos hk)
    · rw [find?_cons_of_neg (by simpa using hk)]
      cases afters.find? (fun q => q.1 = k) with
      | some q => rfl
      | none => exact (hone k).trans (if_neg hk)

/-- The rows are those of the documents of a table. -/
structure Tracks (range : RangeRead) (view : Documents) (rows : RowMap) : Prop where
  keys : ∀ docId ∈ rows.keys, ∃ id : InternalDocumentId,
    id.tableNumber = range.keyspace.tableOf ∧ encodeDocumentId id = .ok docId
  shown : ∀ id docId, id.tableNumber = range.keyspace.tableOf → encodeDocumentId id = .ok docId →
    (rows.get? docId).map RowVersion.shown = (view id).bind (shownRow range)

@[simp] theorem tableOf_docKeyspace (id : InternalDocumentId) :
    (docKeyspace id).tableOf = id.tableNumber := rfl

theorem rangeChanges_entries (prev : RowMap) {ts : Nat}
    {entries : List (DocumentLogEntry DocumentValue)} {wds : List WrittenDoc}
    (hall : List.Forall₂ (fun e wd => writtenDoc ts e = .ok wd) entries wds)
    (hnodup : (entries.map (·.id)).Nodup)
    (hgood : ∀ e ∈ entries, e.id.tableNumber = range.keyspace.tableOf →
      ∀ doc, e.value = some doc → Diffable range doc) :
    ∃ afters : List (JsString × Option RowVersion),
      rangeChanges range prev (wds.filter fun w => w.keyspace.tableOf = range.keyspace.tableOf) =
        .ok (membershipChanges prev afters) ∧
      (afters.map Prod.fst).Nodup ∧
      (∀ p ∈ afters, ∃ e ∈ entries, e.id.tableNumber = range.keyspace.tableOf ∧
        encodeDocumentId e.id = .ok p.1) ∧
      ∀ id docId, id.tableNumber = range.keyspace.tableOf → encodeDocumentId id = .ok docId →
        (afters.find? fun p => p.1 = docId).map (fun p => p.2.map RowVersion.shown) =
          (entries.find? fun e => e.id = id).map fun e => e.value.bind (shownRow range) := by
  induction hall with
  | nil => exact ⟨[], rfl, nodup_nil, fun p hp => absurd hp not_mem_nil, fun _ _ _ _ => rfl⟩
  | @cons e wd entries wds hwd _ ih =>
    obtain ⟨hnew, hrest⟩ := nodup_cons.1 hnodup
    obtain ⟨afters, hchanges, hnd, hmem, hfind⟩ :=
      ih hrest fun e' he' => hgood e' (mem_cons_of_mem _ he')
    obtain ⟨docId, hdocId, rfl⟩ := writtenDoc_eq_ok.1 hwd
    by_cases ht : e.id.tableNumber = range.keyspace.tableOf
    · obtain ⟨after, hafter, hshown⟩ := rangeMembership_of_diffable ⟨e.id.internalId,
        docKeyspace e.id, docId, e.value.map convexToJsonFields, e.prevTs.isSome, ts⟩ rfl
        (hgood e mem_cons_self ht)
      refine ⟨(docId, after) :: afters, ?_, nodup_cons.2 ⟨?_, hnd⟩, ?_, ?_⟩
      · simp only [filter_cons, tableOf_docKeyspace, ht, decide_true, if_true, rangeChanges,
          hafter, hchanges]
        rfl
      · intro hin
        obtain ⟨p, hp, hpfst⟩ := List.mem_map.1 hin
        obtain ⟨e', he', -, henc⟩ := hmem p hp
        have heq : e'.id = e.id := encodeDocumentId_inj henc (hpfst ▸ hdocId)
        exact hnew (List.mem_map.2 ⟨e', he', heq⟩)
      · intro p hp
        rcases mem_cons.1 hp with rfl | hp
        · exact ⟨e, mem_cons_self, ht, hdocId⟩
        · obtain ⟨e', he', h'⟩ := hmem p hp
          exact ⟨e', mem_cons_of_mem _ he', h'⟩
      · intro id docId' hid hdocId'
        by_cases heq : e.id = id
        · obtain rfl : docId = docId' := Except.ok.inj (hdocId.symm.trans (heq ▸ hdocId'))
          rw [find?_cons_of_pos (by simp), find?_cons_of_pos (by simpa using heq)]
          exact congrArg some hshown
        · have hne : docId ≠ docId' := fun h => heq (encodeDocumentId_inj hdocId (h ▸ hdocId'))
          rw [find?_cons_of_neg (by simpa using hne), find?_cons_of_neg (by simpa using heq)]
          exact hfind id docId' hid hdocId'
    · refine ⟨afters, ?_, hnd, ?_, ?_⟩
      · simp only [filter_cons, tableOf_docKeyspace, ht]
        exact hchanges
      · intro p hp
        obtain ⟨e', he', h'⟩ := hmem p hp
        exact ⟨e', mem_cons_of_mem _ he', h'⟩
      · intro id docId' hid hdocId'
        have heq : e.id ≠ id := fun h => ht (h ▸ hid)
        rw [find?_cons_of_neg (by simpa using heq)]
        exact hfind id docId' hid hdocId'

theorem Tracks.rangeChangesFor {view : Documents} {rows : RowMap}
    (h : Tracks range view rows) (c : WrittenCommit) (hnodup : (c.entries.map (·.id)).Nodup)
    (hgood : ∀ e ∈ c.entries, e.id.tableNumber = range.keyspace.tableOf →
      ∀ doc, e.value = some doc → Diffable range doc) :
    ∃ changes, Helipod.rangeChangesFor range rows (tableDocs range c) =
        .ok (changes, applyChanges rows changes) ∧
      Tracks range (c.apply view) (applyChanges rows changes) := by
  obtain ⟨afters, hchanges, hnd, hmem, hfind⟩ :=
    rangeChanges_entries rows (buildWrittenDocs_forall c.built) hnodup hgood
  have hget := get?_membershipChanges rows rows hnd fun _ _ => rfl
  refine ⟨membershipChanges rows afters, ?_, ?_, ?_⟩
  · rw [Helipod.rangeChangesFor, tableDocs, hchanges]
    rfl
  · intro docId hin
    have hsome := (has_iff _).2 hin
    rw [OrderedMap.has, hget docId] at hsome
    cases hf : afters.find? (fun p => p.1 = docId) with
    | some p =>
      obtain ⟨e, -, ht, henc⟩ := hmem p (mem_of_find?_eq_some hf)
      have hp : p.1 = docId := by simpa using find?_some hf
      exact ⟨e.id, ht, hp ▸ henc⟩
    | none =>
      rw [hf] at hsome
      exact h.keys docId ((has_iff _).1 hsome)
  · intro id docId ht henc
    have hpair := hfind id docId ht henc
    rw [hget docId, WrittenCommit.apply]
    cases he : c.entries.find? (fun e => e.id = id) with
    | none =>
      rw [he, map_none, map_eq_none_iff] at hpair
      rw [hpair]
      exact h.shown id docId ht henc
    | some e =>
      rw [he, map_some] at hpair
      obtain ⟨p, hp, hshown⟩ := map_eq_some_iff.1 hpair
      rw [hp]
      exact hshown

/-! ## All commits -/

theorem Tracks.drain {commits : List WrittenCommit}
    (hnodup : ∀ c ∈ commits, (c.entries.map (·.id)).Nodup)
    (hgood : ∀ c ∈ commits, ∀ e ∈ c.entries, e.id.tableNumber = range.keyspace.tableOf →
      ∀ doc, e.value = some doc → Diffable range doc) :
    ∀ {view : Documents} {rows : RowMap}, Tracks range view rows →
    ∃ messages final, Helipod.drain range rows commits = .ok (messages, final) ∧
      Tracks range (commits.foldl WrittenCommit.apply view) final ∧
      messages.foldl applyChanges rows = final := by
  induction commits with
  | nil => exact fun h => ⟨[], _, rfl, h, rfl⟩
  | cons c commits ih =>
    intro view rows h
    obtain ⟨changes, hchanges, hnext⟩ :=
      h.rangeChangesFor c (hnodup c mem_cons_self) (hgood c mem_cons_self)
    obtain ⟨messages, final, hdrain, hfinal, hclient⟩ :=
      ih (fun c' hc' => hnodup c' (mem_cons_of_mem _ hc'))
        (fun c' hc' => hgood c' (mem_cons_of_mem _ hc')) hnext
    refine ⟨changes :: messages, final, ?_, hfinal, hclient⟩
    rw [Helipod.drain, hchanges]
    simp only [Except.bind, hdrain]
    rfl

/-- One entry list at a document. -/
def valueAfter (id : InternalDocumentId) (value : Option DocumentValue)
    (entries : List (DocumentLogEntry DocumentValue)) : Option DocumentValue :=
  match entries.find? fun e => e.id = id with
  | some e => e.value
  | none => value

theorem foldl_apply_eq (commits : List WrittenCommit) (id : InternalDocumentId) :
    ∀ view : Documents, commits.foldl WrittenCommit.apply view id =
      (commits.map (·.entries)).foldl (valueAfter id) (view id) := by
  induction commits with
  | nil => intro view; rfl
  | cons c commits ih => intro view; exact ih (c.apply view)

/-- The entries of a complete unit say what is visible after it. -/
theorem valueAfter_documents {u : StagedUnit DocumentValue} (hu : u.Complete)
    (base : Documents) (id : InternalDocumentId) :
    valueAfter id (base id) u.documents = visible base u.ctx.staged id := by
  have hfind : (u.documents.find? fun e => e.id = id).map (·.value) = u.ctx.staged.get? id := by
    rw [OrderedMap.get?, ← hu, List.find?_map, Option.map_map]
    rfl
  unfold valueAfter visible
  rw [← hfind]
  cases u.documents.find? (fun e => e.id = id) <;> rfl

/-- Commits that a snapshot contains may be applied to it again: the end is the same. -/
theorem foldl_apply_docsAt {catalog : Catalog} {log : List (Commit DocumentValue)}
    (h : IndexedLog catalog log) {from_ : Nat} {bound : Option Nat}
    (hbound : Store.admits bound from_ = true) (id : InternalDocumentId) :
    ((log.filter fun c => from_ < c.ts).map fun c => c.unit.documents).foldl (valueAfter id)
      (Store.docsAt log bound id) = Store.docsAt log none id := by
  induction log using List.reverseRecOn generalizing bound with
  | nil => rfl
  | append_singleton log x ih =>
    obtain ⟨hlog, hlt, hcomplete, -⟩ := IndexedLog.concat_iff.1 h
    have hconcat := Store.docsAt_concat hlt hcomplete
    by_cases hx : from_ < x.ts
    · have hfilter : (log ++ [x]).filter (fun c => from_ < c.ts) =
          log.filter (fun c => from_ < c.ts) ++ [x] := by
        rw [filter_append, filter_cons_of_pos (by simpa using hx), filter_nil]
      rw [hfilter, map_append, foldl_append, hconcat none]
      show valueAfter id _ x.unit.documents = visible (Store.docsAt log none) x.unit.ctx.staged id
      rw [← valueAfter_documents hcomplete]
      unfold valueAfter
      cases hfind : x.unit.documents.find? (fun e => e.id = id) with
      | some e => rfl
      | none =>
        -- the last commit leaves the document alone
        have hskip : visible (Store.docsAt log none) x.unit.ctx.staged id =
            Store.docsAt log none id := by
          rw [← valueAfter_documents hcomplete, valueAfter, hfind]
        show List.foldl _ (Store.docsAt (log ++ [x]) bound id) _ = Store.docsAt log none id
        rw [hconcat bound]
        split
        · rw [hskip]
          exact ih hlog rfl
        · exact ih hlog hbound
    · have hnone : (log ++ [x]).filter (fun c => from_ < c.ts) = [] := by
        refine filter_eq_nil_iff.2 fun c hc => ?_
        rcases mem_append.1 hc with hc | hc
        · have := hlt c hc
          simp only [decide_eq_true_eq]
          omega
        · rw [mem_singleton.1 hc]
          simpa using hx
      have hadmits : Store.admits bound x.ts = true := by
        cases bound with
        | none => rfl
        | some b =>
          have hb : from_ ≤ b := by simpa [Store.admits] using hbound
          simp only [Store.admits, all_some, decide_eq_true_eq]
          omega
      rw [hnone, hconcat bound, hconcat none, hadmits]
      rfl

/-- The versions with their keys. -/
def keyedVersions (rows : RowMap) : List (Bytes × RowVersion) :=
  rows.values.map fun v => ((orderKeyBytes v).getD [], v)

/-- The key and the row of a version. -/
def keyedRow (version : RowVersion) : Bytes × DocumentValue :=
  ((orderKeyBytes version).getD [], version.row)

/-! ## Scans -/

namespace RangeSubscription

variable (sub : RangeSubscription) {doc : DocumentValue} {id : InternalDocumentId}
  {bound : Option Nat} {w : WrittenCommit}

/-- The rows an index scan of the subscription's bounds yields. -/
def scan (bound : Option Nat) : List ScanRow :=
  rangeScan sub.log sub.query.index.indexId sub.range bound

theorem range_eq : sub.range.keyspace.tableOf = sub.tableNumber ∧
    sub.range.filters = sub.query.filters ∧ sub.range.order = sub.query.order ∧
    sub.range.fields = sub.query.index.fields := by
  have hkeyspace : sub.query.keyspace.tableOf = sub.tableNumber := rfl
  have hclass := sub.classified
  generalize sub.range = range at hclass ⊢
  generalize sub.first = first at hclass
  cases hclass with
  | range _ _ | page _ _ => exact ⟨hkeyspace, rfl, rfl, rfl⟩

theorem first_eq (hends : sub.PageEnds) :
    matchingRows sub.range.filters (sub.scan (some sub.snapshot)) = .ok sub.first := by
  have hclass := sub.classified
  unfold PageEnds at hends
  unfold scan rangeScan
  generalize sub.range = range at hclass hends
  generalize sub.first = first at hclass hends
  cases hclass with
  | range hlimit hcollect =>
    obtain ⟨hrows, hread⟩ := collect_eq_ok hlimit hcollect
    rw [rangeReadOf, hread]
    exact hrows
  | page hpaginate _ => exact paginate_bounds hpaginate (hends _ rfl)

theorem mem_scan {key : Bytes} : (key, id, doc) ∈ sub.scan bound ↔
      id.tableNumber = sub.tableNumber ∧ Store.docsAt sub.log bound id = some doc ∧
        extractIndexKey doc sub.range.fields = .ok key ∧
          keyInRange key sub.range.bounds = true := by
  obtain ⟨-, -, horder, hfields⟩ := sub.range_eq
  rw [scan, rangeScan, indexScan_eq_filter, mem_filter, mem_wholeScan,
    (sub.indexed.entriesFor bound).indexScan_iff sub.index_mem, hfields]
  simp only [and_assoc]
  rfl

theorem scan_sorted (bound : Option Nat) :
    (sub.scan bound).Pairwise fun r r' => sub.range.order.precedes r.1 r'.1 := by
  rw [scan, rangeScan, indexScan_eq_filter]
  exact (wholeScan_sorted _ _ _ _).filter _

theorem mem_matching {rows : List ScanRow}
    (h : matchingRows sub.range.filters (sub.scan bound) = .ok rows) {key : Bytes} :
    (key, id, doc) ∈ rows ↔
      id.tableNumber = sub.tableNumber ∧ Store.docsAt sub.log bound id = some doc ∧
        extractIndexKey doc sub.range.fields = .ok key ∧
        shownRow sub.range doc = some (doc, some (bytesToBase64 key)) := by
  obtain ⟨-, rfl⟩ := matchingRows_eq_ok.1 h
  rw [mem_filter, mem_scan, shownRow_eq_some]
  simp only [passes, decide_eq_true_eq]
  constructor
  · rintro ⟨⟨ht, hdoc, hkey, hin⟩, hpass⟩
    exact ⟨ht, hdoc, hkey, trivial, key, hkey, hin, hpass, rfl⟩
  · rintro ⟨ht, hdoc, hkey, -, key', hkey', hin, hpass, -⟩
    obtain rfl : key = key' := Except.ok.inj (hkey.symm.trans hkey')
    exact ⟨⟨ht, hdoc, hkey, hin⟩, hpass⟩

theorem written_of_docsAt
    (ht : id.tableNumber = sub.tableNumber) (h : Store.docsAt sub.log bound id = some doc) :
    sub.Written doc := by
  obtain ⟨p, hp, rfl⟩ := map_eq_some_iff.1 h
  obtain ⟨r, hr, hv⟩ := bind_eq_some_iff.1 hp
  obtain ⟨c, hc, hmem⟩ := mem_flatMap.1 (Versioned.readAt_mem hr)
  obtain ⟨e, he, rfl⟩ := List.mem_map.1 hmem
  obtain ⟨he, hid⟩ := mem_filter.1 he
  obtain ⟨v, hval, rfl⟩ := map_eq_some_iff.1 hv
  have hid : e.id = id := by simpa using hid
  exact ⟨c, hc, e, he, hid ▸ ht, hval⟩

theorem evaluates (hfilters : sub.FiltersDefined) (bound : Option Nat) :
    ∃ rows, matchingRows sub.range.filters (sub.scan bound) = .ok rows := by
  refine ⟨_, matchingRows_eq_ok.2 ⟨?_, rfl⟩⟩
  rintro ⟨key, id, doc⟩ hr
  obtain ⟨ht, hdoc, -⟩ := sub.mem_scan.1 hr
  exact hfilters doc (sub.written_of_docsAt ht hdoc)

/-! ## The first rows -/

theorem diffable (hsame : sub.SameInTransport) (hfilters : sub.FiltersDefined)
    (ht : id.tableNumber = sub.tableNumber)
    (h : Store.docsAt sub.log bound id = some doc) : Diffable sub.range doc where
  json := hsame doc (sub.written_of_docsAt ht h)
  key := by
    rw [sub.range_eq.2.2.2]
    exact ((sub.indexed.entriesFor bound).indexable id doc h).2 _ sub.index_mem ht.symm
  verdict := hfilters doc (sub.written_of_docsAt ht h)

/-- The entry of the row map for a row of the first run. -/
def firstEntry (r : ScanRow) : JsString × RowVersion :=
  (rowId r.2.2, ⟨r.2.2, sub.ts, some (bytesToBase64 r.1)⟩)

/-- The row map of the first run. -/
def firstRows : RowMap := (sub.first.map sub.firstEntry).foldl (fun m e => m.set e.1 e.2) .empty

theorem resetChanges_eq (hsame : sub.SameInTransport) (hends : sub.PageEnds) :
    sub.resetChanges = .ok ((sub.first.map sub.firstEntry).map (fun e => .add e.1 e.2),
      sub.firstRows) := by
  have hrows : ∀ r ∈ sub.first, rangeResetRow sub.range sub.ts (convexToJsonFields r.2.2) =
      .ok (sub.firstEntry r) := by
    rintro ⟨key, id, doc⟩ hr
    obtain ⟨ht, hdoc, hkey, -⟩ := (sub.mem_matching (sub.first_eq hends)).1 hr
    rw [hsame doc (sub.written_of_docsAt ht hdoc), rangeResetRow, orderKeyFor, hkey]
    rfl
  have hmapM : (sub.first.map fun r => convexToJsonFields r.2.2).mapM
      (rangeResetRow sub.range sub.ts) = .ok (sub.first.map sub.firstEntry) := by
    rw [mapM_map]
    exact mapM_eq_pure hrows
  rw [resetChanges, rangeResetChanges, hmapM]
  rfl

theorem tracks_first (hcanonical : sub.FirstCanonical) (hends : sub.PageEnds) :
    Tracks sub.range (Store.docsAt sub.log (some sub.snapshot)) sub.firstRows := by
  unfold firstRows
  have hfirst := sub.first_eq hends
  have hget := fun {k} => get?_foldl_set (a := k) OrderedMap.empty
    (sub.first.map sub.firstEntry)
  have htable := sub.range_eq.1
  constructor
  · intro docId hin
    have hsome := (has_iff _).2 hin
    rw [OrderedMap.has, hget, get?_empty, Option.or_none, isSome_map] at hsome
    obtain ⟨e, he⟩ := isSome_iff_exists.1 hsome
    obtain ⟨r, hr, rfl⟩ := List.mem_map.1 (mem_reverse.1 (mem_of_find?_eq_some he))
    have hfound := find?_some he
    have hid : rowId r.2.2 = docId := of_decide_eq_true hfound
    exact ⟨r.2.1, ((sub.mem_matching hfirst).1 hr).1.trans htable.symm, hid ▸ hcanonical r hr⟩
  · intro id docId ht henc
    rw [hget, get?_empty, Option.or_none, Option.map_map]
    cases hfind : (sub.first.map sub.firstEntry).reverse.find? (fun e => e.1 = docId) with
    | some e =>
      obtain ⟨⟨key, id', doc⟩, hr, rfl⟩ :=
        List.mem_map.1 (mem_reverse.1 (mem_of_find?_eq_some hfind))
      have hfound := find?_some hfind
      have hid : rowId doc = docId := of_decide_eq_true hfound
      obtain rfl : id' = id := encodeDocumentId_inj (hid ▸ hcanonical _ hr) henc
      obtain ⟨-, hdoc, -, hshown⟩ := (sub.mem_matching hfirst).1 hr
      rw [hdoc]
      exact hshown.symm
    | none =>
      symm
      rw [map_none, bind_eq_none_iff]
      intro doc hdoc
      cases hshown : shownRow sub.range doc with
      | none => rfl
      | some row =>
        obtain ⟨row, orderKey⟩ := row
        obtain ⟨hrow, key, hkey, -, -, horder⟩ := shownRow_eq_some.1 hshown
        subst hrow horder
        have hr := (sub.mem_matching hfirst).2 ⟨ht.trans htable, hdoc, hkey, hshown⟩
        have hid : rowId row = docId := Except.ok.inj ((hcanonical _ hr).symm.trans henc)
        have hentry := mem_reverse.2 (mem_map_of_mem (f := sub.firstEntry) hr)
        exact absurd (decide_eq_true hid) (find?_eq_none.1 hfind _ hentry)

/-! ## The last rows -/

theorem exists_of_mem_drained (hw : w ∈ sub.drained) :
    ∃ c ∈ sub.log, w.ts = c.ts ∧ w.entries = c.unit.documents := by
  have hmem := mem_map_of_mem (f := fun w : WrittenCommit => (w.ts, w.entries)) hw
  rw [sub.drained_eq] at hmem
  obtain ⟨c, hc, heq⟩ := List.mem_map.1 hmem
  obtain ⟨hts, hentries⟩ := Prod.mk.inj heq
  exact ⟨c, (mem_filter.1 hc).1, hts.symm, hentries.symm⟩

theorem nodup_of_mem_drained (hw : w ∈ sub.drained) : (w.entries.map (·.id)).Nodup := by
  obtain ⟨c, hc, -, heq⟩ := sub.exists_of_mem_drained hw
  have hkeys : c.unit.documents.map (·.id) = c.unit.ctx.staged.keys := by
    rw [OrderedMap.keys, ← sub.indexed.complete c hc, List.map_map]
    rfl
  rw [heq, hkeys]
  exact c.unit.ctx.staged.nodup

theorem diffable_of_mem_drained (hsame : sub.SameInTransport) (hfilters : sub.FiltersDefined)
    (hw : w ∈ sub.drained) {e : DocumentLogEntry DocumentValue}
    (he : e ∈ w.entries) (ht : e.id.tableNumber = sub.range.keyspace.tableOf)
    (hdoc : e.value = some doc) : Diffable sub.range doc := by
  obtain ⟨c, hc, -, heq⟩ := sub.exists_of_mem_drained hw
  rw [sub.range_eq.1] at ht
  exact sub.diffable hsame hfilters ht (sub.indexed.docsAt_of_written hc (heq ▸ he) hdoc)

theorem foldl_apply_drained :
    sub.drained.foldl WrittenCommit.apply (Store.docsAt sub.log (some sub.snapshot)) =
      Store.docsAt sub.log none := by
  funext id
  have hentries : sub.drained.map (·.entries) =
      (sub.log.filter fun c => sub.drainedTo < c.ts).map fun c => c.unit.documents := by
    have hsnd := congrArg (List.map Prod.snd) sub.drained_eq
    rw [List.map_map, List.map_map] at hsnd
    exact hsnd
  rw [foldl_apply_eq, hentries]
  refine foldl_apply_docsAt sub.indexed ?_ id
  simpa [Store.admits] using sub.drainedTo_le

theorem tracks_last (hsame : sub.SameInTransport) (hfilters : sub.FiltersDefined)
    (hcanonical : sub.FirstCanonical) (hends : sub.PageEnds) :
    ∃ messages final, drain sub.range sub.firstRows sub.drained = .ok (messages, final) ∧
      Tracks sub.range (Store.docsAt sub.log none) final ∧
      messages.foldl applyChanges sub.firstRows = final := by
  obtain ⟨messages, final, hdrain, htracks, hclient⟩ :=
    Tracks.drain (fun w hw => sub.nodup_of_mem_drained hw)
      (fun w hw e he ht doc hdoc => sub.diffable_of_mem_drained hsame hfilters hw he ht hdoc)
      (sub.tracks_first hcanonical hends)
  rw [sub.foldl_apply_drained] at htracks
  exact ⟨messages, final, hdrain, htracks, hclient⟩

variable {scan : List ScanRow}

theorem encodes {sub : RangeSubscription}
    (hscan : matchingRows sub.range.filters (sub.scan none) = .ok scan) {r : ScanRow}
    (hr : r ∈ scan) : ∃ docId, encodeDocumentId r.2.1 = .ok docId := by
  obtain ⟨key, id, doc⟩ := r
  obtain ⟨-, hdoc, -⟩ := (sub.mem_matching hscan).1 hr
  obtain ⟨s, -, hs⟩ := ((sub.indexed.entriesFor none).indexable id doc hdoc).1
  exact encodeDocumentId_of_decode hs

theorem ascending_sorted {sub : RangeSubscription}
    (hscan : matchingRows sub.range.filters (sub.scan none) = .ok scan) :
    (sub.range.order.ascending scan).Pairwise fun r r' => r.1 < r'.1 := by
  obtain ⟨-, rfl⟩ := matchingRows_eq_ok.1 hscan
  have hsorted := (sub.scan_sorted none).filter (passes sub.range.filters)
  cases ho : sub.range.order with
  | asc =>
    rw [ho] at hsorted
    exact hsorted
  | desc =>
    rw [ho] at hsorted
    exact pairwise_reverse.2 hsorted

theorem keys_nodup {sub : RangeSubscription}
    (hscan : matchingRows sub.range.filters (sub.scan none) = .ok scan) :
    (scan.map fun r => r.1).Nodup := by
  have hsorted := ascending_sorted hscan
  have hnodup : ((sub.range.order.ascending scan).map fun r => r.1).Nodup :=
    pairwise_map.2 (hsorted.imp fun hlt => hlt.ne)
  exact ((ascending_perm sub.range.order scan).map _).nodup_iff.1 hnodup

section Last

variable {sub} {rows : RowMap} (htracks : Tracks sub.range (Store.docsAt sub.log none) rows)
  {scan : List ScanRow} (hscan : matchingRows sub.range.filters (sub.scan none) = .ok scan)
include htracks hscan

theorem mem_entries_iff {docId : JsString} {row : DocumentValue} {orderKey : Option JsString} :
    (∃ ts, (docId, ⟨row, ts, orderKey⟩) ∈ rows.entries) ↔
      ∃ r ∈ scan, encodeDocumentId r.2.1 = .ok docId ∧ row = r.2.2 ∧
        orderKey = some (bytesToBase64 r.1) := by
  have htable := sub.range_eq.1
  constructor
  · rintro ⟨ts, hin⟩
    have hget := (get?_eq_some_iff rows).2 hin
    obtain ⟨id, ht, henc⟩ := htracks.keys docId ((has_iff rows).1 (by
      rw [OrderedMap.has, hget]
      rfl))
    have hshown := htracks.shown id docId ht henc
    rw [hget] at hshown
    obtain ⟨doc, hdoc, hrow⟩ := bind_eq_some_iff.1 hshown.symm
    obtain ⟨hsame, key, hkey, hbounds, hpass, horder⟩ := shownRow_eq_some.1 hrow
    refine ⟨(key, id, doc), (sub.mem_matching hscan).2 ⟨ht.trans htable, hdoc, hkey, ?_⟩, henc,
      hsame, horder⟩
    exact shownRow_eq_some.2 ⟨rfl, key, hkey, hbounds, hpass, rfl⟩
  · rintro ⟨⟨key, id, doc⟩, hr, henc, rfl, rfl⟩
    obtain ⟨ht, hdoc, -, hrow⟩ := (sub.mem_matching hscan).1 hr
    have hshown := htracks.shown id docId (ht.trans htable.symm) henc
    rw [hdoc, bind_some, hrow] at hshown
    obtain ⟨version, hget, hversion⟩ := map_eq_some_iff.1 hshown
    obtain ⟨hrow', hkey'⟩ := Prod.mk.inj hversion
    exact ⟨version.ts, by rw [← hrow', ← hkey']; exact (get?_eq_some_iff rows).1 hget⟩

/-! ## Rendering -/

theorem orderKeyBytes_of_mem {e : JsString × RowVersion} (he : e ∈ rows.entries) :
    ∃ r ∈ scan, encodeDocumentId r.2.1 = .ok e.1 ∧ e.2.row = r.2.2 ∧
      orderKeyBytes e.2 = some r.1 := by
  obtain ⟨r, hr, henc, hrow, hkey⟩ := (mem_entries_iff htracks hscan).1 ⟨e.2.ts, he⟩
  refine ⟨r, hr, henc, hrow, ?_⟩
  rw [orderKeyBytes, hkey]
  exact base64ToBytes_bytesToBase64 r.1

theorem keyedRow_of_mem {e : JsString × RowVersion} (he : e ∈ rows.entries) :
    ∃ r ∈ scan, encodeDocumentId r.2.1 = .ok e.1 ∧ keyedRow e.2 = (r.1, r.2.2) := by
  obtain ⟨r, hr, henc, hrow, hkey⟩ := orderKeyBytes_of_mem htracks hscan he
  exact ⟨r, hr, henc, by rw [keyedRow, hkey, hrow]; rfl⟩

theorem keyedRows_perm :
    (rows.entries.map fun e => keyedRow e.2).Perm (scan.map fun r => (r.1, r.2.2)) := by
  have hkeys := keys_nodup hscan
  have hleft : (rows.entries.map fun e => keyedRow e.2).Nodup := by
    refine List.Nodup.map_on ?_ (List.Nodup.of_map Prod.fst rows.nodup)
    intro e he e' he' heq
    obtain ⟨r, hr, henc, hrow⟩ := keyedRow_of_mem htracks hscan he
    obtain ⟨r', hr', henc', hrow'⟩ := keyedRow_of_mem htracks hscan he'
    have hkey : r.1 = r'.1 := (Prod.mk.inj (hrow.symm.trans (heq.trans hrow'))).1
    obtain rfl : r = r' := inj_on_of_nodup_map hkeys hr hr' hkey
    exact inj_on_of_nodup_map rows.nodup he he' (Except.ok.inj (henc.symm.trans henc'))
  have hright : (scan.map fun r => (r.1, r.2.2)).Nodup := by
    refine List.Nodup.of_map Prod.fst ?_
    rw [List.map_map]
    exact hkeys
  refine (perm_ext_iff_of_nodup hleft hright).2 fun x => ?_
  constructor
  · intro hx
    obtain ⟨e, he, rfl⟩ := List.mem_map.1 hx
    obtain ⟨r, hr, -, hrow⟩ := keyedRow_of_mem htracks hscan he
    exact List.mem_map.2 ⟨r, hr, hrow.symm⟩
  · intro hx
    obtain ⟨r, hr, rfl⟩ := List.mem_map.1 hx
    obtain ⟨docId, henc⟩ := encodes hscan hr
    obtain ⟨ts, he⟩ := (mem_entries_iff htracks hscan).2 ⟨r, hr, henc, rfl, rfl⟩
    refine List.mem_map.2 ⟨_, he, ?_⟩
    rw [keyedRow, orderKeyBytes, getD_some, base64ToBytes_bytesToBase64]
    rfl

theorem sortRows_eq : (sortRows (keyedVersions rows)).map (fun e => (e.1, e.2.row)) =
    (sub.range.order.ascending scan).map fun r => (r.1, r.2.2) := by
  have hperm : ((sortRows (keyedVersions rows)).map fun e => (e.1, e.2.row)).Perm
      ((sub.range.order.ascending scan).map fun r => (r.1, r.2.2)) := by
    refine ((perm_insertionSort _ _).map _).trans ?_
    rw [keyedVersions, OrderedMap.values, List.map_map, List.map_map]
    exact (keyedRows_perm htracks hscan).trans
      ((ascending_perm sub.range.order scan).symm.map _)
  have hsorted : ((sub.range.order.ascending scan).map fun r => (r.1, r.2.2)).Pairwise
      fun a b => a.1 ≤ b.1 := pairwise_map.2 ((ascending_sorted hscan).imp fun hlt => hlt.le)
  refine List.Perm.eq_of_pairwise ?_ (pairwise_map.2 (sortRows_sorted _)) hsorted hperm
  -- two rows of the scan with one key are the same row
  intro a b ha hb hab hba
  obtain ⟨r, hr, rfl⟩ := List.mem_map.1 (hperm.mem_iff.1 ha)
  obtain ⟨r', hr', rfl⟩ := List.mem_map.1 hb
  have hmem := fun {x} => (ascending_perm sub.range.order scan).mem_iff (a := x)
  rw [inj_on_of_nodup_map (keys_nodup hscan) (hmem.1 hr) (hmem.1 hr') (le_antisymm hab hba)]

theorem renderRangeRows_eq : renderRangeRows rows sub.range.order =
    scan.mapM fun r => decodeRow r.2.2 := by
  have hkeyed : (rows.values.mapM fun v => (orderKeyBytes v).map fun key => (key, v)) =
      some (keyedVersions rows) := by
    refine mapM_eq_pure fun v hv => ?_
    obtain ⟨e, he, rfl⟩ := List.mem_map.1 hv
    obtain ⟨r, -, -, -, hkey⟩ := orderKeyBytes_of_mem htracks hscan he
    rw [hkey]
    rfl
  have hrows := congrArg (List.map Prod.snd) (sortRows_eq htracks hscan)
  rw [List.map_map, List.map_map] at hrows
  rw [renderRangeRows, hkeyed]
  have hmap : (sub.range.order.ascending (sortRows (keyedVersions rows))).map (fun e => e.2.row) =
      scan.map fun r => r.2.2 := by
    rw [map_ascending]
    refine (congrArg _ (hrows.trans (map_ascending _ _ _))).trans ?_
    exact ascending_ascending _ _
  calc (sub.range.order.ascending (sortRows (keyedVersions rows))).mapM (fun e => decodeRow e.2.row)
      = ((sub.range.order.ascending (sortRows (keyedVersions rows))).map fun e => e.2.row).mapM
        decodeRow := by
        rw [mapM_map]
        rfl
    _ = (scan.map fun r => r.2.2).mapM decodeRow := by rw [hmap]
    _ = scan.mapM fun r => decodeRow r.2.2 := by
        rw [mapM_map]
        rfl

end Last

end RangeSubscription

open RangeSubscription in
/-- Over documents that survive transport, with canonical ids in the first run, filters that throw
on no document, and a page that ends at a row: the reset and every commit yield changes, after the
last commit the rows are those of an index scan of the same bounds and filters, each with its key as
order key, and a client that applied the same changes shows them in the scan's order. -/
theorem range_diff_eq_scan (sub : RangeSubscription) (hsame : sub.SameInTransport)
    (hcanonical : sub.FirstCanonical) (hends : sub.PageEnds) (hfilters : sub.FiltersDefined) :
    ∃ reset first messages rows scan, sub.resetChanges = .ok (reset, first) ∧
      drain sub.range first sub.drained = .ok (messages, rows) ∧
      matchingRows sub.range.filters (sub.scan none) = .ok scan ∧
      (∀ docId row orderKey, (∃ ts, (docId, ⟨row, ts, orderKey⟩) ∈ rows.entries) ↔
        ∃ r ∈ scan, encodeDocumentId r.2.1 = .ok docId ∧ row = r.2.2 ∧
          orderKey = some (bytesToBase64 r.1)) ∧
      messages.foldl applyChanges (applyChanges .empty reset) = rows ∧
      renderRangeRows rows sub.range.order = scan.mapM fun r => decodeRow r.2.2 := by
  obtain ⟨messages, rows, hdrain, htracks, hclient⟩ :=
    sub.tracks_last hsame hfilters hcanonical hends
  obtain ⟨scan, hscan⟩ := sub.evaluates hfilters none
  refine ⟨_, _, messages, rows, scan, sub.resetChanges_eq hsame hends, hdrain, hscan, ?_, ?_, ?_⟩
  · exact fun docId row orderKey => mem_entries_iff htracks hscan
  · rw [applyChanges, foldl_map]
    exact hclient
  · exact renderRangeRows_eq htracks hscan

/-! ## One item -/

namespace RangeExample

open KernelExample

def taggedItem (id : JsString) (tag : String) : DocumentValue :=
  [(js "_id", .string id), (js "tag", .string (js tag))]

/-- The item's id in capital letters, which decodes to the same id. -/
def capitalId : JsString := itemId.map fun u =>
  if 97 ≤ u.val ∧ u.val ≤ 122 then codeUnit (u.val - 32) else u

/-- A commit that writes the item. -/
def write (ts : Nat) (prevTs : Option Nat) (old new : Option DocumentValue) :
    Commit DocumentValue where
  shard := 0
  ts := ts
  unit :=
    { call := 0
      ctx := { snapshotTs := 0
               staged := OrderedMap.empty.set item new
               indexUpdates := stagedUpdates catalog item old new }
      documents := [⟨item, prevTs, new⟩] }

theorem indexedLog_write {log : List (Commit DocumentValue)} (ts : Nat) (prevTs : Option Nat)
    {old new : Option DocumentValue} (h : IndexedLog catalog log) (hlt : ∀ d ∈ log, d.ts < ts)
    (hold : Store.docsAt log none item = old) (hdoc : ∀ doc, new = some doc → IsDocument doc item)
    (hok : (computeIndexUpdates (catalog.indexesForTable item.tableNumber)
      old new item).isOk = true) :
    IndexedLog catalog (log ++ [write ts prevTs old new]) := by
  refine IndexedLog.concat_iff.2 ⟨h, hlt, rfl, ?_⟩
  have hupdates : computeIndexUpdates (catalog.indexesForTable item.tableNumber) old new item =
      .ok (stagedUpdates catalog item old new) := by
    unfold stagedUpdates
    cases hc : computeIndexUpdates (catalog.indexesForTable item.tableNumber) old new item with
    | error e =>
      rw [hc] at hok
      cases hok
    | ok us => rfl
  have hwrite : StagedWrite catalog (Store.docsAt log none) .empty item old new
      (stagedUpdates catalog item old new) := ⟨hold, hupdates⟩
  have := hwrite.indexed hdoc .empty (h.entriesFor none).indexable
  rwa [nil_append] at this

def written (c : Commit DocumentValue) : List WrittenDoc :=
  c.unit.documents.map fun e => ⟨e.id.internalId, docKeyspace e.id, itemId,
    e.value.map convexToJsonFields, e.prevTs.isSome, c.ts⟩

theorem encodeDocumentId_item : encodeDocumentId item = .ok itemId := by decide +kernel

def writtenCommit (ts : Nat) (prevTs : Option Nat) (old new : Option DocumentValue) :
    WrittenCommit where
  ts := ts
  entries := (write ts prevTs old new).unit.documents
  writtenDocs := written (write ts prevTs old new)
  built := by
    rw [buildWrittenDocs]
    show List.mapM _ [_] = _
    rw [List.mapM_cons, writtenDoc_eq_ok.2 ⟨itemId, encodeDocumentId_item, rfl⟩]
    rfl

def keyOf (id : JsString) (tag : String) : Bytes :=
  (extractIndexKey (taggedItem id tag) byTag.fields).toOption.getD []

/-- All items by tag. -/
def allItems : ScanQuery := ⟨byTag, [], none, .asc, [], none⟩

/-- The item is inserted under `id` at 1 and written again at 2. -/
def log (id : JsString) (new : Option DocumentValue) : List (Commit DocumentValue) :=
  [write 1 none none (some (taggedItem id "a")), write 2 (some 1) (some (taggedItem id "a")) new]

theorem isDocument_taggedItem {id : JsString} (hid : decodeDocumentId id = .ok item)
    (tag : String) : IsDocument (taggedItem id tag) item := ⟨id, rfl, hid⟩

/-- The item stays and gets another tag; both commits are drained after a run that saw the first. -/
def retagged : RangeSubscription where
  catalog := catalog
  log := log itemId (some (taggedItem itemId "b"))
  indexed := by
    have hid : decodeDocumentId itemId = .ok item := decodeDocumentId_encode encodeDocumentId_item
    have hfirst := indexedLog_write 1 none .nil (by simp) rfl
      (fun _ h => Option.some.inj h ▸ isDocument_taggedItem hid "a") (by decide +kernel)
    exact indexedLog_write 2 (some 1) hfirst (by decide) rfl
      (fun _ h => Option.some.inj h ▸ isDocument_taggedItem hid "b") (by decide +kernel)
  query := allItems
  index_mem := by decide
  snapshot := 1
  range := rangeReadOf allItems allItems.interval none
  first := [(keyOf itemId "a", item, taggedItem itemId "a")]
  classified := .range (r := ⟨_, allItems.interval⟩) rfl (by decide +kernel)
  ts := 0
  drainedTo := 0
  drainedTo_le := by decide
  drained := [writtenCommit 1 none none (some (taggedItem itemId "a")),
    writtenCommit 2 (some 1) (some (taggedItem itemId "a")) (some (taggedItem itemId "b"))]
  drained_eq := rfl

theorem sameInTransport_retagged : retagged.SameInTransport := by
  rintro doc ⟨c, hc, e, he, -, hdoc⟩
  rcases mem_pair.1 hc with rfl | rfl
  all_goals
    obtain rfl := mem_singleton.1 he
    rw [← Option.some.inj hdoc]
    decide +kernel

theorem firstCanonical_retagged : retagged.FirstCanonical := by
  intro r hr
  obtain rfl := mem_singleton.1 hr
  exact encodeDocumentId_item

/-- The item carries its id in capital letters and is deleted after the first run. -/
def deletedCapital : RangeSubscription where
  catalog := catalog
  log := log capitalId none
  indexed := by
    have hid : decodeDocumentId capitalId = .ok item := by decide +kernel
    have hfirst := indexedLog_write 1 none .nil (by simp) rfl
      (fun _ h => Option.some.inj h ▸ isDocument_taggedItem hid "a") (by decide +kernel)
    exact indexedLog_write 2 (some 1) hfirst (by decide) rfl (fun _ h => by cases h)
      (by decide +kernel)
  query := allItems
  index_mem := by decide
  snapshot := 1
  range := rangeReadOf allItems allItems.interval none
  first := [(keyOf capitalId "a", item, taggedItem capitalId "a")]
  classified := .range (r := ⟨_, allItems.interval⟩) rfl (by decide +kernel)
  ts := 1
  drainedTo := 1
  drainedTo_le := by decide
  drained := [writtenCommit 2 (some 1) (some (taggedItem capitalId "a")) none]
  drained_eq := rfl

end RangeExample

open RangeExample KernelExample in
theorem range_diff_eq_scan_retagged :
    ∃ reset first messages rows scan, retagged.resetChanges = .ok (reset, first) ∧
      drain retagged.range first retagged.drained = .ok (messages, rows) ∧
      matchingRows retagged.range.filters (retagged.scan none) = .ok scan ∧
      (∀ docId row orderKey, (∃ ts, (docId, ⟨row, ts, orderKey⟩) ∈ rows.entries) ↔
        ∃ r ∈ scan, encodeDocumentId r.2.1 = .ok docId ∧ row = r.2.2 ∧
          orderKey = some (bytesToBase64 r.1)) ∧
      messages.foldl applyChanges (applyChanges .empty reset) = rows ∧
      renderRangeRows rows retagged.range.order = scan.mapM fun r => decodeRow r.2.2 := by
  refine range_diff_eq_scan retagged sameInTransport_retagged firstCanonical_retagged ?_
    fun _ _ => ⟨true, rfl⟩
  intro m hm
  cases hm

open RangeExample KernelExample in
/-- The row of an item whose `_id` is spelled in capital letters stays after the item is
deleted. -/
theorem range_diff_keeps_deleted_row : ∃ sub : RangeSubscription, sub.SameInTransport ∧
    ∃ reset first messages rows, sub.resetChanges = .ok (reset, first) ∧
      drain sub.range first sub.drained = .ok (messages, rows) ∧
      matchingRows sub.range.filters (sub.scan none) = .ok [] ∧ rows.size = 1 := by
  refine ⟨deletedCapital, ?_, ?_⟩
  · rintro doc ⟨c, hc, e, he, -, hdoc⟩
    rcases mem_pair.1 hc with rfl | rfl
    · obtain rfl := mem_singleton.1 he
      rw [← Option.some.inj hdoc]
      decide +kernel
    · obtain rfl := mem_singleton.1 he
      cases hdoc
  · obtain ⟨r, hreset, d, hdrain, hsize⟩ : ∃ r, deletedCapital.resetChanges = .ok r ∧
      ∃ d, drain deletedCapital.range r.2 deletedCapital.drained = .ok d ∧ d.2.size = 1 := by
      decide +kernel
    exact ⟨r.1, r.2, d.1, d.2, hreset, hdrain, by decide +kernel, hsize⟩

end Helipod
