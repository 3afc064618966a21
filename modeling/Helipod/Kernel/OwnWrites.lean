import Helipod.Kernel.Mutations
import Helipod.QueryEngine.ReadSets

/-!
# A transaction reads its own writes

Model of `pendingIndexOverlay` (`transactor/src/shard-writer.ts`), the staged index changes that a
query of the same transaction lays over its scan, and what the query then returns, compared with
the same query on a store in which the transaction has committed.

The overlay is made from index updates only. A document that was staged without them, because one
of its keys could not be encoded, is still returned as it was before the transaction.

Results:
* `reads_own_writes_iff`, `KernelTransactor.Inv.readsOwnWrites`
* `scanWithOverlay_eq_iff`: the merged rows are those of the committed store if and only if no entry
  that the transaction leaves alone points at a document it changes.
-/

namespace Helipod

open OrderedMap List Option

open Except (map_eq_ok)
open Store

/-! ## Model -/

/-- The staged value of an index update; a document that has since been tombstoned is gone. -/
def overlayValue (staged : StagedWrites) : IndexUpdateValue → Option DocumentValue
  | .deleted => none
  | .nonClustered id => (staged.get? id).join

/-- The last change of each key. -/
def overlayByKey (staged : StagedWrites) (indexId : IndexId) (updates : List DatabaseIndexUpdate) :
    OrderedMap Bytes (Option DocumentValue) :=
  updates.foldl (fun byKey u =>
    if u.indexId = indexId then byKey.set u.key (overlayValue staged u.value) else byKey) .empty

def TransactionContext.pendingIndexOverlay (ctx : TransactionContext DocumentValue)
    (indexId : IndexId) : List IndexOverlayEntry :=
  (overlayByKey ctx.staged indexId ctx.indexUpdates).entries.map fun e => ⟨e.1, e.2⟩

/-- The store that a snapshot shows, with one more commit. -/
def StoreSnapshot.commit (s : StoreSnapshot) (x : Commit DocumentValue) : StoreSnapshot :=
  ⟨s.log.filter (fun d => admits s.bound d.ts) ++ [x], none⟩

/-- What the guest gets of a page. -/
def QueryPage.answer (p : QueryPage) : List DocumentValue × Option JsString × Bool × Bool :=
  (p.page, p.nextCursor, p.hasMore, p.scanCapped)

/-- A write of a document, with the document that the handler has read. -/
structure DocumentChange where
  id : InternalDocumentId
  oldDoc : Option DocumentValue
  newDoc : Option DocumentValue

/-- The context after the writes have been staged one after the other. -/
def stageWrites (catalog : Catalog) (landed : List Nat) (ctx : TransactionContext DocumentValue)
    (writes : List DocumentChange) : TransactionContext DocumentValue :=
  writes.foldl (fun ctx w =>
    (stageOps catalog w.id w.oldDoc w.newDoc).foldl (TransactionContext.apply landed) ctx) ctx

/-! ## The overlay by key -/

theorem get?_overlayByKey (staged : StagedWrites) (indexId : IndexId)
    (updates : List DatabaseIndexUpdate) (key : Bytes) :
    (overlayByKey staged indexId updates).get? key =
      (lastUpdate updates indexId key).map (overlayValue staged) := by
  induction updates using List.reverseRecOn with
  | nil => rfl
  | append_singleton updates u ih =>
    have hone : lastUpdate [u] indexId key =
        if u.indexId = indexId ∧ u.key = key then some u.value else none := by
      rw [lastUpdate, reverse_singleton, find?_singleton]
      by_cases h : u.indexId = indexId ∧ u.key = key <;> simp
    rw [overlayByKey, foldl_append, foldl_cons, foldl_nil, lastUpdate_append, hone]
    by_cases hid : u.indexId = indexId
    · rw [if_pos hid, get?_set]
      by_cases hkey : u.key = key
      · simp [hid, hkey]
      · simpa [overlayByKey, hkey] using ih
    · simpa [overlayByKey, hid] using ih

/-- Merging changes of distinct keys: each key has its own change or keeps its row. -/
theorem get?_foldl_mergeEntry (q : ScanQuery) (entries : List (Bytes × Option DocumentValue))
    (hnodup : (entries.map Prod.fst).Nodup) (merged : OrderedMap Bytes DocumentValue)
    (key : Bytes) :
    ((entries.map fun e => (⟨e.1, e.2⟩ : IndexOverlayEntry)).foldl (mergeEntry q) merged).get? key =
      match (entries.find? fun e => e.1 = key).map Prod.snd with
      | none => merged.get? key
      | some none => none
      | some (some value) => if keyInRange key q.interval then some value else merged.get? key := by
  induction entries generalizing merged with
  | nil => rfl
  | cons e entries ih =>
    obtain ⟨hnot, hnodup⟩ := nodup_cons.1 hnodup
    rw [map_cons, foldl_cons, ih hnodup]
    by_cases hkey : e.1 = key
    · have hnone : entries.find? (fun e => decide (e.1 = key)) = none := by
        refine find?_eq_none.2 fun e' he' heq => hnot ?_
        rw [hkey, ← of_decide_eq_true heq]
        exact mem_map_of_mem he'
      rw [hnone, find?_cons_of_pos (by simpa using hkey)]
      obtain ⟨k, value⟩ := e
      subst hkey
      cases value with
      | none => simp [mergeEntry, get?_erase]
      | some value =>
        by_cases hin : keyInRange k q.interval = true
        · simp [mergeEntry, hin]
        · simp [mergeEntry, hin]
    · rw [find?_cons_of_neg (by simpa using hkey)]
      have hkeep : (mergeEntry q merged ⟨e.1, e.2⟩).get? key = merged.get? key := by
        unfold mergeEntry
        split
        · rw [get?_erase, if_neg hkey]
        · split
          · rw [get?_set_ne _ hkey]
          · rfl
      rw [hkeep]

/-! ## Rows by key -/

/-- The document at a key of an index. -/
def StoreSnapshot.rowValue (s : StoreSnapshot) (indexId : IndexId) (key : Bytes) :
    Option DocumentValue :=
  (s.entry indexId key).bind s.document

/-- The document at a key of an index under the staged changes. -/
def overlaidValue (s : StoreSnapshot) (ctx : TransactionContext DocumentValue) (indexId : IndexId)
    (key : Bytes) : Option DocumentValue :=
  match lastUpdate ctx.indexUpdates indexId key with
  | some update => overlayValue ctx.staged update
  | none => s.rowValue indexId key

theorem entries_foldl_set {α β : Type} [DecidableEq α] (rows : List (α × β)) (m : OrderedMap α β)
    (h : (m.keys ++ rows.map Prod.fst).Nodup) :
    (rows.foldl (fun m r => m.set r.1 r.2) m).entries = m.entries ++ rows := by
  induction rows generalizing m with
  | nil => simp
  | cons r rows ih =>
    have hnot : r.1 ∉ m.entries.map Prod.fst := by
      rw [map_cons, nodup_append] at h
      exact fun hr => h.2.2 r.1 hr r.1 mem_cons_self rfl
    have hset : (m.set r.1 r.2).entries = m.entries ++ [r] := setEntries_of_not_mem hnot
    rw [foldl_cons, ih _ (by simpa [OrderedMap.keys, hset] using h), hset]
    simp

section Rows

variable {q : ScanQuery} {s : StoreSnapshot} {key : Bytes} {value : DocumentValue}

theorem mem_committed : (key, value) ∈ (q.scan s.log s.bound).map (fun r => (r.1, r.2.2)) ↔
    keyInRange key q.interval = true ∧ s.rowValue q.index.indexId key = some value := by
  simp only [List.mem_map, Prod.mk.injEq, StoreSnapshot.rowValue, Option.bind_eq_some_iff]
  constructor
  · rintro ⟨row, hrow, rfl, rfl⟩
    obtain ⟨hscan, hin⟩ := mem_scan.1 hrow
    obtain ⟨-, hentry, hdoc⟩ := StoreSnapshot.scanRow_eq_some.1 hscan
    exact ⟨hin, row.2.1, hentry, hdoc⟩
  · rintro ⟨hin, id, hentry, hdoc⟩
    exact ⟨(key, id, value), mem_scan.2 ⟨StoreSnapshot.scanRow_eq_some.2 ⟨rfl, hentry, hdoc⟩, hin⟩,
      rfl, rfl⟩

/-- The map that the staged changes are merged into holds the rows of the scan. -/
theorem get?_committed :
    ((q.scan s.log s.bound).foldl (fun m r => m.set r.1 r.2.2) OrderedMap.empty).get? key =
      if keyInRange key q.interval then s.rowValue q.index.indexId key else none := by
  have hnodup : ((q.scan s.log s.bound).map fun r => r.1).Nodup := by
    refine pairwise_map.2 ((scan_sorted q s.log s.bound).imp fun {a b} hlt heq => ?_)
    rw [heq] at hlt
    exact ScanOrder.precedes_asymm hlt hlt
  have hentries := entries_foldl_set ((q.scan s.log s.bound).map fun r => (r.1, r.2.2)) .empty
    (by simpa [OrderedMap.keys, OrderedMap.empty, Function.comp_def] using hnodup)
  rw [foldl_map] at hentries
  refine Option.ext fun v => ?_
  rw [get?_eq_some_iff, hentries]
  show (key, v) ∈ [] ++ _ ↔ _
  rw [nil_append, mem_committed]
  by_cases hin : keyInRange key q.interval = true <;> simp

variable {ctx : TransactionContext DocumentValue}

theorem mem_scanWithOverlay :
    (key, value) ∈ scanWithOverlay q s (ctx.pendingIndexOverlay q.index.indexId) ↔
      keyInRange key q.interval = true ∧
        overlaidValue s ctx q.index.indexId key = some value := by
  have hfind : ((overlayByKey ctx.staged q.index.indexId ctx.indexUpdates).entries.find?
      fun e => e.1 = key).map Prod.snd =
      (lastUpdate ctx.indexUpdates q.index.indexId key).map (overlayValue ctx.staged) :=
    get?_overlayByKey ..
  rw [scanWithOverlay, mem_insertionSort, ← get?_eq_some_iff,
    TransactionContext.pendingIndexOverlay, get?_foldl_mergeEntry _ _ (OrderedMap.nodup _), hfind,
    get?_committed, overlaidValue]
  cases lastUpdate ctx.indexUpdates q.index.indexId key with
  | none => by_cases hin : keyInRange key q.interval = true <;> simp
  | some update =>
    cases hv : overlayValue ctx.staged update with
    | none => simp [hv]
    | some v => by_cases hin : keyInRange key q.interval = true <;> simp [hin, hv]

theorem mem_scanWithOverlay_nil : (key, value) ∈ scanWithOverlay q s [] ↔
    keyInRange key q.interval = true ∧ s.rowValue q.index.indexId key = some value := by
  have hempty : (key, value) ∈ scanWithOverlay q s
      (TransactionContext.pendingIndexOverlay { snapshotTs := 0 } q.index.indexId) ↔ _ :=
    mem_scanWithOverlay
  exact hempty

end Rows

theorem before_iff {order : ScanOrder} {a b : Bytes × DocumentValue} :
    order.before a b = true ↔ ¬ order.precedes b.1 a.1 := by
  cases order with
  | asc | desc => simpa [ScanOrder.before, ScanOrder.precedes] using compareKeyBytes_ne_gt

theorem precedes_of_before {order : ScanOrder} {a b : Bytes × DocumentValue}
    (h : order.before a b = true) (hne : a.1 ≠ b.1) : order.precedes a.1 b.1 := by
  have hnot := before_iff.1 h
  cases order with
  | asc => exact lt_of_le_of_ne (not_lt.1 hnot) hne
  | desc => exact lt_of_le_of_ne (not_lt.1 hnot) (Ne.symm hne)

theorem scanWithOverlay_sorted (q : ScanQuery) (s : StoreSnapshot)
    (overlay : List IndexOverlayEntry) :
    (scanWithOverlay q s overlay).Pairwise fun r r' => q.order.precedes r.1 r'.1 := by
  have htotal : Std.Total fun a b => q.order.before a b = true := ⟨fun a b => by
    rw [before_iff, before_iff]
    by_cases h : q.order.precedes b.1 a.1
    · exact .inr (ScanOrder.precedes_asymm h)
    · exact .inl h⟩
  have htrans : IsTrans (Bytes × DocumentValue) fun a b => q.order.before a b = true :=
    ⟨fun a b c hab hbc => by
      rw [before_iff] at hab hbc ⊢
      intro hca
      cases ho : q.order with
      | asc =>
        rw [ho] at hab hbc hca
        exact hab (lt_of_le_of_lt (not_lt.1 hbc) hca)
      | desc =>
        rw [ho] at hab hbc hca
        exact hab (lt_of_lt_of_le hca (not_lt.1 hbc))⟩
  have hnodup : ((scanWithOverlay q s overlay).map Prod.fst).Nodup :=
    ((perm_insertionSort _ _).map Prod.fst).nodup_iff.2 (OrderedMap.nodup _)
  exact ((pairwise_insertionSort (fun a b => q.order.before a b = true) _).and
    (pairwise_map.1 hnodup)).imp fun h => precedes_of_before h.1 h.2

theorem scanWithOverlay_nil (q : ScanQuery) (s : StoreSnapshot) :
    scanWithOverlay q s [] = (q.scan s.log s.bound).map fun r => (r.1, r.2.2) := by
  have hscan : ((q.scan s.log s.bound).map fun r => (r.1, r.2.2)).Pairwise
      fun r r' => q.order.precedes r.1 r'.1 := pairwise_map.2 (scan_sorted q s.log s.bound)
  refine sorted_eq_of_mem_iff (scanWithOverlay_sorted q s []) hscan fun row => ?_
  rw [show row = (row.1, row.2) from rfl, mem_scanWithOverlay_nil, mem_committed]

/-! ## The committed store -/

section Commit

variable {s : StoreSnapshot} {x : Commit DocumentValue}

theorem document_commit (hx : x.unit.Complete)
    (hts : ∀ d ∈ s.log, admits s.bound d.ts = true → d.ts < x.ts) :
    (s.commit x).document = visible s.document x.unit.ctx.staged := by
  have hlt : ∀ d ∈ s.log.filter (fun d => admits s.bound d.ts), d.ts < x.ts := fun d hd =>
    hts d (mem_filter.1 hd).1 (mem_filter.1 hd).2
  have hbase : docsAt (s.log.filter fun d => admits s.bound d.ts) none = s.document := by
    funext id
    rw [docsAt, getIn_filter]
    rfl
  have hcommit := docsAt_concat hlt hx none
  rw [hbase] at hcommit
  exact hcommit

theorem entry_commit (hts : ∀ d ∈ s.log, admits s.bound d.ts = true → d.ts < x.ts)
    (indexId : IndexId) (key : Bytes) : (s.commit x).entry indexId key =
      match lastUpdate x.unit.ctx.indexUpdates indexId key with
      | some (.nonClustered id) => some id
      | some .deleted => none
      | none => s.entry indexId key := by
  have hlt : ∀ d ∈ s.log.filter (fun d => admits s.bound d.ts), d.ts < x.ts := fun d hd =>
    hts d (mem_filter.1 hd).1 (mem_filter.1 hd).2
  have hbase : entryAt (s.log.filter fun d => admits s.bound d.ts) none indexId key =
      entryAt s.log s.bound indexId key := by
    rw [entryAt, indexEntryIn_filter, entryAt]
  have hcommit : entryAt (s.commit x).log (s.commit x).bound indexId key =
      (lastUpdate x.unit.ctx.indexUpdates indexId key).or (entryAt s.log s.bound indexId key) := by
    rw [← hbase]
    exact entryAt_concat hlt none indexId key
  rw [StoreSnapshot.entry, hcommit, StoreSnapshot.entry]
  cases lastUpdate x.unit.ctx.indexUpdates indexId key with
  | none => rfl
  | some update => cases update <;> rfl

/-- Every staged entry of an index points at a staged document. -/
def TransactionContext.StagesEntries (ctx : TransactionContext DocumentValue) (indexId : IndexId) :
    Prop :=
  ∀ key id, lastUpdate ctx.indexUpdates indexId key = some (.nonClustered id) → id ∈ ctx.staged.keys

/-- An entry that the transaction leaves alone shows the document as it was before. -/
def ShowsSame (s : StoreSnapshot) (ctx : TransactionContext DocumentValue) (indexId : IndexId)
    (key : Bytes) : Prop :=
  lastUpdate ctx.indexUpdates indexId key = none →
    ∀ id, s.entry indexId key = some id → visible s.document ctx.staged id = s.document id

variable {key : Bytes} {indexId : IndexId}

theorem overlaidValue_eq_iff (hx : x.unit.Complete)
    (hts : ∀ d ∈ s.log, admits s.bound d.ts = true → d.ts < x.ts)
    (hstages : x.unit.ctx.StagesEntries indexId) :
    overlaidValue s x.unit.ctx indexId key = (s.commit x).rowValue indexId key ↔
      ShowsSame s x.unit.ctx indexId key := by
  have hrow : (s.commit x).rowValue indexId key =
      ((s.commit x).entry indexId key).bind (s.commit x).document := rfl
  rw [hrow, entry_commit hts, document_commit hx hts, overlaidValue, ShowsSame]
  cases hlast : lastUpdate x.unit.ctx.indexUpdates indexId key with
  | some update =>
    cases update with
    | deleted => simp [overlayValue]
    | nonClustered id =>
      obtain ⟨value, hvalue⟩ : ∃ value, x.unit.ctx.staged.get? id = some value :=
        isSome_iff_exists.1 ((has_iff _).2 (hstages _ _ hlast))
      simp [overlayValue, visible, hvalue]
  | none =>
    rw [StoreSnapshot.rowValue]
    cases s.entry indexId key with
    | none => simp
    | some id => simpa using eq_comm

end Commit

variable {s : StoreSnapshot} {x : Commit DocumentValue}

theorem scanWithOverlay_eq_iff (hx : x.unit.Complete)
    (hts : ∀ d ∈ s.log, admits s.bound d.ts = true → d.ts < x.ts) (q : ScanQuery)
    (hstages : x.unit.ctx.StagesEntries q.index.indexId) :
    scanWithOverlay q s (x.unit.ctx.pendingIndexOverlay q.index.indexId) =
        scanWithOverlay q (s.commit x) [] ↔
      ∀ key, keyInRange key q.interval = true → ShowsSame s x.unit.ctx q.index.indexId key := by
  constructor
  · intro h key hin
    refine (overlaidValue_eq_iff hx hts hstages).1 (Option.ext fun value => ?_)
    have hmem : (key, value) ∈ scanWithOverlay q s
      (x.unit.ctx.pendingIndexOverlay q.index.indexId) ↔
        (key, value) ∈ scanWithOverlay q (s.commit x) [] := by rw [h]
    simpa [mem_scanWithOverlay, mem_scanWithOverlay_nil, hin] using hmem
  · intro h
    refine sorted_eq_of_mem_iff (scanWithOverlay_sorted ..)
      (scanWithOverlay_sorted ..) fun row => ?_
    rw [show row = (row.1, row.2) from rfl, mem_scanWithOverlay, mem_scanWithOverlay_nil]
    refine and_congr_right fun hin => ?_
    rw [(overlaidValue_eq_iff hx hts hstages).2 (h row.1 hin)]

/-! ## Results of merged rows -/

theorem collectLoop_documents (filters : List FilterExpr) (limit : Option Nat)
    (rows : List ScanRow) :
    ∀ found last, (collectLoop filters limit found last rows).map
      (fun r => r.found.map fun r => r.2.2) =
      collectMerged filters limit (found.map fun r => r.2.2) (rows.map fun r => (r.1, r.2.2)) := by
  induction rows with
  | nil => intro found last; rfl
  | cons row rows ih =>
    intro found last
    rw [collectLoop, map_cons, collectMerged]
    cases everyClause row.2.2 filters with
    | error e => rfl
    | ok b =>
      have hgo := ih (found ++ [row]) (some row.1)
      rw [map_append, map_singleton] at hgo
      cases b with
      | false => exact ih found (some row.1)
      | true =>
        simp only [Except.bind, if_true, List.length_map]
        split
        · simp [Except.map]
        · exact hgo

theorem collectWith_documents (q : ScanQuery) (s : StoreSnapshot)
    (overlay : List IndexOverlayEntry) : (q.collectWith s overlay).map QueryResult.documents =
      (collectMerged q.filters q.limit [] (scanWithOverlay q s overlay)).mapError .compare := by
  cases overlay with
  | nil =>
    have hloop := collectLoop_documents q.filters q.limit (q.scan s.log s.bound) [] none
    rw [map_nil] at hloop
    rw [scanWithOverlay_nil, ← hloop, ScanQuery.collectWith, collect]
    cases collectLoop q.filters q.limit [] none (q.scan s.log s.bound) <;> rfl
  | cons o os =>
    rw [ScanQuery.collectWith]
    cases collectMerged q.filters q.limit [] (scanWithOverlay q s (o :: os)) <;> rfl

/-- The filters throw on no row. -/
def Evaluates (filters : List FilterExpr) (rows : List (Bytes × DocumentValue)) : Prop :=
  ∀ row ∈ rows, ∃ b, everyClause row.2 filters = .ok b

def matchingPairs (filters : List FilterExpr) (rows : List (Bytes × DocumentValue)) :
    List (Bytes × DocumentValue) :=
  rows.filter fun row => everyClause row.2 filters = .ok true

/-- The first page of matching rows. -/
def pageAnswer (pageSize : Nat) (matched : List (Bytes × DocumentValue)) :
    List DocumentValue × Option JsString × Bool × Bool :=
  ((matched.take pageSize).map Prod.snd,
    if pageSize < matched.length then
      (matched.take pageSize).getLast?.map fun entry => bytesToBase64 entry.1
    else none,
    decide (pageSize < matched.length), false)

theorem filterM_of_evaluates {filters : List FilterExpr} {rows : List (Bytes × DocumentValue)}
    (h : Evaluates filters rows) :
    (rows.filterM fun row => everyClause row.2 filters) = .ok (matchingPairs filters rows) := by
  have haux : ∀ acc, rows.filterAuxM (fun row => everyClause row.2 filters) acc =
      .ok ((matchingPairs filters rows).reverse ++ acc) := by
    induction rows with
    | nil => intro acc; rfl
    | cons row rows ih =>
      intro acc
      obtain ⟨b, hb⟩ := h row mem_cons_self
      have ih := ih fun r hr => h r (mem_cons_of_mem _ hr)
      rw [List.filterAuxM, hb]
      refine (ih _).trans ?_
      cases b <;> simp [matchingPairs, hb]
  rw [List.filterM, haux []]
  simp [bind, Except.bind, pure, Except.pure]

theorem mergedPage_answer (q : ScanQuery) {pageSize : Nat} (hsize : 1 ≤ pageSize)
    (matched : List (Bytes × DocumentValue)) :
    (mergedPage q pageSize matched).map QueryPage.answer = .ok (pageAnswer pageSize matched) := by
  rw [mergedPage, mergedCursor, pageAnswer]
  by_cases hmore : pageSize < matched.length
  · have hne : matched.take pageSize ≠ [] := by
      rw [Ne, take_eq_nil_iff]
      rintro (rfl | rfl)
      · omega
      · simp at hmore
    obtain ⟨entry, hlast⟩ : ∃ entry, (matched.take pageSize).getLast? = some entry :=
      ⟨_, getLast?_eq_some_getLast hne⟩
    simp only [hmore, hlast]
    rfl
  · simp only [hmore]
    rfl

/-- Without a scan cap the loop of `paginate` takes the first matching rows and looks for one more.
-/
theorem pageLoop_of_evaluates {filters : List FilterExpr} (pageSize : Nat) {rows : List ScanRow}
    (h : ∀ row ∈ rows, ∃ b, everyClause row.2.2 filters = .ok b) :
    ∀ (scanned : Nat) (page : List ScanRow) (last : Option Bytes), page.length ≤ pageSize →
      ∃ last', pageLoop filters pageSize none scanned page last rows =
        .ok ⟨(page ++ rows.filter (passes filters)).take pageSize, last',
          decide (pageSize < (page ++ rows.filter (passes filters)).length), false⟩ := by
  induction rows with
  | nil =>
    intro scanned page last hlen
    refine ⟨last, ?_⟩
    rw [pageLoop, filter_nil, append_nil, take_of_length_le hlen,
      decide_eq_false (Nat.not_lt.2 hlen)]
  | cons row rows ih =>
    intro scanned page last hlen
    obtain ⟨b, hb⟩ := h row mem_cons_self
    have ih := ih (fun r hr => h r (mem_cons_of_mem _ hr)) (scanned + 1)
    have hpass : passes filters row = b := by simp [passes, hb]
    rw [pageLoop, hb, filter_cons, hpass]
    cases b with
    | false => exact ih page (some row.1) hlen
    | true =>
      by_cases hfull : pageSize ≤ page.length
      · refine ⟨some row.1, ?_⟩
        simp [Except.bind, hfull, take_append_of_le_length hfull, take_of_length_le hlen]
        omega
      · obtain ⟨last', hgo⟩ := ih (page ++ [row]) (some row.1) (by simp; omega)
        refine ⟨last', ?_⟩
        simpa [Except.bind, hfull] using hgo

theorem matchingPairs_map (filters : List FilterExpr) (rows : List ScanRow) :
    matchingPairs filters (rows.map fun r => (r.1, r.2.2)) =
      (rows.filter (passes filters)).map fun r => (r.1, r.2.2) := by
  rw [matchingPairs, List.filter_map]
  rfl

variable {q : ScanQuery}

/-- `paginate` returns the first page of matching merged rows; a scan cap counts only if there are
no changes to merge. -/
theorem paginateWith_answer {opts : PageOptions} {overlay : List IndexOverlayEntry}
    (hsize : 1 ≤ opts.pageSize) (heval : Evaluates q.filters (scanWithOverlay q s overlay))
    (hcap : overlay = [] → opts.maxScan = none) :
    (q.paginateWith s opts overlay).map QueryPage.answer =
      .ok (pageAnswer opts.pageSize (matchingPairs q.filters (scanWithOverlay q s overlay))) := by
  cases overlay with
  | nil =>
    rw [scanWithOverlay_nil] at heval ⊢
    have hrows : ∀ row ∈ q.scan s.log s.bound, ∃ b, everyClause row.2.2 q.filters = .ok b :=
      fun row hrow => heval _ (mem_map_of_mem hrow)
    obtain ⟨last, hloop⟩ := pageLoop_of_evaluates opts.pageSize hrows 0 [] none (Nat.zero_le _)
    rw [nil_append] at hloop
    rw [ScanQuery.paginateWith, paginate, hcap rfl, hloop, matchingPairs_map]
    simp only [Except.map, Except.mapError, pageAnswer, PageScan.lastIncluded,
      List.length_map, ← List.map_take, List.getLast?_map, List.map_map, Option.map_map,
      Bool.false_eq_true, if_false, decide_eq_true_eq]
    split
    · rw [Option.map_map]
      rfl
    · rfl
  | cons o os =>
    rw [ScanQuery.paginateWith, filterM_of_evaluates heval]
    exact mergedPage_answer q hsize _

/-! ## Queries of one index -/

/-- Inside the transaction a query returns what it returns once the transaction has committed. A
page with changes to merge has at least one document, no scan cap and filters that are evaluated on
all rows of its interval. -/
structure ReadsOwnWrites (query : Query) (s : StoreSnapshot) (x : Commit DocumentValue) : Prop where
  collect : (query.collect s (x.unit.ctx.pendingIndexOverlay query.index.indexId)).map
      QueryResult.documents = (query.collect (s.commit x) []).map QueryResult.documents
  paginate : ∀ opts : PageOptions, (x.unit.ctx.pendingIndexOverlay query.index.indexId ≠ [] →
      1 ≤ opts.pageSize ∧ ∀ base q, query.planned = .ok base → base.resume opts.cursor = .ok q →
        Evaluates query.filters (scanWithOverlay q (s.commit x) [])) →
    (query.paginate s opts (x.unit.ctx.pendingIndexOverlay query.index.indexId)).map
      QueryPage.answer =
    (query.paginate (s.commit x)
      (if (x.unit.ctx.pendingIndexOverlay query.index.indexId).isEmpty then opts
        else { opts with maxScan := none }) []).map QueryPage.answer

theorem planned_index {query : Query} (h : query.planned = .ok q) :
    q.index = query.index ∧ q.filters = query.filters := by
  obtain ⟨interval, -, rfl⟩ := map_eq_ok.1 h
  exact ⟨rfl, rfl⟩

theorem resume_index {q' : ScanQuery} {cursor : Option JsString} (h : q.resume cursor = .ok q') :
    q'.index = q.index ∧ q'.filters = q.filters := by
  unfold ScanQuery.resume at h
  split at h
  · cases h
    exact ⟨rfl, rfl⟩
  · cases h
    exact ⟨rfl, rfl⟩
  · split at h
    · cases h
    · split at h <;> cases h <;> exact ⟨rfl, rfl⟩

section Queries

variable {s : StoreSnapshot} {x : Commit DocumentValue}

/-- A transaction without changes of the index scans it as the committed store does. -/
theorem scan_commit_of_overlay_nil (hx : x.unit.Complete)
    (hts : ∀ d ∈ s.log, admits s.bound d.ts = true → d.ts < x.ts)
    (hsame : ∀ key, ShowsSame s x.unit.ctx q.index.indexId key)
    (hnil : x.unit.ctx.pendingIndexOverlay q.index.indexId = []) :
    q.scan (s.commit x).log (s.commit x).bound = q.scan s.log s.bound := by
  have hlast : ∀ key, lastUpdate x.unit.ctx.indexUpdates q.index.indexId key = none := by
    intro key
    have hget := get?_overlayByKey x.unit.ctx.staged q.index.indexId x.unit.ctx.indexUpdates key
    have hempty := map_eq_nil_iff.1 hnil
    rw [OrderedMap.get?, hempty] at hget
    exact map_eq_none_iff.1 hget.symm
  refine scan_eq_of_agreesOn fun range hrange indexId hks key _ => ?_
  rw [mem_singleton.1 hrange] at hks
  obtain rfl : indexId = q.index.indexId := by
    cases indexId
    cases hks
    rfl
  have hentry := entry_commit hts q.index.indexId key
  rw [hlast key] at hentry
  refine ⟨hentry.symm, fun id hid => ?_⟩
  rw [document_commit hx hts]
  exact (hsame key (hlast key) id hid).symm

theorem readsOwnWrites (hx : x.unit.Complete)
    (hts : ∀ d ∈ s.log, admits s.bound d.ts = true → d.ts < x.ts)
    {query : Query} (hstages : x.unit.ctx.StagesEntries query.index.indexId)
    (hsame : ∀ key, ShowsSame s x.unit.ctx query.index.indexId key) : ReadsOwnWrites query s x where
  collect := by
    rw [Query.collect, Query.collect]
    cases hplan : query.planned with
    | error e => rfl
    | ok q =>
      obtain ⟨hindex, -⟩ := planned_index hplan
      show (q.collectWith s _).map _ = (q.collectWith (s.commit x) []).map _
      rw [← hindex] at hsame hstages ⊢
      rw [collectWith_documents, collectWith_documents,
        (scanWithOverlay_eq_iff hx hts q hstages).2 fun key _ => hsame key]
  paginate opts hmerge := by
    rw [Query.paginate, Query.paginate]
    have hcursor : (if (x.unit.ctx.pendingIndexOverlay query.index.indexId).isEmpty then opts
        else { opts with maxScan := none }).cursor = opts.cursor := by split <;> rfl
    rw [hcursor]
    cases hplan : query.planned with
    | error e => rfl
    | ok base =>
      cases hresume : base.resume opts.cursor with
      | error e => simp only [Except.bind, hresume]
      | ok q =>
        simp only [Except.bind, hresume]
        obtain ⟨hindex, hfilters⟩ := planned_index hplan
        obtain ⟨hindex', hfilters'⟩ := resume_index hresume
        rw [← hindex, ← hindex'] at hsame hstages hmerge ⊢
        have hrows := (scanWithOverlay_eq_iff hx hts q hstages).2 fun key _ => hsame key
        cases hoverlay : x.unit.ctx.pendingIndexOverlay q.index.indexId with
        | nil =>
          have hscan := scan_commit_of_overlay_nil hx hts hsame hoverlay
          simp [ScanQuery.paginateWith, paginate, hscan]
        | cons o os =>
          obtain ⟨hsize, heval⟩ := hmerge (hoverlay ▸ cons_ne_nil o os)
          have hcommit := heval base q hplan hresume
          rw [← hfilters, ← hfilters'] at hcommit
          rw [hoverlay] at hrows
          have hplain : (q.paginateWith (s.commit x) { opts with maxScan := none } []).map
              QueryPage.answer = .ok (pageAnswer opts.pageSize
                (matchingPairs q.filters (scanWithOverlay q (s.commit x) []))) :=
            paginateWith_answer hsize hcommit fun _ => rfl
          rw [paginateWith_answer hsize (hrows ▸ hcommit) (fun h => (by cases h)), hrows]
          exact hplain.symm

end Queries

/-! ## Queries tell the rows apart -/

/-- Rows in descending order are known from the documents below each key. -/
theorem eq_of_below {α : Type} {rows rows' : List (Bytes × α)}
    (h : rows.Pairwise fun r r' => r'.1 < r.1) (h' : rows'.Pairwise fun r r' => r'.1 < r.1)
    (hall : rows.map Prod.snd = rows'.map Prod.snd)
    (hbelow : ∀ key : Bytes, key ≠ [] → (rows.filter fun r => r.1 < key).map Prod.snd =
      (rows'.filter fun r => r.1 < key).map Prod.snd) : rows = rows' := by
  induction rows generalizing rows' with
  | nil => exact (map_eq_nil_iff.1 hall.symm).symm
  | cons r rows ih =>
    cases rows' with
    | nil => simp at hall
    | cons r' rows' =>
      obtain ⟨hdoc, htail⟩ := List.cons.inj hall
      obtain ⟨hr, hrows⟩ := pairwise_cons.1 h
      obtain ⟨hr', hrows'⟩ := pairwise_cons.1 h'
      -- with different first keys the documents below the higher one are not equally many
      have hlen : rows.length = rows'.length := by simpa using congrArg List.length htail
      have hkeep : ∀ (rs : List (Bytes × α)) (key : Bytes), (∀ r ∈ rs, r.1 < key) →
          rs.filter (fun r => r.1 < key) = rs := fun rs key hrs =>
        filter_eq_self.2 fun r hr => decide_eq_true (hrs r hr)
      have hkey : r.1 = r'.1 := by
        rcases lt_trichotomy r.1 r'.1 with hlt | heq | hlt
        · have hcount := congrArg List.length
            (hbelow r'.1 fun hnil => not_lt_nil r.1 (hnil ▸ hlt))
          rw [filter_cons_of_pos (by simpa using hlt), filter_cons_of_neg (by simp),
            hkeep rows _ fun q hq => (hr q hq).trans hlt, hkeep rows' _ hr'] at hcount
          simp [hlen] at hcount
        · exact heq
        · have hcount := congrArg List.length
            (hbelow r.1 fun hnil => not_lt_nil r'.1 (hnil ▸ hlt))
          rw [filter_cons_of_pos (l := rows') (by simpa using hlt),
            filter_cons_of_neg (by simp), hkeep rows _ hr,
            hkeep rows' _ fun q hq => (hr' q hq).trans hlt] at hcount
          simp [hlen] at hcount
      have hrow : r = r' := Prod.ext hkey hdoc
      subst hrow
      refine congrArg (r :: ·) (ih hrows hrows' htail fun key hne => ?_)
      have hkeep := hbelow key hne
      by_cases hlt : r.1 < key
      · rw [filter_cons_of_pos (by simpa using hlt), filter_cons_of_pos (by simpa using hlt)]
          at hkeep
        exact (List.cons.inj hkeep).2
      · rw [filter_cons_of_neg (by simpa using hlt), filter_cons_of_neg (by simpa using hlt)]
          at hkeep
        exact hkeep

/-- Everything in an index, the highest key first. -/
def wholeQuery (idx : IndexSpec) : Query := ⟨idx, [], .desc, [], none⟩

/-- The keys below a bound. -/
def belowScan (idx : IndexSpec) (stop : Option Bytes) : ScanQuery :=
  ⟨idx, [], stop, .desc, [], none⟩

theorem wholeQuery_planned (idx : IndexSpec) :
    (wholeQuery idx).planned = .ok (belowScan idx none) := by
  have hplan : planFields [] idx.fields [] = ⟨[], none, none⟩ := by cases idx.fields <;> rfl
  have hinterval : buildIndexInterval idx.fields [] = .ok ⟨[], none⟩ := by
    rw [buildIndexInterval, hplan]
    rfl
  rw [Query.planned, wholeQuery, hinterval]
  rfl

/-- The keys after a key in scan order. -/
def ScanQuery.after (q : ScanQuery) (key : Bytes) : ScanQuery :=
  match q.order with
  | .asc => { q with start := keySuccessor key }
  | .desc => { q with stop := some key }

/-- An empty key has the cursor of the first page. -/
theorem resume_bytesToBase64 (q : ScanQuery) (hne : key ≠ []) :
    q.resume (some (bytesToBase64 key)) = .ok (q.after key) := by
  have hround := base64ToBytes_bytesToBase64 key
  cases hcursor : bytesToBase64 key with
  | nil =>
    have hempty : base64ToBytes [] = some [] := by decide
    rw [hcursor, hempty] at hround
    exact absurd (Option.some.inj hround).symm hne
  | cons unit units =>
    rw [hcursor] at hround
    rw [ScanQuery.resume, hround, ScanQuery.after]
    cases q.order <;> rfl

variable {idx : IndexSpec}

theorem keyInRange_belowScan {stop : Option Bytes} :
    keyInRange key (belowScan idx stop).interval = true ↔ ∀ b, stop = some b → key < b := by
  rw [keyInRange_iff]
  exact ⟨fun h => h.2, fun h => ⟨not_lt_nil key, h⟩⟩

theorem scanWithOverlay_below (idx : IndexSpec) (s : StoreSnapshot)
    (ctx : TransactionContext DocumentValue) (key : Bytes) :
    scanWithOverlay (belowScan idx (some key)) s (ctx.pendingIndexOverlay idx.indexId) =
      (scanWithOverlay (belowScan idx none) s (ctx.pendingIndexOverlay idx.indexId)).filter
        fun r => r.1 < key := by
  refine sorted_eq_of_mem_iff (scanWithOverlay_sorted ..)
    ((scanWithOverlay_sorted (belowScan idx none) ..).filter _) fun row => ?_
  have hmem : ∀ stop, row ∈ scanWithOverlay (belowScan idx stop) s
    (ctx.pendingIndexOverlay idx.indexId) ↔
      (∀ b, stop = some b → row.1 < b) ∧ overlaidValue s ctx idx.indexId row.1 = some row.2 := by
    intro stop
    rw [← keyInRange_belowScan]
    exact mem_scanWithOverlay
  rw [mem_filter, hmem, hmem]
  simp [and_comm]

theorem collectMerged_all (rows : List (Bytes × DocumentValue)) :
    ∀ found, collectMerged [] none found rows = .ok (found ++ rows.map Prod.snd) := by
  induction rows with
  | nil => intro found; simp [collectMerged]
  | cons row rows ih => intro found; simp [collectMerged, Except.bind, ih]

theorem matchingPairs_nil (rows : List (Bytes × DocumentValue)) : matchingPairs [] rows = rows :=
  filter_eq_self.2 fun _ _ => by simp

theorem collect_whole (idx : IndexSpec) (s : StoreSnapshot) (overlay : List IndexOverlayEntry) :
    ((wholeQuery idx).collect s overlay).map QueryResult.documents =
      .ok ((scanWithOverlay (belowScan idx none) s overlay).map Prod.snd) := by
  have hdocs := collectWith_documents (belowScan idx none) s overlay
  rw [show (belowScan idx none).filters = [] from rfl,
    show (belowScan idx none).limit = none from rfl,
    collectMerged_all, nil_append] at hdocs
  rw [Query.collect, wholeQuery_planned]
  exact hdocs

/-- The documents below a key are one page of the whole index, if the page is large enough. -/
theorem paginate_below (idx : IndexSpec) (s : StoreSnapshot)
    (ctx : TransactionContext DocumentValue)
    {stop : Bytes} (hne : stop ≠ []) {n : Nat} (hn : (scanWithOverlay (belowScan idx none) s
      (ctx.pendingIndexOverlay idx.indexId)).length < n) :
    ((wholeQuery idx).paginate s ⟨some (bytesToBase64 stop), n, none⟩
        (ctx.pendingIndexOverlay idx.indexId)).map (fun p => p.answer.1) =
      .ok (((scanWithOverlay (belowScan idx none) s (ctx.pendingIndexOverlay idx.indexId)).filter
        fun r => r.1 < stop).map Prod.snd) := by
  have hpage : ((belowScan idx (some stop)).paginateWith s ⟨some (bytesToBase64 stop), n, none⟩
      (ctx.pendingIndexOverlay idx.indexId)).map QueryPage.answer = _ :=
    paginateWith_answer (by show 1 ≤ n; omega) (fun _ _ => ⟨true, rfl⟩) fun _ => rfl
  have hlen : ((scanWithOverlay (belowScan idx none) s (ctx.pendingIndexOverlay idx.indexId)).filter
      fun r => r.1 < stop).length ≤ n := (length_filter_le _ _).trans hn.le
  rw [show (belowScan idx (some stop)).filters = [] from rfl, matchingPairs_nil,
    scanWithOverlay_below] at hpage
  rw [Query.paginate, wholeQuery_planned]
  simp only [Except.bind, resume_bytesToBase64 _ hne,
    show (belowScan idx none).after stop = belowScan idx (some stop) from rfl]
  obtain ⟨p, hp, hanswer⟩ := map_eq_ok.1 hpage
  rw [hp, Except.map, hanswer, pageAnswer, take_of_length_le hlen]

theorem showsSame_of_readsOwnWrites (hx : x.unit.Complete)
    (hts : ∀ d ∈ s.log, admits s.bound d.ts = true → d.ts < x.ts)
    (hstages : x.unit.ctx.StagesEntries idx.indexId) (h : ReadsOwnWrites (wholeQuery idx) s x)
    (key : Bytes) : ShowsSame s x.unit.ctx idx.indexId key := by
  have hrows : scanWithOverlay (belowScan idx none) s (x.unit.ctx.pendingIndexOverlay idx.indexId) =
      scanWithOverlay (belowScan idx none) (s.commit x) [] := by
    refine eq_of_below (scanWithOverlay_sorted (belowScan idx none) ..)
      (scanWithOverlay_sorted (belowScan idx none) ..) ?_ fun stop hne => ?_
    · have hcollect := h.collect
      rw [collect_whole, collect_whole] at hcollect
      exact Except.ok.inj hcollect
    · -- one page below the bound, with room for all rows of both stores
      obtain ⟨n, hn, hn'⟩ : ∃ n, (scanWithOverlay (belowScan idx none) s
          (x.unit.ctx.pendingIndexOverlay idx.indexId)).length < n ∧
          (scanWithOverlay (belowScan idx none) (s.commit x) []).length < n :=
        ⟨_ + _ + 1, Nat.lt_succ_of_le (Nat.le_add_right _ _),
          Nat.lt_succ_of_le (Nat.le_add_left _ _)⟩
      have hpage := h.paginate ⟨some (bytesToBase64 stop), n, none⟩ fun _ =>
        ⟨by show 1 ≤ n; omega, fun _ _ _ _ _ _ => ⟨true, by rfl⟩⟩
      rw [ite_self] at hpage
      have hmerged := paginate_below idx s x.unit.ctx hne hn
      have hplain := paginate_below idx (s.commit x) { snapshotTs := 0 } hne hn'
      rw [show TransactionContext.pendingIndexOverlay { snapshotTs := 0 } idx.indexId = [] from rfl]
        at hplain
      have hfirst : ∀ r : Except QueryError QueryPage, r.map (fun p => p.answer.1) =
          (r.map QueryPage.answer).map Prod.fst := fun r => by cases r <;> rfl
      rw [hfirst] at hmerged hplain
      exact Except.ok.inj (hmerged.symm.trans ((congrArg (Except.map Prod.fst) hpage).trans hplain))
  exact (scanWithOverlay_eq_iff hx hts (belowScan idx none) hstages).1 hrows key
    (keyInRange_belowScan.2 fun b hb => by cases hb)

/-! ## Staged writes -/

theorem value_of_mem_computeIndexUpdates {specs : List IndexSpec}
    {oldDoc newDoc : Option DocumentValue} {id : InternalDocumentId} {us : List DatabaseIndexUpdate}
    (h : computeIndexUpdates specs oldDoc newDoc id = .ok us) :
    ∀ u ∈ us, u.value = .deleted ∨ u.value = .nonClustered id := by
  induction specs generalizing us with
  | nil =>
    cases h
    simp
  | cons idx specs ih =>
    obtain ⟨oldKey, newKey, rest, -, -, hrest, rfl⟩ := computeIndexUpdates_cons h
    intro u hu
    rcases mem_append.1 hu with hu | hu
    · rcases mem_append.1 hu with hu | hu
      · refine .inl ?_
        split at hu
        · split at hu
          · cases hu
          · rw [mem_singleton.1 hu]
        · cases hu
      · refine .inr ?_
        split at hu
        · rw [mem_singleton.1 hu]
        · cases hu
    · exact ih hrest u hu

/-- Whether or not its keys can be encoded, a write stages its document before its entries. -/
theorem stagesEntries_stageOps (catalog : Catalog) (landed : List Nat)
    (h : ctx.StagesEntries indexId) (w : DocumentChange) :
    ((stageOps catalog w.id w.oldDoc w.newDoc).foldl
      (TransactionContext.apply landed) ctx).StagesEntries indexId := by
  obtain ⟨-, hstaged, hupdates⟩ := ctx.foldl_stageOps landed catalog w.id w.oldDoc w.newDoc
  intro key id hlast
  rw [hupdates, lastUpdate_append] at hlast
  rw [hstaged, mem_keys_set]
  cases hl : lastUpdate (stagedUpdates catalog w.id w.oldDoc w.newDoc) indexId key with
  | none =>
    rw [hl, none_or] at hlast
    exact .inr (h key id hlast)
  | some value =>
    rw [hl, some_or] at hlast
    cases hlast
    obtain ⟨u, hu, hvalue⟩ := map_eq_some_iff.1 hl
    have hu := mem_reverse.1 (mem_of_find?_eq_some hu)
    unfold stagedUpdates at hu
    split at hu
    · rename_i us hus
      rcases value_of_mem_computeIndexUpdates hus u hu with hu | hu
      · rw [hu] at hvalue
        cases hvalue
      · rw [hu] at hvalue
        cases hvalue
        exact .inl rfl
    · cases hu

/-- For every committed store and all writes that a transaction stages, with what their handlers
have read: the queries of an index return inside the transaction what they return after its commit
if and only if no entry of the index that the writes leave alone points at a document they change.
-/
theorem reads_own_writes_iff {catalog : Catalog} {landed : List Nat} {snapshotTs : Nat}
    {writes : List DocumentChange} {s : StoreSnapshot} {x : Commit DocumentValue}
    (hwrites : (stageWrites catalog landed { snapshotTs } writes).SameWrites x.unit.ctx)
    (hx : x.unit.Complete) (hts : ∀ d ∈ s.log, admits s.bound d.ts = true → d.ts < x.ts)
    (idx : IndexSpec) : (∀ query : Query, query.index = idx → ReadsOwnWrites query s x) ↔
      ∀ key, ShowsSame s x.unit.ctx idx.indexId key := by
  have hstages : x.unit.ctx.StagesEntries idx.indexId := by
    have hempty : ({ snapshotTs } : TransactionContext DocumentValue).StagesEntries idx.indexId :=
      fun key id h => by simp at h
    intro key id hlast
    rw [hwrites.indexUpdates] at hlast
    rw [hwrites.staged]
    have hstaged : (stageWrites catalog landed { snapshotTs } writes).StagesEntries idx.indexId :=
      foldlRecOn (motive := (TransactionContext.StagesEntries · idx.indexId)) writes _ hempty
        fun _ h w _ => stagesEntries_stageOps catalog landed h w
    exact hstaged key id hlast
  constructor
  · exact fun h => showsSame_of_readsOwnWrites hx hts hstages (h (wholeQuery idx) rfl)
  · rintro h query rfl
    exact readsOwnWrites hx hts hstages h

namespace OwnWritesExample

open KernelExample

def taggedItem (tag : String) : DocumentValue :=
  [(js "tag", .string (js tag)), (idField, .string itemId), (creationTimeField, .number ⟨0⟩)]

/-- The item is inserted at 1 and gets another tag at 2. -/
def insertion : DocumentChange := ⟨item, none, some (taggedItem "a")⟩

def retagging : DocumentChange := ⟨item, some (taggedItem "a"), some (taggedItem "b")⟩

def commitOf (ts : Nat) (w : DocumentChange) : Commit DocumentValue :=
  ⟨0, ts, ⟨0, stageWrites catalog [] { snapshotTs := ts - 1 } [w], [⟨w.id, none, w.newDoc⟩]⟩⟩

end OwnWritesExample

open KernelExample OwnWritesExample in
/-- The index entry of the old tag is deleted, so every query of the transaction returns what it
returns after the commit. -/
theorem reads_own_writes_retagged : (commitOf 2 retagging).unit.Complete ∧
    ∀ query : Query, query.index = byTag →
      ReadsOwnWrites query ⟨[commitOf 1 insertion], some 1⟩ (commitOf 2 retagging) := by
  have hwrites : (stageWrites catalog [] { snapshotTs := 1 } [retagging]).SameWrites
      (commitOf 2 retagging).unit.ctx := ⟨rfl, rfl, rfl⟩
  have hcomplete : (commitOf 2 retagging).unit.Complete := rfl
  have hts : ∀ d ∈ [commitOf 1 insertion], admits (some 1) d.ts = true → d.ts < 2 := by
    decide +kernel
  refine ⟨hcomplete, (reads_own_writes_iff hwrites hcomplete hts byTag).2 ?_⟩
  intro key hlast id hentry
  have hkeys : ∀ k ∈ indexKeys [commitOf 1 insertion] byTag.indexId,
      lastUpdate (commitOf 2 retagging).unit.ctx.indexUpdates byTag.indexId k ≠ none := by
    decide +kernel
  exact absurd hlast (hkeys key (mem_indexKeys_of_entryAt (StoreSnapshot.entry_eq_some.1 hentry)))

/-! ## Transactions of the kernel -/

/-- Entries in step with the documents: a document that the transaction changes has its old key
deleted or set again. -/
theorem showsSame_of_indexed {catalog : Catalog}
    (h : Indexed catalog s.document ctx.staged ctx.indexUpdates)
    (hc : EntriesFor catalog s.document (entryAt s.log s.bound)) (hidx : idx ∈ catalog.indexes)
    (key : Bytes) : ShowsSame s ctx idx.indexId key := by
  intro hlast id hentry
  obtain ⟨ht, doc, hdoc, hkey⟩ := (hc.iff idx hidx key id).1 (StoreSnapshot.entry_eq_some.1 hentry)
  cases hs : ctx.staged.get? id with
  | none => rw [visible, hs, getD_none]
  | some value => exact absurd hlast (h.lastUpdate_stored hidx ht hs hdoc hkey)

namespace KernelTransactor.Inv

variable {catalog : Catalog} {t : KernelTransactor}

/-- Every transaction reads its own writes: the queries of its body return what they return on the
store of its snapshot after its commit. -/
theorem readsOwnWrites (h : Inv catalog t) (hctx : t.base.writer.HasContext x.unit.ctx)
    (hx : x.unit.Complete) (hts : x.unit.ctx.snapshotTs < x.ts) {query : Query}
    (hidx : query.index ∈ catalog.indexes) :
    ReadsOwnWrites query ⟨t.base.store.log, some x.unit.ctx.snapshotTs⟩ x := by
  have hindexed := h.contexts _ hctx
  refine Helipod.readsOwnWrites hx (fun d _ hd => ?_) (fun key id hlast => ?_) fun key =>
    showsSame_of_indexed hindexed (h.log.entriesFor _) hidx key
  · have hle : d.ts ≤ x.unit.ctx.snapshotTs := by simpa [admits] using hd
    omega
  · obtain ⟨-, doc, hs, -⟩ := hindexed.sound _ hidx key id hlast
    exact (has_iff _).1 (by simp [hs])

end KernelTransactor.Inv

namespace OwnWritesExample

open KernelExample MutationExample

/-- The item gets an array as its tag, which has no index key. The body catches the error. -/
def retagWithArray : List KernelEvent :=
  insertTagged 0 (.string (js "a")) ++ commitAt 0 1 ++
    [.transactor (.start 8), .call 1 kernelContext (.replace itemId [(js "tag", .array [])]),
      .resume 1 true, .resume 1 true, .resume 1 true, .resume 1 true, .resume 1 true]

def tags (r : Except QueryError QueryResult) : Option (List JsValue) :=
  r.toOption.map fun r => r.documents.map fun doc => JsValue.property doc (js "tag")

end OwnWritesExample

open KernelExample MutationExample OwnWritesExample KernelTransactor in
/-- The body still finds the item with its old tag in the index, where the committed store has the
new one. -/
theorem caught_write_not_read : ∃ t c t',
    Runs.run (KernelTransactor.step catalog) (new ⟨[], 0⟩ 0 false) retagWithArray = some t ∧
    t.base.writer.calls[1]? = some c ∧
    visible (t.snapshot c.ctx) c.ctx.staged item ≠ t.snapshot c.ctx item ∧
    Runs.run (KernelTransactor.step catalog) t
      (.transactor (.bodyReturns 1) :: commitAt 1 2) = some t' ∧
    tags ((wholeQuery byTag).collect ⟨t.base.store.log, some c.ctx.snapshotTs⟩
      (c.ctx.pendingIndexOverlay byTag.indexId)) = some [.value (.string (js "a"))] ∧
    tags ((wholeQuery byTag).collect ⟨t'.base.store.log, none⟩ []) = some [.value (.array [])] := by
  simp only [exists_and_left]
  decide +kernel

end Helipod
