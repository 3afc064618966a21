import Helipod.Kernel.IndexLog

/-!
# Running queries

Model of `collect` and `paginate` (`query-engine/src/query-runtime.ts`) for a query, which
has no staged writes: the loops over the rows of an index scan, what they return and what
they record as read. The interval of a query is given; for a later page it starts or ends
at the cursor.

Results:
* `pageLoop_spec`, `paginate_bounds`
* `matchingRows_eq_ok`: the rows that pass the filters.
-/

namespace Helipod

open List

open Except (map_eq_ok bind_eq_ok)

inductive ScanOrder where
  | asc | desc
  deriving DecidableEq

/-- Rows in scan order, turned into key order or back. -/
def ScanOrder.ascending {α : Type} : ScanOrder → List α → List α
  | .asc, rows => rows
  | .desc, rows => rows.reverse

theorem ScanOrder.ascending_perm {α : Type} (order : ScanOrder) (rows : List α) :
    (order.ascending rows).Perm rows := by
  cases order with
  | asc => exact .refl _
  | desc => exact reverse_perm rows

theorem ScanOrder.map_ascending {α β : Type} (order : ScanOrder) (f : α → β) (rows : List α) :
    (order.ascending rows).map f = order.ascending (rows.map f) := by
  cases order with
  | asc => rfl
  | desc => exact map_reverse

theorem ScanOrder.ascending_ascending {α : Type} (order : ScanOrder) (rows : List α) :
    order.ascending (order.ascending rows) = rows := by
  cases order with
  | asc => rfl
  | desc => exact reverse_reverse rows

/-- A row of a scan: the key, the id and the document. -/
abbrev ScanRow := Bytes × InternalDocumentId × DocumentValue

structure ScanQuery where
  index : IndexSpec
  start : Bytes
  stop : Option Bytes
  order : ScanOrder
  filters : List FilterExpr
  limit : Option Nat

namespace ScanQuery

variable (q : ScanQuery)

def keyspace : Keyspace := q.index.indexId.keyspace

/-- The whole interval. -/
def interval : KeyRange := ⟨q.keyspace, q.start, q.stop⟩

/-- `index_scan` of the interval. -/
def scan (log : List (Commit DocumentValue)) (bound : Option Nat) : List ScanRow :=
  Store.indexScan log q.index.indexId bound q.start q.stop (q.order = .desc) none

/-- The part of the interval up to the last row that was read. -/
def consumedRange (lastScanned : Option Bytes) : KeyRange :=
  match lastScanned with
  | none => q.interval
  | some key =>
    match q.order with
    | .asc => ⟨q.keyspace, q.start, some (keySuccessor key)⟩
    | .desc => ⟨q.keyspace, key, q.stop⟩

end ScanQuery

/-! ## Collect -/

structure CollectScan where
  found : List ScanRow
  lastScanned : Option Bytes
  hitLimit : Bool

def collectLoop (filters : List FilterExpr) (limit : Option Nat) (found : List ScanRow)
    (lastScanned : Option Bytes) : List ScanRow → Except CompareError CollectScan
  | [] => .ok ⟨found, lastScanned, false⟩
  | row :: rows => (everyClause row.2.2 filters).bind fun passes =>
    if passes then
      if limit.any fun n => n ≤ found.length + 1 then .ok ⟨found ++ [row], some row.1, true⟩
      else collectLoop filters limit (found ++ [row]) (some row.1) rows
    else collectLoop filters limit found (some row.1) rows

structure CollectResult where
  documents : List ScanRow
  readRange : KeyRange
  deriving DecidableEq

/-- The read range is cut only if the limit was reached. -/
def collect (q : ScanQuery) (log : List (Commit DocumentValue)) (bound : Option Nat) :
    Except CompareError CollectResult :=
  (collectLoop q.filters q.limit [] none (q.scan log bound)).map fun r =>
    ⟨r.found, if r.hitLimit then q.consumedRange r.lastScanned else q.interval⟩

/-! ## Paginate -/

structure PageScan where
  page : List ScanRow
  lastScanned : Option Bytes
  hasMore : Bool
  scanCapped : Bool

def pageLoop (filters : List FilterExpr) (pageSize : Nat) (maxScan : Option Nat) (scanned : Nat)
    (page : List ScanRow) (lastScanned : Option Bytes) : List ScanRow → Except CompareError PageScan
  | [] => .ok ⟨page, lastScanned, false, false⟩
  | row :: rows => (everyClause row.2.2 filters).bind fun passes =>
    if passes && decide (pageSize ≤ page.length) then .ok ⟨page, some row.1, true, false⟩
    else
      let included := if passes then page ++ [row] else page
      if maxScan.any fun n => n ≤ scanned + 1 then
        .ok ⟨included, some row.1, true, decide (included.length < pageSize)⟩
      else pageLoop filters pageSize maxScan (scanned + 1) included (some row.1) rows

structure PaginatedResult where
  page : List ScanRow
  nextCursor : Option JsString
  hasMore : Bool
  scanCapped : Bool
  readRange : KeyRange
  /-- The interval that the page owns. -/
  pageBounds : KeyRange

def PageScan.lastIncluded (r : PageScan) : Option Bytes := r.page.getLast?.map (·.1)

def pageBounds (q : ScanQuery) (r : PageScan) : KeyRange :=
  if !r.hasMore then q.interval
  else q.consumedRange r.lastIncluded

def paginate (q : ScanQuery) (log : List (Commit DocumentValue)) (bound : Option Nat)
    (pageSize : Nat) (maxScan : Option Nat) : Except CompareError PaginatedResult :=
  (pageLoop q.filters pageSize maxScan 0 [] none (q.scan log bound)).map fun r =>
    { page := r.page
      nextCursor :=
        (if r.scanCapped then r.lastScanned else if r.hasMore then r.lastIncluded else none).map
          bytesToBase64
      hasMore := r.hasMore
      scanCapped := r.scanCapped
      readRange := if r.hasMore || r.scanCapped then q.consumedRange r.lastScanned else q.interval
      pageBounds := pageBounds q r }

/-! ## Matching rows -/

/-- The rows that pass the filters. -/
def matchingRows (filters : List FilterExpr) : List ScanRow → Except CompareError (List ScanRow)
  | [] => .ok []
  | row :: rows => (everyClause row.2.2 filters).bind fun passes =>
    (matchingRows filters rows).map fun ms => if passes then row :: ms else ms

def passes (filters : List FilterExpr) (row : ScanRow) : Bool :=
  everyClause row.2.2 filters = .ok true

theorem matchingRows_eq_ok {filters : List FilterExpr} {rows ms : List ScanRow} :
    matchingRows filters rows = .ok ms ↔
      (∀ row ∈ rows, ∃ b, everyClause row.2.2 filters = .ok b) ∧
        ms = rows.filter (passes filters) := by
  induction rows generalizing ms with
  | nil => simp [matchingRows]
  | cons row rows ih =>
    rw [matchingRows]
    cases hrow : everyClause row.2.2 filters with
    | error e => simp [Except.bind, hrow]
    | ok b =>
      have hpass : passes filters row = b := by simp [passes, hrow]
      cases hrest : matchingRows filters rows with
      | error e =>
        have hnot : ¬ ∀ row ∈ rows, ∃ b, everyClause row.2.2 filters = .ok b := fun hall => by
          rw [ih.2 ⟨hall, rfl⟩] at hrest
          cases hrest
        simp only [forall_mem_cons]
        exact ⟨fun h => (by cases h), fun h => absurd h.1.2 hnot⟩
      | ok rest =>
        obtain ⟨hall, hrest⟩ := ih.1 hrest
        simp only [Except.bind, Except.map, forall_mem_cons, hrow, filter_cons, hpass,
          Except.ok.injEq, exists_eq', true_and, ← hrest]
        exact ⟨fun h => ⟨hall, h.symm⟩, fun h => h.2.symm⟩

theorem collectLoop_eq (filters : List FilterExpr) (rows : List ScanRow) :
    ∀ found last, (collectLoop filters none found last rows).map (fun r => (r.found, r.hitLimit)) =
      (matchingRows filters rows).map fun ms => (found ++ ms, false) := by
  induction rows with
  | nil => intro found last; simp [collectLoop, matchingRows, Except.map]
  | cons row rows ih =>
    intro found last
    rw [collectLoop, matchingRows]
    cases everyClause row.2.2 filters with
    | error e => rfl
    | ok b =>
      cases b with
      | false =>
        refine (ih found (some row.1)).trans ?_
        cases matchingRows filters rows <;> rfl
      | true =>
        refine (ih (found ++ [row]) (some row.1)).trans ?_
        cases matchingRows filters rows <;> simp [Except.bind, Except.map]

/-- Without a limit `collect` returns the matching rows of the interval and has read all of it. -/
theorem collect_eq_ok {q : ScanQuery} {log : List (Commit DocumentValue)} {bound : Option Nat}
    {r : CollectResult} (hlimit : q.limit = none) (h : collect q log bound = .ok r) :
    matchingRows q.filters (q.scan log bound) = .ok r.documents ∧ r.readRange = q.interval := by
  rw [collect, hlimit] at h
  obtain ⟨c, hc, rfl⟩ := map_eq_ok.1 h
  have hloop := collectLoop_eq q.filters (q.scan log bound) [] none
  rw [hc] at hloop
  obtain ⟨ms, hms, hpair⟩ := map_eq_ok.1 hloop.symm
  obtain ⟨hfound, hhit⟩ := Prod.mk.inj hpair
  refine ⟨hms.trans (congrArg Except.ok (by simpa using hfound)), ?_⟩
  simp [← hhit]

/-- A page takes the matching rows of a first part of the scan; without more to come that is all
of it, at the scan cap the part ends with the last row that was looked at, and otherwise the page is
full. -/
theorem pageLoop_spec {filters : List FilterExpr} {pageSize : Nat} {maxScan : Option Nat}
    {rows : List ScanRow} : ∀ {scanned : Nat} {page : List ScanRow} {last : Option Bytes}
      {r : PageScan}, pageLoop filters pageSize maxScan scanned page last rows = .ok r →
    ∃ pre post ms, rows = pre ++ post ∧ matchingRows filters pre = .ok ms ∧ r.page = page ++ ms ∧
      (r.hasMore = false → post = []) ∧
      (r.scanCapped = true → r.hasMore = true ∧ r.lastScanned = pre.getLast?.map (·.1) ∧ pre ≠ []) ∧
      (r.hasMore = true → r.scanCapped = false → pageSize ≤ r.page.length) := by
  induction rows with
  | nil =>
    intro scanned page last r h
    cases h
    exact ⟨[], [], [], rfl, rfl, by simp, fun _ => rfl, fun h =>
      (by cases h), fun h => (by cases h)⟩
  | cons row rows ih =>
    intro scanned page last r h
    obtain ⟨b, hrow, h⟩ := bind_eq_ok.1 h
    have hone : ∀ {pre ms : List ScanRow}, matchingRows filters pre = .ok ms →
        matchingRows filters (row :: pre) = .ok (if b then row :: ms else ms) := by
      intro pre ms hms
      rw [matchingRows, hrow, hms]
      rfl
    dsimp only at h
    split at h
    · rename_i hfull
      cases h
      exact ⟨[], row :: rows, [], rfl, rfl, by simp, fun h => (by cases h), fun h => (by cases h),
        fun _ _ => of_decide_eq_true ((Bool.and_eq_true _ _).mp hfull).2⟩
    · split at h
      · cases h
        refine ⟨[row], rows, if b then [row] else [], rfl, hone rfl, ?_, fun h => (by cases h),
          fun _ => ⟨rfl, rfl, cons_ne_nil _ _⟩, fun _ hfull => not_lt.1 (of_decide_eq_false hfull)⟩
        cases b <;> simp
      · obtain ⟨pre, post, ms, hsplit, hms, hpage, hmore, hcap, hfull⟩ := ih h
        refine ⟨row :: pre, post, _, by rw [hsplit, cons_append], hone hms, ?_, hmore,
          fun hcapped => ?_, hfull⟩
        · rw [hpage]
          cases b <;> simp
        · obtain ⟨hm, hlast, hne⟩ := hcap hcapped
          exact ⟨hm, by rw [hlast, getLast?_cons_of_ne_nil hne], cons_ne_nil _ _⟩

/-! ## Intervals of one scan -/

/-- The whole index in one order. -/
def wholeScan (log : List (Commit DocumentValue)) (indexId : IndexId) (bound : Option Nat)
    (order : ScanOrder) : List ScanRow :=
  Store.indexScan log indexId bound [] none (order = .desc) none

theorem filter_filterMap_scanRow (log : List (Commit DocumentValue)) (indexId : IndexId)
    (bound : Option Nat) (p : Bytes → Bool) (keys : List Bytes) :
    (keys.filter p).filterMap (Store.scanRow log indexId bound) =
      (keys.filterMap (Store.scanRow log indexId bound)).filter fun r => p r.1 := by
  induction keys with
  | nil => rfl
  | cons key keys ih =>
    cases hrow : Store.scanRow log indexId bound key with
    | none => cases hp : p key <;> simp [hp, hrow, ih]
    | some row =>
      have hkey := Store.fst_scanRow hrow
      cases hp : p key <;> simp [hp, hrow, ih, hkey]

theorem indexScan_eq_filter (log : List (Commit DocumentValue)) (indexId : IndexId)
    (bound : Option Nat) (start : Bytes) (stop : Option Bytes) (order : ScanOrder) :
    Store.indexScan log indexId bound start stop (order = .desc) none =
      (wholeScan log indexId bound order).filter fun r =>
        keyInRange r.1 ⟨indexId.keyspace, start, stop⟩ := by
  have hall : (Store.indexKeys log indexId).filter
      (fun k => keyInRange k ⟨indexId.keyspace, [], none⟩) = Store.indexKeys log indexId :=
    filter_eq_self.2 fun k _ => keyInRange_iff.2 ⟨not_lt_nil k, by simp⟩
  rw [wholeScan, Store.indexScan, Store.indexScan, hall]
  cases order with
  | asc => exact filter_filterMap_scanRow log indexId bound _ _
  | desc =>
    have hrev := filter_filterMap_scanRow log indexId bound
      (fun k => keyInRange k ⟨indexId.keyspace, start, stop⟩) (Store.indexKeys log indexId).reverse
    rw [filter_reverse] at hrev
    exact hrev

/-- Earlier in a scan. -/
def ScanOrder.precedes : ScanOrder → Bytes → Bytes → Prop
  | .asc, a, b => a < b
  | .desc, a, b => b < a

theorem wholeScan_desc (log : List (Commit DocumentValue)) (indexId : IndexId)
    (bound : Option Nat) : wholeScan log indexId bound .desc =
      (Store.indexScan log indexId bound [] none false none).reverse := by
  exact filterMap_reverse ..

variable {order : ScanOrder}

theorem mem_wholeScan {log : List (Commit DocumentValue)} {indexId : IndexId} {bound : Option Nat}
    {r : ScanRow} : r ∈ wholeScan log indexId bound order ↔
      r ∈ Store.indexScan log indexId bound [] none false none := by
  cases order with
  | asc => rfl
  | desc => rw [wholeScan_desc, mem_reverse]

theorem wholeScan_sorted (log : List (Commit DocumentValue)) (indexId : IndexId)
    (bound : Option Nat) (order : ScanOrder) :
    (wholeScan log indexId bound order).Pairwise fun r r' => order.precedes r.1 r'.1 := by
  have hasc := Store.indexScan_sorted log indexId bound
  cases order with
  | asc => exact hasc
  | desc =>
    rw [wholeScan_desc, pairwise_reverse]
    exact hasc

theorem ScanQuery.scan_eq_filter (q : ScanQuery) (log : List (Commit DocumentValue))
    (bound : Option Nat) :
    q.scan log bound = (wholeScan log q.index.indexId bound q.order).filter fun r =>
      keyInRange r.1 q.interval :=
  indexScan_eq_filter ..

theorem keyInRange_consumedRange (q : ScanQuery) {key : Bytes}
    (hkey : keyInRange key q.interval = true)
    (k : Bytes) : keyInRange k (q.consumedRange (some key)) = true ↔
      keyInRange k q.interval = true ∧ ¬ q.order.precedes key k := by
  obtain ⟨hstart, hstop⟩ := keyInRange_iff.1 hkey
  cases horder : q.order with
  | asc =>
    simp only [ScanQuery.consumedRange, horder, keyInRange_iff, Option.some.injEq, forall_eq',
      lt_keySuccessor_iff]
    exact ⟨fun h => ⟨⟨h.1, fun b hb => lt_of_le_of_lt (not_lt.1 h.2) (hstop b hb)⟩, h.2⟩,
      fun h => ⟨h.1.1, h.2⟩⟩
  | desc =>
    simp only [ScanQuery.consumedRange, horder, keyInRange_iff]
    exact ⟨fun h => ⟨⟨fun hlt => hstart (lt_of_le_of_lt (not_lt.1 h.1) hlt), h.2⟩, h.1⟩,
      fun h => ⟨h.2, h.1.2⟩⟩

theorem ScanOrder.precedes_asymm {a b : Bytes} (h : order.precedes a b) : ¬ order.precedes b a := by
  cases order with
  | asc | desc => exact lt_asymm h

theorem not_precedes_getLast {ms : List ScanRow} {row : ScanRow}
    (hsorted : ms.Pairwise fun r r' => order.precedes r.1 r'.1) (hlast : ms.getLast? = some row) :
    ∀ m ∈ ms, ¬ order.precedes row.1 m.1 := by
  obtain ⟨init, rfl⟩ := getLast?_eq_some_iff.1 hlast
  intro m hm
  rcases mem_append.1 hm with hm | hm
  · exact ScanOrder.precedes_asymm ((pairwise_append.1 hsorted).2.2 m hm row (by simp))
  · rw [mem_singleton.1 hm]
    exact fun h => ScanOrder.precedes_asymm h h

section Scans

variable {q : ScanQuery} {log : List (Commit DocumentValue)} {bound : Option Nat}

theorem scan_sorted (q : ScanQuery) (log : List (Commit DocumentValue)) (bound : Option Nat) :
    (q.scan log bound).Pairwise fun r r' => q.order.precedes r.1 r'.1 := by
  rw [q.scan_eq_filter]
  exact (wholeScan_sorted log q.index.indexId bound q.order).filter _

theorem keyInRange_of_mem_scan {row : ScanRow} (h : row ∈ q.scan log bound) :
    keyInRange row.1 q.interval = true := by
  rw [q.scan_eq_filter] at h
  exact (mem_filter.1 h).2

theorem consumedRange_keyspace (q : ScanQuery) (last : Option Bytes) :
    (q.consumedRange last).keyspace = q.keyspace := by
  unfold ScanQuery.consumedRange
  cases last with
  | none => rfl
  | some key => cases q.order <;> rfl

/-- What has been consumed up to a row of a first part of the scan lies in that part. -/
theorem filter_consumedRange {pre post : List ScanRow} {row : ScanRow}
    (hscan : q.scan log bound = pre ++ post) (hrow : row ∈ pre) :
    (q.scan log bound).filter (fun r => keyInRange r.1 (q.consumedRange (some row.1))) =
      pre.filter fun r => keyInRange r.1 (q.consumedRange (some row.1)) := by
  have hin : keyInRange row.1 q.interval = true :=
    keyInRange_of_mem_scan (hscan ▸ mem_append_left _ hrow)
  have hsorted := scan_sorted q log bound
  rw [hscan] at hsorted ⊢
  have hpost : post.filter (fun r => keyInRange r.1 (q.consumedRange (some row.1))) = [] :=
    filter_eq_nil_iff.2 fun r hr hk => ((keyInRange_consumedRange q hin r.1).1 hk).2
      ((pairwise_append.1 hsorted).2.2 row hrow r hr)
  rw [filter_append, hpost, append_nil]

/-- A page is the matching rows of its own bounds, unless there is more and nothing in it. -/
theorem paginate_bounds {pageSize : Nat} {maxScan : Option Nat} {r : PaginatedResult}
    (h : paginate q log bound pageSize maxScan = .ok r) (hpage : r.hasMore = true → r.page ≠ []) :
    matchingRows q.filters (Store.indexScan log q.index.indexId bound r.pageBounds.start
      r.pageBounds.stop (q.order = .desc) none) = .ok r.page := by
  obtain ⟨p, hloop, rfl⟩ := map_eq_ok.1 h
  obtain ⟨pre, post, ms, hsplit, hms, hpg, hmore, -⟩ := pageLoop_spec hloop
  have hpg : p.page = ms := by simpa using hpg
  show matchingRows q.filters (Store.indexScan log q.index.indexId bound (pageBounds q p).start
    (pageBounds q p).stop (q.order = .desc) none) = .ok p.page
  cases hm : p.hasMore with
  | false =>
    rw [hmore hm, append_nil] at hsplit
    rw [pageBounds, hm, hpg, ← hms, ← hsplit]
    rfl
  | true =>
    have hne : ms ≠ [] := hpg ▸ hpage hm
    obtain ⟨row, hrow⟩ : ∃ row, ms.getLast? = some row := ⟨_, getLast?_eq_some_getLast hne⟩
    obtain ⟨hevaluated, rfl⟩ := matchingRows_eq_ok.1 hms
    have hmem : ∀ r ∈ pre, r ∈ q.scan log bound := fun r hr => hsplit ▸ mem_append_left _ hr
    have hrowpre : row ∈ pre := (mem_filter.1 (mem_of_getLast? hrow)).1
    have hconsumed := keyInRange_consumedRange q (keyInRange_of_mem_scan (hmem row hrowpre))
    have hbounds : pageBounds q p = q.consumedRange (some row.1) := by
      rw [pageBounds, hm, PageScan.lastIncluded, hpg, hrow]
      rfl
    -- the rows in the bounds are those of the first part up to the last included one
    have hscan : Store.indexScan log q.index.indexId bound (pageBounds q p).start
        (pageBounds q p).stop (q.order = .desc) none =
        pre.filter fun r => keyInRange r.1 (q.consumedRange (some row.1)) := by
      rw [← filter_consumedRange hsplit hrowpre, q.scan_eq_filter, filter_filter, hbounds,
        indexScan_eq_filter, show q.index.indexId.keyspace = (q.consumedRange (some row.1)).keyspace
          from (consumedRange_keyspace q _).symm]
      refine filter_congr fun r _ => ?_
      rw [Bool.eq_iff_iff, Bool.and_eq_true]
      exact ⟨fun hr => ⟨hr, ((hconsumed r.1).1 hr).1⟩, And.left⟩
    rw [hscan, hpg]
    refine matchingRows_eq_ok.2 ⟨fun r hr => hevaluated r (mem_filter.1 hr).1, ?_⟩
    rw [filter_comm]
    refine (filter_eq_self.2 fun r hr => ?_).symm
    have hsorted : pre.Pairwise fun r r' => q.order.precedes r.1 r'.1 :=
      (scan_sorted q log bound).sublist (hsplit ▸ sublist_append_left _ _)
    exact (hconsumed r.1).2 ⟨keyInRange_of_mem_scan (hmem r (mem_filter.1 hr).1),
      not_precedes_getLast (hsorted.filter _) hrow r hr⟩

end Scans

end Helipod
