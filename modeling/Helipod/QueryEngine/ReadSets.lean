import Helipod.Lib.Windows
import Helipod.QueryEngine.Plan

/-!
# A read set covers what a query depends on

`collect` and `paginate` stop early at a limit, a full page or the scan cap, and record only the
part of the interval they went through. Two stores that hold the same index entries in the recorded
ranges, and the same documents for them, give the same result.

Results:
* `collectLoop_stop`, `pageLoop_stop`, `readSet_determines_result`
* `scan_eq_of_agreesOn`, `scan_split_of_agreesOn`: the scans agree on an interval that agrees, and
  up to a row if the keys up to that row agree.
-/

namespace Helipod

open List

open Except (map_eq_ok mapError_eq_ok bind_eq_ok)
open Windows (eq_filter_append)

/-! ## Stores that agree -/

namespace StoreSnapshot

/-- The document that a key of an index points to. -/
def entry (s : StoreSnapshot) (indexId : IndexId) (key : Bytes) : Option InternalDocumentId :=
  match Store.entryAt s.log s.bound indexId key with
  | some (.nonClustered id) => some id
  | _ => none

def document (s : StoreSnapshot) (id : InternalDocumentId) : Option DocumentValue :=
  Store.docsAt s.log s.bound id

/-- The same index entries in the ranges, and the same documents for them. -/
def AgreesOn (s s' : StoreSnapshot) (readSet : RangeSet) : Prop :=
  ∀ range ∈ readSet, ∀ indexId : IndexId, indexId.keyspace = range.keyspace →
    ∀ key, keyInRange key range = true →
      s.entry indexId key = s'.entry indexId key ∧
        ∀ id, s.entry indexId key = some id → s.document id = s'.document id

variable {s s' : StoreSnapshot} {indexId : IndexId} {key : Bytes}

theorem entry_eq_some {id : InternalDocumentId} : s.entry indexId key = some id ↔
    Store.entryAt s.log s.bound indexId key = some (.nonClustered id) := by
  unfold entry
  split
  · rename_i id' he
    rw [he]
    simp
  · rename_i hnot
    simp only [reduceCtorEq, false_iff]
    exact hnot id

variable {row : ScanRow}

theorem scanRow_eq_some : Store.scanRow s.log indexId s.bound key = some row ↔
    row.1 = key ∧ s.entry indexId key = some row.2.1 ∧ s.document row.2.1 = some row.2.2 := by
  rw [entry_eq_some]
  exact Store.scanRow_eq_some

theorem AgreesOn.scanRow_eq {range : KeyRange} (h : s.AgreesOn s' [range])
    (hks : indexId.keyspace = range.keyspace) (hkey : keyInRange key range = true) :
    Store.scanRow s.log indexId s.bound key = Store.scanRow s'.log indexId s'.bound key := by
  obtain ⟨hentry, hdoc⟩ := h range (by simp) indexId hks key hkey
  refine Option.ext fun row => ?_
  rw [scanRow_eq_some, scanRow_eq_some, ← hentry]
  refine and_congr_right fun _ => and_congr_right fun he => ?_
  rw [hdoc _ he]

end StoreSnapshot

/-! ## Scans of stores that agree -/

variable {order : ScanOrder}

theorem ScanOrder.precedes_trans {a b c : Bytes} (h : order.precedes a b)
    (h' : order.precedes b c) : order.precedes a c := by
  cases order with
  | asc => exact lt_trans h h'
  | desc => exact lt_trans h' h

theorem mem_wholeScan_iff {log : List (Commit DocumentValue)} {indexId : IndexId}
    {bound : Option Nat} :
    row ∈ wholeScan log indexId bound order ↔ Store.scanRow log indexId bound row.1 = some row := by
  rw [mem_wholeScan, Store.indexScan_whole, mem_filterMap]
  constructor
  · rintro ⟨key, -, hrow⟩
    rw [Store.fst_scanRow hrow]
    exact hrow
  · intro hrow
    exact ⟨row.1, Store.mem_indexKeys_of_entryAt (Store.scanRow_eq_some.1 hrow).2.1, hrow⟩

section Scans

variable {q : ScanQuery} {s s' : StoreSnapshot}

theorem mem_scan : row ∈ q.scan s.log s.bound ↔
    Store.scanRow s.log q.index.indexId s.bound row.1 = some row ∧
      keyInRange row.1 q.interval = true := by
  rw [q.scan_eq_filter, mem_filter, mem_wholeScan_iff]

theorem sorted_eq_of_mem_iff {α : Type} {rows rows' : List (Bytes × α)}
    (h : rows.Pairwise fun r r' => order.precedes r.1 r'.1)
    (h' : rows'.Pairwise fun r r' => order.precedes r.1 r'.1)
    (hmem : ∀ row, row ∈ rows ↔ row ∈ rows') : rows = rows' := by
  have : Std.Irrefl fun r r' : Bytes × α => order.precedes r.1 r'.1 :=
    ⟨fun r hr => ScanOrder.precedes_asymm hr hr⟩
  have : Std.Antisymm fun r r' : Bytes × α => order.precedes r.1 r'.1 :=
    ⟨fun r r' hr hr' => absurd hr' (ScanOrder.precedes_asymm hr)⟩
  exact h.eq_of_mem_iff h' fun {row} => hmem row

theorem filter_scan_of_agreesOn {range : KeyRange} (hks : range.keyspace = q.keyspace)
    (hagree : s.AgreesOn s' [range]) :
    (q.scan s'.log s'.bound).filter (fun r => keyInRange r.1 range) =
      (q.scan s.log s.bound).filter fun r => keyInRange r.1 range := by
  refine sorted_eq_of_mem_iff ((scan_sorted q ..).filter _)
    ((scan_sorted q ..).filter _) fun row => ?_
  rw [mem_filter, mem_filter, mem_scan, mem_scan]
  refine and_congr_left fun hin => ?_
  rw [hagree.scanRow_eq hks.symm hin]

theorem scan_eq_of_agreesOn (hagree : s.AgreesOn s' [q.interval]) :
    q.scan s'.log s'.bound = q.scan s.log s.bound := by
  have hall : ∀ t : StoreSnapshot,
    (q.scan t.log t.bound).filter (fun r => keyInRange r.1 q.interval) =
      q.scan t.log t.bound := fun t => filter_eq_self.2 fun _ h => keyInRange_of_mem_scan h
  rw [← hall s', filter_scan_of_agreesOn rfl hagree, hall s]

/-- If the keys up to a row agree, the second scan has the same rows up to it. -/
theorem scan_split_of_agreesOn {pre post : List ScanRow}
    (hscan : q.scan s.log s.bound = pre ++ row :: post)
    (hagree : s.AgreesOn s' [q.consumedRange (some row.1)]) :
    ∃ post', q.scan s'.log s'.bound = pre ++ row :: post' := by
  have hscan : q.scan s.log s.bound = (pre ++ [row]) ++ post := by simp [hscan]
  have hmem : ∀ r ∈ pre ++ [row], r ∈ q.scan s.log s.bound := fun r hr =>
    hscan ▸ mem_append_left _ hr
  have hconsumed := keyInRange_consumedRange q (keyInRange_of_mem_scan (hmem row (by simp)))
  -- the rows of the consumed range are those up to the row
  have hfirst : (q.scan s.log s.bound).filter
      (fun r => keyInRange r.1 (q.consumedRange (some row.1))) = pre ++ [row] := by
    have hsorted : (pre ++ [row]).Pairwise fun r r' => q.order.precedes r.1 r'.1 :=
      (scan_sorted q s.log s.bound).sublist (hscan ▸ sublist_append_left _ _)
    rw [filter_consumedRange hscan (by simp)]
    exact filter_eq_self.2 fun r hr => (hconsumed r.1).2 ⟨keyInRange_of_mem_scan (hmem r hr),
      not_precedes_getLast hsorted (by simp) r hr⟩
  have hsplit := eq_filter_append (scan_sorted q s'.log s'.bound)
    (p := fun r => keyInRange r.1 (q.consumedRange (some row.1))) fun a ha b _ hab hb =>
      (hconsumed a.1).2 ⟨keyInRange_of_mem_scan ha,
        fun h => ((hconsumed b.1).1 hb).2 (ScanOrder.precedes_trans h hab)⟩
  rw [filter_scan_of_agreesOn (consumedRange_keyspace q _) hagree, hfirst,
    append_assoc] at hsplit
  exact ⟨_, hsplit⟩

end Scans

/-! ## Loops that stop early -/

variable {filters : List FilterExpr} {rows : List ScanRow}

/-- A `collect` loop that reached its limit has not looked beyond its last row. -/
theorem collectLoop_stop {limit : Option Nat} :
    ∀ {found : List ScanRow} {last : Option Bytes} {r : CollectScan},
      collectLoop filters limit found last rows = .ok r → r.hitLimit = true →
      ∃ pre row post, rows = pre ++ row :: post ∧ r.lastScanned = some row.1 ∧
        ∀ post', collectLoop filters limit found last (pre ++ row :: post') = .ok r := by
  induction rows with
  | nil =>
    intro found last r h hit
    cases h
    cases hit
  | cons row rows ih =>
    intro found last r h hit
    cases hrow : everyClause row.2.2 filters with
    | error e =>
      rw [collectLoop, hrow] at h
      cases h
    | ok passes =>
      -- one more row in front of a loop that goes on
      have hcons : ∀ found' : List ScanRow,
          (∀ rest, collectLoop filters limit found last (row :: rest) =
            collectLoop filters limit found' (some row.1) rest) →
          ∃ pre row' post, row :: rows = pre ++ row' :: post ∧ r.lastScanned = some row'.1 ∧
            ∀ post', collectLoop filters limit found last (pre ++ row' :: post') = .ok r := by
        intro found' hgo
        rw [hgo] at h
        obtain ⟨pre, row', post, hsplit, hlast, hany⟩ := ih h hit
        refine ⟨row :: pre, row', post, by rw [hsplit, cons_append], hlast, fun post' => ?_⟩
        rw [cons_append, hgo, hany]
      by_cases hpasses : passes = true
      · by_cases hlimit : (limit.any fun n => decide (n ≤ found.length + 1)) = true
        · have hstop : ∀ rest, collectLoop filters limit found last (row :: rest) =
              .ok ⟨found ++ [row], some row.1, true⟩ := fun rest => by
            simp [collectLoop, hrow, Except.bind, if_pos hpasses, if_pos hlimit]
          rw [hstop] at h
          cases h
          exact ⟨[], row, rows, rfl, rfl, hstop⟩
        · exact hcons (found ++ [row]) fun rest => by
            simp [collectLoop, hrow, Except.bind, if_pos hpasses, if_neg hlimit]
      · exact hcons found fun rest => by simp [collectLoop, hrow, Except.bind, if_neg hpasses]

variable {maxScan : Option Nat}

/-- A `paginate` loop that has more to come has not looked beyond its last row. -/
theorem pageLoop_stop {pageSize : Nat} : ∀ {scanned : Nat} {page : List ScanRow}
    {last : Option Bytes}
      {r : PageScan}, pageLoop filters pageSize maxScan scanned page last rows = .ok r →
      r.hasMore = true →
      ∃ pre row post, rows = pre ++ row :: post ∧ r.lastScanned = some row.1 ∧
        ∀ post', pageLoop filters pageSize maxScan scanned page last
          (pre ++ row :: post') = .ok r := by
  induction rows with
  | nil =>
    intro scanned page last r h hmore
    cases h
    cases hmore
  | cons row rows ih =>
    intro scanned page last r h hmore
    cases hrow : everyClause row.2.2 filters with
    | error e =>
      rw [pageLoop, hrow] at h
      cases h
    | ok passes =>
      have hstop : ∀ r' : PageScan, r'.lastScanned = some row.1 →
          (∀ rest, pageLoop filters pageSize maxScan scanned page last (row :: rest) = .ok r') →
          ∃ pre row' post, row :: rows = pre ++ row' :: post ∧ r.lastScanned = some row'.1 ∧
            ∀ post', pageLoop filters pageSize maxScan scanned page last (pre ++ row' :: post') =
              .ok r := by
        intro r' hlast hall
        rw [hall] at h
        cases h
        exact ⟨[], row, rows, rfl, hlast, hall⟩
      by_cases hfull : (passes && decide (pageSize ≤ page.length)) = true
      · exact hstop ⟨page, some row.1, true, false⟩ rfl fun rest => by
          simp only [pageLoop, hrow, Except.bind, if_pos hfull]
      · by_cases hcap : (maxScan.any fun n => decide (n ≤ scanned + 1)) = true
        · refine hstop ⟨if passes then page ++ [row] else page, some row.1, true,
            decide ((if passes then page ++ [row] else page).length < pageSize)⟩ rfl fun rest => ?_
          simp only [pageLoop, hrow, Except.bind, if_neg hfull, if_pos hcap]
        · have hgo : ∀ rest, pageLoop filters pageSize maxScan scanned page last (row :: rest) =
              pageLoop filters pageSize maxScan (scanned + 1)
                (if passes then page ++ [row] else page) (some row.1) rest := fun rest => by
            simp only [pageLoop, hrow, Except.bind, if_neg hfull, if_neg hcap]
          rw [hgo] at h
          obtain ⟨pre, row', post, hsplit, hlast, hany⟩ := ih h hmore
          refine ⟨row :: pre, row', post, by rw [hsplit, cons_append], hlast, fun post' => ?_⟩
          rw [cons_append, hgo, hany]

/-! ## The same call on both stores -/

section Calls

variable {q : ScanQuery} {s s' : StoreSnapshot} {pageSize : Nat}

theorem collect_of_agreesOn {r : CollectResult} (h : collect q s.log s.bound = .ok r)
    (hagree : s.AgreesOn s' [r.readRange]) : collect q s'.log s'.bound = .ok r := by
  obtain ⟨c, hloop, rfl⟩ := map_eq_ok.1 h
  refine map_eq_ok.2 ⟨c, ?_, rfl⟩
  cases hhit : c.hitLimit with
  | false =>
    simp only [hhit] at hagree
    rw [scan_eq_of_agreesOn hagree]
    exact hloop
  | true =>
    obtain ⟨pre, row, post, hscan, hlast, hany⟩ := collectLoop_stop hloop hhit
    simp only [hhit, hlast] at hagree
    obtain ⟨post', hscan'⟩ := scan_split_of_agreesOn hscan hagree
    rw [hscan']
    exact hany post'

theorem scanCapped_of_hasMore {p : PageScan}
    (h : pageLoop filters pageSize maxScan 0 [] none rows = .ok p) (hmore : p.hasMore = false) :
    p.scanCapped = false := by
  obtain ⟨pre, post, ms, -, -, -, -, hcap, -⟩ := pageLoop_spec h
  by_contra hcapped
  rw [(hcap (Bool.eq_true_of_not_eq_false hcapped)).1] at hmore
  cases hmore

theorem paginate_of_agreesOn {r : PaginatedResult}
    (h : paginate q s.log s.bound pageSize maxScan = .ok r) (hagree : s.AgreesOn s' [r.readRange]) :
    paginate q s'.log s'.bound pageSize maxScan = .ok r := by
  obtain ⟨p, hloop, rfl⟩ := map_eq_ok.1 h
  refine map_eq_ok.2 ⟨p, ?_, rfl⟩
  cases hmore : p.hasMore with
  | false =>
    have hcapped := scanCapped_of_hasMore hloop hmore
    simp only [hmore, hcapped] at hagree
    rw [scan_eq_of_agreesOn hagree]
    exact hloop
  | true =>
    obtain ⟨pre, row, post, hscan, hlast, hany⟩ := pageLoop_stop hloop hmore
    simp only [hmore, hlast] at hagree
    obtain ⟨post', hscan'⟩ := scan_split_of_agreesOn hscan hagree
    rw [hscan']
    exact hany post'

theorem scanWithOverlay_of_agreesOn (overlay : List IndexOverlayEntry)
    (hagree : s.AgreesOn s' [q.interval]) :
    scanWithOverlay q s' overlay = scanWithOverlay q s overlay := by
  rw [scanWithOverlay, scanWithOverlay, scan_eq_of_agreesOn hagree]

theorem collectWith_of_agreesOn {overlay : List IndexOverlayEntry} {r : QueryResult}
    (h : q.collectWith s overlay = .ok r) (hagree : s.AgreesOn s' r.readSet) :
    q.collectWith s' overlay = .ok r := by
  cases overlay with
  | nil =>
    obtain ⟨c, hc, rfl⟩ := map_eq_ok.1 h
    have hsame := collect_of_agreesOn (mapError_eq_ok.1 hc) hagree
    exact map_eq_ok.2 ⟨c, mapError_eq_ok.2 hsame, rfl⟩
  | cons o os =>
    obtain ⟨documents, -, hr⟩ := map_eq_ok.1 h
    have hreads : r.readSet = [q.interval] := by
      rw [← hr]
      rfl
    rw [hreads] at hagree
    simp only [ScanQuery.collectWith, scanWithOverlay_of_agreesOn _ hagree] at h ⊢
    exact h

theorem readSet_mergedPage {matched : List (Bytes × DocumentValue)} {r : QueryPage}
    (h : mergedPage q pageSize matched = .ok r) : r.readSet = [q.interval] := by
  obtain ⟨lastKey, -, rfl⟩ := map_eq_ok.1 h
  rfl

theorem paginateWith_of_agreesOn {opts : PageOptions} {overlay : List IndexOverlayEntry}
    {r : QueryPage} (h : q.paginateWith s opts overlay = .ok r) (hagree : s.AgreesOn s' r.readSet) :
    q.paginateWith s' opts overlay = .ok r := by
  cases overlay with
  | nil =>
    obtain ⟨p, hp, rfl⟩ := map_eq_ok.1 h
    have hsame := paginate_of_agreesOn (mapError_eq_ok.1 hp) hagree
    exact map_eq_ok.2 ⟨p, mapError_eq_ok.2 hsame, rfl⟩
  | cons o os =>
    obtain ⟨matched, -, hpage⟩ := bind_eq_ok.1 h
    rw [readSet_mergedPage hpage] at hagree
    simp only [ScanQuery.paginateWith, scanWithOverlay_of_agreesOn _ hagree] at h ⊢
    exact h

end Calls

/-- A store that agrees with the first one on the recorded read set gives the same result. -/
theorem readSet_determines_result (query : Query) (overlay : List IndexOverlayEntry)
    (s s' : StoreSnapshot) :
    (∀ r, query.collect s overlay = .ok r → s.AgreesOn s' r.readSet →
      query.collect s' overlay = .ok r) ∧
    ∀ opts r, query.paginate s opts overlay = .ok r → s.AgreesOn s' r.readSet →
      query.paginate s' opts overlay = .ok r := by
  constructor
  · intro r h hagree
    obtain ⟨q, hplan, h⟩ := bind_eq_ok.1 h
    exact bind_eq_ok.2 ⟨q, hplan, collectWith_of_agreesOn h hagree⟩
  · intro opts r h hagree
    obtain ⟨base, hplan, h⟩ := bind_eq_ok.1 h
    obtain ⟨q, hresume, h⟩ := bind_eq_ok.1 h
    exact bind_eq_ok.2 ⟨base, hplan, bind_eq_ok.2 ⟨q, hresume, paginateWith_of_agreesOn h hagree⟩⟩

namespace SampleTags

export KernelExample (byTag)

def tagged (tag : String) : DocumentValue :=
  [(js "_id", .string (js tag)), (js "tag", .string (js tag))]

def keyOf (tag : String) : Bytes := (extractIndexKey (tagged tag) byTag.fields).toOption.getD []

def idOf (n : Nat) : InternalDocumentId := ⟨1, [byte n]⟩

/-- A commit that inserts a document with a tag. -/
def inserted (ts : Nat) (tag : String) : Commit DocumentValue where
  shard := 0
  ts := ts
  unit :=
    { call := 0
      ctx := { snapshotTs := 0
               indexUpdates := [⟨byTag.indexId, keyOf tag, .nonClustered (idOf ts)⟩] }
      documents := [⟨idOf ts, none, some (tagged tag)⟩] }

/-- A store with one document. -/
def one : StoreSnapshot := ⟨[inserted 1 "a"], some 1⟩

/-- The same store after a document with a later key was inserted. -/
def two : StoreSnapshot := ⟨[inserted 1 "a", inserted 2 "b"], some 2⟩

/-- The first document by tag. -/
def firstByTag : Query := ⟨byTag, [], .asc, [], some 1⟩

/-- What has been read after the first document. -/
def upToFirst : KeyRange := ⟨byTag.indexId.keyspace, [], some (keySuccessor (keyOf "a"))⟩

def firstPage : QueryPage :=
  ⟨[tagged "a"], some (bytesToBase64 (keyOf "a")), true, false, [upToFirst], upToFirst⟩

theorem entry_none {s : StoreSnapshot} {key : Bytes}
    (h : key ∉ Store.indexKeys s.log byTag.indexId) : s.entry byTag.indexId key = none := by
  cases he : s.entry byTag.indexId key with
  | none => rfl
  | some id => exact absurd (Store.mem_indexKeys_of_entryAt (StoreSnapshot.entry_eq_some.1 he)) h

theorem agreesOn_upToFirst : one.AgreesOn two [upToFirst] := by
  intro range hrange indexId hks key hkey
  obtain rfl := mem_singleton.1 hrange
  obtain rfl : indexId = byTag.indexId := by
    obtain ⟨htable, hname⟩ := Keyspace.index.inj hks
    exact congrArg₂ IndexId.mk htable hname
  by_cases ha : key = keyOf "a"
  · subst ha
    have hentry : one.entry byTag.indexId (keyOf "a") = some (idOf 1) := by decide +kernel
    refine ⟨by decide +kernel, fun id hid => ?_⟩
    cases hentry.symm.trans hid
    decide +kernel
  · have hb : key ≠ keyOf "b" := by
      rintro rfl
      exact absurd hkey (by decide +kernel)
    have hone : one.entry byTag.indexId key = none := by
      refine entry_none ?_
      rw [show Store.indexKeys one.log byTag.indexId = [keyOf "a"] by decide +kernel]
      simpa using ha
    have htwo : two.entry byTag.indexId key = none := by
      refine entry_none ?_
      rw [show Store.indexKeys two.log byTag.indexId = [keyOf "a", keyOf "b"] by decide +kernel]
      simp [ha, hb]
    rw [hone, htwo]
    exact ⟨rfl, fun id hid => (by cases hid)⟩

end SampleTags

open SampleTags in
/-- A later key is neither in the first result nor in the first page. -/
theorem readSet_determines_result_first :
    firstByTag.collect two [] = .ok ⟨[tagged "a"], [upToFirst]⟩ ∧
      firstByTag.paginate two ⟨none, 1, some 1⟩ [] = .ok firstPage :=
  have h := readSet_determines_result firstByTag [] one two
  ⟨h.1 ⟨[tagged "a"], [upToFirst]⟩ (by decide +kernel) agreesOn_upToFirst,
    h.2 ⟨none, 1, some 1⟩ firstPage (by decide +kernel) agreesOn_upToFirst⟩

end Helipod
