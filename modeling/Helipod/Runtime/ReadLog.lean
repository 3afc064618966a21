import Helipod.Lib.Windows
import Helipod.ObjectStore.SqliteDocStore
import Helipod.Values.Json
import Mathlib.Data.Char
import Mathlib.Data.Prod.Lex

/-!
# The change feed of a driver

Model of `readLog` of the driver context (`runtime-embedded/src/runtime.ts`) over `load_documents`
of the SQLite store. A call scans the log after a cursor, up to a number of revisions, and returns
the changes with a new cursor. A driver calls it again with that cursor until it has reached the
bound.

The scan may stop inside a commit. Then `readLog` leaves out the last timestamp, or, if there is
nothing below it, reads that timestamp alone without a limit.

Timestamps are bigints in the store and numbers in the driver's hands. From `2 ^ 53` on a cursor is
rounded, and can be rounded up past a commit.

Results: `readLog_tiles_log`, `rounded_cursor_skips_commit`.
-/

namespace Helipod

open Windows SqliteDocStore List

/-! ## The log tail -/

/-- A row of `documents`. -/
abbrev LogRow (V : Type) := (InternalDocumentId × Nat) × DocumentRow V

def LogRow.ts {V : Type} (row : LogRow V) : Int := row.1.2

/-- `ORDER BY ts, table_id, internal_id`; `table_id` is the decimal text of the table number. -/
def LogRow.order {V : Type} (row : LogRow V) : Lex (Nat × Lex (List Char × Bytes)) :=
  toLex (row.1.2, toLex (Nat.toDigits 10 row.1.1.tableNumber, row.1.1.internalId))

namespace SqliteDocStore

variable {V : Type}

/-- All revisions in the order of the log. -/
def logRows (s : SqliteDocStore V) : List (LogRow V) :=
  s.documents.entries.insertionSort fun a b => LogRow.order a ≤ LogRow.order b

/-- `load_documents` in ascending order. -/
def loadDocuments (s : SqliteDocStore V) (minInclusive maxExclusive : Int) (limit : Option Nat) :
    List (LogRow V) :=
  let rows := s.logRows.filter fun row => minInclusive ≤ LogRow.ts row ∧
    LogRow.ts row < maxExclusive
  match limit with
  | none => rows
  | some n => rows.take n

variable {s : SqliteDocStore V}

theorem mem_logRows {row : LogRow V} : row ∈ s.logRows ↔ row ∈ s.documents.entries :=
  mem_insertionSort _

theorem sorted_logRows : SortedBy LogRow.ts s.logRows := by
  have htotal : Std.Total fun a b : LogRow V => LogRow.order a ≤ LogRow.order b :=
    ⟨fun a b => le_total (LogRow.order a) (LogRow.order b)⟩
  have htrans : IsTrans (LogRow V) fun a b => LogRow.order a ≤ LogRow.order b :=
    ⟨fun _ _ _ => le_trans⟩
  refine (pairwise_insertionSort (fun a b => LogRow.order a ≤ LogRow.order b) _).imp ?_
  intro a b h
  rw [LogRow.order, LogRow.order, Prod.Lex.toLex_le_toLex] at h
  rcases h with h | h
  · exact Int.ofNat_le.2 h.le
  · exact Int.ofNat_le.2 h.1.le

theorem loadDocuments_none (lo hi : Int) :
    s.loadDocuments (lo + 1) (hi + 1) none = window LogRow.ts lo hi s.logRows := by
  refine filter_congr fun row _ => ?_
  rw [Bool.eq_iff_iff, decide_eq_true_eq, decide_eq_true_eq]
  omega

end SqliteDocStore

/-! ## Numbers -/

/-- `Number(n)` of a bigint, as the integer it stands for. -/
def numberOf (n : Int) : Int :=
  let e := n.natAbs.log2
  if e ≤ 52 then n else n.sign * (Float64.roundHalfEven n.natAbs (e - 52) * 2 ^ (e - 52) : Nat)

theorem numberOf_eq {n : Int} (h : n.natAbs ≤ 2 ^ 53) : numberOf n = n := by
  rcases Nat.lt_or_ge n.natAbs (2 ^ 53) with hlt | hge
  · have hlog : n.natAbs.log2 ≤ 52 := by
      by_cases h0 : n.natAbs = 0
      · simp [h0]
      · exact Nat.lt_succ_iff.1 ((Nat.log2_lt h0).2 hlt)
    rw [numberOf, if_pos hlog]
  · have habs : n.natAbs = 2 ^ 53 := le_antisymm h hge
    have hlog : (2 ^ 53 : Nat).log2 = 53 := Nat.log2_two_pow
    have hround : Float64.roundHalfEven (2 ^ 53) 1 * 2 ^ 1 = 2 ^ 53 := by decide
    simp only [numberOf, habs, hlog, hround]
    rw [← habs]
    exact Int.sign_mul_natAbs n

/-! ## Model -/

inductive ChangeOp where
  | insert | update | delete
  deriving DecidableEq

structure LogChange where
  table : String
  id : JsString
  op : ChangeOp
  newDoc : Option DocumentValue
  oldDoc : Option DocumentValue
  ts : Int
  changeId : JsString
  deriving DecidableEq

/-- What `readLog` answers. -/
structure LogPage where
  changes : List LogChange
  maxScannedTs : Int
  deriving DecidableEq

/-- What `readLog` reads besides its cursor and limit. -/
structure LogReader where
  store : SqliteDocStore DocumentValue
  /-- What `options.stablePrefix` answers; `none` without one. -/
  stablePrefix : Option Nat
  tableNumberToName : Nat → Option String
  /-- `opts.tables`. -/
  tables : Option (List String)

namespace LogReader

variable (r : LogReader) {pages : List LogPage} {limit : Option Nat} {lo : Int}

/-- The upper scan bound. -/
def bound : Nat := r.stablePrefix.getD r.store.maxTimestamp

/-- The name of the row's table, if its changes are returned. -/
def surfaces (row : LogRow DocumentValue) : Option String :=
  (r.tableNumberToName row.1.1.tableNumber).filter fun name =>
    !name.toList.contains '/' && name.toList.head? ≠ some '_' && r.tables.all fun ts =>
      ts.contains name

/-- A change, with the document's id as text. -/
def toLogChange (row : LogRow DocumentValue) (table : String) (id : JsString) : LogChange where
  table
  id
  op := if row.2.value = none then .delete else if row.2.prevTs = none then .insert else .update
  newDoc := row.2.value.map convexToJsonFields
  oldDoc := row.2.prevTs.bind fun prevTs =>
    (r.store.get row.1.1 (some prevTs)).map fun prev => convexToJsonFields prev.value
  ts := numberOf (LogRow.ts row)
  changeId := js table ++ js ":" ++ id ++ js ":" ++ js (toString (numberOf (LogRow.ts row)))

/-- The loop that collects the changes; an id without spelling throws. -/
def changesOf : List (LogRow DocumentValue) → Except DocumentIdError (List LogChange)
  | [] => .ok []
  | row :: rows =>
    match r.surfaces row with
    | none => changesOf rows
    | some table => (encodeDocumentId row.1.1).bind fun id =>
      (changesOf rows).map fun changes => r.toLogChange row table id :: changes

/-- The scan of `readLog`: the rows it returns the changes of, and how far it got. -/
def scanPage (afterTs : Int) (limit : Option Nat) : List (LogRow DocumentValue) × Int :=
  let scanned := r.store.loadDocuments (afterTs + 1) (r.bound + 1) limit
  match if limit = some scanned.length then scanned.getLast? else none with
  | none => (scanned, r.bound)
  | some last =>
    let lastTs := LogRow.ts last
    if afterTs + 1 < lastTs then
      -- the group of the last timestamp may be cut
      (scanned.filter fun row => LogRow.ts row < lastTs, lastTs - 1)
    else
      (r.store.loadDocuments lastTs (lastTs + 1) none, lastTs)

def readLog (afterTs : Int) (limit : Option Nat) : Except DocumentIdError LogPage :=
  if r.bound ≤ afterTs then .ok ⟨[], numberOf afterTs⟩
  else if limit = some 0 then .ok ⟨[], numberOf r.bound⟩
  else
    let page := r.scanPage afterTs limit
    (r.changesOf page.1).map fun changes => ⟨changes, numberOf page.2⟩

/-- A driver that feeds back the cursor until it has reached the bound, for at most so many calls:
the pages and the last cursor. -/
def feed (limit : Option Nat) : Nat → Int → Except DocumentIdError (List LogPage × Int)
  | 0, cursor => .ok ([], cursor)
  | calls + 1, cursor =>
    if r.bound ≤ cursor then .ok ([], cursor)
    else
      (r.readLog cursor limit).bind fun page =>
        (feed limit calls page.maxScannedTs).map fun rest => (page :: rest.1, rest.2)

/-! ## One call -/

/-- The rows with timestamps above `lo`, up to `hi`. -/
def rowsBetween (lo hi : Int) : List (LogRow DocumentValue) :=
  window LogRow.ts lo hi r.store.logRows

/-- What a row is returned as, if it is. -/
def change (row : LogRow DocumentValue) : Option LogChange :=
  (r.surfaces row).map fun table =>
    r.toLogChange row table ((encodeDocumentId row.1.1).toOption.getD [])

/-- The ids of the log have spellings, as those of all documents the kernel writes. -/
def SpelledIds : Prop := ∀ row ∈ r.store.documents.entries, ∃ s, encodeDocumentId row.1.1 = .ok s

variable {r}

theorem changesOf_eq {rows : List (LogRow DocumentValue)}
    (h : ∀ row ∈ rows, ∃ s, encodeDocumentId row.1.1 = .ok s) :
    r.changesOf rows = .ok (rows.filterMap r.change) := by
  induction rows with
  | nil => rfl
  | cons row rows ih =>
    have ih := ih fun row' hrow' => h row' (mem_cons_of_mem _ hrow')
    obtain ⟨s, hs⟩ := h row mem_cons_self
    cases hname : r.surfaces row with
    | none => simp [changesOf, change, hname, ih]
    | some table => simp [changesOf, change, hname, ih, hs, Except.bind, Except.map,
        Except.toOption]

/-- The scan gets past the cursor, at most to the bound, and returns exactly the rows up to there.
-/
theorem scanPage_eq {afterTs : Int} (hlt : afterTs < r.bound) (hlimit : limit ≠ some 0) :
    ∃ next, afterTs < next ∧ -1 ≤ next ∧ next ≤ r.bound ∧
      r.scanPage afterTs limit = (r.rowsBetween afterTs next, next) := by
  have hsorted : SortedBy LogRow.ts (r.rowsBetween afterTs r.bound) :=
    sorted_logRows.window
  cases limit with
  | none =>
    refine ⟨r.bound, hlt, by omega, le_refl _, ?_⟩
    rw [scanPage, loadDocuments_none]
    rfl
  | some n =>
    have hload : r.store.loadDocuments (afterTs + 1) (r.bound + 1) (some n) =
        (r.rowsBetween afterTs r.bound).take n := by
      rw [rowsBetween, ← loadDocuments_none]
      rfl
    simp only [scanPage, hload, Option.some.injEq]
    by_cases hn : n = ((r.rowsBetween afterTs r.bound).take n).length
    · rw [if_pos hn]
      cases hlast : ((r.rowsBetween afterTs r.bound).take n).getLast? with
      | none =>
        rw [getLast?_eq_none_iff] at hlast
        rw [hlast] at hn
        exact absurd (congrArg some hn) hlimit
      | some last =>
        obtain ⟨-, hlo, hhi⟩ := mem_window.1 (mem_of_mem_take (mem_of_getLast? hlast))
        have hpos : 0 ≤ LogRow.ts last := Int.natCast_nonneg _
        by_cases hgap : afterTs + 1 < LogRow.ts last
        · refine ⟨LogRow.ts last - 1, by omega, by omega, by omega, ?_⟩
          have hrows : ((r.rowsBetween afterTs r.bound).take n).filter
              (fun row => LogRow.ts row < LogRow.ts last) =
                r.rowsBetween afterTs (LogRow.ts last - 1) := by
            rw [filter_lt_take hsorted hlast]
            exact filter_lt_window hhi
          rw [← hrows]
          exact if_pos hgap
        · refine ⟨LogRow.ts last, hlo, by omega, hhi, ?_⟩
          have hts : LogRow.ts last = afterTs + 1 := by omega
          have hwhole : r.store.loadDocuments (LogRow.ts last) (LogRow.ts last + 1) none =
              r.rowsBetween afterTs (LogRow.ts last) := by
            rw [hts]
            exact loadDocuments_none ..
          rw [← hwhole]
          exact if_neg hgap
    · rw [if_neg hn]
      have hshort : (r.rowsBetween afterTs r.bound).length ≤ n := by
        rw [length_take] at hn
        omega
      refine ⟨r.bound, hlt, by omega, le_refl _, ?_⟩
      rw [take_of_length_le hshort]

theorem readLog_eq (hids : r.SpelledIds) (hbound : r.bound ≤ 2 ^ 53) {afterTs : Int}
    (hlt : afterTs < r.bound) (hlimit : limit ≠ some 0) :
    ∃ next, afterTs < next ∧ next ≤ r.bound ∧
      r.readLog afterTs limit = .ok ⟨(r.rowsBetween afterTs next).filterMap r.change, next⟩ := by
  obtain ⟨next, hnext, hpos, hle, hpage⟩ := scanPage_eq hlt hlimit
  refine ⟨next, hnext, hle, ?_⟩
  have hrows : ∀ row ∈ r.rowsBetween afterTs next, ∃ s, encodeDocumentId row.1.1 = .ok s :=
    fun row hrow => hids row (mem_logRows.1 (mem_window.1 hrow).1)
  have hnumber : numberOf next = next := numberOf_eq (by omega)
  rw [readLog, if_neg (by omega), if_neg hlimit, hpage]
  simp [changesOf_eq hrows, Except.map, hnumber]

/-! ## All calls -/

/-- The pages tile what lies above `lo` up to the bound: each has the changes from where the one
before got to, up to where it got to itself. -/
inductive Tiles (r : LogReader) : Int → List LogPage → Prop
  | nil {lo : Int} : r.bound ≤ lo → Tiles r lo []
  | cons {lo : Int} {page : LogPage} {pages : List LogPage} : lo < page.maxScannedTs →
      page.maxScannedTs ≤ r.bound →
      page.changes = (r.rowsBetween lo page.maxScannedTs).filterMap r.change →
      Tiles r page.maxScannedTs pages → Tiles r lo (page :: pages)

/-- With as many calls as there are timestamps up to the bound, the driver gets there. -/
theorem feed_tiles (hids : r.SpelledIds) (hbound : r.bound ≤ 2 ^ 53)
    (hlimit : limit ≠ some 0) (cursor : Int) :
    ∃ pages, Tiles r cursor pages ∧ ∀ calls, (r.bound - cursor).toNat ≤ calls →
      r.feed limit calls cursor = .ok (pages, max cursor r.bound) := by
  generalize hdist : (r.bound - cursor).toNat = dist
  induction dist using Nat.strong_induction_on generalizing cursor with
  | _ dist ih =>
    by_cases hdone : (r.bound : Int) ≤ cursor
    · refine ⟨[], .nil hdone, fun calls _ => ?_⟩
      rw [max_eq_left hdone]
      cases calls with
      | zero => rfl
      | succ calls => exact if_pos hdone
    · have hlt : cursor < r.bound := not_le.1 hdone
      obtain ⟨next, hnext, hle, hpage⟩ := readLog_eq hids hbound hlt hlimit
      obtain ⟨pages, htiles, hfeed⟩ := ih (r.bound - next).toNat (by omega) next rfl
      have hcons : Tiles r cursor
        (⟨(r.rowsBetween cursor next).filterMap r.change, next⟩ :: pages) :=
        .cons hnext hle rfl htiles
      refine ⟨_, hcons, fun calls hcalls => ?_⟩
      cases calls with
      | zero => omega
      | succ calls =>
        rw [feed, if_neg hdone, hpage]
        simp only [Except.bind, hfeed calls (by omega), Except.map]
        rw [max_eq_right hle, max_eq_right hlt.le]

theorem Tiles.flatMap_changes (h : Tiles r lo pages) :
    pages.flatMap LogPage.changes = (r.rowsBetween lo r.bound).filterMap r.change := by
  induction h with
  | nil hle =>
    rw [rowsBetween, window_eq_nil hle]
    rfl
  | @cons lo page pages hlt hle hchanges _ ih =>
    rw [flatMap_cons, ih, hchanges, ← filterMap_append, rowsBetween, rowsBetween, rowsBetween,
      ← window_append sorted_logRows hlt.le hle]

theorem ts_change (hbound : r.bound ≤ 2 ^ 53) {lo hi : Int} (hhi : hi ≤ r.bound)
    {row : LogRow DocumentValue}
    (hrow : row ∈ r.rowsBetween lo hi) {c : LogChange} (hc : r.change row = some c) :
    c.ts = LogRow.ts row := by
  obtain ⟨table, -, rfl⟩ := Option.map_eq_some_iff.1 hc
  have hle := (mem_window.1 hrow).2.2
  have hpos : 0 ≤ LogRow.ts row := Int.natCast_nonneg _
  exact numberOf_eq (by omega)

theorem Tiles.ts_mem (hbound : r.bound ≤ 2 ^ 53) (h : Tiles r lo pages)
    {page : LogPage} (hpage : page ∈ pages) {c : LogChange} (hc : c ∈ page.changes) :
    lo < c.ts := by
  induction h with
  | nil hle => cases hpage
  | @cons lo head pages hlt hle hchanges _ ih =>
    rcases mem_cons.1 hpage with rfl | hpage
    · rw [hchanges] at hc
      obtain ⟨row, hrow, hcrow⟩ := mem_filterMap.1 hc
      rw [ts_change hbound hle hrow hcrow]
      exact (mem_window.1 hrow).2.1
    · exact hlt.trans (ih hpage)

theorem Tiles.pairwise (hbound : r.bound ≤ 2 ^ 53) (h : Tiles r lo pages) :
    pages.Pairwise fun p q => ∀ c ∈ p.changes, ∀ d ∈ q.changes, c.ts < d.ts := by
  induction h with
  | nil hle => exact .nil
  | @cons lo page pages hlt hle hchanges htiles ih =>
    refine pairwise_cons.2 ⟨fun q hq c hc d hd => ?_, ih⟩
    rw [hchanges] at hc
    obtain ⟨row, hrow, hcrow⟩ := mem_filterMap.1 hc
    rw [ts_change hbound hle hrow hcrow]
    exact (mem_window.1 hrow).2.2.trans_lt (htiles.ts_mem hbound hq hd)

theorem nodup_changes (hids : r.SpelledIds) (hbound : r.bound ≤ 2 ^ 53) (lo : Int) :
    (((r.rowsBetween lo r.bound).filterMap r.change).map fun c => (c.id, c.ts)).Nodup := by
  have hkeys : (r.rowsBetween lo r.bound).Pairwise fun a b => a.1 ≠ b.1 :=
    (pairwise_map.1 (((perm_insertionSort _ _).map _).nodup_iff.2 r.store.documents.nodup)).filter _
  rw [List.Nodup, pairwise_map, pairwise_filterMap]
  refine hkeys.imp_of_mem fun {a b} ha hb hne c hc d hd heq => hne ?_
  obtain ⟨hid, hts⟩ := Prod.mk.inj heq
  rw [ts_change hbound le_rfl ha hc, ts_change hbound le_rfl hb hd] at hts
  have hspell : ∀ {row : LogRow DocumentValue}, row ∈ r.rowsBetween lo r.bound →
    ∀ {c}, r.change row = some c →
      encodeDocumentId row.1.1 = .ok c.id := by
    intro row hrow c hc
    obtain ⟨table, -, rfl⟩ := Option.map_eq_some_iff.1 hc
    obtain ⟨s, hs⟩ := hids row (mem_logRows.1 (mem_window.1 hrow).1)
    simp [toLogChange, hs, Except.toOption]
  have hdec := (decodeDocumentId_encode (hspell ha hc)).symm.trans
    (hid ▸ decodeDocumentId_encode (hspell hb hd))
  exact Prod.ext (Except.ok.inj hdec) (Int.ofNat_inj.1 hts)

end LogReader

/-- With a bound of at most `2 ^ 53`, from every cursor and with every limit but 0: there are pages
such that every driver that makes as many calls as there are timestamps up to the bound, or more,
gets exactly these pages and ends with its cursor at the bound. Together they have the changes of
the rows above the cursor up to the bound, each once and in timestamp order, and no two pages have
changes of one commit. -/
theorem readLog_tiles_log {r : LogReader} (hids : r.SpelledIds) (hbound : r.bound ≤ 2 ^ 53)
    {limit : Option Nat} (hlimit : limit ≠ some 0) (cursor : Int) :
    ∃ pages : List LogPage,
      (∀ calls, (r.bound - cursor).toNat ≤ calls →
        r.feed limit calls cursor = .ok (pages, max cursor r.bound)) ∧
      (∀ c, c ∈ pages.flatMap LogPage.changes ↔ ∃ row ∈ r.store.documents.entries,
        cursor < LogRow.ts row ∧ LogRow.ts row ≤ r.bound ∧ r.change row = some c) ∧
      ((pages.flatMap LogPage.changes).map fun c => (c.id, c.ts)).Nodup ∧
      (pages.flatMap LogPage.changes).Pairwise (fun c d => c.ts ≤ d.ts) ∧
      pages.Pairwise fun p q => ∀ c ∈ p.changes, ∀ d ∈ q.changes, c.ts < d.ts := by
  obtain ⟨pages, htiles, hfeed⟩ := LogReader.feed_tiles hids hbound hlimit cursor
  have hchanges := htiles.flatMap_changes
  refine ⟨pages, hfeed, fun c => ?_, ?_, ?_, htiles.pairwise hbound⟩
  · rw [hchanges, mem_filterMap]
    constructor
    · rintro ⟨row, hrow, hc⟩
      obtain ⟨hmem, hlo, hhi⟩ := mem_window.1 hrow
      exact ⟨row, mem_logRows.1 hmem, hlo, hhi, hc⟩
    · rintro ⟨row, hmem, hlo, hhi, hc⟩
      exact ⟨row, mem_window.2 ⟨mem_logRows.2 hmem, hlo, hhi⟩, hc⟩
  · rw [hchanges]
    exact LogReader.nodup_changes hids hbound cursor
  · rw [hchanges, pairwise_filterMap]
    refine (sorted_logRows.window).imp_of_mem fun {a b} ha hb hle c hc d hd => ?_
    rwa [LogReader.ts_change hbound le_rfl ha hc, LogReader.ts_change hbound le_rfl hb hd]

namespace ReadLogExample

def docA : InternalDocumentId := ⟨1, List.replicate 16 (byte 1)⟩

def docB : InternalDocumentId := ⟨1, List.replicate 16 (byte 2)⟩

/-- A reader of one table, without filter and stable prefix. -/
def reader (rows : List (LogRow DocumentValue)) : LogReader where
  store := SqliteDocStore.empty.write ⟨rows, []⟩
  stablePrefix := none
  tableNumberToName := fun n => if n = 1 then some "items" else none
  tables := none

/-- One commit of two documents, and a later change of one of them. -/
def smallLog : LogReader :=
  reader [((docA, 3), ⟨none, some []⟩), ((docB, 3), ⟨none, some []⟩), ((docA, 4), ⟨some 3, none⟩)]

/-- Two commits above `2 ^ 53`. -/
def largeLog : LogReader :=
  reader [((docA, 2 ^ 53 + 3), ⟨none, some []⟩), ((docB, 2 ^ 53 + 4), ⟨none, some []⟩)]

end ReadLogExample

open ReadLogExample in
/-- With a limit of 1 the commit of two documents still comes in one page. -/
theorem readLog_tiles_log_small : ∃ pages : List LogPage,
    (∀ calls, 4 ≤ calls → smallLog.feed (some 1) calls 0 = .ok (pages, 4)) ∧
    (pages.flatMap LogPage.changes).Pairwise (fun c d => c.ts ≤ d.ts) ∧
    pages.map (fun p => (p.changes.map LogChange.ts, p.maxScannedTs)) = [([], 2), ([3, 3], 3),
      ([4], 4)] := by
  have hids : smallLog.SpelledIds := by
    have h : ∀ row ∈ smallLog.store.documents.entries,
        (encodeDocumentId row.1.1).toOption.isSome = true := by decide +kernel
    intro row hrow
    cases henc : encodeDocumentId row.1.1 with
    | error e => simpa [henc, Except.toOption] using h row hrow
    | ok s => exact ⟨s, rfl⟩
  have hb : smallLog.bound = 4 := by decide +kernel
  have hlimit : (some 1 : Option Nat) ≠ some 0 := by decide
  obtain ⟨pages, hfeed, -, -, hsorted, -⟩ := readLog_tiles_log hids (by rw [hb]; decide) hlimit 0
  refine ⟨pages, hfeed, hsorted, ?_⟩
  have hrun : (smallLog.feed (some 1) 4 0).toOption.map (fun out => out.1.map fun p =>
      (p.changes.map LogChange.ts, p.maxScannedTs)) = some [([], 2), ([3, 3], 3), ([4], 4)] := by
    decide +kernel
  rw [hfeed 4 (by decide)] at hrun
  exact Option.some.inj hrun

open ReadLogExample in
/-- From cursor `2 ^ 53 + 2` and with limit 1, the first call returns the commit at `2 ^ 53 + 3` and
a cursor rounded to `2 ^ 53 + 4`, which is the bound: the commit at `2 ^ 53 + 4` is never returned.
-/
theorem rounded_cursor_skips_commit :
    numberOf (2 ^ 53 + 2) = 2 ^ 53 + 2 ∧ largeLog.bound = 2 ^ 53 + 4 ∧
    (∃ page, largeLog.feed (some 1) 1 (2 ^ 53 + 2) = .ok ([page], 2 ^ 53 + 4) ∧
      largeLog.feed (some 1) 9 (2 ^ 53 + 2) = .ok ([page], 2 ^ 53 + 4) ∧
      page.changes.map (fun c => decodeDocumentId c.id) = [.ok docA]) ∧
    ∃ row ∈ largeLog.store.documents.entries, row.1 = (docB, 2 ^ 53 + 4) ∧
      (largeLog.change row).isSome = true := by
  refine ⟨by decide +kernel, by decide +kernel, ?_, by decide +kernel⟩
  obtain ⟨⟨pages, cursor⟩, hfirst, rfl, hlen, hmore, hids⟩ :
      ∃ out, largeLog.feed (some 1) 1 (2 ^ 53 + 2) = .ok out ∧ out.2 = 2 ^ 53 + 4 ∧
        out.1.length = 1 ∧ largeLog.feed (some 1) 9 (2 ^ 53 + 2) = .ok out ∧
        ∀ page ∈ out.1, page.changes.map (fun c => decodeDocumentId c.id) = [.ok docA] := by
    decide +kernel
  obtain ⟨page, rfl⟩ := length_eq_one_iff.1 hlen
  exact ⟨page, hfirst, hmore, hids page mem_cons_self⟩

end Helipod
