import Helipod.QueryEngine.Intervals

/-!
# Limits, cursors and pages

What the limit of `collect` and the cursors of `paginate` select.

Results: `collect_takes_limit_iff`, `returned_meets_range_iff`, `page_inside_interval_iff`,
`pages_concat_collect`, `key_owned_once_iff`.
-/

namespace Helipod

open List

open Except (map_eq_ok mapError_eq_ok bind_eq_ok)

/-! ## Limits -/

section Limits

variable {filters : List FilterExpr} {n : Nat} {rows : List (Bytes × DocumentValue)}

/-- The limit is looked at after a match, so the loop does not stop before the first. -/
theorem collectMerged_eq_ok : ∀ {found out : List DocumentValue}, found.length < max n 1 →
    collectMerged filters (some n) found rows = .ok out →
    out = found ++ ((matchingPairs filters rows).map Prod.snd).take (max n 1 - found.length) := by
  induction rows with
  | nil =>
    intro found out _ h
    cases h
    simp [matchingPairs]
  | cons row rows ih =>
    intro found out hlt h
    obtain ⟨b, hb, h⟩ := bind_eq_ok.1 h
    cases b with
    | false =>
      rw [ih hlt h]
      simp [matchingPairs, hb]
    | true =>
      simp only [if_true, Option.any_some, decide_eq_true_eq] at h
      have hrow : matchingPairs filters (row :: rows) = row :: matchingPairs filters rows := by
        simp [matchingPairs, hb]
      rw [hrow, map_cons]
      split at h
      · cases h
        rw [show max n 1 - found.length = 1 by omega]
        rfl
      · have hnext : max n 1 - found.length = max n 1 - (found ++ [row.2]).length + 1 := by
          simp only [length_append, length_singleton]
          omega
        rw [ih (by simp only [length_append, length_singleton]; omega) h, hnext,
          take_succ_cons, append_assoc]
        rfl

theorem exists_collectMerged (h : Evaluates filters rows) (limit : Option Nat) :
    ∀ found, ∃ out, collectMerged filters limit found rows = .ok out := by
  induction rows with
  | nil => exact fun found => ⟨found, rfl⟩
  | cons row rows ih =>
    intro found
    obtain ⟨b, hb⟩ := h row mem_cons_self
    have ih := ih fun r hr => h r (mem_cons_of_mem _ hr)
    rw [collectMerged, hb]
    cases b with
    | false => exact ih found
    | true =>
      split
      · exact ⟨_, rfl⟩
      · exact ih _

/-- With and without changes to merge, `collect` returns the first matching documents up to the
limit, unless the limit is 0 and there is one. -/
theorem collect_takes_limit_iff {query : Query} {q : ScanQuery} {s : StoreSnapshot}
    {overlay : List IndexOverlayEntry} (hplan : query.planned = .ok q)
    (hlimit : query.limit = some n) :
    (Evaluates q.filters (scanWithOverlay q s overlay) → ∃ r, query.collect s overlay = .ok r) ∧
      ∀ r, query.collect s overlay = .ok r →
        (r.documents =
          ((matchingPairs q.filters (scanWithOverlay q s overlay)).map Prod.snd).take n ↔
          n ≠ 0 ∨ matchingPairs q.filters (scanWithOverlay q s overlay) = []) := by
  have hq : q.limit = some n := by
    obtain ⟨interval, -, rfl⟩ := map_eq_ok.1 hplan
    exact hlimit
  have hdocs := collectWith_documents q s overlay
  have hcollect : query.collect s overlay = q.collectWith s overlay := by
    rw [Query.collect, hplan]
    rfl
  rw [hcollect]
  constructor
  · intro heval
    obtain ⟨out, hout⟩ := exists_collectMerged heval q.limit []
    rw [hout] at hdocs
    obtain ⟨r, hr, -⟩ := map_eq_ok.1 hdocs
    exact ⟨r, hr⟩
  · intro r hr
    rw [hr, hq] at hdocs
    have hout := collectMerged_eq_ok (by simp) (mapError_eq_ok.1 hdocs.symm)
    rw [hout, nil_append, length_nil, Nat.sub_zero]
    cases n with
    | zero => simp
    | succ n => simp

end Limits

open SampleTags in
/-- One of two documents is asked for. -/
theorem collect_takes_limit_iff_one : ∃ q r, firstByTag.planned = .ok q ∧
    firstByTag.collect two [] = .ok r ∧
    r.documents = ((matchingPairs q.filters (scanWithOverlay q two [])).map Prod.snd).take 1 := by
  obtain ⟨q, hq, hfilters⟩ : ∃ q, firstByTag.planned = .ok q ∧ q.filters = [] := ⟨_, rfl, rfl⟩
  have h := @collect_takes_limit_iff 1 firstByTag q two [] hq rfl
  obtain ⟨r, hr⟩ := h.1 fun _ _ => ⟨true, by rw [hfilters]; rfl⟩
  exact ⟨q, r, hq, hr, (h.2 r hr).2 (.inl one_ne_zero)⟩

open SampleTags in
/-- None of two documents is asked for, and one is returned. -/
theorem limit_zero_returns_one :
    Query.collect ⟨byTag, [], .asc, [], some 0⟩ two [] = .ok ⟨[tagged "a"], [upToFirst]⟩ := by
  decide

/-! ## Cursors -/

/-- The cursor is at no key outside the interval from which the scan would enter it, or leave it. -/
def ScanQuery.CursorInside (base : ScanQuery) : Option JsString → Prop
  | none | some [] => True
  | some (unit :: units) => ∀ key, base64ToBytes (unit :: units) = some key →
    match base.order with
    | .asc => startBelow (keySuccessor key) base.stop = true → ¬ keySuccessor key < base.start
    | .desc => base.start < key → ∀ stop, base.stop = some stop → ¬ stop < key

section Cursors

variable {query : Query} {base q : ScanQuery} {s : StoreSnapshot} {opts : PageOptions}
  {r : QueryPage}
  {cursor : Option JsString} {last : Option Bytes}

theorem keyInRange_consumedRange_iff (hlast : ∀ k, last = some k → keyInRange k q.interval = true)
    {key : Bytes} : keyInRange key (q.consumedRange last) = true ↔
      keyInRange key q.interval = true ∧ ∀ k, last = some k → ¬ q.order.precedes k key := by
  cases last with
  | none => simp [ScanQuery.consumedRange]
  | some k => simp [keyInRange_consumedRange q (hlast k rfl)]

theorem keyInRange_after {key : Bytes} (hkey : keyInRange key q.interval = true) (k : Bytes) :
    keyInRange k (q.after key).interval = true ↔
      keyInRange k q.interval = true ∧ q.order.precedes key k := by
  obtain ⟨hstart, hstop⟩ := keyInRange_iff.1 hkey
  cases horder : q.order with
  | asc =>
    simp only [ScanQuery.after, horder, keyInRange_iff, ScanQuery.interval,
      lt_keySuccessor_iff, not_not]
    exact ⟨fun h => ⟨⟨fun hlt => hstart (h.1.trans hlt), h.2⟩, h.1⟩, fun h => ⟨h.2, h.1.2⟩⟩
  | desc =>
    simp only [ScanQuery.after, horder, keyInRange_iff, ScanQuery.interval,
      Option.some.injEq, forall_eq']
    exact ⟨fun h => ⟨⟨h.1, fun e he => h.2.trans (hstop e he)⟩, h.2⟩, fun h => ⟨h.1.1, h.2⟩⟩

/-- What a resumed scan reads is in the interval only if the cursor is. -/
theorem cursorInside_iff (h : base.resume cursor = .ok q)
    (hlast : ∀ k, last = some k → keyInRange k q.interval = true) : base.CursorInside cursor ↔
      ∀ key, keyInRange key (q.consumedRange last) = true →
        keyInRange key base.interval = true := by
  simp only [keyInRange_consumedRange_iff hlast]
  match cursor, h with
  | none, h | some [], h =>
    cases h
    exact iff_of_true trivial fun key hin => hin.1
  | some (unit :: units), h =>
    rw [ScanQuery.resume] at h
    cases hkey : base64ToBytes (unit :: units) with
    | none =>
      rw [hkey] at h
      cases h
    | some k =>
      rw [hkey] at h
      rw [ScanQuery.CursorInside, hkey]
      simp only [Option.some.injEq, forall_eq']
      cases horder : base.order with
      | asc =>
        simp only [horder] at h
        cases h
        constructor
        · intro hinside key hin
          obtain ⟨hstart, hstop⟩ := keyInRange_iff.1 hin.1
          refine keyInRange_iff.2 ⟨fun hlt => ?_, hstop⟩
          have hbelow : startBelow (keySuccessor k) base.stop = true :=
            startBelow_iff.2 fun e he => lt_of_le_of_lt (not_lt.1 hstart) (hstop e he)
          exact hinside hbelow (lt_of_le_of_lt (not_lt.1 hstart) hlt)
        · intro hall hbelow
          refine (keyInRange_iff.1 (hall (keySuccessor k) ⟨?_, fun l hl => ?_⟩)).1
          · exact keyInRange_iff.2 ⟨lt_irrefl _, startBelow_iff.1 hbelow⟩
          · exact (keyInRange_iff.1 (hlast l hl)).1
      | desc =>
        simp only [horder] at h
        cases h
        constructor
        · intro hinside key hin
          obtain ⟨hstart, hstop⟩ := keyInRange_iff.1 hin.1
          have hlt := hstop k rfl
          exact keyInRange_iff.2 ⟨hstart, fun e he =>
            lt_of_lt_of_le hlt (not_lt.1 (hinside (lt_of_le_of_lt (not_lt.1 hstart) hlt) e he))⟩
        · -- the larger of the end and what was read last is read, and is not below the end
          intro hall hbelow e he hlt
          have hfrom : ¬ last.getD base.start < base.start ∧ last.getD base.start < k := by
            cases last with
            | none => exact ⟨lt_irrefl _, hbelow⟩
            | some l =>
              obtain ⟨hstart, hstop⟩ := keyInRange_iff.1 (hlast l rfl)
              exact ⟨hstart, hstop k rfl⟩
          have hin := hall (max (last.getD base.start) e) ⟨keyInRange_iff.2 ⟨?_, ?_⟩, ?_⟩
          · exact absurd ((keyInRange_iff.1 hin).2 e he) (not_lt.2 (le_max_right _ _))
          · exact fun h => hfrom.1 (lt_of_le_of_lt (le_max_left _ _) h)
          · rintro _ ⟨⟩
            exact max_lt hfrom.2 hlt
          · rintro l rfl
            exact not_lt.2 (le_max_left _ _)

/-- The cursor of a key of the interval, as those of the query's own pages, is inside. -/
theorem cursorInside_of_keyInRange {key : Bytes} (hne : key ≠ [])
    (hin : keyInRange key base.interval = true) :
    base.CursorInside (some (bytesToBase64 key)) := by
  have hnone : ∀ k, none = some k → keyInRange k (base.after key).interval = true := by simp
  refine (cursorInside_iff (resume_bytesToBase64 base hne) hnone).2 fun k hk => ?_
  exact ((keyInRange_after hin k).1 hk).1

/-- A page records one range, up to a key of its interval or to its end. -/
theorem readSet_paginateWith {overlay : List IndexOverlayEntry}
    (h : q.paginateWith s opts overlay = .ok r) :
    ∃ last, r.readSet = [q.consumedRange last] ∧ ∀ k, last = some k →
      keyInRange k q.interval = true := by
  have hall : ∃ last, [q.interval] = [q.consumedRange last] ∧
      ∀ k, last = some k → keyInRange k q.interval = true := ⟨none, rfl, by simp⟩
  cases overlay with
  | nil =>
    obtain ⟨p, hp, rfl⟩ := map_eq_ok.1 h
    obtain ⟨scan, hscan, rfl⟩ := map_eq_ok.1 (mapError_eq_ok.1 hp)
    cases hmore : scan.hasMore with
    | false =>
      simpa [RangeSet.add, scanCapped_of_hasMore hscan hmore] using hall
    | true =>
      obtain ⟨pre, row, post, hrows, hlast, -⟩ := pageLoop_stop hscan hmore
      refine ⟨some row.1, ?_, ?_⟩
      · simp [RangeSet.add, hlast]
      · rintro _ ⟨⟩
        exact keyInRange_of_mem_scan (hrows ▸ mem_append_right _ mem_cons_self)
  | cons o os =>
    obtain ⟨matched, -, h⟩ := bind_eq_ok.1 h
    rw [readSet_mergedPage h]
    exact hall

/-- Whatever cursor is sent, the page and its read range stay inside the interval of the query if
and only if the cursor is not outside on the side where the scan starts. -/
theorem page_inside_interval_iff {ctx : TransactionContext DocumentValue}
    (hplan : query.planned = .ok base)
    (h : query.paginate s opts (ctx.pendingIndexOverlay query.index.indexId) = .ok r) :
    ((∀ doc ∈ r.page, ∃ key, keyInRange key base.interval = true ∧
        overlaidValue s ctx query.index.indexId key = some doc) ∧
      ∀ range ∈ r.readSet, ∀ key, keyInRange key range = true →
        keyInRange key base.interval = true) ↔
      base.CursorInside opts.cursor := by
  rw [Query.paginate, hplan, Except.bind] at h
  obtain ⟨q, hresume, h⟩ := bind_eq_ok.1 h
  have hindex : query.index = q.index :=
    ((planned_index hplan).1.symm).trans (resume_index hresume).1.symm
  rw [hindex] at h ⊢
  obtain ⟨last, hread, hlast⟩ := readSet_paginateWith h
  rw [hread, forall_mem_singleton, cursorInside_iff hresume hlast]
  refine and_iff_right_of_imp fun hall doc hdoc => ?_
  obtain ⟨key, hrow⟩ := row_of_paginateWith h hdoc
  obtain ⟨hin, hvalue⟩ := mem_scanWithOverlay.1 hrow
  have hinside := (cursorInside_iff hresume hlast).2 hall
  have hnone : ∀ k, none = some k → keyInRange k q.interval = true := by simp
  exact ⟨key, (cursorInside_iff hresume hnone).1 hinside key hin, hvalue⟩

end Cursors

open SampleTags in
/-- The page after a cursor inside the interval. -/
theorem page_inside_interval_iff_next : ∃ base r, (constrained (tagAbove "0")).planned = .ok base ∧
    (constrained (tagAbove "0")).paginate two
    ⟨some (bytesToBase64 (keyOf "a")), 1, none⟩ [] = .ok r ∧
    r.page = [tagged "b"] ∧ ∀ range ∈ r.readSet, ∀ key, keyInRange key range = true →
      keyInRange key base.interval = true := by
  obtain ⟨key, hkey, hne⟩ : ∃ key, key = keyOf "a" ∧ key ≠ [] := ⟨_, rfl, by decide⟩
  obtain ⟨base, hbase, hin⟩ : ∃ base, (constrained (tagAbove "0")).planned = .ok base ∧
      keyInRange key base.interval = true := ⟨_, rfl, hkey ▸ by decide⟩
  have hsome : ((constrained (tagAbove "0")).paginate two ⟨some (bytesToBase64 key), 1, none⟩
      []).toOption.map (·.page) = some [tagged "b"] := by
    rw [hkey]
    decide +kernel
  rw [← hkey]
  cases hr : (constrained (tagAbove "0")).paginate two ⟨some (bytesToBase64 key), 1, none⟩ [] with
  | error e =>
    rw [hr] at hsome
    cases hsome
  | ok r =>
    rw [hr] at hsome
    have hread := @page_inside_interval_iff _ _ _ _ _ { snapshotTs := 0 } hbase hr
    exact ⟨base, r, hbase, rfl, Option.some.inj hsome,
      (hread.2 (cursorInside_of_keyInRange hne hin)).2⟩

open SampleTags in
/-- Asked for the documents with one tag, a page after a cursor below them starts with another. -/
theorem cursor_below_interval :
    Query.paginate ⟨byTag, [⟨js "tag", .eq, .value (.string (js "b"))⟩], .asc, [], none⟩ two
      ⟨some (js "AA=="), 1, none⟩ [] =
      .ok { firstPage with
        readSet := [⟨byTag.indexId.keyspace, [0, 0], some (keySuccessor (keyOf "b"))⟩]
        pageBounds := ⟨byTag.indexId.keyspace, [0, 0], some (keySuccessor (keyOf "a"))⟩ } := by
  rfl

/-! ## Constraints of a query -/

/-- What a caller of a query relies on: nothing that it returns violates a constraint, and a list
with a constraint that the plan does not apply is refused. -/
structure Query.Enforces (query : Query) (s : StoreSnapshot) (opts : PageOptions)
    (overlay : List IndexOverlayEntry) : Prop where
  collect : ∀ r, query.collect s overlay = .ok r → ∀ doc ∈ r.documents, ∀ c ∈ query.range,
    c.holds doc = true
  paginate : ∀ r, query.paginate s opts overlay = .ok r → ∀ doc ∈ r.page, ∀ c ∈ query.range,
    c.holds doc = true
  rejects : (∃ c ∈ query.range, c ∉ appliedConstraints query.index.fields query.range) →
    (∃ e, query.collect s overlay = .error e) ∧ ∃ e, query.paginate s opts overlay = .error e

/-- The cursor is not at a key from which the scan would come to a document outside the interval. -/
def ScanQuery.CursorClear (base : ScanQuery) : Option JsString → Prop
  | none | some [] => True
  | some (unit :: units) => ∀ after, base64ToBytes (unit :: units) = some after → ∀ id key,
    id.tableNumber = base.index.tableNumber → KeyOf base.index.fields key id →
    keyInRange key (base.after after).interval = true → keyInRange key base.interval = true

section Constraints

variable {query : Query} {base q : ScanQuery} {cursor : Option JsString}

theorem cursorClear_iff : base.CursorClear cursor ↔ ∀ q, base.resume cursor = .ok q → ∀ id key,
    id.tableNumber = base.index.tableNumber → KeyOf base.index.fields key id →
    keyInRange key q.interval = true → keyInRange key base.interval = true := by
  match cursor with
  | none | some [] =>
    refine iff_of_true trivial ?_
    rintro q ⟨⟩ id key - - hin
    exact hin
  | some (unit :: units) =>
    have hresume : ∀ q, base.resume (some (unit :: units)) = .ok q ↔
        ∃ after, base64ToBytes (unit :: units) = some after ∧ base.after after = q := fun q => by
      rw [ScanQuery.resume]
      cases base64ToBytes (unit :: units) with
      | none => simp
      | some after => cases horder : base.order <;> simp [ScanQuery.after, horder]
    simp only [ScanQuery.CursorClear, hresume, forall_exists_index, and_imp]
    exact ⟨fun h q after hafter hq => hq ▸ h after hafter, fun h after hafter =>
      h _ after hafter rfl⟩

theorem planned_filters (filters : List FilterExpr) (limit : Option Nat) :
    Query.planned { query with filters, limit } =
      query.planned.map fun base => { base with filters, limit } := by
  rw [Query.planned, Query.planned]
  cases buildIndexInterval query.index.fields query.range <;> rfl

theorem resume_filters (filters : List FilterExpr) (limit : Option Nat) :
    ScanQuery.resume { base with filters, limit } cursor =
      (base.resume cursor).map fun q => { q with filters, limit } := by
  match cursor with
  | none | some [] => rfl
  | some (unit :: units) =>
    rw [ScanQuery.resume, ScanQuery.resume]
    cases base64ToBytes (unit :: units) with
    | none => rfl
    | some after => cases horder : base.order <;> rfl

/-- A transaction that has inserted the document into an empty store. -/
theorem exists_inserted {idx : IndexSpec} {id : InternalDocumentId} {doc : DocumentValue}
    {key : Bytes} (htable : id.tableNumber = idx.tableNumber) (hdoc : IsDocument doc id)
    (hkey : extractIndexKey doc idx.fields = .ok key) :
    ∃ (catalog : Catalog) (ctx : TransactionContext DocumentValue), idx ∈ catalog.indexes ∧
      Indexed catalog (StoreSnapshot.document ⟨[], none⟩) ctx.staged ctx.indexUpdates ∧
      overlaidValue ⟨[], none⟩ ctx idx.indexId key = some doc := by
  let catalog : Catalog := ⟨[], [idx], nodup_singleton _⟩
  obtain ⟨us, hus⟩ : ∃ us, computeIndexUpdates (catalog.indexesForTable id.tableNumber)
    none (some doc)
      id = .ok us := by
    have hindexes : catalog.indexesForTable id.tableNumber = [idx] := by
      simp [catalog, Catalog.indexesForTable, htable]
    rw [hindexes, computeIndexUpdates, extractKey?, extractKey?, hkey]
    exact ⟨_, rfl⟩
  have hwrite : StagedWrite catalog (StoreSnapshot.document ⟨[], none⟩) .empty id none
    (some doc) us :=
    ⟨rfl, hus⟩
  have hindexed := hwrite.indexed (by rintro _ ⟨⟩; exact hdoc) .empty
    (EntriesFor.nil : EntriesFor catalog _ _).indexable
  refine ⟨catalog,
    { snapshotTs := 0, staged := OrderedMap.empty.set id (some doc), indexUpdates := us },
    mem_singleton.2 rfl, hindexed, ?_⟩
  obtain ⟨key', hkey', hlast⟩ := hindexed.complete idx (mem_singleton.2 rfl) id doc htable
    (OrderedMap.get?_set_self _)
  rw [hkey] at hkey'
  cases hkey'
  rw [nil_append] at hlast
  rw [overlaidValue, hlast]
  simp only [overlayValue, OrderedMap.get?_set_self]
  rfl

end Constraints

/-! ## Pages one after another -/

section Chain

variable {query : Query} {base q : ScanQuery} {s : StoreSnapshot} {opts : PageOptions}
  {r : QueryPage}
  {cursor : Option JsString} {pageSize : Nat} {maxScan : Option Nat} {key : Bytes}
  {pre post : List ScanRow} {row : ScanRow}

theorem after_index (q : ScanQuery) (key : Bytes) : (q.after key).index = q.index ∧
    (q.after key).order = q.order ∧ (q.after key).filters = q.filters := by
  unfold ScanQuery.after
  split <;> exact ⟨rfl, rfl, rfl⟩

theorem scan_after (hscan : q.scan s.log s.bound = pre ++ row :: post) :
    (q.after row.1).scan s.log s.bound = post := by
  have hsorted := scan_sorted q s.log s.bound
  have hin : keyInRange row.1 q.interval = true :=
    keyInRange_of_mem_scan (hscan ▸ mem_append_right _ mem_cons_self)
  obtain ⟨hindex, horder, -⟩ := after_index q row.1
  have hafter := scan_sorted (q.after row.1) s.log s.bound
  rw [hscan] at hsorted
  rw [horder] at hafter
  obtain ⟨-, hrest, hpre⟩ := pairwise_append.1 hsorted
  obtain ⟨hrow, hpost⟩ := pairwise_cons.1 hrest
  refine sorted_eq_of_mem_iff hafter hpost fun row' => ?_
  rw [mem_scan, hindex, keyInRange_after hin, ← and_assoc, ← mem_scan, hscan, mem_append, mem_cons]
  constructor
  · rintro ⟨hmem | rfl | hmem, hlt⟩
    · exact absurd hlt (ScanOrder.precedes_asymm (hpre row' hmem row mem_cons_self))
    · exact absurd hlt (ScanOrder.precedes_asymm hlt)
    · exact hmem
  · exact fun hmem => ⟨.inr (.inr hmem), hrow row' hmem⟩

theorem after_resume (h : base.resume cursor = .ok q) (key : Bytes) :
    q.after key = base.after key := by
  unfold ScanQuery.resume at h
  split at h
  · cases h
    rfl
  · cases h
    rfl
  · split at h
    · cases h
    · split at h <;> cases h <;> simp [ScanQuery.after, *]

/-- The scan caps that the pages over `rows` come to: each falls on a row that matches, or on one
that no key of the interval comes after, with no match in its page. The page under way has looked at
`scanned` rows and has `found` documents; a full one leaves the rows after its last document to the
next. -/
def ScanQuery.CapsClose (base : ScanQuery) (pageSize : Nat) (maxScan : Option Nat) :
    Nat → Nat → List ScanRow → Prop
  | _, _, [] => True
  | scanned, found, row :: rows =>
    if pageSize ≤ found + (passes base.filters row).toNat then
      base.CapsClose pageSize maxScan 0 0 rows
    else if maxScan.any fun n => n ≤ scanned + 1 then
      (passes base.filters row = true ∨
        found = 0 ∧ startBelow (base.after row.1).start (base.after row.1).stop = false) ∧
      base.CapsClose pageSize maxScan 0 0 rows
    else base.CapsClose pageSize maxScan (scanned + 1)
      (found + (passes base.filters row).toNat) rows

/-- No cap comes in rows that are fewer than it allows. -/
theorem capsClose_of_short {rows : List ScanRow} {scanned found : Nat}
    (h : ∀ n ∈ maxScan, scanned + rows.length < n) :
    base.CapsClose pageSize maxScan scanned found rows := by
  induction rows generalizing scanned found with
  | nil => trivial
  | cons row rows ih =>
    simp only [length_cons] at h
    rw [ScanQuery.CapsClose]
    split
    · exact ih fun n hn => (Nat.add_le_add_right (Nat.zero_le _) _).trans_lt
        (Nat.lt_of_succ_lt (h n hn))
    · rw [if_neg]
      · exact ih fun n hn => by
          have := h n hn
          omega
      · cases maxScan with
        | none => simp
        | some n =>
          have := h n rfl
          simp only [Option.any_some, decide_eq_true_eq]
          omega

/-- A full page looks for one more match, and leaves no cap behind if it finds the end. -/
theorem pageLoop_full {filters : List FilterExpr} {rows page : List ScanRow} {scanned : Nat}
    {last : Option Bytes} {r : PageScan} (hfull : pageSize ≤ page.length)
    (h : pageLoop filters pageSize maxScan scanned page last rows = .ok r) :
    r.page = page ∧ r.scanCapped = false ∧
      (r.hasMore = false → rows = [] ∨ ∀ n ∈ maxScan, scanned + rows.length < n) := by
  induction rows generalizing scanned last with
  | nil =>
    cases h
    exact ⟨rfl, rfl, fun _ => .inl rfl⟩
  | cons row rows ih =>
    obtain ⟨b, -, h⟩ := bind_eq_ok.1 h
    cases b with
    | true =>
      simp only [hfull, decide_true, Bool.and_self, if_true] at h
      cases h
      exact ⟨rfl, rfl, fun h => by cases h⟩
    | false =>
      simp only [Bool.false_and, Bool.false_eq_true, if_false] at h
      split at h
      · cases h
        exact ⟨rfl, decide_eq_false (not_lt.2 hfull), fun h => by cases h⟩
      · rename_i hcap
        obtain ⟨hpage, hcapped, hend⟩ := ih h
        refine ⟨hpage, hcapped, fun hmore => .inr ?_⟩
        rintro n ⟨⟩
        simp only [Option.any_some, decide_eq_true_eq] at hcap
        rcases hend hmore with rfl | hshort
        · simp only [length_singleton]
          omega
        · have := hshort n rfl
          simp only [length_cons]
          omega

/-- The part of the rows that a page takes ends with its last document, or at the scan cap; the caps
of the rest are those of the pages to come. -/
theorem pageLoop_part {rows page : List ScanRow} {scanned : Nat} {last : Option Bytes}
    {r : PageScan} (hlt : page.length < pageSize)
    (h : pageLoop base.filters pageSize maxScan scanned page last rows = .ok r) :
    if r.hasMore then ∃ pre row post, rows = pre ++ row :: post ∧
      r.page = page ++ (pre ++ [row]).filter (passes base.filters) ∧
      (if r.scanCapped then r.lastScanned = some row.1 else passes base.filters row = true) ∧
      (base.CapsClose pageSize maxScan scanned page.length rows ↔
        (passes base.filters row = true ∨ r.page = [] ∧
          startBelow (base.after row.1).start (base.after row.1).stop = false) ∧
        base.CapsClose pageSize maxScan 0 0 post)
    else base.CapsClose pageSize maxScan scanned page.length rows := by
  induction rows generalizing scanned page last with
  | nil =>
    cases h
    trivial
  | cons row rows ih =>
    obtain ⟨b, hrow, h⟩ := bind_eq_ok.1 h
    have hpass : passes base.filters row = b := by simp [passes, hrow]
    simp only [not_le.2 hlt, decide_false, Bool.and_false, Bool.false_eq_true, if_false] at h
    have hlen : (if b = true then page ++ [row] else page).length = page.length + b.toNat := by
      cases b <;> simp
    have hincluded : (if b = true then page ++ [row] else page) =
        page ++ [row].filter (passes base.filters) := by
      cases b <;> simp [hpass]
    rw [ScanQuery.CapsClose, hpass]
    by_cases hfull : pageSize ≤ page.length + b.toNat
    · -- the page is full with this row, whatever the loop still looks at
      obtain rfl : b = true := by
        cases b with
        | false => exact absurd hfull (by simpa using hlt)
        | true => rfl
      rw [← hlen] at hfull
      have hend : r.page = page ++ [row] ∧ r.scanCapped = false ∧
          (r.hasMore = false → base.CapsClose pageSize maxScan 0 0 rows) := by
        simp only [if_true] at h
        split at h
        · cases h
          exact ⟨rfl, decide_eq_false (not_lt.2 hfull), fun h => by cases h⟩
        · obtain ⟨hpage, hcapped, hend⟩ := pageLoop_full hfull h
          refine ⟨hpage, hcapped, fun hmore => ?_⟩
          rcases hend hmore with rfl | hshort
          · trivial
          · exact capsClose_of_short fun n hn => by
              have := hshort n hn
              omega
      obtain ⟨hpage, hcapped, hend⟩ := hend
      rw [hlen] at hfull
      rw [if_pos hfull]
      cases hmore : r.hasMore with
      | false => exact hend hmore
      | true =>
        refine ⟨[], row, rows, rfl, hpage.trans hincluded, ?_, ?_⟩
        · rw [hcapped]
          exact hpass
        · simp [hpass]
    · rw [if_neg hfull]
      split at h
      · rename_i hcap
        cases h
        refine ⟨[], row, rows, rfl, hincluded, ?_, ?_⟩
        · rw [if_pos (by simpa [hlen] using hfull)]
        · rw [if_pos hcap, hpass]
          cases b with
          | true => simp
          | false => simp [length_eq_zero_iff]
      · rename_i hcap
        have ih := ih (by rw [hlen]; omega) h
        rw [if_neg hcap]
        rw [hlen] at ih
        split at ih
        · rename_i hmore
          obtain ⟨pre, row', post, hrows, hpage, hrest⟩ := ih
          rw [if_pos hmore]
          refine ⟨row :: pre, row', post, by rw [hrows]; rfl, ?_, hrest⟩
          rw [hpage, hincluded, append_assoc, ← filter_append]
          rfl
        · rename_i hmore
          rwa [if_neg hmore]

/-- The last page has all rows of its scan that match; another one those up to its cursor, and it
owns the keys up to its last document. -/
theorem page_step (hsize : 1 ≤ pageSize) (hresume : base.resume cursor = .ok q)
    (h : q.paginateWith s ⟨cursor, pageSize, maxScan⟩ [] = .ok r) :
    (r.hasMore = false ∧ r.pageBounds = q.interval ∧
      r.page = ((q.scan s.log s.bound).filter (passes q.filters)).map (fun row => row.2.2) ∧
      base.CapsClose pageSize maxScan 0 0 (q.scan s.log s.bound)) ∨
    r.hasMore = true ∧ ∃ pre row post, q.scan s.log s.bound = pre ++ row :: post ∧
      r.nextCursor = some (bytesToBase64 row.1) ∧
      r.page = ((pre ++ [row]).filter (passes q.filters)).map (fun row => row.2.2) ∧
      r.pageBounds = q.consumedRange
        (((pre ++ [row]).filter (passes q.filters)).getLast?.map (·.1)) ∧
      (base.CapsClose pageSize maxScan 0 0 (q.scan s.log s.bound) ↔
        (passes q.filters row = true ∨ (pre ++ [row]).filter (passes q.filters) = [] ∧
          startBelow (q.after row.1).start (q.after row.1).stop = false) ∧
        base.CapsClose pageSize maxScan 0 0 post) := by
  obtain ⟨p, hp, rfl⟩ := map_eq_ok.1 h
  obtain ⟨scan, hscan, rfl⟩ := map_eq_ok.1 (mapError_eq_ok.1 hp)
  have hfilters := (resume_index hresume).2
  have hloop : pageLoop base.filters pageSize maxScan 0 [] none (q.scan s.log s.bound) =
    .ok scan := by
    rw [← hfilters]
    exact hscan
  have hpart := pageLoop_part hsize hloop
  cases hm : scan.hasMore with
  | false =>
    obtain ⟨pre, post, ms, hrows, hms, hpage, hmore, -⟩ := pageLoop_spec hscan
    rw [hmore hm, append_nil] at hrows
    rw [nil_append, (matchingRows_eq_ok.1 hms).2] at hpage
    rw [hm] at hpart
    exact .inl ⟨rfl, by simp [pageBounds, hm], by simp [hpage, hrows], hpart⟩
  | true =>
    rw [if_pos hm, ← hfilters] at hpart
    obtain ⟨pre, row, post, hrows, hpage, hlast, hclose⟩ := hpart
    rw [nil_append] at hpage
    refine .inr ⟨rfl, pre, row, post, hrows, ?_, by simp [hpage], ?_, ?_⟩
    · cases hc : scan.scanCapped with
      | true =>
        rw [hc] at hlast
        simp [show scan.lastScanned = some row.1 from hlast]
      | false =>
        rw [hc] at hlast
        simp [PageScan.lastIncluded, hpage, show passes q.filters row = true from hlast]
    · simp [pageBounds, hm, PageScan.lastIncluded, hpage]
    · rw [after_resume hresume, ← hpage]
      exact hclose

theorem exists_pageLoop {filters : List FilterExpr} {rows : List ScanRow}
    (h : ∀ row ∈ rows, ∃ b, everyClause row.2.2 filters = .ok b) : ∀ scanned page last,
      ∃ r, pageLoop filters pageSize maxScan scanned page last rows = .ok r := by
  induction rows with
  | nil => exact fun _ page last => ⟨_, rfl⟩
  | cons row rows ih =>
    intro scanned page last
    obtain ⟨b, hb⟩ := h row mem_cons_self
    rw [pageLoop, hb]
    simp only [Except.bind]
    split
    · exact ⟨_, rfl⟩
    · split
      · exact ⟨_, rfl⟩
      · exact ih (fun row hrow => h row (mem_cons_of_mem _ hrow)) _ _ _

/-- The pages from a cursor to the first one without more to come, each at the cursor of the one
before. -/
inductive Follows (query : Query) (s : StoreSnapshot) (pageSize : Nat) (maxScan : Option Nat) :
    Option JsString → List QueryPage → Prop
  | last {cursor : Option JsString} {r : QueryPage} :
    query.paginate s ⟨cursor, pageSize, maxScan⟩ [] = .ok r → r.hasMore = false →
    Follows query s pageSize maxScan cursor [r]
  | next {cursor : Option JsString} {r : QueryPage} {rs : List QueryPage} :
    query.paginate s ⟨cursor, pageSize, maxScan⟩ [] = .ok r → r.hasMore = true →
    Follows query s pageSize maxScan r.nextCursor rs →
      Follows query s pageSize maxScan cursor (r :: rs)

variable (hsize : 1 ≤ pageSize) (hplan : query.planned = .ok base)
  (hstored : Store.scanRow s.log base.index.indexId s.bound [] = none)

include hplan in
theorem paginate_resume (hresume : base.resume cursor = .ok q) :
    query.paginate s ⟨cursor, pageSize, maxScan⟩ [] =
      q.paginateWith s ⟨cursor, pageSize, maxScan⟩ [] := by
  rw [Query.paginate, hplan, Except.bind]
  rw [hresume]
  rfl

include hstored in
theorem resume_next (hresume : base.resume cursor = .ok q)
    (hscan : q.scan s.log s.bound = pre ++ row :: post) :
    base.resume (some (bytesToBase64 row.1)) = .ok (q.after row.1) := by
  have hmem : row ∈ q.scan s.log s.bound := hscan ▸ mem_append_right _ mem_cons_self
  have hrow := (mem_scan.1 hmem).1
  rw [after_resume hresume, resume_bytesToBase64 base fun hnil => ?_]
  rw [hnil, (resume_index hresume).1, hstored] at hrow
  cases hrow

include hsize hplan hstored in
theorem exists_follows (hresume : base.resume cursor = .ok q)
    (heval : ∀ row ∈ q.scan s.log s.bound, ∃ b, everyClause row.2.2 base.filters = .ok b) :
    ∃ pages, Follows query s pageSize maxScan cursor pages ∧ pages.flatMap QueryPage.page =
      ((q.scan s.log s.bound).filter (passes base.filters)).map fun row => row.2.2 := by
  induction hn : (q.scan s.log s.bound).length using Nat.strong_induction_on
    generalizing cursor q with
  | _ n ih =>
    subst hn
    have hfilters : q.filters = base.filters := (resume_index hresume).2
    obtain ⟨r, hr⟩ : ∃ r, q.paginateWith s ⟨cursor, pageSize, maxScan⟩ [] = .ok r := by
      obtain ⟨scan, hloop⟩ := @exists_pageLoop pageSize maxScan _ _ heval 0 [] none
      rw [ScanQuery.paginateWith, paginate, hfilters, hloop]
      exact ⟨_, rfl⟩
    have hpag := (paginate_resume hplan hresume).trans hr
    rcases page_step hsize hresume hr with ⟨hmore, -, hpage, -⟩ |
      ⟨hmore, pre, row, post, hscan, hcursor, hpage, -⟩
    · exact ⟨[r], .last hpag hmore, by simp [hpage, hfilters]⟩
    · have hnext := resume_next hstored hresume hscan
      have hafter := ih _ ?_ hnext ?_ rfl
      · rw [scan_after hscan, ← hcursor] at hafter
        obtain ⟨pages, hpages, hconcat⟩ := hafter
        refine ⟨r :: pages, .next hpag hmore hpages, ?_⟩
        rw [flatMap_cons, hconcat, hpage, hfilters, hscan, ← map_append,
          ← filter_append, append_assoc, singleton_append]
      · rw [scan_after hscan, hscan, length_append, length_cons]
        omega
      · rw [scan_after hscan]
        rw [hscan] at heval
        exact fun row' hrow' => heval row' (mem_append_right _ (mem_cons_of_mem _ hrow'))

include hsize hplan hstored in
/-- Following the cursors from the first page comes to an end, and the pages together are the result
of `collect` without a limit. -/
theorem pages_concat_collect {c : QueryResult}
    (hcollect : Query.collect { query with limit := none } s [] = .ok c) :
    ∃ pages, Follows query s pageSize maxScan none pages ∧
      pages.flatMap QueryPage.page = c.documents := by
  have hunlimited : Query.planned { query with limit := none } = .ok
    { base with limit := none } := by
    obtain ⟨interval, hinterval, rfl⟩ := map_eq_ok.1 hplan
    exact map_eq_ok.2 ⟨interval, hinterval, rfl⟩
  rw [Query.collect, hunlimited] at hcollect
  obtain ⟨result, hresult, rfl⟩ := map_eq_ok.1 hcollect
  obtain ⟨hrows, -⟩ := collect_eq_ok rfl (mapError_eq_ok.1 hresult)
  obtain ⟨heval, hdocs⟩ := matchingRows_eq_ok.1 hrows
  rw [hdocs]
  exact @exists_follows query base base s none pageSize maxScan hsize hplan hstored rfl heval

/-- How many pages own a key. -/
def owners (pages : List QueryPage) (key : Bytes) : Nat :=
  pages.countP fun r => keyInRange key r.pageBounds

theorem toNat_add {a b c : Bool} {p : Prop} (ha : a = true ↔ c = true ∧ p)
    (hb : b = true ↔ c = true ∧ ¬ p) : a.toNat + b.toNat = c.toNat := by
  cases c <;> by_cases hp : p <;> simp [hp] at ha hb <;> simp [ha, hb]

theorem startBelow_eq_false : startBelow q.start q.stop = false ↔
    ∀ k, ¬ keyInRange k q.interval = true := by
  rw [← Bool.not_eq_true, startBelow_iff]
  constructor
  · intro hnot k hk
    obtain ⟨hstart, hstop⟩ := keyInRange_iff.1 hk
    exact hnot fun e he => lt_of_le_of_lt (not_lt.1 hstart) (hstop e he)
  · exact fun hempty hbelow => hempty q.start (keyInRange_iff.2 ⟨lt_irrefl _, hbelow⟩)

include hsize hplan hstored in
theorem owners_spec {pages : List QueryPage} (h : Follows query s pageSize maxScan cursor pages)
    (hresume : base.resume cursor = .ok q) :
    (∀ key, 0 < owners pages key → keyInRange key q.interval = true) ∧
      (∀ key, keyInRange key q.interval = true → ∃ k, 0 < owners pages k) ∧
      ((∀ key, owners pages key = (keyInRange key q.interval).toNat) ↔
        base.CapsClose pageSize maxScan 0 0 (q.scan s.log s.bound)) := by
  induction h generalizing q with
  | @last cursor r hpag hmore =>
    rw [paginate_resume hplan hresume] at hpag
    obtain ⟨-, hbounds, -, hclose⟩ | ⟨hmore', -⟩ :=
      page_step hsize hresume hpag
    · have hown : ∀ key, owners [r] key = (keyInRange key q.interval).toNat := fun key => by
        rw [owners, countP_singleton, hbounds]
        cases keyInRange key q.interval <;> rfl
      refine ⟨fun key hpos => ?_, fun key hin => ⟨key, ?_⟩, iff_of_true hown hclose⟩
      · by_contra hout
        rw [hown, Bool.eq_false_of_not_eq_true hout] at hpos
        cases hpos
      · rw [hown, hin]
        exact Nat.one_pos
    · rw [hmore] at hmore'
      cases hmore'
  | @next cursor r rs hpag hmore hrs ih =>
    rw [paginate_resume hplan hresume] at hpag
    obtain ⟨hmore', -⟩ | ⟨-, pre, row, post, hscan, hcursor, -, hbounds, hclose⟩ :=
      page_step hsize hresume hpag
    · rw [hmore] at hmore'
      cases hmore'
    have hnext := resume_next hstored hresume hscan
    rw [← hcursor] at hnext
    obtain ⟨hinside, hsome, hiff⟩ := ih hnext
    rw [scan_after hscan] at hiff
    have hmem : ∀ row' ∈ pre ++ row :: post, keyInRange row'.1 q.interval = true :=
      fun row' hrow' => keyInRange_of_mem_scan (hscan ▸ hrow')
    have hin := hmem row (mem_append_right _ mem_cons_self)
    obtain ⟨last, hlast⟩ : ∃ last, ((pre ++ [row]).filter (passes q.filters)).getLast? =
      last := ⟨_, rfl⟩
    rw [hlast] at hbounds
    have hlastMem : ∀ row' ∈ last, row' ∈ pre ++ [row] ∧ passes q.filters row' = true :=
      fun row' hrow' => mem_filter.1 (mem_of_getLast? (hlast.trans hrow'))
    have hlastIn : ∀ k, last.map (·.1) = some k → keyInRange k q.interval = true := fun k hk => by
      obtain ⟨row', hrow', rfl⟩ := Option.map_eq_some_iff.1 hk
      exact hmem row' (by simpa [or_assoc] using mem_append_left post (hlastMem row' hrow').1)
    have hown := fun key => @keyInRange_consumedRange_iff q _ hlastIn key
    rw [← hbounds] at hown
    have hcons : ∀ key, owners (r :: rs) key = owners rs
      key + (keyInRange key r.pageBounds).toNat :=
      fun key => by
        rw [owners, countP_cons]
        cases keyInRange key r.pageBounds <;> rfl
    rw [startBelow_eq_false] at hclose
    have hafter := keyInRange_after hin
    refine ⟨fun key hpos => ?_, fun key hkey => ?_, ?_⟩
    · by_cases hb : keyInRange key r.pageBounds = true
      · exact ((hown key).1 hb).1
      · rw [hcons, Bool.eq_false_of_not_eq_true hb] at hpos
        exact ((hafter key).1 (hinside key hpos)).1
    · have hself : ∃ k, keyInRange k r.pageBounds = true := by
        cases last with
        | none => exact ⟨key, (hown key).2 ⟨hkey, by simp⟩⟩
        | some row' => exact ⟨row'.1, (hown row'.1).2 ⟨hlastIn _ rfl, by
            rintro _ ⟨⟩ hlt
            exact ScanOrder.precedes_asymm hlt hlt⟩⟩
      obtain ⟨k, hk⟩ := hself
      exact ⟨k, by rw [hcons, hk]; exact Nat.succ_pos _⟩
    -- a page whose keys end at the cursor takes its part of the interval and leaves the rest
    have hstep : (passes q.filters row = true ∨ (pre ++ [row]).filter (passes q.filters) = [] ∧
        ∀ k, ¬ keyInRange k (q.after row.1).interval = true) → ∀ key,
          (keyInRange key (q.after row.1).interval).toNat + (keyInRange key r.pageBounds).toNat =
            (keyInRange key q.interval).toNat := by
      intro hclosed key
      have hkey := hown key
      obtain hrow | ⟨hnil, hempty⟩ := hclosed
      · obtain rfl : last = some row := by simp [← hlast, hrow]
        exact toNat_add (hafter key) (by simpa using hkey)
      · obtain rfl : last = none := by simp [← hlast, hnil]
        exact toNat_add (p := False) (by simp [hempty key]) (by simpa using hkey)
    -- without that the cursor's key is owned by none, or a later key by two
    have hclosed : (∀ key, owners (r :: rs) key = (keyInRange key q.interval).toNat) →
        (passes q.filters row = true ∨ (pre ++ [row]).filter (passes q.filters) = [] ∧
          ∀ k, ¬ keyInRange k (q.after row.1).interval = true) := by
      intro hall
      cases last with
      | none =>
        refine .inr ⟨getLast?_eq_none_iff.1 hlast, fun key hkey => ?_⟩
        obtain ⟨k, hk⟩ := hsome key hkey
        have hkin := ((hafter k).1 (hinside k hk)).1
        have htwo := hall k
        rw [hcons, (hown k).2 ⟨hkin, by simp⟩, hkin] at htwo
        omega
      | some row' =>
        obtain ⟨hrow', hpass⟩ := hlastMem row' rfl
        rcases mem_append.1 hrow' with hrow' | hrow'
        · have hsorted := scan_sorted q s.log s.bound
          rw [hscan] at hsorted
          have hlt := (pairwise_append.1 hsorted).2.2 row' hrow' row mem_cons_self
          have hnot : ¬ 0 < owners rs row.1 := fun hpos =>
            have hself := ((hafter row.1).1 (hinside row.1 hpos)).2
            ScanOrder.precedes_asymm hself hself
          have hone := hall row.1
          rw [hcons, hin,
            Bool.eq_false_of_not_eq_true fun hb => ((hown row.1).1 hb).2 _ rfl hlt] at hone
          simp only [Bool.toNat_true, Bool.toNat_false] at hone
          omega
        · exact .inl (mem_singleton.1 hrow' ▸ hpass)
    rw [hclose, ← hiff]
    constructor
    · intro hall
      refine ⟨hclosed hall, fun key => ?_⟩
      have hkey := hall key
      rw [hcons, ← hstep (hclosed hall) key] at hkey
      omega
    · rintro ⟨hc, hrs⟩ key
      rw [hcons, hrs key, hstep hc key]

include hsize hplan hstored in
/-- Every key of the interval is owned by one page, and no other key by any, if and only if each
scan cap falls on a row of the scan that matches, or on one that nothing comes after and no match is
before. -/
theorem key_owned_once_iff {pages : List QueryPage}
    (h : Follows query s pageSize maxScan none pages) :
    (∀ key, owners pages key = (keyInRange key base.interval).toNat) ↔
      base.CapsClose pageSize maxScan 0 0 (base.scan s.log s.bound) :=
  (owners_spec hsize hplan hstored h (show base.resume none = .ok base from rfl)).2.2

end Chain

open SampleTags in
/-- Two pages with one document each. -/
theorem pages_concat_collect_two : ∃ pages, Follows firstByTag two 1 (some 1) none pages ∧
    pages.flatMap QueryPage.page = [tagged "a", tagged "b"] := by
  obtain ⟨base, hbase, hindex⟩ : ∃ base, firstByTag.planned = .ok base ∧ base.index = byTag :=
    ⟨_, rfl, rfl⟩
  have hcollect : Query.collect { firstByTag with limit := none } two [] =
      .ok ⟨[tagged "a", tagged "b"], [⟨byTag.indexId.keyspace, [], none⟩]⟩ := by decide
  exact pages_concat_collect le_rfl hbase (hindex ▸ by decide) hcollect

namespace SampleTags

/-- All documents but the last. -/
def notLast : Query := ⟨byTag, [], .asc, [.compare .neq (js "tag") (.string (js "b"))], none⟩

def afterLast : KeyRange := ⟨byTag.indexId.keyspace, keySuccessor (keyOf "b"), none⟩

/-- The first page stops at the scan cap after a row that does not match. -/
def cappedPages : List QueryPage :=
  [⟨[tagged "a"], some (bytesToBase64 (keyOf "b")), true, true,
    [⟨byTag.indexId.keyspace, [], some (keySuccessor (keyOf "b"))⟩], upToFirst⟩,
    ⟨[], none, false, false, [afterLast], afterLast⟩]

theorem follows_capped : Follows notLast two 2 (some 2) none cappedPages :=
  .next rfl rfl (.last (by decide +kernel) rfl)

end SampleTags

open SampleTags in
/-- The cap falls on a row that does not match, after one that does. -/
theorem key_owned_once_iff_capped : ∃ base, notLast.planned = .ok base ∧
    ¬ base.CapsClose 2 (some 2) 0 0 (base.scan two.log two.bound) := by
  obtain ⟨base, hbase, hindex, hrange⟩ : ∃ base, notLast.planned = .ok base ∧ base.index = byTag ∧
      keyInRange (keyOf "b") base.interval = true := ⟨_, rfl, rfl, by decide⟩
  have hstored : Store.scanRow two.log base.index.indexId two.bound [] = none :=
    hindex ▸ by decide
  refine ⟨base, hbase, fun hclose => ?_⟩
  have hone := (key_owned_once_iff one_le_two hbase hstored follows_capped).2 hclose (keyOf "b")
  rw [hrange] at hone
  exact absurd hone (by decide)

open SampleTags in
/-- No page owns the key of the row that the cap left out. -/
theorem capped_page_leaves_gap : Follows notLast two 2 (some 2) none cappedPages ∧
    notLast.planned = .ok (notLast.over ⟨[], none⟩) ∧ owners cappedPages (keyOf "b") = 0 :=
  ⟨follows_capped, rfl, by decide⟩

end Helipod
