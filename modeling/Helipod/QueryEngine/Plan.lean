import Helipod.QueryEngine.QueryRuntime

/-!
# Planning a query

Model of `buildIndexInterval` (`query-engine/src/plan.ts`), which turns the constraints of a query
into one interval of index keys, and of how `collect` and `paginate`
(`query-engine/src/query-runtime.ts`) use it: the interval of the constraints, the rest of it after
a cursor, and the scan merged with the writes a transaction has staged.
-/

namespace Helipod

inductive QueryOperator where
  | eq | gt | gte | lt | lte
  deriving DecidableEq

structure RangeExpression where
  field : JsString
  operator : QueryOperator
  value : JsValue
  deriving DecidableEq

structure IndexInterval where
  start : Bytes
  stop : Option Bytes
  deriving DecidableEq

def indexKeyRangeStart (values : List JsValue) : Except EncodeError Bytes := encodeIndexKey values

/-- The bound above every key that begins with the values; none for no values. -/
def indexKeyRangeEnd : List JsValue → Except EncodeError (Option Bytes)
  | [] => .ok none
  | v :: vs => (encodeIndexKey (v :: vs)).map fun start => some (start ++ [byte 0xFF])

structure FieldBound where
  value : JsValue
  inclusive : Bool

/-- What the constraints say: values for the first fields and bounds for the next. -/
structure IndexPlan where
  equal : List JsValue
  lower : Option FieldBound
  upper : Option FieldBound

/-- A later bound replaces an earlier one on the same side. -/
def IndexPlan.bounded (plan : IndexPlan) (c : RangeExpression) : IndexPlan :=
  match c.operator with
  | .eq => plan
  | .gt => { plan with lower := some ⟨c.value, false⟩ }
  | .gte => { plan with lower := some ⟨c.value, true⟩ }
  | .lt => { plan with upper := some ⟨c.value, false⟩ }
  | .lte => { plan with upper := some ⟨c.value, true⟩ }

/-- The loop over the index fields, which ends at the first one without an equality. -/
def planFields (range : List RangeExpression) : List JsString → List JsValue → IndexPlan
  | [], equal => ⟨equal, none, none⟩
  | field :: fields, equal =>
    let constraints := range.filter fun r => r.field = field
    match constraints.find? fun c => c.operator = .eq with
    | some c => planFields range fields (equal ++ [c.value])
    | none => constraints.foldl IndexPlan.bounded ⟨equal, none, none⟩

def IndexPlan.start (plan : IndexPlan) : Except EncodeError Bytes :=
  match plan.lower with
  | none => indexKeyRangeStart plan.equal
  | some lower =>
    if lower.inclusive then encodeIndexKey (plan.equal ++ [lower.value])
    else (indexKeyRangeEnd (plan.equal ++ [lower.value])).map fun stop => stop.getD []

def IndexPlan.stop (plan : IndexPlan) : Except EncodeError (Option Bytes) :=
  match plan.upper with
  | none => indexKeyRangeEnd plan.equal
  | some upper =>
    if upper.inclusive then indexKeyRangeEnd (plan.equal ++ [upper.value])
    else (encodeIndexKey (plan.equal ++ [upper.value])).map some

def buildIndexInterval (fields : List JsString) (range : List RangeExpression) :
    Except EncodeError IndexInterval :=
  let plan := planFields range fields []
  plan.start.bind fun start => plan.stop.map fun stop => ⟨start, stop⟩

/-! ## Queries -/

structure Query where
  index : IndexSpec
  range : List RangeExpression
  order : ScanOrder
  filters : List FilterExpr
  limit : Option Nat

inductive QueryError where
  | encode (e : EncodeError)
  | compare (e : CompareError)
  /-- `atob` refuses the cursor. -/
  | invalidCursor
  /-- `pageEntries[pageEntries.length - 1]!.key` of an empty page. -/
  | noLastEntry
  deriving DecidableEq

/-- The scan of a query over an interval. -/
def Query.over (query : Query) (interval : IndexInterval) : ScanQuery :=
  { index := query.index, start := interval.start, stop := interval.stop, order := query.order,
    filters := query.filters, limit := query.limit }

/-- The scan of the interval that the constraints give. -/
def Query.planned (query : Query) : Except QueryError ScanQuery :=
  ((buildIndexInterval query.index.fields query.range).mapError .encode).map query.over

/-- The keys after the cursor in scan order; no cursor and an empty one leave the interval. -/
def ScanQuery.resume (q : ScanQuery) (cursor : Option JsString) : Except QueryError ScanQuery :=
  match cursor with
  | none | some [] => .ok q
  | some (unit :: units) =>
    match base64ToBytes (unit :: units) with
    | none => .error .invalidCursor
    | some key =>
      match q.order with
      | .asc => .ok { q with start := keySuccessor key }
      | .desc => .ok { q with stop := some key }

/-- A store at a read timestamp. -/
structure StoreSnapshot where
  log : List (Commit DocumentValue)
  bound : Option Nat

/-- A staged change of an index key; no value for a deleted one. -/
structure IndexOverlayEntry where
  key : Bytes
  value : Option DocumentValue

/-- One staged change on the merged rows. -/
def mergeEntry (q : ScanQuery) (merged : OrderedMap Bytes DocumentValue) (o : IndexOverlayEntry) :
    OrderedMap Bytes DocumentValue :=
  match o.value with
  | none => merged.erase o.key
  | some value => if keyInRange o.key q.interval then merged.set o.key value else merged

/-- The comparison of the sort: not after. -/
def ScanOrder.before : ScanOrder → Bytes × DocumentValue → Bytes × DocumentValue → Bool
  | .asc, a, b => compareKeyBytes a.1 b.1 ≠ .gt
  | .desc, a, b => compareKeyBytes b.1 a.1 ≠ .gt

def scanWithOverlay (q : ScanQuery) (s : StoreSnapshot) (overlay : List IndexOverlayEntry) :
    List (Bytes × DocumentValue) :=
  let committed := (q.scan s.log s.bound).foldl (fun m r => m.set r.1 r.2.2) OrderedMap.empty
  (overlay.foldl (mergeEntry q) committed).entries.insertionSort fun a b =>
    q.order.before a b

/-- The loop of `collect` over merged rows. -/
def collectMerged (filters : List FilterExpr) (limit : Option Nat) (found : List DocumentValue) :
    List (Bytes × DocumentValue) → Except CompareError (List DocumentValue)
  | [] => .ok found
  | row :: rows => (everyClause row.2 filters).bind fun passes =>
    if passes then
      if limit.any fun n => n ≤ found.length + 1 then .ok (found ++ [row.2])
      else collectMerged filters limit (found ++ [row.2]) rows
    else collectMerged filters limit found rows

structure QueryResult where
  documents : List DocumentValue
  readSet : RangeSet
  deriving DecidableEq

/-- `collect` of a planned scan. -/
def ScanQuery.collectWith (q : ScanQuery) (s : StoreSnapshot) (overlay : List IndexOverlayEntry) :
    Except QueryError QueryResult :=
  match overlay with
  | [] => ((collect q s.log s.bound).mapError .compare).map fun r =>
      ⟨r.documents.map fun row => row.2.2, RangeSet.add [] r.readRange⟩
  | o :: os =>
    ((collectMerged q.filters q.limit [] (scanWithOverlay q s (o :: os))).mapError .compare).map
      fun documents => ⟨documents, RangeSet.add [] q.interval⟩

def Query.collect (query : Query) (s : StoreSnapshot) (overlay : List IndexOverlayEntry) :
    Except QueryError QueryResult :=
  query.planned.bind fun q => q.collectWith s overlay

structure PageOptions where
  cursor : Option JsString
  pageSize : Nat
  maxScan : Option Nat

structure QueryPage where
  page : List DocumentValue
  nextCursor : Option JsString
  hasMore : Bool
  scanCapped : Bool
  readSet : RangeSet
  pageBounds : KeyRange
  deriving DecidableEq

/-- The key of the last entry, which is read only if there is more to come. -/
def mergedCursor (hasMore : Bool) (pageEntries : List (Bytes × DocumentValue)) :
    Except QueryError (Option Bytes) :=
  if hasMore then
    match pageEntries.getLast? with
    | none => .error .noLastEntry
    | some entry => .ok (some entry.1)
  else .ok none

/-- The page of the merged rows that match. -/
def mergedPage (q : ScanQuery) (pageSize : Nat) (matched : List (Bytes × DocumentValue)) :
    Except QueryError QueryPage :=
  let pageEntries := matched.take pageSize
  let hasMore := decide (pageSize < matched.length)
  (mergedCursor hasMore pageEntries).map fun lastKey =>
    { page := pageEntries.map Prod.snd
      nextCursor := lastKey.map bytesToBase64
      hasMore := hasMore
      scanCapped := false
      readSet := RangeSet.add [] q.interval
      pageBounds := q.interval }

/-- `paginate` of a scan that starts after the cursor. -/
def ScanQuery.paginateWith (q : ScanQuery) (s : StoreSnapshot) (opts : PageOptions)
    (overlay : List IndexOverlayEntry) : Except QueryError QueryPage :=
  match overlay with
  | [] => ((paginate q s.log s.bound opts.pageSize opts.maxScan).mapError .compare).map fun r =>
      { page := r.page.map fun row => row.2.2
        nextCursor := r.nextCursor
        hasMore := r.hasMore
        scanCapped := r.scanCapped
        readSet := RangeSet.add [] r.readRange
        pageBounds := r.pageBounds }
  | o :: os =>
    (((scanWithOverlay q s (o :: os)).filterM fun e => everyClause e.2 q.filters).mapError
      QueryError.compare).bind (mergedPage q opts.pageSize)

def Query.paginate (query : Query) (s : StoreSnapshot) (opts : PageOptions)
    (overlay : List IndexOverlayEntry) : Except QueryError QueryPage :=
  query.planned.bind fun base => (base.resume opts.cursor).bind fun q =>
    q.paginateWith s opts overlay

end Helipod
