import Helipod.Sync.CommitDiffer

/-!
# Rendering rows

Model of the render functions of `client/src/layered-store.ts`: the document of a
by-id query, and the documents of a range or a page, from the rows the client holds.
`none` stands for an exception of `jsonToConvex` or `atob`.
-/

namespace Helipod

/-- The value a client decodes from a JSON row. -/
def decodeRow (row : DocumentValue) : Option Value := jsonToConvex (.object row)

/-- What a client shows for a value that the server sends as it is. -/
def decodeValue (value : Value) : Option Value := jsonToConvex (convexToJson value)

/-- The first row, or `undefined`. -/
def renderByIdValue (rows : RowMap) : Option JsValue :=
  match rows.values with
  | [] => some .undefined
  | version :: _ => (decodeRow version.row).map .value

/-- The order key of a row in bytes. -/
def orderKeyBytes (version : RowVersion) : Option Bytes := base64ToBytes (version.orderKey.getD [])

/-- Rows with their order keys, in the order of the keys; `sort` is stable. -/
def sortRows (rows : List (Bytes × RowVersion)) : List (Bytes × RowVersion) :=
  rows.insertionSort fun a b => compareKeyBytes a.1 b.1 ≠ .gt

def renderRangeRows (rows : RowMap) (orderDir : ScanOrder) : Option (List Value) :=
  (rows.values.mapM fun version => (orderKeyBytes version).map fun key => (key, version)).bind
    fun keyed => (orderDir.ascending (sortRows keyed)).mapM fun e => decodeRow e.2.row

theorem sortRows_sorted (rows : List (Bytes × RowVersion)) :
    (sortRows rows).Pairwise fun a b => a.1 ≤ b.1 := by
  have htotal : Std.Total fun a b : Bytes × RowVersion => compareKeyBytes a.1 b.1 ≠ .gt :=
    ⟨fun a b => by simpa [compareKeyBytes_ne_gt] using le_total a.1 b.1⟩
  have htrans : IsTrans (Bytes × RowVersion) fun a b => compareKeyBytes a.1 b.1 ≠ .gt :=
    ⟨fun a b c => by simpa [compareKeyBytes_ne_gt] using le_trans⟩
  exact (List.pairwise_insertionSort _ rows).imp fun h => compareKeyBytes_ne_gt.1 h

end Helipod
