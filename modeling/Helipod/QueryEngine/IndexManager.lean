import Helipod.IndexOrder
import Helipod.QueryEngine.Filter
import Helipod.Transactor.Context

/-!
# Index keys of documents

Model of `query-engine/src/index-manager.ts`: the key of a document in an index, and the
index entries a change of a document asks for.

Results: `extractIndexKey_id`.
-/

namespace Helipod

structure IndexSpec where
  tableNumber : Nat
  index : String
  fields : List JsString
  deriving DecidableEq

def IndexSpec.indexId (spec : IndexSpec) : IndexId := ⟨spec.tableNumber, spec.index⟩

def idField : JsString := js "_id"

def creationTimeField : JsString := js "_creationTime"

/-- `v === undefined ? null : v`. -/
def JsValue.orNull : JsValue → JsValue
  | .undefined => .value .null
  | v => v

/-- `v ?? other`. -/
def JsValue.nullish (other : Value) : JsValue → JsValue
  | .undefined => .value other
  | .value .null => .value other
  | v => v

/-- The tuple of the index fields, `_creationTime` and `_id`. -/
def indexTuple (doc : DocumentValue) (fields : List JsString) : List JsValue :=
  fields.map (fun field => (evaluateFieldPath doc field).orNull) ++
    [(JsValue.property doc creationTimeField).nullish (.number ⟨0⟩),
      (JsValue.property doc idField).nullish (.string [])]

def extractIndexKey (doc : DocumentValue) (fields : List JsString) : Except EncodeError Bytes :=
  encodeIndexKey (indexTuple doc fields)

/-- The key of an optional document. -/
def extractKey? (doc : Option DocumentValue) (fields : List JsString) :
    Except EncodeError (Option Bytes) :=
  match doc with
  | none => .ok none
  | some doc => (extractIndexKey doc fields).map some

/-- The entries for one index: the old key goes unless it stays, the new one is set. -/
def indexUpdatesFor (indexId : IndexId) (oldKey newKey : Option Bytes)
    (docId : InternalDocumentId) : List DatabaseIndexUpdate :=
  (match oldKey with
    | some k => if newKey = some k then [] else [⟨indexId, k, .deleted⟩]
    | none => []) ++
  match newKey with
    | some k => [⟨indexId, k, .nonClustered docId⟩]
    | none => []

def computeIndexUpdates (indexes : List IndexSpec) (oldDoc newDoc : Option DocumentValue)
    (docId : InternalDocumentId) : Except EncodeError (List DatabaseIndexUpdate) :=
  match indexes with
  | [] => .ok []
  | idx :: indexes => do
    let oldKey ← extractKey? oldDoc idx.fields
    let newKey ← extractKey? newDoc idx.fields
    let rest ← computeIndexUpdates indexes oldDoc newDoc docId
    return indexUpdatesFor idx.indexId oldKey newKey docId ++ rest

/-- Documents with the same key in an index have `_id` fields that compare equal. -/
theorem extractIndexKey_id {doc doc' : DocumentValue} {fields : List JsString} {k : Bytes}
    {v v' : Value}
    (h : extractIndexKey doc fields = .ok k) (h' : extractIndexKey doc' fields = .ok k)
    (hv : (JsValue.property doc idField).nullish (.string []) = .value v)
    (hv' : (JsValue.property doc' idField).nullish (.string []) = .value v') :
    compareValues v v' = .eq := by
  have hlast : ∀ {doc : DocumentValue} {v : Value}, extractIndexKey doc fields = .ok k →
      (JsValue.property doc idField).nullish (.string []) = .value v → ∃ vs u,
        vs.length = fields.length ∧ encodeIndexKey ((vs ++ [u, v]).map .value) = .ok k := by
    intro doc v h hv
    obtain ⟨ts, hts⟩ := values_of_encodeIndexKey h
    obtain ⟨vs, us, rfl, hvs, hus⟩ := List.append_eq_map_iff.1 hts
    obtain ⟨u, us, rfl, -, hus⟩ := List.map_eq_cons_iff.1 hus
    obtain ⟨w, rfl, hw⟩ := List.map_eq_singleton_iff.1 hus
    rw [hv] at hw
    cases hw
    exact ⟨vs, u, by simpa using congrArg List.length hvs, hts ▸ h⟩
  obtain ⟨vs, u, hlen, hk⟩ := hlast h hv
  obtain ⟨vs', u', hlen', hk'⟩ := hlast h' hv'
  have horder := compareKeyBytes_encodeIndexKey hk hk'
  rw [compareKeyBytes_self, compareTuples_append (hlen.trans hlen'.symm)] at horder
  have hpair := (Ordering.then_eq_eq.1 horder.symm).2
  simpa using (Ordering.then_eq_eq.1 hpair).2

end Helipod
