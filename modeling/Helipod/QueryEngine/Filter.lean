import Helipod.Values.Value

/-!
# Field paths and filters

Model of `query-engine/src/filter.ts`: dotted field paths, and the filters a query
evaluates on each document after the index scan.
-/

namespace Helipod

/-! ## Field paths -/

def dot : CodeUnit := codeUnit '.'.toNat

/-- `path.split(".")`. -/
def splitPath : JsString → List JsString
  | [] => [[]]
  | c :: cs =>
    if c = dot then [] :: splitPath cs
    else
      match splitPath cs with
      | part :: parts => (c :: part) :: parts
      | [] => [[c]]

/-- Resolve a dotted field path against a document. -/
def evaluateFieldPath (doc : DocumentValue) (path : JsString) : JsValue :=
  (splitPath path).foldl JsValue.access (.value (.object doc))

/-! ## Filters -/

inductive ComparisonOp where
  | eq | neq | lt | lte | gt | gte
  deriving DecidableEq

inductive FilterExpr where
  | compare (op : ComparisonOp) (field : JsString) (value : Value)
  | and (clauses : List FilterExpr)
  | or (clauses : List FilterExpr)
  | not (clause : FilterExpr)

/-- What `typeRank` throws. -/
inductive CompareError where
  | unsupportedFunction
  deriving DecidableEq

@[simp] def ComparisonOp.holds : ComparisonOp → Ordering → Bool
  | .eq, c => c = .eq
  | .neq, c => c ≠ .eq
  | .lt, c => c = .lt
  | .lte, c => c ≠ .gt
  | .gt, c => c = .gt
  | .gte, c => c ≠ .lt

/-- One comparison; a missing field never matches. `Object.prototype` has no enumerable keys,
so it compares like an empty object. -/
def evaluateComparison (field : JsValue) (op : ComparisonOp) (value : Value) :
    Except CompareError Bool :=
  match field with
  | .undefined => .ok false
  | .function => .error .unsupportedFunction
  | .objectPrototype => .ok (op.holds (compareValues (.object []) value))
  | .value v => .ok (op.holds (compareValues v value))

mutual

def evaluateFilter (doc : DocumentValue) : FilterExpr → Except CompareError Bool
  | .compare op field value => evaluateComparison (evaluateFieldPath doc field) op value
  | .and clauses => everyClause doc clauses
  | .or clauses => someClause doc clauses
  | .not clause => (evaluateFilter doc clause).map (!·)
  termination_by structural e => e

/-- `clauses.every`. -/
@[simp] def everyClause (doc : DocumentValue) : List FilterExpr → Except CompareError Bool
  | [] => .ok true
  | c :: cs => (evaluateFilter doc c).bind fun b => if b then everyClause doc cs else .ok false
  termination_by structural cs => cs

/-- `clauses.some`. -/
def someClause (doc : DocumentValue) : List FilterExpr → Except CompareError Bool
  | [] => .ok false
  | c :: cs => (evaluateFilter doc c).bind fun b => if b then .ok true else someClause doc cs
  termination_by structural cs => cs

end

end Helipod
