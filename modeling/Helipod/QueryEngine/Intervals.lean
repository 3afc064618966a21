import Helipod.Kernel.OwnWrites

/-!
# What the interval of a query holds

The interval that `buildIndexInterval` (`query-engine/src/plan.ts`) makes of the constraints of a
query holds exactly the keys of the documents that meet the constraints it applies: the equalities
on the first fields, and the last bound on each side of the field after them. The rest of the
constraints is dropped, although the header of `plan.ts` leaves them to the filters.

Results: `prefixRange_iff`, `keyInRange_iff_applied`, `wellFormed_interval_exact`,
`constraint_iff_filter`, `unapplied_constraint_ignored`.
-/

namespace Helipod

open List

open Except (map_eq_ok mapError_eq_ok bind_eq_ok)

/-! ## Prefixes of tuples -/

theorem compareTuples_take_lt (ts ps : List Value) :
    compareTuples (ts.take ps.length) ps = .lt ↔ compareTuples ts ps = .lt := by
  induction ps generalizing ts with
  | nil => cases ts <;> simp
  | cons p ps ih =>
    cases ts with
    | nil => rfl
    | cons t ts => simp [Ordering.then_eq_lt, ih]

section Keys

variable {ts ps : List Value} {key start : Bytes}

variable (hkey : encodeIndexKey (ts.map .value) = .ok key)
include hkey

theorem key_lt_start_iff (hstart : encodeIndexKey (ps.map .value) = .ok start) :
    key < start ↔ compareTuples (ts.take ps.length) ps = .lt := by
  rw [← compareKeyBytes_eq_lt, compareKeyBytes_encodeIndexKey hkey hstart, compareTuples_take_lt]

/-- A key is below every continuation of a tuple's key by the escape byte unless it is above the
tuple. -/
theorem key_lt_end_iff (hstart : encodeIndexKey (ps.map .value) = .ok start) :
    key < start ++ [byte 0xFF] ↔ compareTuples (ts.take ps.length) ps ≠ .gt := by
  rw [← compareKeyBytes_eq_lt]
  induction ps generalizing ts key start with
  | nil =>
    cases hstart
    simp only [length_nil, take_zero, compareTuples, ne_eq, reduceCtorEq, not_false_eq_true,
      iff_true]
    cases key with
    | nil => rfl
    | cons b key =>
      have hb : b ≠ byte 0xFF := by simpa [NotEscape] using encodeIndexKey_notEscape hkey
      exact compareKeyBytes_cons_lt (lt_escape hb) _ _
  | cons p ps ih =>
    obtain ⟨f, rest, hf, hrest, rfl⟩ := encodeIndexKey_cons.1 hstart
    cases ts with
    | nil =>
      cases hkey
      obtain ⟨payload, rfl, -⟩ := elementTag_of_pushElement hf
      exact iff_of_true rfl (by simp)
    | cons t ts =>
      obtain ⟨e, rest', he, hrest', rfl⟩ := encodeIndexKey_cons.1 hkey
      have hclosing : Closing (rest ++ [byte 0xFF]) := by
        cases hr : rest with
        | nil => exact .inr rfl
        | cons b bytes =>
          have hb := encodeIndexKey_notEscape hrest
          exact .inl (by simpa [hr, NotEscape] using hb)
      rw [append_assoc, compareKeyBytes_pushElement he hf
        (.inl (encodeIndexKey_notEscape hrest')) hclosing]
      have ih := ih hrest' hrest
      simp only [length_cons, take_succ_cons, compareTuples]
      cases compareValues t p with
      | lt => simp
      | eq => exact ih
      | gt => simp

theorem below_rangeEnd_iff {stop : Option Bytes}
    (hstop : indexKeyRangeEnd (ps.map .value) = .ok stop) :
    (∀ e, stop = some e → key < e) ↔ compareTuples (ts.take ps.length) ps ≠ .gt := by
  cases ps with
  | nil =>
    cases hstop
    simp
  | cons p ps =>
    obtain ⟨start, hstart, rfl⟩ := map_eq_ok.1 hstop
    have hlt := key_lt_end_iff hkey
      (show encodeIndexKey ((p :: ps).map .value) = .ok start from hstart)
    simpa using hlt

end Keys

theorem indexKeyRangeEnd_of_encodeIndexKey {vs : List JsValue} {k : Bytes}
    (h : encodeIndexKey vs = .ok k) : ∃ stop, indexKeyRangeEnd vs = .ok stop := by
  cases vs with
  | nil => exact ⟨none, rfl⟩
  | cons v vs => exact ⟨some (k ++ [byte 0xFF]), by rw [indexKeyRangeEnd, h]; rfl⟩

/-- For all tuples of indexable values, which are those that have keys: the key of a tuple lies in
the range of a prefix exactly if its first elements compare equal to the prefix. -/
theorem prefixRange_iff {ps ts : List Value} (hp : ∀ v ∈ ps, v.indexable = true)
    (ht : ∀ v ∈ ts, v.indexable = true) (keyspace : Keyspace) :
    ∃ start stop key, indexKeyRangeStart (ps.map .value) = .ok start ∧
      indexKeyRangeEnd (ps.map .value) = .ok stop ∧ encodeIndexKey (ts.map .value) = .ok key ∧
      (keyInRange key ⟨keyspace, start, stop⟩ = true ↔ compareTuples (ts.take ps.length)
        ps = .eq) := by
  obtain ⟨start, hstart⟩ := encodeIndexKey_ok_iff.2 hp
  obtain ⟨key, hkey⟩ := encodeIndexKey_ok_iff.2 ht
  obtain ⟨stop, hstop⟩ := indexKeyRangeEnd_of_encodeIndexKey hstart
  refine ⟨start, stop, key, hstart, hstop, hkey, ?_⟩
  rw [keyInRange_iff, key_lt_start_iff hkey hstart, below_rangeEnd_iff hkey hstop]
  cases compareTuples (ts.take ps.length) ps <;> simp

/-- The tuple of an array compares equal to itself, but neither has a range nor a key. -/
theorem array_has_no_range : compareTuples [.array []] [.array []] = .eq ∧
    ¬∃ start key, indexKeyRangeStart [.value (.array [])] = .ok start ∧
      encodeIndexKey [.value (.array [])] = .ok key := by
  refine ⟨by decide +kernel, ?_⟩
  rintro ⟨start, key, -, hkey⟩
  cases hkey

open SampleTags in
/-- The range of a string does not hold the string with a zero at its end, whose escaped key goes on
from the end of the range. -/
theorem prefixRange_zero : ∃ start stop key,
    indexKeyRangeStart [.value (.string (js "a"))] = .ok start ∧
    indexKeyRangeEnd [.value (.string (js "a"))] = .ok stop ∧
    encodeIndexKey [.value (.string (js "a" ++ [codeUnit 0]))] = .ok key ∧
    keyInRange key ⟨byTag.indexId.keyspace, start, stop⟩ = false := by
  obtain ⟨start, stop, key, hstart, hstop, hkey, hin⟩ := prefixRange_iff
    (show ∀ v ∈ [Value.string (js "a")], v.indexable = true by decide)
    (show ∀ v ∈ [Value.string (js "a" ++ [codeUnit 0])], v.indexable = true by decide)
    byTag.indexId.keyspace
  exact ⟨start, stop, key, hstart, hstop, hkey, Bool.eq_false_iff.2 (mt hin.1 (by decide))⟩

/-! ## The constraints that a plan applies -/

def QueryOperator.comparison : QueryOperator → ComparisonOp
  | .eq => .eq
  | .gt => .gt
  | .gte => .gte
  | .lt => .lt
  | .lte => .lte

inductive Side where
  | equal | lower | upper
  deriving DecidableEq

def QueryOperator.side : QueryOperator → Side
  | .eq => .equal
  | .gt | .gte => .lower
  | .lt | .lte => .upper

/-- The constraint holds of the document's field, where a missing field counts as null. -/
def RangeExpression.holds (c : RangeExpression) (doc : DocumentValue) : Bool :=
  match c.value with
  | .value w => evaluateComparison (evaluateFieldPath doc c.field).orNull
      c.operator.comparison w = .ok true
  | _ => false

/-- The equalities that give a plan its first values. -/
@[simp] def plannedEqualities (range : List RangeExpression) : List JsString → List RangeExpression
  | [] => []
  | field :: fields =>
    match (range.filter fun r => r.field = field).find? fun c => c.operator = .eq with
    | some c => c :: plannedEqualities range fields
    | none => []

/-- The constraints on the first field without an equality. -/
def nextConstraints (range : List RangeExpression) : List JsString → List RangeExpression
  | [] => []
  | field :: fields =>
    match (range.filter fun r => r.field = field).find? fun c => c.operator = .eq with
    | some _ => nextConstraints range fields
    | none => range.filter fun r => r.field = field

/-- The last constraint on one side, which replaces the others. -/
def lastBound (side : Side) (cs : List RangeExpression) : Option RangeExpression :=
  cs.reverse.find? fun c => c.operator.side = side

/-- The constraints that the interval of a query depends on. -/
def appliedConstraints (fields : List JsString) (range : List RangeExpression) :
    List RangeExpression :=
  let next := nextConstraints range fields
  plannedEqualities range fields ++ (lastBound .lower next).toList ++ (lastBound .upper next).toList

def RangeExpression.bound (c : RangeExpression) : FieldBound :=
  ⟨c.value, c.operator = .gte ∨ c.operator = .lte⟩

theorem foldl_bounded (equal : List JsValue) (cs : List RangeExpression) :
    cs.foldl IndexPlan.bounded ⟨equal, none, none⟩ =
      ⟨equal, (lastBound .lower cs).map (·.bound), (lastBound .upper cs).map (·.bound)⟩ := by
  induction cs using List.reverseRecOn with
  | nil => rfl
  | append_singleton cs c ih =>
    rw [foldl_concat, ih]
    simp only [lastBound, reverse_concat]
    obtain ⟨field, operator, value⟩ := c
    cases operator <;> rfl

theorem planFields_eq (range : List RangeExpression) (fields : List JsString)
    (equal : List JsValue) : planFields range fields equal =
      ⟨equal ++ (plannedEqualities range fields).map (·.value),
        (lastBound .lower (nextConstraints range fields)).map (·.bound),
        (lastBound .upper (nextConstraints range fields)).map (·.bound)⟩ := by
  induction fields generalizing equal with
  | nil => simp [planFields, nextConstraints, lastBound]
  | cons field fields ih =>
    rw [planFields, plannedEqualities, nextConstraints]
    cases (range.filter fun r => r.field = field).find? fun c => c.operator = .eq with
    | some c => simp [ih]
    | none => simp [foldl_bounded]

/-! ## Exactness -/

/-- The values of a plan with its bound on one side. -/
def IndexPlan.bounding (plan : IndexPlan) (bound : Option FieldBound) : List JsValue :=
  plan.equal ++ (bound.map (·.value)).toList

theorem encodeIndexKey_of_rangeEnd {vs : List JsValue} {stop : Option Bytes}
    (h : indexKeyRangeEnd vs = .ok stop) : ∃ k, encodeIndexKey vs = .ok k := by
  cases vs with
  | nil => exact ⟨[], rfl⟩
  | cons v vs =>
    obtain ⟨k, hk, -⟩ := map_eq_ok.1 h
    exact ⟨k, hk⟩

theorem IndexPlan.values_of_stop {plan : IndexPlan} {stop : Option Bytes}
    (h : plan.stop = .ok stop) : ∃ us : List Value, plan.bounding plan.upper = us.map .value := by
  suffices hk : ∃ k, encodeIndexKey (plan.bounding plan.upper) = .ok k from
    hk.elim fun k hk => values_of_encodeIndexKey hk
  obtain ⟨equal, lower, upper⟩ := plan
  rcases upper with - | ⟨value, - | -⟩
  · simpa [bounding] using encodeIndexKey_of_rangeEnd h
  · obtain ⟨k, hk, -⟩ := map_eq_ok.1 h
    exact ⟨k, hk⟩
  · exact encodeIndexKey_of_rangeEnd h

/-- A lower bound starts where the opposite upper bound would end. -/
theorem IndexPlan.stop_of_start {plan : IndexPlan} {bound : FieldBound} {start : Bytes}
    (hlower : plan.lower = some bound) (h : plan.start = .ok start) :
    IndexPlan.stop { plan with upper := some ⟨bound.value, !bound.inclusive⟩ } =
      .ok (some start) := by
  obtain ⟨value, inclusive⟩ := bound
  rw [IndexPlan.start, hlower] at h
  cases inclusive with
  | true => exact map_eq_ok.2 ⟨start, h, rfl⟩
  | false =>
    obtain ⟨stop, hstop, rfl⟩ := map_eq_ok.1 h
    obtain ⟨e, rfl⟩ : ∃ e, stop = some e := by
      obtain ⟨v, vs, hvs⟩ := exists_cons_of_ne_nil (append_ne_nil_of_right_ne_nil plan.equal
        (cons_ne_nil value []))
      rw [hvs] at hstop
      obtain ⟨e, -, rfl⟩ := map_eq_ok.1 hstop
      exact ⟨_, rfl⟩
    exact hstop

section Bounds

variable {as ws rest : List Value} {v : Value} {key : Bytes} {c : RangeExpression}
  (hlen : as.length = ws.length) (hkey : encodeIndexKey ((as ++ v :: rest).map .value) = .ok key)

include hlen hkey

/-- A key is below the end of an interval if its tuple is within the bound. -/
theorem below_stop_iff {value : JsValue} {inclusive : Bool} {lower : Option FieldBound}
    {stop : Option Bytes}
    (hstop : IndexPlan.stop ⟨ws.map .value, lower, some ⟨value, inclusive⟩⟩ = .ok stop) :
    ∃ w, value = .value w ∧ ((∀ e, stop = some e → key < e) ↔
      (if inclusive then ComparisonOp.lte else .lt).holds
        ((compareTuples as ws).then (compareValues v w)) = true) := by
  obtain ⟨us, hus⟩ := IndexPlan.values_of_stop hstop
  obtain ⟨-, us, -, -, hus⟩ := append_eq_map_iff.1 hus
  obtain ⟨w, -, rfl⟩ := map_eq_singleton_iff.1 hus
  have hmap : ws.map JsValue.value ++ [.value w] = (ws ++ [w]).map .value := by simp
  have hcompare : compareTuples ((as ++ v :: rest).take (ws ++ [w]).length) (ws ++ [w]) =
      (compareTuples as ws).then (compareValues v w) := by
    have htake : (as ++ v :: rest).take (ws ++ [w]).length = as ++ [v] := by
      simp [← hlen, take_append, take_of_length_le]
    rw [htake, compareTuples_append hlen]
    cases hvw : compareValues v w <;> simp [hvw]
  refine ⟨w, rfl, ?_⟩
  rw [← hcompare]
  cases inclusive with
  | true =>
    simp only [IndexPlan.stop, hmap] at hstop
    rw [below_rangeEnd_iff hkey hstop]
    simp
  | false =>
    simp only [IndexPlan.stop, hmap] at hstop
    obtain ⟨e, he, rfl⟩ := map_eq_ok.1 hstop
    simpa using key_lt_start_iff hkey he

/-- The start of an interval: above the equal values, or at them with the bound met. -/
theorem start_iff {lower : Option RangeExpression} {upper : Option FieldBound}
    (hside : ∀ c ∈ lower, c.operator.side = .lower) {start : Bytes}
    (hstart : IndexPlan.start ⟨ws.map .value, lower.map (·.bound), upper⟩ = .ok start) :
    ¬ key < start ↔ compareTuples as ws = .gt ∨ compareTuples as ws = .eq ∧
      ∀ c ∈ lower, ∃ w, c.value = .value w ∧
        c.operator.comparison.holds (compareValues v w) = true := by
  cases lower with
  | none =>
    have hlt := key_lt_start_iff hkey hstart
    rw [← hlen, take_left] at hlt
    rw [hlt]
    cases compareTuples as ws <;> simp
  | some c =>
    obtain ⟨w, hw, hbelow⟩ := below_stop_iff hlen hkey (IndexPlan.stop_of_start rfl hstart)
    have hside := hside c rfl
    obtain ⟨field, operator, value⟩ := c
    obtain rfl : value = .value w := hw
    simp only [Option.some.injEq, forall_eq'] at hbelow
    rw [hbelow]
    cases operator <;> cases hside <;> cases compareTuples as ws <;>
      simp [RangeExpression.bound, QueryOperator.comparison]

/-- The end of an interval: below the equal values, or at them with the bound met. -/
theorem stop_iff {lower : Option FieldBound} {upper : Option RangeExpression}
    (hside : ∀ c ∈ upper, c.operator.side = .upper) {stop : Option Bytes}
    (hstop : IndexPlan.stop ⟨ws.map .value, lower, upper.map (·.bound)⟩ = .ok stop) :
    (∀ e, stop = some e → key < e) ↔ compareTuples as ws = .lt ∨ compareTuples as ws = .eq ∧
      ∀ c ∈ upper, ∃ w, c.value = .value w ∧
        c.operator.comparison.holds (compareValues v w) = true := by
  cases upper with
  | none =>
    rw [below_rangeEnd_iff hkey hstop, ← hlen, take_left]
    cases compareTuples as ws <;> simp
  | some c =>
    obtain ⟨w, hw, hbelow⟩ := below_stop_iff hlen hkey hstop
    have hside := hside c rfl
    obtain ⟨field, operator, value⟩ := c
    obtain rfl : value = .value w := hw
    rw [hbelow]
    cases operator <;> cases hside <;> cases compareTuples as ws <;>
      simp [QueryOperator.comparison]

end Bounds

section Documents

variable {doc : DocumentValue} {range : List RangeExpression} {fields : List JsString}
  {c : RangeExpression}

/-- The value that an index has for a field of a document. -/
def indexedValue (doc : DocumentValue) (field : JsString) : JsValue :=
  (evaluateFieldPath doc field).orNull

theorem RangeExpression.holds_iff {v : Value}
    (hv : indexedValue doc c.field = .value v) : c.holds doc = true ↔
      ∃ w, c.value = .value w ∧ c.operator.comparison.holds (compareValues v w) = true := by
  rw [indexedValue] at hv
  cases hw : c.value <;> simp [RangeExpression.holds, hv, hw, evaluateComparison]

variable {field : JsString}

theorem mem_of_find
    (h : (range.filter fun r => r.field = field).find? (fun c => c.operator = .eq) = some c) :
    c ∈ range ∧ c.field = field ∧ c.operator = .eq := by
  obtain ⟨hmem, hfield⟩ := mem_filter.1 (mem_of_find?_eq_some h)
  have heq := find?_some h
  exact ⟨hmem, of_decide_eq_true hfield, of_decide_eq_true heq⟩

theorem equalities_iff {as ws : List Value}
    (hws : (plannedEqualities range fields).map (·.value) = ws.map .value)
    (has : (fields.map (indexedValue doc)).take ws.length = as.map .value) :
    compareTuples as ws = .eq ↔ ∀ c ∈ plannedEqualities range fields, c.holds doc = true := by
  induction fields generalizing as ws with
  | nil =>
    obtain rfl := map_eq_nil_iff.1 hws.symm
    obtain rfl := map_eq_nil_iff.1 has.symm
    simp
  | cons field fields ih =>
    rw [plannedEqualities] at hws ⊢
    split at hws
    · rename_i c hfind
      obtain ⟨-, rfl, heq⟩ := mem_of_find hfind
      obtain ⟨w, ws, rfl, hw, hws⟩ := map_eq_cons_iff.1 hws.symm
      obtain ⟨v, as, rfl, hv, has⟩ := map_eq_cons_iff.1 has.symm
      rw [forall_mem_cons, ← ih hws.symm has.symm, RangeExpression.holds_iff hv.symm, compareTuples,
        Ordering.then_eq_eq]
      simp [← hw, heq, QueryOperator.comparison]
    · obtain rfl := map_eq_nil_iff.1 hws.symm
      obtain rfl := map_eq_nil_iff.1 has.symm
      simp

theorem length_plannedEqualities (fields : List JsString) :
    (plannedEqualities range fields).length ≤ fields.length := by
  induction fields with
  | nil => exact Nat.le_refl _
  | cons field fields ih =>
    rw [plannedEqualities]
    split
    · exact Nat.succ_le_succ ih
    · exact Nat.zero_le _

theorem next_field (h : c ∈ nextConstraints range fields) :
    c ∈ range ∧ c.operator ≠ .eq ∧ fields[(plannedEqualities range fields).length]? =
      some c.field := by
  induction fields with
  | nil => exact absurd h not_mem_nil
  | cons field fields ih =>
    rw [nextConstraints] at h
    rw [plannedEqualities]
    split at h
    · exact ih h
    · rename_i hfind
      obtain ⟨hmem, hfield⟩ := mem_filter.1 h
      have hne := find?_eq_none.1 hfind c h
      exact ⟨hmem, by simpa using hne, congrArg some (of_decide_eq_true hfield).symm⟩

theorem mem_of_lastBound {side : Side} {cs : List RangeExpression}
    (h : c ∈ lastBound side cs) : c ∈ cs ∧ c.operator.side = side := by
  have hside := find?_some h
  exact ⟨mem_reverse.1 (mem_of_find?_eq_some h), of_decide_eq_true hside⟩

/-- The tuple of a document at the field after the equalities. -/
theorem indexTuple_split {n : Nat} (hn : n ≤ fields.length) {ts : List Value}
    (hts : indexTuple doc fields = ts.map .value) :
    ∃ as v rest, ts = as ++ v :: rest ∧ as.length = n ∧
      (fields.map (indexedValue doc)).take n = as.map .value ∧
      ∀ field, fields[n]? = some field → indexedValue doc field = .value v := by
  have hlen := congrArg List.length hts
  simp only [indexTuple, length_append, length_map, length_cons] at hlen
  have hlt : n < ts.length := by omega
  refine ⟨ts.take n, ts[n], ts.drop (n + 1), by simp, by simp; omega, ?_, fun field hfield => ?_⟩
  · rw [map_take, ← hts, indexTuple, take_append_of_le_length (by simpa using hn)]
    rfl
  · have hget := congrArg (·[n]?) hts
    have hlt' : n < fields.length := (List.getElem?_eq_some_iff.1 hfield).1
    simp only [indexTuple, getElem?_map] at hget
    rw [getElem?_append_left (by simpa using hlt'), getElem?_map, hfield,
      getElem?_eq_getElem hlt] at hget
    exact Option.some.inj hget

/-- The key of a document lies in the interval exactly if the constraints that the plan applies hold
of it. -/
theorem keyInRange_iff_applied {interval : IndexInterval} {key : Bytes}
    (hinterval : buildIndexInterval fields range = .ok interval)
    (hkey : extractIndexKey doc fields = .ok key) (keyspace : Keyspace) :
    keyInRange key ⟨keyspace, interval.start, interval.stop⟩ = true ↔
      ∀ c ∈ appliedConstraints fields range, c.holds doc = true := by
  rw [buildIndexInterval, planFields_eq] at hinterval
  obtain ⟨start, hstart, hinterval⟩ := bind_eq_ok.1 hinterval
  obtain ⟨stop, hstop, rfl⟩ := map_eq_ok.1 hinterval
  obtain ⟨us, hus⟩ := IndexPlan.values_of_stop hstop
  obtain ⟨ws, -, -, hws, -⟩ := append_eq_map_iff.1 hus
  obtain ⟨ts, hts⟩ := values_of_encodeIndexKey hkey
  simp only at hws hstart hstop
  have hlen : ws.length = (plannedEqualities range fields).length := by
    simpa using congrArg List.length hws
  obtain ⟨as, v, rest, rfl, has, htake, hv⟩ :=
    indexTuple_split (hlen ▸ length_plannedEqualities fields) hts
  rw [extractIndexKey, hts] at hkey
  rw [← hws] at hstart hstop
  rw [keyInRange_iff, start_iff has hkey (fun c hc => (mem_of_lastBound hc).2) hstart,
    stop_iff has hkey (fun c hc => (mem_of_lastBound hc).2) hstop, appliedConstraints,
    forall_mem_append, forall_mem_append, ← equalities_iff hws.symm htake]
  have hholds : ∀ side, (∀ c ∈ lastBound side (nextConstraints range fields), ∃ w,
    c.value = .value w ∧
      c.operator.comparison.holds (compareValues v w) = true) ↔
      ∀ c ∈ (lastBound side (nextConstraints range fields)).toList, c.holds doc = true := by
    intro side
    refine forall_congr' fun c => ?_
    rw [Option.mem_toList]
    refine imp_congr_right fun hc => (RangeExpression.holds_iff (hv _ ?_)).symm
    rw [hlen]
    exact (next_field (mem_of_lastBound hc).1).2.2
  rw [hholds, hholds]
  cases compareTuples as ws <;> simp

theorem mem_range_of_applied (h : c ∈ appliedConstraints fields range) : c ∈ range := by
  simp only [appliedConstraints, mem_append, Option.mem_toList] at h
  rcases h with (h | h) | h
  · induction fields with
    | nil => exact absurd h not_mem_nil
    | cons field fields ih =>
      rw [plannedEqualities] at h
      split at h
      · rename_i hfind
        rcases mem_cons.1 h with rfl | h
        · exact (mem_of_find hfind).1
        · exact ih h
      · exact absurd h not_mem_nil
  · exact (next_field (mem_of_lastBound h).1).1
  · exact (next_field (mem_of_lastBound h).1).1

end Documents

/-! ## Well-formed constraints -/

/-- Equalities on the first `n` fields, one for each, and at most one bound on each side of the
field after them. -/
structure WellFormedRange (fields : List JsString) (n : Nat)
    (range : List RangeExpression) : Prop where
  equalities : ∀ field ∈ fields.take n, ∃ c ∈ range, c.field = field ∧ c.operator = .eq
  placed : ∀ c ∈ range, if c.operator = .eq then c.field ∈ fields.take n else
    fields[n]? = some c.field
  single : ∀ c ∈ range, ∀ d ∈ range, c.field = d.field → c.operator.side = d.operator.side → c = d

namespace WellFormedRange

variable {fields : List JsString} {n : Nat} {range : List RangeExpression}

theorem find_isSome (h : ∃ c ∈ range, c.field = field ∧ c.operator = .eq) :
    ∃ c, (range.filter fun r => r.field = field).find? (fun c => c.operator = .eq) = some c := by
  obtain ⟨c, hc, rfl, heq⟩ := h
  refine Option.isSome_iff_exists.1 (find?_isSome.2 ⟨c, mem_filter.2 ⟨hc, ?_⟩, ?_⟩) <;> simp [heq]

theorem planned (h : ∀ field ∈ fields.take n, ∃ c ∈ range, c.field = field ∧ c.operator = .eq) :
    ∀ field ∈ fields.take n, ∃ c ∈ plannedEqualities range fields, c ∈ range ∧ c.field = field ∧
      c.operator = .eq := by
  induction fields generalizing n with
  | nil => simp
  | cons f fields ih =>
    cases n with
    | zero => simp
    | succ n =>
      rw [take_succ_cons, forall_mem_cons] at h ⊢
      obtain ⟨c, hc⟩ := find_isSome h.1
      rw [plannedEqualities, hc]
      refine ⟨⟨c, mem_cons_self, mem_of_find hc⟩, fun field hfield => ?_⟩
      obtain ⟨d, hd, hrest⟩ := ih h.2 field hfield
      exact ⟨d, mem_cons_of_mem c hd, hrest⟩

theorem next (h : ∀ field ∈ fields.take n, ∃ c ∈ range, c.field = field ∧ c.operator = .eq)
    (hn : fields[n]? = some field) (hnone : ∀ c ∈ range, c.field = field → c.operator ≠ .eq) :
    nextConstraints range fields = range.filter fun r => r.field = field := by
  induction fields generalizing n with
  | nil => simp at hn
  | cons f fields ih =>
    rw [nextConstraints]
    cases n with
    | zero =>
      obtain rfl : f = field := by simpa using hn
      split
      · rename_i hfind
        obtain ⟨hmem, hf, heq⟩ := mem_of_find hfind
        exact absurd heq (hnone _ hmem hf)
      · rfl
    | succ n =>
      rw [take_succ_cons, forall_mem_cons] at h
      obtain ⟨c, hc⟩ := find_isSome h.1
      rw [hc]
      exact ih h.2 (by simpa using hn)

theorem applied (h : WellFormedRange fields n range) (hnodup : (fields.take (n + 1)).Nodup)
    {c : RangeExpression} (hc : c ∈ range) : c ∈ appliedConstraints fields range := by
  simp only [appliedConstraints, mem_append, Option.mem_toList]
  have hplaced := h.placed c hc
  split at hplaced
  · rename_i heq
    obtain ⟨d, hd, hrange, hfield, hdeq⟩ := planned h.equalities _ hplaced
    obtain rfl := h.single c hc d hrange hfield.symm (by rw [heq, hdeq])
    exact .inl (.inl hd)
  · rename_i hne
    have hnone : ∀ d ∈ range, d.field = c.field → d.operator ≠ .eq := by
      intro d hd hfield heq
      have hmem := h.placed d hd
      rw [if_pos heq, hfield] at hmem
      rw [take_add_one, hplaced, nodup_append] at hnodup
      exact hnodup.2.2 _ hmem _ (by simp) rfl
    have hnext := next h.equalities hplaced hnone
    have hmem : c ∈ nextConstraints range fields := by
      rw [hnext]
      exact mem_filter.2 ⟨hc, by simp⟩
    -- the last bound on the side of `c` is `c` itself
    have hlast : c ∈ lastBound c.operator.side (nextConstraints range fields) := by
      obtain ⟨d, hd⟩ := Option.isSome_iff_exists.1
        (show (lastBound c.operator.side (nextConstraints range fields)).isSome = true from
          find?_isSome.2 ⟨c, mem_reverse.2 hmem, by simp⟩)
      obtain ⟨hdnext, hdside⟩ := mem_of_lastBound hd
      rw [hnext] at hdnext
      obtain ⟨hdrange, hdfield⟩ := mem_filter.1 hdnext
      obtain rfl := h.single c hc d hdrange (of_decide_eq_true hdfield).symm hdside.symm
      exact hd
    cases hop : c.operator with
    | eq => exact absurd hop hne
    | gt | gte =>
      rw [hop] at hlast
      exact .inl (.inr hlast)
    | lt | lte =>
      rw [hop] at hlast
      exact .inr hlast

end WellFormedRange

/-- For every index and every well-formed list of constraints on distinct fields: the key of a
document lies in the interval exactly if every constraint holds of the document, where a missing
field counts as null. -/
theorem wellFormed_interval_exact {fields : List JsString} {n : Nat} {range : List RangeExpression}
    (hrange : WellFormedRange fields n range) (hnodup : (fields.take (n + 1)).Nodup)
    {interval : IndexInterval} (hinterval : buildIndexInterval fields range = .ok interval)
    {doc : DocumentValue} {key : Bytes} (hkey : extractIndexKey doc fields = .ok key)
    (keyspace : Keyspace) : keyInRange key ⟨keyspace, interval.start, interval.stop⟩ = true ↔
      ∀ c ∈ range, c.holds doc = true := by
  rw [keyInRange_iff_applied hinterval hkey]
  exact ⟨fun h c hc => h c (hrange.applied hnodup hc), fun h c hc => h c (mem_range_of_applied hc)⟩

namespace SampleTags

def tagIs (tag : String) : RangeExpression := ⟨js "tag", .eq, .value (.string (js tag))⟩

def tagAbove (tag : String) : RangeExpression := ⟨js "tag", .gt, .value (.string (js tag))⟩

end SampleTags

open SampleTags in
theorem wellFormed_interval_tag : ∃ interval key, buildIndexInterval byTag.fields
    [tagIs "a"] = .ok interval ∧ extractIndexKey (tagged "a") byTag.fields = .ok key ∧
    keyInRange key ⟨byTag.indexId.keyspace, interval.start, interval.stop⟩ = true := by
  have hrange : WellFormedRange byTag.fields 1 [tagIs "a"] :=
    ⟨by decide, by decide, by decide⟩
  have hkey : extractIndexKey (tagged "a") byTag.fields = .ok (keyOf "a") := rfl
  exact ⟨_, keyOf "a", rfl, hkey,
    (wellFormed_interval_exact hrange (by decide) rfl hkey _).2 (by decide)⟩

open SampleTags in
/-- An index may name a field twice. A bound on the second is then never looked at. -/
theorem repeated_field_unbounded : WellFormedRange [js "tag", js "tag"] 1
    [tagIs "a", tagAbove "b"] ∧
    ∃ interval key, buildIndexInterval [js "tag", js "tag"]
      [tagIs "a", tagAbove "b"] = .ok interval ∧
      extractIndexKey (tagged "a") [js "tag", js "tag"] = .ok key ∧
      keyInRange key ⟨byTag.indexId.keyspace, interval.start, interval.stop⟩ = true ∧
      (tagAbove "b").holds (tagged "a") = false :=
  ⟨⟨by decide, by decide, by decide⟩, _, _, rfl, rfl, by decide,
    by decide⟩

/-! ## Constraints and filters -/

/-- For every field, operator and operand, on an index that begins with the field: the constraint
and the filter select the same documents, up to those that lack the field where null meets the
constraint. -/
theorem constraint_iff_filter {field : JsString} {fields : List JsString}
    {op : QueryOperator} {w : Value} {interval : IndexInterval}
    (hinterval : buildIndexInterval (field :: fields) [⟨field, op, .value w⟩] = .ok interval)
    {doc : DocumentValue} {key : Bytes} (hkey : extractIndexKey doc (field :: fields) = .ok key)
    (keyspace : Keyspace) :
    (keyInRange key ⟨keyspace, interval.start, interval.stop⟩ = true ↔
      evaluateFilter doc (.compare op.comparison field w) = .ok true) ↔
    ¬ (evaluateFieldPath doc field = .undefined ∧
      op.comparison.holds (compareValues .null w) = true) := by
  have happlied : ⟨field, op, .value w⟩ ∈ appliedConstraints (field :: fields)
    [⟨field, op, .value w⟩] := by
    cases op <;>
      simp [appliedConstraints, nextConstraints, lastBound, QueryOperator.side]
  have hinside : keyInRange key ⟨keyspace, interval.start, interval.stop⟩ = true ↔
      evaluateComparison (evaluateFieldPath doc field).orNull op.comparison w = .ok true := by
    rw [keyInRange_iff_applied hinterval hkey]
    constructor
    · intro h
      simpa [RangeExpression.holds] using h _ happlied
    · intro h c hc
      obtain rfl := mem_singleton.1 (mem_range_of_applied hc)
      simpa [RangeExpression.holds] using h
  rw [hinside, evaluateFilter]
  cases evaluateFieldPath doc field <;> simp [JsValue.orNull, evaluateComparison]

open SampleTags in
theorem constraint_iff_filter_tag : ∃ interval key,
    buildIndexInterval byTag.fields [tagIs "a"] = .ok interval ∧
    extractIndexKey (tagged "a") byTag.fields = .ok key ∧
    (keyInRange key ⟨byTag.indexId.keyspace, interval.start, interval.stop⟩ = true ↔
      evaluateFilter (tagged "a") (.compare .eq (js "tag") (.string (js "a"))) = .ok true) := by
  have hkey : extractIndexKey (tagged "a") [js "tag"] = .ok (keyOf "a") := rfl
  obtain ⟨interval, hinterval⟩ : ∃ interval,
    buildIndexInterval [js "tag"] [⟨js "tag", .eq, .value (.string (js "a"))⟩] =
      .ok interval := ⟨_, rfl⟩
  exact ⟨interval, keyOf "a", hinterval, hkey,
    (constraint_iff_filter hinterval hkey _).2 (by decide)⟩

open SampleTags in
/-- A document without the field is in the interval of `eq(field, null)`; the filter rejects it. -/
theorem missing_field_differs : ∃ interval key,
    buildIndexInterval byTag.fields [⟨js "tag", .eq, .value .null⟩] = .ok interval ∧
    extractIndexKey [(js "_id", .string (js "a"))] byTag.fields = .ok key ∧
    keyInRange key ⟨byTag.indexId.keyspace, interval.start, interval.stop⟩ = true ∧
    evaluateFilter [(js "_id", .string (js "a"))] (.compare .eq (js "tag") .null) = .ok false :=
  ⟨_, _, rfl, rfl, by decide, by decide⟩

/-! ## Documents that a query returns -/

section Returned

variable {q : ScanQuery} {s : StoreSnapshot} {overlay : List IndexOverlayEntry}
  {doc : DocumentValue}

theorem mem_of_collectMerged {filters : List FilterExpr} {limit : Option Nat}
    {rows : List (Bytes × DocumentValue)} {found docs : List DocumentValue}
    (h : collectMerged filters limit found rows = .ok docs) (hd : doc ∈ docs) :
    doc ∈ found ∨ ∃ key, (key, doc) ∈ rows := by
  induction rows generalizing found with
  | nil =>
    cases h
    exact .inl hd
  | cons row rows ih =>
    obtain ⟨b, -, h⟩ := bind_eq_ok.1 h
    have hgo : doc ∈ found ++ [row.2] → doc ∈ found ∨ ∃ key, (key, doc) ∈ row :: rows := by
      intro hmem
      refine (mem_append.1 hmem).imp_right fun hrow => ⟨row.1, ?_⟩
      rw [mem_singleton.1 hrow]
      exact mem_cons_self
    have hlater : (∃ key, (key, doc) ∈ rows) → doc ∈ found ∨ ∃ key, (key, doc) ∈ row :: rows :=
      fun ⟨key, hkey⟩ => .inr ⟨key, mem_cons_of_mem _ hkey⟩
    split at h
    · split at h
      · cases h
        exact hgo hd
      · exact (ih h).elim hgo hlater
    · exact (ih h).elim .inl hlater

theorem row_of_collectWith {r : QueryResult} (h : q.collectWith s overlay = .ok r)
    (hd : doc ∈ r.documents) : ∃ key, (key, doc) ∈ scanWithOverlay q s overlay := by
  have hdocs := collectWith_documents q s overlay
  rw [h] at hdocs
  exact (mem_of_collectMerged (mapError_eq_ok.1 hdocs.symm) hd).resolve_left not_mem_nil

theorem mem_of_filterM {α : Type} {p : α → Except CompareError Bool} {rows ms : List α} {row : α}
    (h : rows.filterM p = .ok ms) (hrow : row ∈ ms) : row ∈ rows := by
  have haux : ∀ {acc ms}, rows.filterAuxM p acc = .ok ms → row ∈ ms → row ∈ acc ∨ row ∈ rows := by
    clear h hrow
    induction rows with
    | nil =>
      rintro acc ms ⟨⟩ hrow
      exact .inl hrow
    | cons r rows ih =>
      intro acc ms h hrow
      obtain ⟨b, -, h⟩ := bind_eq_ok.1 h
      cases b <;> have := ih h hrow <;> simp at this ⊢ <;> tauto
  obtain ⟨found, hfound, heq⟩ := bind_eq_ok.1 h
  cases heq
  exact (haux hfound (mem_reverse.1 hrow)).resolve_left not_mem_nil

theorem row_of_paginateWith {opts : PageOptions} {r : QueryPage}
    (h : q.paginateWith s opts overlay = .ok r) (hd : doc ∈ r.page) :
    ∃ key, (key, doc) ∈ scanWithOverlay q s overlay := by
  cases overlay with
  | nil =>
    obtain ⟨page, hpage, rfl⟩ := map_eq_ok.1 h
    obtain ⟨scan, hscan, rfl⟩ := map_eq_ok.1 (mapError_eq_ok.1 hpage)
    obtain ⟨pre, post, ms, hrows, hms, hpage, -⟩ := pageLoop_spec hscan
    obtain ⟨row, hrow, rfl⟩ := mem_map.1 hd
    rw [scanWithOverlay_nil, hrows]
    rw [hpage, nil_append, (matchingRows_eq_ok.1 hms).2] at hrow
    exact ⟨row.1, mem_map.2 ⟨row, mem_append_left _ (mem_filter.1 hrow).1, rfl⟩⟩
  | cons o os =>
    obtain ⟨matched, hmatched, h⟩ := bind_eq_ok.1 h
    obtain ⟨last, -, rfl⟩ := map_eq_ok.1 h
    obtain ⟨row, hrow, rfl⟩ := mem_map.1 hd
    exact ⟨row.1, mem_of_filterM (mapError_eq_ok.1 hmatched) (mem_of_mem_take hrow)⟩

end Returned

/-- With entries in step with the documents, the rows that a transaction sees have the keys of their
documents. -/
theorem extractIndexKey_of_overlaidValue {catalog : Catalog} {s : StoreSnapshot}
    {ctx : TransactionContext DocumentValue} {idx : IndexSpec} {key : Bytes} {doc : DocumentValue}
    (hctx : Indexed catalog s.document ctx.staged ctx.indexUpdates)
    (hentries : EntriesFor catalog s.document (Store.entryAt s.log s.bound))
    (hidx : idx ∈ catalog.indexes) (h : overlaidValue s ctx idx.indexId key = some doc) :
    ∃ id, id.tableNumber = idx.tableNumber ∧ IsDocument doc id ∧
      extractIndexKey doc idx.fields = .ok key := by
  rw [overlaidValue] at h
  cases hlast : lastUpdate ctx.indexUpdates idx.indexId key with
  | none =>
    rw [hlast] at h
    obtain ⟨id, hentry, hdoc⟩ := Option.bind_eq_some_iff.1 h
    obtain ⟨htable, doc', hdoc', hkey⟩ :=
      (hentries.iff idx hidx key id).1 (StoreSnapshot.entry_eq_some.1 hentry)
    rw [hdoc] at hdoc'
    cases hdoc'
    exact ⟨id, htable, (hentries.indexable id doc hdoc).1, hkey⟩
  | some update =>
    rw [hlast] at h
    cases update with
    | deleted => cases h
    | nonClustered id =>
      obtain ⟨htable, doc', hstaged, hkey⟩ := hctx.sound idx hidx key id hlast
      simp only [overlayValue, hstaged] at h
      cases h
      exact ⟨id, htable, hctx.documents id doc hstaged, hkey⟩

theorem planned_eq_ok {query : Query} {q : ScanQuery} (h : query.planned = .ok q) :
    ∃ interval, buildIndexInterval query.index.fields query.range = .ok interval ∧
      q = query.over interval := by
  obtain ⟨interval, hinterval, rfl⟩ := map_eq_ok.1 h
  exact ⟨interval, mapError_eq_ok.1 hinterval, rfl⟩

namespace SampleTags

def constrained (c : RangeExpression) : Query := ⟨byTag, [c], .asc, [], none⟩

def idIs (id : String) : RangeExpression := ⟨js "_id", .eq, .value (.string (js id))⟩

end SampleTags

end Helipod
