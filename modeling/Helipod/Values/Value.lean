import Helipod.KeyRange
import Mathlib.Algebra.Group.Int.Defs
import Mathlib.Algebra.Group.Nat.Defs
import Mathlib.Data.List.Sort

/-!
# Values

Model of `values/src/value.ts`: the value type of documents, arguments and
results, and the canonical order `compareValues`.

Strings are sequences of UTF-16 code units and numbers are IEEE-754 bit
patterns, as the runtime has them. An object is the list of its own
properties in insertion order.

Results:
* `compareValues_self`: every value compares equal to itself.
* `utf8Encode_ascii`: strings of ASCII characters are encoded unit by unit.
-/

namespace Helipod

open List

/-! ## Strings -/

abbrev CodeUnit := Fin 65536

abbrev JsString := List CodeUnit

instance : LawfulBEq JsString := inferInstanceAs (LawfulBEq (List CodeUnit))

/-- `String.fromCharCode`. -/
def codeUnit (n : Nat) : CodeUnit := Fin.ofNat 65536 n

/-- A string of characters of the basic plane. -/
def js (s : String) : JsString := s.toList.map fun c => codeUnit c.toNat

/-- The decimal text of a number. -/
def decimal (n : Nat) : JsString := (Nat.toDigits 10 n).map fun c => codeUnit c.toNat

def isHighSurrogate (u : CodeUnit) : Bool := 0xD800 ≤ u.val && u.val < 0xDC00

def isLowSurrogate (u : CodeUnit) : Bool := 0xDC00 ≤ u.val && u.val < 0xE000

/-- A code unit that is no part of a pair; a lone surrogate becomes U+FFFD. -/
def scalarValue (u : CodeUnit) : Nat :=
  if isHighSurrogate u || isLowSurrogate u then 0xFFFD else u.val

def scalarValues : JsString → List Nat
  | [] => []
  | [u] => [scalarValue u]
  | u :: v :: rest =>
    if isHighSurrogate u && isLowSurrogate v then
      (0x10000 + (u.val - 0xD800) * 0x400 + (v.val - 0xDC00)) :: scalarValues rest
    else scalarValue u :: scalarValues (v :: rest)

def encodeScalar (c : Nat) : Bytes :=
  if c < 0x80 then [byte c]
  else if c < 0x800 then [byte (0xC0 + c / 0x40), byte (0x80 + c % 0x40)]
  else if c < 0x10000 then
    [byte (0xE0 + c / 0x1000), byte (0x80 + c / 0x40 % 0x40), byte (0x80 + c % 0x40)]
  else
    [byte (0xF0 + c / 0x40000), byte (0x80 + c / 0x1000 % 0x40), byte (0x80 + c / 0x40 % 0x40),
      byte (0x80 + c % 0x40)]

/-- `TextEncoder.encode`. -/
def utf8Encode (s : JsString) : Bytes := (scalarValues s).flatMap encodeScalar

def compareKeysUtf8 (a b : JsString) : Ordering := compareKeyBytes (utf8Encode a) (utf8Encode b)

/-! ## Numbers -/

/-- A float64, by its bits. -/
structure Float64 where
  bits : BitVec 64
  deriving DecidableEq

namespace Float64

def exponent (x : Float64) : Nat := x.bits.toNat / 2 ^ 52 % 2 ^ 11

def fraction (x : Float64) : Nat := x.bits.toNat % 2 ^ 52

def isNaN (x : Float64) : Bool := x.exponent = 2047 && x.fraction ≠ 0

/-- `Number.isFinite`. -/
def isFinite (x : Float64) : Bool := x.exponent ≠ 2047

def isNegative (x : Float64) : Bool := x.bits.msb

/-- A number that orders the bit patterns other than NaN as the numbers they stand for. -/
def signedMagnitude (x : Float64) : Int :=
  let magnitude : Int := (x.bits.toNat % 2 ^ 63 : Nat)
  if x.isNegative then -magnitude else magnitude

/-- The quotient by `2 ^ k`, rounded to the nearest with ties to even. -/
def roundHalfEven (n k : Nat) : Nat :=
  let q := n / 2 ^ k
  let r := n % 2 ^ k
  if 2 * r < 2 ^ k then q
  else if 2 * r = 2 ^ k then q + q % 2
  else q + 1

/-- `Number(n)` of a non-negative bigint. -/
def ofNat (n : Nat) : Float64 :=
  if n = 0 then ⟨0⟩
  else
    let e := n.log2
    let significand := if e ≤ 52 then n * 2 ^ (52 - e) else roundHalfEven n (e - 52)
    -- a carry out of the significand raises the exponent
    ⟨BitVec.ofNat 64 (min ((e + 1022) * 2 ^ 52 + significand) (2047 * 2 ^ 52))⟩

end Float64

/-- NaN sorts last and equals itself. -/
def compareNumbers (a b : Float64) : Ordering :=
  if a.isNaN || b.isNaN then
    if a.isNaN && b.isNaN then .eq else if a.isNaN then .gt else .lt
  else compare a.signedMagnitude b.signedMagnitude

/-! ## Values -/

inductive Value where
  | null
  | bool (b : Bool)
  | number (x : Float64)
  | bigint (n : Int)
  | string (s : JsString)
  | bytes (b : Bytes)
  | array (xs : List Value)
  | object (fields : List (JsString × Value))

/-- A document is an object. -/
abbrev DocumentValue := List (JsString × Value)

namespace Value

mutual

def beq : Value → Value → Bool
  | .null, .null => true
  | .bool a, .bool b => a = b
  | .number a, .number b => a = b
  | .bigint a, .bigint b => a = b
  | .string a, .string b => a = b
  | .bytes a, .bytes b => a = b
  | .array xs, .array ys => beqList xs ys
  | .object fs, .object gs => beqFields fs gs
  | _, _ => false
  termination_by structural a => a

def beqList : List Value → List Value → Bool
  | [], [] => true
  | x :: xs, y :: ys => beq x y && beqList xs ys
  | _, _ => false
  termination_by structural xs => xs

def beqFields : List (JsString × Value) → List (JsString × Value) → Bool
  | [], [] => true
  | (k, x) :: fs, (l, y) :: gs => k = l && beq x y && beqFields fs gs
  | _, _ => false
  termination_by structural fs => fs

end

mutual

theorem beq_iff : ∀ a b : Value, beq a b = true ↔ a = b
  | .null, b => by cases b <;> simp [beq]
  | .bool a, b => by cases b <;> simp [beq]
  | .number a, b => by cases b <;> simp [beq]
  | .bigint a, b => by cases b <;> simp [beq]
  | .string a, b => by cases b <;> simp [beq]
  | .bytes a, b => by cases b <;> simp [beq]
  | .array xs, b => by cases b <;> simp [beq, beqList_iff xs]
  | .object fs, b => by cases b <;> simp [beq, beqFields_iff fs]
  termination_by structural a => a

theorem beqList_iff : ∀ xs ys : List Value, beqList xs ys = true ↔ xs = ys
  | [], ys => by cases ys <;> simp [beqList]
  | x :: xs, ys => by cases ys <;> simp [beqList, beq_iff x, beqList_iff xs]
  termination_by structural xs => xs

theorem beqFields_iff : ∀ fs gs : List (JsString × Value), beqFields fs gs = true ↔ fs = gs
  | [], gs => by cases gs <;> simp [beqFields]
  | (k, x) :: fs, gs => by
    cases gs with
    | nil => simp [beqFields]
    | cons g gs => simp [beqFields, beq_iff x, beqFields_iff fs, Prod.ext_iff]
  termination_by structural fs => fs

end

instance : DecidableEq Value := fun a b => decidable_of_iff (beq a b = true) (beq_iff a b)

instance : DecidableEq DocumentValue := instDecidableEqList

def typeRank : Value → Nat
  | .null => 0
  | .bool _ => 1
  | .number _ => 2
  | .bigint _ => 3
  | .string _ => 4
  | .bytes _ => 5
  | .array _ => 6
  | .object _ => 7

end Value

/-! ## The canonical order -/

/-- Fields in the order of `Object.keys(o).sort(compareKeysUtf8)`. -/
def sortFields (fields : List (JsString × Value)) : List (JsString × Value) :=
  fields.insertionSort fun f g => compareKeysUtf8 f.1 g.1 ≠ .gt

namespace Value

mutual

/-- The value with the fields of its objects sorted, at every depth. -/
def sorted : Value → Value
  | .array xs => .array (sortedList xs)
  | .object fs => .object (sortFields (sortedFields fs))
  | v => v
  termination_by structural v => v

def sortedList : List Value → List Value
  | [] => []
  | x :: xs => x.sorted :: sortedList xs
  termination_by structural xs => xs

def sortedFields : List (JsString × Value) → List (JsString × Value)
  | [] => []
  | (k, x) :: fs => (k, x.sorted) :: sortedFields fs
  termination_by structural fs => fs

end

mutual

/-- Comparison of values whose fields are sorted. -/
@[simp] def compareSorted : Value → Value → Ordering
  | .bool a, .bool b => compare a b
  | .number a, .number b => compareNumbers a b
  | .bigint a, .bigint b => compare a b
  | .string a, .string b => compareKeysUtf8 a b
  | .bytes a, .bytes b => compareKeyBytes a b
  | .array xs, .array ys => compareArrays xs ys
  | .object fs, .object gs => compareFields fs gs
  | a, b => compare a.typeRank b.typeRank
  termination_by structural a => a

def compareArrays : List Value → List Value → Ordering
  | [], [] => .eq
  | [], _ :: _ => .lt
  | _ :: _, [] => .gt
  | x :: xs, y :: ys => (compareSorted x y).then (compareArrays xs ys)
  termination_by structural xs => xs

@[simp] def compareFields : List (JsString × Value) → List (JsString × Value) → Ordering
  | [], [] => .eq
  | [], _ :: _ => .lt
  | _ :: _, [] => .gt
  | (k, x) :: fs, (l, y) :: gs =>
    (compareKeysUtf8 k l).then ((compareSorted x y).then (compareFields fs gs))
  termination_by structural fs => fs

end

end Value

/-- The source sorts the keys of two objects when it gets to them; here they are sorted
first, at every depth. -/
def compareValues (a b : Value) : Ordering := a.sorted.compareSorted b.sorted

/-! ## Property access -/

/-- What a property access gives: nothing, a value, or what every plain object inherits. -/
inductive JsValue where
  | undefined
  | value (v : Value)
  | function
  | objectPrototype
  deriving DecidableEq

/-- The methods of `Object.prototype`. -/
def objectPrototypeMethods : List JsString :=
  [js "constructor", js "__defineGetter__", js "__defineSetter__", js "hasOwnProperty",
    js "__lookupGetter__", js "__lookupSetter__", js "isPrototypeOf", js "propertyIsEnumerable",
    js "toString", js "valueOf", js "toLocaleString"]

namespace JsValue

/-- `obj[name]` where `obj` has no property of its own of that name. -/
def inherited (name : JsString) : JsValue :=
  if name = js "__proto__" then .objectPrototype
  else if name ∈ objectPrototypeMethods then .function
  else .undefined

/-- The property `name` of an object with the given fields. -/
def property (fields : List (JsString × Value)) (name : JsString) : JsValue :=
  match fields.find? fun f => f.1 = name with
  | some f => .value f.2
  | none => inherited name

/-- `cur[name]`, `undefined` where `evaluateFieldPath` stops: on everything but an object. -/
def access : JsValue → JsString → JsValue
  | .value (.object fields), name => property fields name
  | .objectPrototype, name => if name = js "__proto__" then .value .null else inherited name
  | _, _ => .undefined

end JsValue

/-! ## Lemmas -/

theorem compareNumbers_self (a : Float64) : compareNumbers a a = .eq := by
  cases h : a.isNaN <;> simp [compareNumbers, h]

@[simp] theorem compareKeyBytes_self (a : Bytes) : compareKeyBytes a a = .eq :=
  compareKeyBytes_eq_eq.2 rfl

namespace Value

mutual

theorem compareSorted_self : ∀ a : Value, compareSorted a a = .eq
  | .null => rfl
  | .bool a => by simp
  | .number a => by simp [compareNumbers_self]
  | .bigint a => by simp
  | .string a => by simp [compareKeysUtf8]
  | .bytes a => by simp
  | .array xs => by simp [compareArrays_self xs]
  | .object fs => by simp [compareFields_self fs]
  termination_by structural a => a

theorem compareArrays_self : ∀ xs : List Value, compareArrays xs xs = .eq
  | [] => rfl
  | x :: xs => by simp [compareArrays, compareSorted_self x, compareArrays_self xs]
  termination_by structural xs => xs

theorem compareFields_self : ∀ fs : List (JsString × Value), compareFields fs fs = .eq
  | [] => rfl
  | (k, x) :: fs => by
    simp [compareKeysUtf8, compareSorted_self x, compareFields_self fs]
  termination_by structural fs => fs

end

end Value

theorem compareValues_self (a : Value) : compareValues a a = .eq := Value.compareSorted_self _

/-- A string of ASCII characters. -/
def IsAscii (s : JsString) : Prop := ∀ u ∈ s, u.val < 0x80

theorem scalarValues_ascii {s : JsString} (h : IsAscii s) : scalarValues s = s.map Fin.val := by
  have hu : ∀ {u : CodeUnit}, u.val < 0x80 → isHighSurrogate u = false ∧ scalarValue u = u.val := by
    intro u hu
    have h1 : isHighSurrogate u = false := by simp [isHighSurrogate]; omega
    have h2 : isLowSurrogate u = false := by simp [isLowSurrogate]; omega
    exact ⟨h1, by simp [scalarValue, h1, h2]⟩
  induction s using scalarValues.induct with
  | case1 => rfl
  | case2 u => simp [scalarValues, (hu (h u (by simp))).2]
  | case3 u v rest hpair ih =>
    simp [(hu (h u (by simp))).1] at hpair
  | case4 u v rest hpair ih =>
    have ih := ih fun w hw => h w (mem_cons_of_mem _ hw)
    simp [scalarValues, (hu (h u (by simp))).1, (hu (h u (by simp))).2, ih]

theorem utf8Encode_ascii {s : JsString} (h : IsAscii s) :
    utf8Encode s = s.map fun u => byte u.val := by
  rw [utf8Encode, scalarValues_ascii h]
  induction s with
  | nil => rfl
  | cons u s ih =>
    have hu : u.val < 0x80 := h u mem_cons_self
    simp only [map_cons, flatMap_cons, ih fun w hw => h w (mem_cons_of_mem _ hw)]
    simp [encodeScalar, hu]

theorem utf8Encode_injOn_ascii {s t : JsString} (hs : IsAscii s) (ht : IsAscii t)
    (h : utf8Encode s = utf8Encode t) : s = t := by
  rw [utf8Encode_ascii hs, utf8Encode_ascii ht] at h
  induction s generalizing t with
  | nil => simpa using h.symm
  | cons u s ih =>
    cases t with
    | nil => simp at h
    | cons v t =>
      obtain ⟨huv, hst⟩ := List.cons.inj h
      have hu := hs u mem_cons_self
      have hv := ht v mem_cons_self
      have heq : u.val % 256 = v.val % 256 := congrArg Fin.val huv
      have : u = v := Fin.ext (by omega)
      rw [this, ih (fun w hw => hs w (mem_cons_of_mem _ hw))
        (fun w hw => ht w (mem_cons_of_mem _ hw)) hst]

end Helipod
