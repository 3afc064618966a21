import Mathlib.Data.List.Lex
import Mathlib.Data.Fin.Basic
import Mathlib.Order.Fin.Basic
import Mathlib.Data.Set.Lattice
import Mathlib.Order.Disjoint
import Mathlib.Order.CompletePartialOrder

/-!
# Keys, half-open key ranges and range sets

Model of `index-key-codec/src/range.ts` and `keyspace.ts`, with the byte
comparison of `encode.ts`. Read sets, write sets and subscriptions are all
`RangeSet`s. A keyspace id is the string `table:<n>` or `index:<n>:<name>`;
the model keeps the two parts instead of the string.

Results: `compareKeyBytes_eq_lt`, `keyInRange_point`, `RangeSet.disjoint_of_not_intersects`.
-/

namespace Helipod

abbrev Byte := Fin 256

/-- A number as a byte, wrapped as the source's byte arrays do. -/
def byte (n : Nat) : Byte := Fin.ofNat 256 n

abbrev Bytes := List Byte

/-- `compareKeyBytes` of `encode.ts`: the first differing byte decides, then the length. -/
@[simp] def compareKeyBytes : Bytes → Bytes → Ordering
  | [], [] => .eq
  | [], _ :: _ => .lt
  | _ :: _, [] => .gt
  | a :: as, b :: bs => if a = b then compareKeyBytes as bs else if a < b then .lt else .gt

/-- A keyspace: the documents of a table, or one of its indexes. -/
inductive Keyspace where
  | table (tableNumber : Nat)
  | index (tableNumber : Nat) (name : String)
  deriving DecidableEq, Repr

/-- The table a keyspace belongs to (`tableOfKeyspaceId`). -/
def Keyspace.tableOf : Keyspace → Nat
  | .table n => n
  | .index n _ => n

/-- A half-open range `[start, stop)`; no `stop` means no upper bound. -/
structure KeyRange where
  keyspace : Keyspace
  start : Bytes
  stop : Option Bytes
  deriving DecidableEq, Repr

/-- The exclusive successor of a key: the key followed by a zero byte. -/
def keySuccessor (key : Bytes) : Bytes := key ++ [0]

def keyInRange (key : Bytes) (range : KeyRange) : Bool :=
  if compareKeyBytes key range.start = .lt then false
  else match range.stop with
    | none => true
    | some stop => compareKeyBytes key stop = .lt

/-- `start` lies below the exclusive bound `stop`. -/
def startBelow (start : Bytes) : Option Bytes → Bool
  | none => true
  | some stop => compareKeyBytes start stop = .lt

def rangesOverlap (a b : KeyRange) : Bool :=
  if a.keyspace ≠ b.keyspace then false
  else startBelow a.start b.stop && startBelow b.start a.stop

def pointRange (keyspace : Keyspace) (key : Bytes) : KeyRange :=
  ⟨keyspace, key, some (keySuccessor key)⟩

/-- A collection of ranges, in the order they were added. The source groups them by
keyspace; overlap is decided inside one keyspace in both. -/
abbrev RangeSet := List KeyRange

namespace RangeSet

def add (r : RangeSet) (range : KeyRange) : RangeSet := r ++ [range]

def addKey (r : RangeSet) (keyspace : Keyspace) (key : Bytes) : RangeSet :=
  r.add (pointRange keyspace key)

def intersects (r other : RangeSet) : Bool := r.any fun a => other.any fun b => rangesOverlap a b

/-- The keys a range set covers. -/
def keys (r : RangeSet) : Set (Keyspace × Bytes) :=
  { k | ∃ range ∈ r, range.keyspace = k.1 ∧ keyInRange k.2 range = true }

instance (r : RangeSet) (k : Keyspace × Bytes) : Decidable (k ∈ r.keys) :=
  inferInstanceAs (Decidable (∃ range ∈ r, range.keyspace = k.1 ∧ keyInRange k.2 range = true))

end RangeSet

/-! ## Byte comparison is the lexicographic order -/

theorem compareKeyBytes_eq_lt {a b : Bytes} : compareKeyBytes a b = .lt ↔ a < b := by
  induction a, b using compareKeyBytes.induct with
  | case1 | case2 b bs | case3 a as => simp
  | case4 a as bs ih => simp [ih]
  | case5 a as b bs hne hlt | case6 a as b bs hne hlt =>
    simp [List.cons_lt_cons_iff, hne]

theorem compareKeyBytes_eq_eq {a b : Bytes} : compareKeyBytes a b = .eq ↔ a = b := by
  induction a, b using compareKeyBytes.induct with
  | case1 | case2 b bs | case3 a as => simp
  | case4 a as bs ih => simp [ih]
  | case5 a as b bs hne hlt | case6 a as b bs hne hlt => simp [hne, hlt]

variable {key : Bytes}

theorem lt_keySuccessor_iff {a : Bytes} : a < keySuccessor key ↔ ¬ key < a := by
  induction a generalizing key with
  | nil => cases key <;> simp [keySuccessor]
  | cons x a ih =>
    cases key with
    | nil => simp [keySuccessor, List.cons_lt_cons_iff]
    | cons y key =>
      have ih : a < key ++ [0] ↔ ¬ key < a := ih
      simp only [keySuccessor, List.cons_append, List.cons_lt_cons_iff, ih]
      rcases lt_trichotomy x y with h | h | h
      · simp [h, h.not_gt, h.ne']
      · simp [h]
      · simp [h, h.not_gt, h.ne']

theorem keyInRange_iff {range : KeyRange} :
    keyInRange key range = true ↔
      ¬ key < range.start ∧ ∀ stop, range.stop = some stop → key < stop := by
  unfold keyInRange
  simp only [compareKeyBytes_eq_lt]
  by_cases h : key < range.start
  · simp [h]
  · cases hs : range.stop <;> simp

theorem keyInRange_point {ks : Keyspace} {k : Bytes} :
    keyInRange k (pointRange ks key) = true ↔ k = key := by
  simp only [keyInRange_iff, pointRange, Option.some.injEq, forall_eq', lt_keySuccessor_iff]
  exact ⟨fun h => le_antisymm (not_lt.1 h.2) (not_lt.1 h.1), fun h =>
    h ▸ ⟨lt_irrefl _, lt_irrefl _⟩⟩

theorem startBelow_iff {start : Bytes} {stop : Option Bytes} :
    startBelow start stop = true ↔ ∀ e, stop = some e → start < e := by
  cases stop <;> simp [startBelow, compareKeyBytes_eq_lt]

theorem rangesOverlap_of_mem {a b : KeyRange} (hks : a.keyspace = b.keyspace)
    (ha : keyInRange key a = true) (hb : keyInRange key b = true) : rangesOverlap a b = true := by
  rw [keyInRange_iff] at ha hb
  simp only [rangesOverlap, hks, ne_eq, not_true_eq_false, if_false, Bool.and_eq_true,
    startBelow_iff]
  exact ⟨fun e he => (not_lt.1 ha.1).trans_lt (hb.2 e he),
    fun e he => (not_lt.1 hb.1).trans_lt (ha.2 e he)⟩

namespace RangeSet

theorem mem_keys_add {r : RangeSet} {range : KeyRange} {k : Keyspace × Bytes} :
    k ∈ (r.add range).keys ↔
      k ∈ r.keys ∨ (range.keyspace = k.1 ∧ keyInRange k.2 range = true) := by
  simp [keys, add]

theorem mem_keys_addKey {r : RangeSet} {ks : Keyspace} {k : Keyspace × Bytes} :
    k ∈ (r.addKey ks key).keys ↔ k ∈ r.keys ∨ k = (ks, key) := by
  rw [addKey, mem_keys_add, keyInRange_point]
  simp [pointRange, Prod.ext_iff, eq_comm]

theorem disjoint_of_not_intersects {r r' : RangeSet} (h : r.intersects r' = false) :
    Disjoint r.keys r'.keys := by
  refine Set.disjoint_left.2 ?_
  rintro k ⟨a, ha, haks, hak⟩ ⟨b, hb, hbks, hbk⟩
  have hov := rangesOverlap_of_mem (haks.trans hbks.symm) hak hbk
  have : r.intersects r' = true :=
    List.any_eq_true.2 ⟨a, ha, List.any_eq_true.2 ⟨b, hb, hov⟩⟩
  rw [h] at this
  exact absurd this (by simp)

end RangeSet

end Helipod
