import Helipod.Lib.OrderedMap
import Helipod.Lib.Treap
import Helipod.Values.Value
import Mathlib.Data.Prod.Lex

/-!
# The interval index

Model of `index-key-codec/src/interval-index.ts`: ranges that carry a value, in one interval treap
for each keyspace. The entries of a treap are ordered by their bounds and by the key of their value,
and a hash of all three is the priority.

Results:
* `cmpEntry_eq_lt`, `cmpEntry_eq_eq`: the comparison of entries is a total order.
* `IntervalIndex.holds_insert`, `IntervalIndex.holds_remove`: what is in the index.
* `IntervalIndex.mem_queryOverlaps`: a query finds the values of the ranges that overlap it.
-/

namespace Helipod

open IntervalTreap

/-! ## Entries -/

structure EntryKey where
  start : Bytes
  stop : Option Bytes
  valueKey : JsString
  deriving DecidableEq

/-- The comparison of strings with `<` goes by code units. -/
def compareStrings (a b : JsString) : Ordering := if a < b then .lt else if b < a then .gt else .eq

/-- No upper bound sorts last. -/
def cmpEntry (a b : EntryKey) : Ordering :=
  match compareKeyBytes a.start b.start with
  | .eq =>
    match a.stop, b.stop with
    | none, none => compareStrings a.valueKey b.valueKey
    | none, some _ => .gt
    | some _, none => .lt
    | some x, some y =>
      match compareKeyBytes x y with
      | .eq => compareStrings a.valueKey b.valueKey
      | c => c
  | c => c

/-- An exclusive bound; none is above all keys. -/
def upTo : Option Bytes → WithTop Bytes
  | none => ⊤
  | some stop => stop

@[simp] theorem upTo_none : upTo none = ⊤ := rfl

@[simp] theorem upTo_some (stop : Bytes) : upTo (some stop) = stop := rfl

theorem upTo_injective : Function.Injective upTo := by
  intro a b h
  cases a <;> cases b <;> simp_all

namespace EntryKey

/-- Where the entry stops; `maxEnd2` is the maximum here. -/
def stopAt (k : EntryKey) : WithTop Bytes := upTo k.stop

/-- The three parts, in the order in which they are compared. -/
def parts (k : EntryKey) : Bytes ×ₗ WithTop Bytes ×ₗ JsString :=
  toLex (k.start, toLex (k.stopAt, k.valueKey))

theorem parts_injective : Function.Injective parts := by
  rintro ⟨s, e, v⟩ ⟨s', e', v'⟩ h
  obtain ⟨rfl, h⟩ := Prod.mk.inj (toLex.injective h)
  obtain ⟨h, rfl⟩ := Prod.mk.inj (toLex.injective h)
  obtain rfl : e = e' := upTo_injective h
  rfl

variable {b : EntryKey} {a : EntryKey}

theorem parts_lt : a.parts < b.parts ↔ a.start < b.start ∨ a.start = b.start ∧
    (a.stopAt < b.stopAt ∨ a.stopAt = b.stopAt ∧ a.valueKey < b.valueKey) := by
  rw [parts, parts, Prod.Lex.toLex_lt_toLex, Prod.Lex.toLex_lt_toLex]

end EntryKey

theorem compareKeyBytes_eq_gt {a b : Bytes} : compareKeyBytes a b = .gt ↔ b < a := by
  constructor
  · intro h
    refine lt_of_le_of_ne (not_lt.1 fun hlt => ?_) fun heq => ?_
    · rw [compareKeyBytes_eq_lt.2 hlt] at h
      cases h
    · rw [compareKeyBytes_eq_eq.2 heq.symm] at h
      cases h
  · intro h
    cases hc : compareKeyBytes a b with
    | lt => exact absurd (compareKeyBytes_eq_lt.1 hc) h.not_gt
    | eq => exact absurd (compareKeyBytes_eq_eq.1 hc) h.ne'
    | gt => rfl

theorem compareStrings_eq_lt {a b : JsString} : compareStrings a b = .lt ↔ a < b := by
  unfold compareStrings
  by_cases h : a < b
  · exact iff_of_true (if_pos h) h
  · rw [if_neg h]
    refine iff_of_false ?_ h
    split <;> rintro ⟨⟩

theorem compareStrings_eq_eq {a b : JsString} : compareStrings a b = .eq ↔ a = b := by
  unfold compareStrings
  rcases lt_trichotomy a b with h | h | h
  · simp [h, h.ne]
  · simp [h]
  · simp [h, h.not_gt, h.ne']

theorem cmpEntry_of_start_eq (h : a.start = b.start) :
    (cmpEntry a b = .lt ↔ a.stopAt < b.stopAt ∨ a.stopAt = b.stopAt ∧ a.valueKey < b.valueKey) ∧
      (cmpEntry a b = .eq ↔ a.stopAt = b.stopAt ∧ a.valueKey = b.valueKey) := by
  obtain ⟨s, e, v⟩ := a
  obtain ⟨s', e', v'⟩ := b
  obtain rfl : s = s' := h
  simp only [cmpEntry, compareKeyBytes_eq_eq.2 rfl, EntryKey.stopAt]
  cases e with
  | none =>
    cases e' with
    | none => simp [compareStrings_eq_lt, compareStrings_eq_eq]
    | some y => simp
  | some x =>
    cases e' with
    | none => simp
    | some y =>
      rcases lt_trichotomy x y with hxy | rfl | hxy
      · simp [compareKeyBytes_eq_lt.2 hxy, hxy, hxy.ne]
      · simp [compareStrings_eq_lt, compareStrings_eq_eq]
      · simp [compareKeyBytes_eq_gt.2 hxy, hxy.not_gt, hxy.ne']

theorem cmpEntry_eq_lt : cmpEntry a b = .lt ↔ a.parts < b.parts := by
  rw [EntryKey.parts_lt]
  rcases lt_trichotomy a.start b.start with h | h | h
  · simp [cmpEntry, compareKeyBytes_eq_lt.2 h, h]
  · simp [(cmpEntry_of_start_eq h).1, h]
  · simp [cmpEntry, compareKeyBytes_eq_gt.2 h, h.not_gt, h.ne']

theorem cmpEntry_eq_eq : cmpEntry a b = .eq ↔ a = b := by
  rw [← EntryKey.parts_injective.eq_iff]
  rcases lt_trichotomy a.start b.start with h | h | h
  · simp [cmpEntry, compareKeyBytes_eq_lt.2 h, EntryKey.parts, h.ne]
  · simp [(cmpEntry_of_start_eq h).2, EntryKey.parts, h]
  · simp [cmpEntry, compareKeyBytes_eq_gt.2 h, EntryKey.parts, h.ne']

/-- The entries are ordered as `cmpEntry` compares them. -/
instance : LinearOrder EntryKey :=
  { LinearOrder.lift' EntryKey.parts EntryKey.parts_injective with
    compare := cmpEntry
    compare_eq_compareOfLessAndEq := fun a b => by
      rw [compareOfLessAndEq]
      split
      · rename_i h
        exact cmpEntry_eq_lt.2 h
      · rename_i hlt
        split
        · rename_i heq
          exact cmpEntry_eq_eq.2 heq
        · rename_i hne
          cases h : cmpEntry a b with
          | lt => exact absurd (cmpEntry_eq_lt.1 h) hlt
          | eq => exact absurd (cmpEntry_eq_eq.1 h) hne
          | gt => rfl }

theorem EntryKey.start_monotone : Monotone EntryKey.start := by
  intro a b h
  rcases h.lt_or_eq with h | rfl
  · exact (EntryKey.parts_lt.1 h).elim le_of_lt fun h => h.1.le
  · exact le_rfl

/-! ## Priorities -/

/-- One step of 32-bit FNV-1a. -/
def mixByte (h byte : Nat) : Nat := (h ^^^ byte) * 0x01000193 % 2 ^ 32

def hashPriority (k : EntryKey) : Nat :=
  let h := k.start.foldl (fun h b => mixByte h b.val) 0x811c9dc5
  let h := mixByte h 0x00
  let h := match k.stop with
    | none => mixByte h 0xff
    | some stop => stop.foldl (fun h b => mixByte h b.val) h
  k.valueKey.foldl (fun h u => mixByte h (u.val % 0x100)) (mixByte h 0x00)

/-! ## The index -/

/-- Trees by keyspace. Each entry is filed under the key of its value. -/
structure IntervalIndex {V : Type} (valueKey : V → JsString) where
  byKeyspace : OrderedMap Keyspace (IntervalTreap V EntryKey.stopAt)
  keyed : ∀ {keyspace tree}, byKeyspace.get? keyspace = some tree →
    ∀ e ∈ tree.entries, e.1.valueKey = valueKey e.2

namespace IntervalIndex

variable {V : Type} {valueKey : V → JsString}

def empty : IntervalIndex valueKey := ⟨.empty, fun h => (by cases h)⟩

def entryKey (valueKey : V → JsString) (range : KeyRange) (value : V) : EntryKey :=
  ⟨range.start, range.stop, valueKey value⟩

/-- The tree of a keyspace, or a new one. -/
def treeOf (idx : IntervalIndex valueKey) (keyspace : Keyspace) : IntervalTreap V EntryKey.stopAt :=
  (idx.byKeyspace.get? keyspace).getD .empty

theorem keyed_treeOf (idx : IntervalIndex valueKey) (keyspace : Keyspace) :
    ∀ e ∈ (idx.treeOf keyspace).entries, e.1.valueKey = valueKey e.2 := by
  unfold treeOf
  cases hget : idx.byKeyspace.get? keyspace with
  | none => exact fun e he => absurd he List.not_mem_nil
  | some tree => exact idx.keyed hget

def insert (idx : IntervalIndex valueKey) (range : KeyRange) (value : V) :
    IntervalIndex valueKey where
  byKeyspace :=
    let key := entryKey valueKey range value
    idx.byKeyspace.set range.keyspace
      ((idx.treeOf range.keyspace).insert key value (hashPriority key))
  keyed := by
    intro keyspace tree hget e he
    rcases OrderedMap.get?_set_eq_some.1 hget with ⟨-, rfl⟩ | ⟨-, hget⟩
    · rcases IntervalTreap.mem_entries_insert.1 he with he | ⟨rfl, -⟩
      · exact idx.keyed_treeOf _ e he
      · rfl
    · exact idx.keyed hget e he

/-- A tree that is empty afterwards is dropped. -/
def remove (idx : IntervalIndex valueKey) (range : KeyRange) (value : V) : IntervalIndex valueKey :=
  match hget : idx.byKeyspace.get? range.keyspace with
  | none => idx
  | some tree =>
    let tree' := tree.remove (entryKey valueKey range value)
    { byKeyspace :=
        if tree'.size = 0 then idx.byKeyspace.erase range.keyspace
        else idx.byKeyspace.set range.keyspace tree'
      keyed := by
        intro keyspace t ht e he
        split at ht
        · exact idx.keyed (OrderedMap.get?_erase_eq_some.1 ht).2 e he
        · rcases OrderedMap.get?_set_eq_some.1 ht with ⟨-, rfl⟩ | ⟨-, ht⟩
          · exact idx.keyed hget e (IntervalTreap.mem_entries_remove.1 he).1
          · exact idx.keyed ht e he }

def queryOverlaps (idx : IntervalIndex valueKey) (range : KeyRange) : List V :=
  match idx.byKeyspace.get? range.keyspace with
  | none => []
  | some tree => tree.collect EntryKey.start range.start (upTo range.stop)

/-! ## What is in the index -/

/-- The range is in the index with the value. -/
def Holds (idx : IntervalIndex valueKey) (range : KeyRange) (value : V) : Prop :=
  (entryKey valueKey range value, value) ∈ (idx.treeOf range.keyspace).entries

variable {idx : IntervalIndex valueKey} {range range' : KeyRange} {value value' : V}

theorem entryKey_inj (hinj : Function.Injective valueKey) (hks : range'.keyspace = range.keyspace) :
    entryKey valueKey range' value' = entryKey valueKey range value ↔ range' = range ∧
      value' = value := by
  obtain ⟨ks, s, e⟩ := range
  obtain ⟨ks', s', e'⟩ := range'
  obtain rfl : ks' = ks := hks
  simp [entryKey, hinj.eq_iff, and_assoc]

theorem treeOf_insert (keyspace : Keyspace) : (idx.insert range value).treeOf keyspace =
    if range.keyspace = keyspace then
      (idx.treeOf keyspace).insert (entryKey valueKey range value) value
      (hashPriority (entryKey valueKey range value))
    else idx.treeOf keyspace := by
  rw [treeOf, insert, OrderedMap.get?_set]
  split
  · rename_i h
    rw [h]
    rfl
  · rfl

theorem holds_insert (hinj : Function.Injective valueKey) :
    (idx.insert range value).Holds range' value' ↔
    idx.Holds range' value' ∨ range' = range ∧ value' = value := by
  rw [Holds, treeOf_insert]
  split
  · rename_i hks
    rw [mem_entries_insert, Prod.mk.injEq, entryKey_inj hinj hks.symm]
    constructor
    · rintro (h | ⟨⟨h, -⟩, -⟩)
      · exact .inl h
      · exact .inr h
    · rintro (h | ⟨rfl, rfl⟩)
      · exact .inl h
      · by_cases hmem : idx.Holds range' value'
        · exact .inl hmem
        · refine .inr ⟨⟨⟨rfl, rfl⟩, rfl⟩, fun e he heq => hmem ?_⟩
          -- an entry under that key has that value
          have hkey := idx.keyed_treeOf _ e he
          rw [heq] at hkey
          obtain rfl : value' = e.2 := hinj hkey
          rw [Holds, ← heq]
          exact he
  · rename_i hks
    refine ⟨.inl, fun h => h.elim id ?_⟩
    rintro ⟨rfl, -⟩
    exact absurd rfl hks

theorem entries_treeOf_remove (keyspace : Keyspace) :
    ((idx.remove range value).treeOf keyspace).entries =
    if range.keyspace = keyspace then
      ((idx.treeOf keyspace).remove (entryKey valueKey range value)).entries
    else (idx.treeOf keyspace).entries := by
  unfold remove
  split
  · rename_i hget
    split
    · rename_i hks
      rw [treeOf, ← hks, hget, Option.getD_none, entries_remove]
      rfl
    · rfl
  · rename_i tree hget
    by_cases hsize : (tree.remove (entryKey valueKey range value)).size = 0
    · rw [treeOf]
      simp only [hsize, if_true, OrderedMap.get?_erase]
      split
      · rename_i hks
        rw [treeOf, ← hks, hget, Option.getD_some, entries_of_size hsize]
        rfl
      · rfl
    · rw [treeOf]
      simp only [hsize, if_false, OrderedMap.get?_set]
      split
      · rename_i hks
        rw [treeOf, ← hks, hget]
        rfl
      · rfl

theorem holds_remove (hinj : Function.Injective valueKey) :
    (idx.remove range value).Holds range' value' ↔
    idx.Holds range' value' ∧ ¬ (range' = range ∧ value' = value) := by
  rw [Holds, entries_treeOf_remove]
  split
  · rename_i hks
    rw [mem_entries_remove, Ne, entryKey_inj hinj hks.symm]
    rfl
  · rename_i hks
    refine ⟨fun h => ⟨h, fun heq => ?_⟩, fun h => h.1⟩
    exact hks (by rw [heq.1])

theorem startBelow_iff_lt {start : Bytes} {stop : Option Bytes} :
    startBelow start stop = true ↔ (start : WithTop Bytes) < upTo stop := by
  cases stop <;> simp [startBelow, compareKeyBytes_eq_lt]

theorem rangesOverlap_iff_lt {a b : KeyRange} : rangesOverlap a b = true ↔ a.keyspace = b.keyspace ∧
    (a.start : WithTop Bytes) < upTo b.stop ∧ (b.start : WithTop Bytes) < upTo a.stop := by
  simp [rangesOverlap, startBelow_iff_lt]

theorem mem_queryOverlaps : value ∈ idx.queryOverlaps range ↔
    ∃ range', idx.Holds range' value ∧ rangesOverlap range' range = true := by
  have hquery : idx.queryOverlaps range =
      (idx.treeOf range.keyspace).collect EntryKey.start range.start (upTo range.stop) := by
    unfold queryOverlaps treeOf
    split
    · rename_i hget
      rw [hget]
      rfl
    · rename_i tree hget
      rw [hget]
      rfl
  rw [hquery, mem_collect EntryKey.start_monotone]
  constructor
  · rintro ⟨k, hmem, hov⟩
    have hkey := idx.keyed_treeOf _ _ hmem
    refine ⟨⟨range.keyspace, k.start, k.stop⟩, ?_, rangesOverlap_iff_lt.2 ⟨rfl, hov⟩⟩
    rw [Holds, entryKey, ← hkey]
    exact hmem
  · rintro ⟨range', hmem, hov⟩
    obtain ⟨hks, hov⟩ := rangesOverlap_iff_lt.1 hov
    exact ⟨entryKey valueKey range' value, hks ▸ hmem, hov⟩

end IntervalIndex

end Helipod
