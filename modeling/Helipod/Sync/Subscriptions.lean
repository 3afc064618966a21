import Helipod.IntervalIndex
import Helipod.Lib.Runs

/-!
# The subscription manager

Model of `sync/src/subscription-manager.ts`: the live subscriptions, and the indexes that find those
a write affects. The ranges of a subscription cross the wire in base64; here they are decoded. Of a
subscription only what the manager looks at is kept.

The manager knows a subscription by the session id, a space and the number of the query, and it
removes a session by the keys that start with its id and a space.

Results:
* `affected_are_live`, `removed_session_takes_another`
* `InStep.add`, `InStep.removeKey`: the indexes are kept in step with the subscriptions.
* `mem_findAffectedByRanges`: a write affects the subscriptions with a range that overlaps it, those
  without ranges that have read one of its tables, and those that have read one of its global
  tables.
-/

namespace Helipod

open Runs OrderedMap IntervalIndex List

/-! ## Sets of keys -/

/-- A `Set` of keys, in the order in which they were added. -/
abbrev KeySet := List JsString

def KeySet.add (s : KeySet) (key : JsString) : KeySet := if key ∈ s then s else s ++ [key]

def KeySet.delete (s : KeySet) (key : JsString) : KeySet := s.filter fun k => k ≠ key

/-- A set of keys for each table. -/
abbrev KeyIndex := OrderedMap JsString KeySet

namespace KeyIndex

def keysOf (m : KeyIndex) (table : JsString) : KeySet := (m.get? table).getD []

def file (key : JsString) (m : KeyIndex) (table : JsString) : KeyIndex :=
  m.set table (KeySet.add (m.keysOf table) key)

/-- Take a key out; with `drop` a set that is empty then is dropped. -/
def unfile (drop : Bool) (key : JsString) (m : KeyIndex) (table : JsString) : KeyIndex :=
  match m.get? table with
  | none => m
  | some s =>
    let s := KeySet.delete s key
    if drop && s.isEmpty then m.erase table else m.set table s

end KeyIndex

/-! ## The manager -/

structure Subscription where
  sessionId : JsString
  queryId : Nat
  tables : List JsString
  readRanges : List KeyRange
  globalTables : List JsString
  deriving DecidableEq

def space : CodeUnit := codeUnit 32

def subKey (sessionId : JsString) (queryId : Nat) : JsString :=
  sessionId ++ space :: decimal queryId

structure SubscriptionManager where
  byKey : OrderedMap JsString Subscription
  byTable : KeyIndex
  byRange : IntervalIndex (id : JsString → JsString)
  tableFallbackKeys : KeySet
  deserializedRanges : OrderedMap JsString (List KeyRange)
  byGlobalTable : KeyIndex

namespace SubscriptionManager

def initial : SubscriptionManager := ⟨.empty, .empty, .empty, [], .empty, .empty⟩

def removeKey (m : SubscriptionManager) (key : JsString) : SubscriptionManager :=
  match m.byKey.get? key with
  | none => m
  | some existing =>
    { byKey := m.byKey.erase key
      byTable := existing.tables.foldl (KeyIndex.unfile false key) m.byTable
      byRange := ((m.deserializedRanges.get? key).getD []).foldl
        (fun idx r => idx.remove r key) m.byRange
      tableFallbackKeys := m.tableFallbackKeys.delete key
      deserializedRanges := m.deserializedRanges.erase key
      byGlobalTable := existing.globalTables.foldl (KeyIndex.unfile true key) m.byGlobalTable }

/-- File a subscription whose key is not there. -/
def addNew (m : SubscriptionManager) (sub : Subscription) : SubscriptionManager :=
  let key := subKey sub.sessionId sub.queryId
  { byKey := m.byKey.set key sub
    byTable := sub.tables.foldl (KeyIndex.file key) m.byTable
    byRange := sub.readRanges.foldl (fun idx r => idx.insert r key) m.byRange
    tableFallbackKeys :=
      if sub.readRanges.isEmpty then m.tableFallbackKeys.add key else m.tableFallbackKeys
    deserializedRanges :=
      if sub.readRanges.isEmpty then m.deserializedRanges
      else m.deserializedRanges.set key sub.readRanges
    byGlobalTable := sub.globalTables.foldl (KeyIndex.file key) m.byGlobalTable }

def add (m : SubscriptionManager) (sub : Subscription) : SubscriptionManager :=
  (m.removeKey (subKey sub.sessionId sub.queryId)).addNew sub

def remove (m : SubscriptionManager) (sessionId : JsString) (queryId : Nat) : SubscriptionManager :=
  m.removeKey (subKey sessionId queryId)

def removeSession (m : SubscriptionManager) (sessionId : JsString) : SubscriptionManager :=
  (m.byKey.keys.filter fun key => (sessionId ++ [space]).isPrefixOf key).foldl removeKey m

def get (m : SubscriptionManager) (sessionId : JsString) (queryId : Nat) : Option Subscription :=
  m.byKey.get? (subKey sessionId queryId)

/-- The keys that `findAffectedByRanges` collects. -/
def affectedKeys (m : SubscriptionManager) (writeRanges : List KeyRange)
    (writeTables : List JsString) :
    KeySet :=
  let keys := writeRanges.foldl
    (fun keys wr => (m.byRange.queryOverlaps wr).foldl KeySet.add keys) []
  let keys := writeTables.foldl (fun keys table =>
    ((m.byTable.keysOf table).filter fun key => key ∈ m.tableFallbackKeys).foldl KeySet.add keys)
      keys
  writeTables.foldl (fun keys table => (m.byGlobalTable.keysOf table).foldl KeySet.add keys) keys

def findAffectedByRanges (m : SubscriptionManager) (writeRanges : List KeyRange)
    (writeTables : List JsString) : List Subscription :=
  (m.affectedKeys writeRanges writeTables).filterMap m.byKey.get?

end SubscriptionManager

/-! ## Keys of subscriptions -/

theorem val_codeUnit_of_digit {c : Char} {n : Nat} (h : c ∈ Nat.toDigits 10 n) :
    (codeUnit c.toNat).val = c.toNat ∧ 48 ≤ c.toNat := by
  have hdigit := Nat.isDigit_of_mem_toDigits (by decide) (by decide) h
  simp only [Char.isDigit, Bool.and_eq_true, decide_eq_true_eq] at hdigit
  have hle : c.toNat ≤ 57 := hdigit.2
  exact ⟨Nat.mod_eq_of_lt (by omega), hdigit.1⟩

theorem space_notMem_decimal {n : Nat} : space ∉ decimal n := by
  intro h
  obtain ⟨c, hc, heq⟩ := mem_map.1 h
  obtain ⟨hval, hle⟩ := val_codeUnit_of_digit hc
  rw [heq] at hval
  have : space.val = 32 := rfl
  omega

theorem decimal_injective : Function.Injective decimal := by
  have hchars : ∀ n, (decimal n).map (fun u => Char.ofNat u.val) = Nat.toDigits 10 n := by
    intro n
    rw [decimal, map_map]
    refine (map_congr_left fun c hc => ?_).trans (map_id _)
    rw [Function.comp_apply, (val_codeUnit_of_digit hc).1, Char.ofNat_toNat]
    rfl
  intro n n' h
  have hdigits : Nat.toDigits 10 n = Nat.toDigits 10 n' := by rw [← hchars, ← hchars, h]
  rw [← Nat.ofDigitChars_ten_toDigits (n := n), hdigits, Nat.ofDigitChars_ten_toDigits]

theorem startsWith_subKey_iff {sid s : JsString} {q : Nat} :
    (sid ++ [space]) <+: subKey s q ↔ s = sid ∨ (sid ++ [space]) <+: s := by
  constructor
  · rintro ⟨rest, h⟩
    rw [subKey, append_assoc, singleton_append] at h
    rcases append_eq_append_iff.1 h with ⟨as, rfl, hrest⟩ | ⟨bs, rfl, hrest⟩
    · cases as with
      | nil => exact .inl (append_nil sid)
      | cons u as =>
        obtain ⟨rfl, -⟩ := List.cons.inj hrest
        exact .inr ⟨as, by simp⟩
    · cases bs with
      | nil => exact .inl (append_nil s).symm
      | cons u bs =>
        -- a space after the one that ends the session id would be a digit
        obtain ⟨-, hdigits⟩ := List.cons.inj hrest
        exact absurd (hdigits ▸ mem_append_right bs (.head rest)) (space_notMem_decimal (n := q))
  · rintro (rfl | ⟨rest, rfl⟩)
    · exact ⟨decimal q, by simp [subKey]⟩
    · exact ⟨rest ++ space :: decimal q, by simp [subKey]⟩

theorem subKey_inj {s s' : JsString} {q q' : Nat} : subKey s q = subKey s' q' ↔
    s = s' ∧ q = q' := by
  constructor
  · intro h
    have hs : s = s' := by
      have hstart : (s' ++ [space]) <+: subKey s q := h ▸ startsWith_subKey_iff.2 (.inl rfl)
      have hstart' : (s ++ [space]) <+: subKey s' q' := h ▸ startsWith_subKey_iff.2 (.inl rfl)
      rcases startsWith_subKey_iff.1 hstart with hs | hlong
      · exact hs
      · rcases startsWith_subKey_iff.1 hstart' with hs | hlong'
        · exact hs.symm
        · have := hlong.length_le
          have := hlong'.length_le
          simp only [length_append, length_singleton] at *
          omega
    subst hs
    exact ⟨rfl, decimal_injective (List.cons.inj (append_cancel_left h)).2⟩
  · rintro ⟨rfl, rfl⟩
    rfl

/-! ## Lemmas about sets and indexes -/

section Sets

variable {s l : KeySet} {k key table table' : JsString} {m : KeyIndex}

theorem KeySet.mem_add : k ∈ s.add key ↔ k ∈ s ∨ k = key := by
  unfold KeySet.add
  split
  · rename_i h
    exact ⟨.inl, fun hk => hk.elim id fun hk => hk ▸ h⟩
  · simp

theorem KeySet.mem_delete : k ∈ s.delete key ↔ k ∈ s ∧ k ≠ key := by
  simp [KeySet.delete]

theorem KeySet.nodup_add (h : s.Nodup) : (s.add key).Nodup := by
  unfold KeySet.add
  split
  · exact h
  · rename_i hnot
    exact nodup_append.2 ⟨h, nodup_singleton key, fun a ha b hb heq =>
      hnot (by rw [← mem_singleton.1 hb, ← heq]; exact ha)⟩

theorem KeySet.mem_foldl_add : k ∈ l.foldl KeySet.add s ↔ k ∈ s ∨ k ∈ l := by
  induction l generalizing s with
  | nil => simp
  | cons a l ih => rw [foldl_cons, ih, KeySet.mem_add, mem_cons, or_assoc]

theorem KeySet.mem_foldl_foldl {α : Type} {f : α → KeySet} {as : List α} :
    k ∈ as.foldl (fun keys a => (f a).foldl KeySet.add keys) s ↔ k ∈ s ∨ ∃ a ∈ as, k ∈ f a := by
  induction as generalizing s with
  | nil => simp
  | cons a as ih =>
    rw [foldl_cons, ih, KeySet.mem_foldl_add, or_assoc]
    simp

theorem KeySet.nodup_foldl_foldl {α : Type} {f : α → KeySet} {as : List α} (h : s.Nodup) :
    (as.foldl (fun keys a => (f a).foldl KeySet.add keys) s).Nodup :=
  foldlRecOn as _ h fun _ h a _ => foldlRecOn (f a) _ h fun _ h _ _ => KeySet.nodup_add h

namespace KeyIndex

theorem mem_keysOf_file : k ∈ (file key m table).keysOf table' ↔
    k ∈ m.keysOf table' ∨ k = key ∧ table' = table := by
  rw [keysOf, file, get?_set]
  split
  · rename_i h
    subst h
    rw [Option.getD_some, KeySet.mem_add]
    simp
  · rename_i h
    simp [keysOf, Ne.symm h]

theorem mem_keysOf_unfile {drop : Bool} : k ∈ (unfile drop key m table).keysOf table' ↔
    k ∈ m.keysOf table' ∧ ¬ (k = key ∧ table' = table) := by
  unfold unfile
  split
  · rename_i hnone
    refine ⟨fun h => ⟨h, ?_⟩, fun h => h.1⟩
    rintro ⟨-, rfl⟩
    rw [keysOf, hnone] at h
    cases h
  · rename_i s hs
    dsimp only
    have hset : k ∈ ((m.set table (KeySet.delete s key)).get? table').getD [] ↔
        k ∈ m.keysOf table' ∧ ¬ (k = key ∧ table' = table) := by
      rw [get?_set]
      split
      · rename_i h
        subst h
        simp [keysOf, hs, KeySet.mem_delete]
      · rename_i h
        simp [keysOf, Ne.symm h]
    split
    · rename_i hdrop
      rw [← hset, keysOf, get?_erase, get?_set]
      split
      · simp only [Bool.and_eq_true, List.isEmpty_iff] at hdrop
        rw [hdrop.2]
        rfl
      · rfl
    · exact hset

theorem mem_keysOf_foldl_file {tables : List JsString} :
    k ∈ (tables.foldl (file key) m).keysOf table' ↔
    k ∈ m.keysOf table' ∨ k = key ∧ table' ∈ tables := by
  induction tables generalizing m with
  | nil => simp
  | cons t tables ih =>
    rw [foldl_cons, ih, mem_keysOf_file, mem_cons, or_assoc, ← and_or_left]

theorem mem_keysOf_foldl_unfile {drop : Bool} {tables : List JsString} :
    k ∈ (tables.foldl (unfile drop key) m).keysOf table' ↔
      k ∈ m.keysOf table' ∧ ¬ (k = key ∧ table' ∈ tables) := by
  induction tables generalizing m with
  | nil => simp
  | cons t tables ih =>
    rw [foldl_cons, ih, mem_keysOf_unfile, mem_cons, and_assoc]
    tauto

end KeyIndex

end Sets

namespace IntervalIndex

variable {idx : IntervalIndex (id : JsString → JsString)} {key key' : JsString} {r : KeyRange}

theorem holds_foldl_insert {ranges : List KeyRange} :
    (ranges.foldl (fun idx r => idx.insert r key) idx).Holds r key' ↔
      idx.Holds r key' ∨ key' = key ∧ r ∈ ranges := by
  induction ranges generalizing idx with
  | nil => simp
  | cons a ranges ih =>
    rw [foldl_cons, ih, holds_insert Function.injective_id, mem_cons]
    tauto

theorem holds_foldl_remove {ranges : List KeyRange} :
    (ranges.foldl (fun idx r => idx.remove r key) idx).Holds r key' ↔
      idx.Holds r key' ∧ ¬ (key' = key ∧ r ∈ ranges) := by
  induction ranges generalizing idx with
  | nil => simp
  | cons a ranges ih =>
    rw [foldl_cons, ih, holds_remove Function.injective_id, mem_cons]
    tauto

end IntervalIndex

/-! ## The indexes are kept in step -/

namespace SubscriptionManager

variable {m : SubscriptionManager} {key k : JsString} {sub : Subscription}
  {writeRanges : List KeyRange} {writeTables : List JsString} {kind : Subscription → Prop}

/-- There is a subscription of that kind under the key. -/
def Has (m : SubscriptionManager) (kind : Subscription → Prop) (k : JsString) : Prop :=
  ∃ sub, m.byKey.get? k = some sub ∧ kind sub

/-- What the indexes have is what the subscriptions say. -/
structure InStep (m : SubscriptionManager) : Prop where
  keyed : ∀ {k sub}, m.byKey.get? k = some sub → subKey sub.sessionId sub.queryId = k
  ranges : ∀ k, (m.deserializedRanges.get? k).getD [] =
    ((m.byKey.get? k).map (·.readRanges)).getD []
  byRange : ∀ {k r}, m.byRange.Holds r k ↔ m.Has (fun sub => r ∈ sub.readRanges) k
  fallback : ∀ {k}, k ∈ m.tableFallbackKeys ↔ m.Has (fun sub => sub.readRanges = []) k
  byTable : ∀ {k t}, k ∈ m.byTable.keysOf t ↔ m.Has (fun sub => t ∈ sub.tables) k
  byGlobalTable : ∀ {k t}, k ∈ m.byGlobalTable.keysOf t ↔ m.Has (fun sub => t ∈ sub.globalTables) k

theorem not_has_initial : ¬ initial.Has kind k := by
  rintro ⟨sub, h, -⟩
  cases h

theorem InStep.initial : InStep initial where
  keyed h := by cases h
  ranges k := rfl
  byRange := iff_of_false not_mem_nil not_has_initial
  fallback := iff_of_false not_mem_nil not_has_initial
  byTable := iff_of_false not_mem_nil not_has_initial
  byGlobalTable := iff_of_false not_mem_nil not_has_initial

theorem get?_removeKey : (m.removeKey key).byKey.get? k = if key = k then none else
    m.byKey.get? k := by
  unfold removeKey
  split
  · rename_i hnone
    split
    · rename_i h
      exact h ▸ hnone
    · rfl
  · exact get?_erase _

theorem has_removeKey : (m.removeKey key).Has kind k ↔ m.Has kind k ∧ k ≠ key := by
  unfold Has
  rw [get?_removeKey]
  split
  · rename_i h
    simp [h]
  · rename_i h
    simp [Ne.symm h]

theorem has_removeKey_iff (hget : m.byKey.get? key = some sub) :
    (m.removeKey key).Has kind k ↔ m.Has kind k ∧ ¬ (k = key ∧ kind sub) := by
  rw [has_removeKey]
  refine and_congr_right fun hhas => ⟨fun hne h => hne h.1, ?_⟩
  rintro hnot rfl
  obtain ⟨sub', hsub', hkind⟩ := hhas
  obtain rfl : sub = sub' := Option.some.inj (hget.symm.trans hsub')
  exact hnot ⟨rfl, hkind⟩

theorem InStep.removeKey (h : m.InStep) (key : JsString) : (m.removeKey key).InStep := by
  cases hget : m.byKey.get? key with
  | none =>
    have hsame : m.removeKey key = m := by
      unfold SubscriptionManager.removeKey
      rw [hget]
    rw [hsame]
    exact h
  | some existing =>
    have hremoved : m.removeKey key = ⟨m.byKey.erase key,
        existing.tables.foldl (KeyIndex.unfile false key) m.byTable,
        ((m.deserializedRanges.get? key).getD []).foldl (fun idx r => idx.remove r key) m.byRange,
        m.tableFallbackKeys.delete key, m.deserializedRanges.erase key,
        existing.globalTables.foldl (KeyIndex.unfile true key) m.byGlobalTable⟩ := by
      unfold SubscriptionManager.removeKey
      rw [hget]
    constructor
    · intro k sub hsub
      rw [get?_removeKey] at hsub
      exact h.keyed (Option.ite_none_left_eq_some.1 hsub).2
    · intro k
      rw [get?_removeKey, hremoved]
      rw [get?_erase]
      split
      · rfl
      · exact h.ranges k
    · intro k r
      rw [has_removeKey_iff hget, hremoved]
      rw [holds_foldl_remove, h.byRange, h.ranges, hget]
      rfl
    · intro k
      rw [has_removeKey, hremoved]
      rw [KeySet.mem_delete, h.fallback]
    · intro k t
      rw [has_removeKey_iff hget, hremoved]
      rw [KeyIndex.mem_keysOf_foldl_unfile, h.byTable]
    · intro k t
      rw [has_removeKey_iff hget, hremoved]
      rw [KeyIndex.mem_keysOf_foldl_unfile, h.byGlobalTable]

theorem has_addNew (hnone : m.byKey.get? (subKey sub.sessionId sub.queryId) = none) :
    (m.addNew sub).Has kind k ↔ m.Has kind k ∨ k = subKey sub.sessionId sub.queryId ∧ kind sub := by
  unfold Has addNew
  rw [get?_set]
  split
  · rename_i heq
    subst heq
    rw [hnone]
    simp
  · rename_i hne
    simp [Ne.symm hne]

theorem InStep.addNew (h : m.InStep) (hnone : m.byKey.get?
    (subKey sub.sessionId sub.queryId) = none) : (m.addNew sub).InStep := by
  constructor
  · intro k sub' hsub
    rcases get?_set_eq_some.1 hsub with ⟨rfl, rfl⟩ | ⟨-, hold⟩
    · rfl
    · exact h.keyed hold
  · intro k
    have hold := h.ranges k
    unfold SubscriptionManager.addNew
    dsimp only
    rw [get?_set]
    by_cases hempty : sub.readRanges.isEmpty = true
    · rw [if_pos hempty, hold]
      split
      · rename_i heq
        rw [← heq, hnone, Option.map_some, List.isEmpty_iff.1 hempty]
        rfl
      · rfl
    · rw [if_neg hempty, get?_set]
      split
      · rfl
      · exact hold
  · intro k r
    rw [has_addNew hnone, ← h.byRange]
    exact holds_foldl_insert
  · intro k
    rw [has_addNew hnone, ← h.fallback]
    unfold SubscriptionManager.addNew
    split
    · rename_i hempty
      rw [KeySet.mem_add, List.isEmpty_iff.1 hempty]
      simp
    · rename_i hempty
      rw [List.isEmpty_iff] at hempty
      simp [hempty]
  · intro k t
    rw [has_addNew hnone, ← h.byTable]
    exact KeyIndex.mem_keysOf_foldl_file
  · intro k t
    rw [has_addNew hnone, ← h.byGlobalTable]
    exact KeyIndex.mem_keysOf_foldl_file

theorem InStep.add (h : m.InStep) (sub : Subscription) : (m.add sub).InStep :=
  (h.removeKey _).addNew (by rw [get?_removeKey, if_pos rfl])

theorem get?_foldl_removeKey {keys : List JsString} :
    (keys.foldl removeKey m).byKey.get? k = if k ∈ keys then none else m.byKey.get? k := by
  induction keys generalizing m with
  | nil => simp
  | cons key keys ih =>
    rw [foldl_cons, ih, get?_removeKey]
    by_cases hk : k ∈ keys
    · simp [hk]
    · by_cases heq : key = k
      · simp [heq]
      · simp [heq, Ne.symm heq]

theorem get?_removeSession {sid : JsString} : (m.removeSession sid).byKey.get? k =
    if (sid ++ [space]) <+: k then none else m.byKey.get? k := by
  rw [removeSession, get?_foldl_removeKey]
  simp only [mem_filter, isPrefixOf_iff_prefix]
  by_cases hstart : (sid ++ [space]) <+: k
  · rw [if_pos hstart]
    split
    · rfl
    · rename_i hnot
      exact (get?_eq_none_iff _).2 fun hk => hnot ⟨hk, hstart⟩
  · rw [if_neg hstart, if_neg fun h => hstart h.2]

/-! ## What a write affects -/

/-- A write to the ranges and tables concerns the subscription. -/
def Concerns (writeRanges : List KeyRange) (writeTables : List JsString) (sub : Subscription) :
    Prop :=
  (∃ r ∈ sub.readRanges, ∃ wr ∈ writeRanges, rangesOverlap r wr = true) ∨
    (sub.readRanges = [] ∧ ∃ t ∈ sub.tables, t ∈ writeTables) ∨ ∃ t ∈ sub.globalTables,
      t ∈ writeTables

theorem mem_affectedKeys (h : m.InStep) :
    k ∈ m.affectedKeys writeRanges writeTables ↔ m.Has (Concerns writeRanges writeTables) k := by
  have hranges : (∃ wr ∈ writeRanges, k ∈ m.byRange.queryOverlaps wr) ↔
      m.Has (fun sub => ∃ r ∈ sub.readRanges, ∃ wr ∈ writeRanges, rangesOverlap r wr = true) k := by
    constructor
    · rintro ⟨wr, hwr, hk⟩
      obtain ⟨r, hholds, hov⟩ := mem_queryOverlaps.1 hk
      obtain ⟨sub, hsub, hr⟩ := h.byRange.1 hholds
      exact ⟨sub, hsub, r, hr, wr, hwr, hov⟩
    · rintro ⟨sub, hsub, r, hr, wr, hwr, hov⟩
      exact ⟨wr, hwr, mem_queryOverlaps.2 ⟨r, h.byRange.2 ⟨sub, hsub, hr⟩, hov⟩⟩
  have hfallback : (∃ t ∈ writeTables, k ∈ (m.byTable.keysOf t).filter fun key =>
    key ∈ m.tableFallbackKeys) ↔
      m.Has (fun sub => sub.readRanges = [] ∧ ∃ t ∈ sub.tables, t ∈ writeTables) k := by
    constructor
    · rintro ⟨t, ht, hk⟩
      obtain ⟨hfiled, hkey⟩ := mem_filter.1 hk
      obtain ⟨sub, hsub, htable⟩ := h.byTable.1 hfiled
      obtain ⟨sub', hsub', hnone⟩ := h.fallback.1 (of_decide_eq_true hkey)
      obtain rfl : sub = sub' := Option.some.inj (hsub.symm.trans hsub')
      exact ⟨sub, hsub, hnone, t, htable, ht⟩
    · rintro ⟨sub, hsub, hnone, t, htable, ht⟩
      exact ⟨t, ht, mem_filter.2 ⟨h.byTable.2 ⟨sub, hsub, htable⟩,
        decide_eq_true (h.fallback.2 ⟨sub, hsub, hnone⟩)⟩⟩
  have hglobal : (∃ t ∈ writeTables, k ∈ m.byGlobalTable.keysOf t) ↔
      m.Has (fun sub => ∃ t ∈ sub.globalTables, t ∈ writeTables) k := by
    constructor
    · rintro ⟨t, ht, hk⟩
      obtain ⟨sub, hsub, htable⟩ := h.byGlobalTable.1 hk
      exact ⟨sub, hsub, t, htable, ht⟩
    · rintro ⟨sub, hsub, t, htable, ht⟩
      exact ⟨t, ht, h.byGlobalTable.2 ⟨sub, hsub, htable⟩⟩
  simp only [affectedKeys, KeySet.mem_foldl_foldl, not_mem_nil, false_or, hranges,
    hfallback, hglobal]
  constructor
  · rintro ((⟨sub, hsub, hkind⟩ | ⟨sub, hsub, hkind⟩) | ⟨sub, hsub, hkind⟩)
    · exact ⟨sub, hsub, .inl hkind⟩
    · exact ⟨sub, hsub, .inr (.inl hkind)⟩
    · exact ⟨sub, hsub, .inr (.inr hkind)⟩
  · rintro ⟨sub, hsub, hkind | hkind | hkind⟩
    · exact .inl (.inl ⟨sub, hsub, hkind⟩)
    · exact .inl (.inr ⟨sub, hsub, hkind⟩)
    · exact .inr ⟨sub, hsub, hkind⟩

theorem mem_findAffectedByRanges (h : m.InStep) :
    sub ∈ m.findAffectedByRanges writeRanges writeTables ↔
      m.get sub.sessionId sub.queryId = some sub ∧ Concerns writeRanges writeTables sub := by
  rw [findAffectedByRanges, mem_filterMap]
  constructor
  · rintro ⟨k, hk, hsub⟩
    obtain ⟨sub', hsub', hconcerns⟩ := (mem_affectedKeys h).1 hk
    obtain rfl : sub = sub' := Option.some.inj (hsub.symm.trans hsub')
    exact ⟨by rw [get, h.keyed hsub]; exact hsub, hconcerns⟩
  · rintro ⟨hsub, hconcerns⟩
    exact ⟨_, (mem_affectedKeys h).2 ⟨sub, hsub, hconcerns⟩, hsub⟩

theorem nodup_findAffectedByRanges (h : m.InStep) :
    (m.findAffectedByRanges writeRanges writeTables).Nodup := by
  refine List.Nodup.filterMap (fun k k' sub hsub hsub' => ?_)
    (KeySet.nodup_foldl_foldl (KeySet.nodup_foldl_foldl (KeySet.nodup_foldl_foldl nodup_nil)))
  rw [← h.keyed hsub, h.keyed hsub']

end SubscriptionManager

/-! ## Runs -/

inductive SubscriptionOp where
  | add (sub : Subscription)
  | remove (sessionId : JsString) (queryId : Nat)
  | removeSession (sessionId : JsString)

def SubscriptionManager.apply (m : SubscriptionManager) : SubscriptionOp → SubscriptionManager
  | .add sub => m.add sub
  | .remove sessionId queryId => m.remove sessionId queryId
  | .removeSession sessionId => m.removeSession sessionId

/-- The live subscription of each session and query. -/
abbrev LiveSubscriptions := JsString → Nat → Option Subscription

namespace LiveSubscriptions

/-- What an operation is for. -/
def apply (live : LiveSubscriptions) : SubscriptionOp → LiveSubscriptions
  | .add sub => fun s q => if s = sub.sessionId ∧ q = sub.queryId then some sub else live s q
  | .remove sessionId queryId => fun s q => if s = sessionId ∧ q = queryId then none else live s q
  | .removeSession sessionId => fun s q => if s = sessionId then none else live s q

/-- A removed session begins the id of no other one with live subscriptions. -/
def Apart (live : LiveSubscriptions) : SubscriptionOp → Prop
  | .removeSession sessionId => ∀ s q, live s q ≠ none → ¬ (sessionId ++ [space]) <+: s
  | _ => True

/-- Every operation of the list does so where it stands. -/
def AllApart : LiveSubscriptions → List SubscriptionOp → Prop
  | _, [] => True
  | live, op :: ops => live.Apart op ∧ AllApart (live.apply op) ops

end LiveSubscriptions

namespace SubscriptionManager

variable {m : SubscriptionManager} {live : LiveSubscriptions} {op : SubscriptionOp}

/-- The manager has the live subscriptions. -/
structure Tracks (m : SubscriptionManager) (live : LiveSubscriptions) : Prop where
  inStep : m.InStep
  get : ∀ s q, m.get s q = live s q

theorem Tracks.apply (h : m.Tracks live) (hapart : live.Apart op) :
    (m.apply op).Tracks (live.apply op) := by
  cases op with
  | add sub =>
    refine ⟨h.inStep.add sub, fun s q => ?_⟩
    show (OrderedMap.set _ _ _).get? _ = _
    rw [get?_set, get?_removeKey]
    simp only [LiveSubscriptions.apply, ← h.get, subKey_inj, eq_comm (a := sub.sessionId),
      eq_comm (a := sub.queryId)]
    split <;> rfl
  | remove sessionId queryId =>
    refine ⟨h.inStep.removeKey _, fun s q => ?_⟩
    show (m.removeKey _).byKey.get? _ = _
    rw [get?_removeKey]
    simp only [LiveSubscriptions.apply, ← h.get, subKey_inj, eq_comm (a := sessionId),
      eq_comm (a := queryId)]
    rfl
  | removeSession sessionId =>
    refine ⟨foldlRecOn _ _ h.inStep fun _ h key _ => h.removeKey key, fun s q => ?_⟩
    show (m.removeSession _).byKey.get? _ = _
    rw [get?_removeSession]
    simp only [LiveSubscriptions.apply, ← h.get]
    have hiff : (sessionId ++ [space]) <+: subKey s q ↔ s = sessionId ∨
      (sessionId ++ [space]) <+: s :=
      startsWith_subKey_iff
    by_cases hs : s = sessionId
    · rw [if_pos (hiff.2 (.inl hs)), if_pos hs]
    · rw [if_neg hs]
      split
      · rename_i hstart
        have hlive := mt (hapart s q) (not_not.2 ((hiff.1 hstart).resolve_left hs))
        exact (not_not.1 hlive).symm.trans (h.get s q).symm
      · rfl

theorem Tracks.foldl {ops : List SubscriptionOp} (h : m.Tracks live) (hapart : live.AllApart ops) :
    (ops.foldl SubscriptionManager.apply m).Tracks (ops.foldl LiveSubscriptions.apply live) := by
  induction ops generalizing m live with
  | nil => exact h
  | cons op ops ih => exact ih (h.apply hapart.1) hapart.2

end SubscriptionManager

open SubscriptionManager

/-- After operations in which no removed session takes another one with it, a write affects the live
subscriptions that it concerns, each once. -/
theorem affected_are_live {ops : List SubscriptionOp}
    (hapart : LiveSubscriptions.AllApart (fun _ _ => none) ops) (writeRanges : List KeyRange)
    (writeTables : List JsString) :
    ((ops.foldl apply initial).findAffectedByRanges writeRanges writeTables).Nodup ∧
      ∀ sub, sub ∈ (ops.foldl apply initial).findAffectedByRanges writeRanges writeTables ↔
        ops.foldl LiveSubscriptions.apply (fun _ _ => none) sub.sessionId sub.queryId = some sub ∧
          Concerns writeRanges writeTables sub := by
  have htracks : (ops.foldl apply initial).Tracks
    (ops.foldl LiveSubscriptions.apply fun _ _ => none) :=
    Tracks.foldl ⟨.initial, fun _ _ => rfl⟩ hapart
  refine ⟨nodup_findAffectedByRanges htracks.inStep, fun sub => ?_⟩
  rw [mem_findAffectedByRanges htracks.inStep, htracks.get]

namespace SubscriptionExample

/-- The keys of the first table from a byte on. -/
def rangeFrom (n : Nat) : KeyRange := ⟨.table 1, [byte n], none⟩

def key (n : Nat) : KeyRange := pointRange (.table 1) [byte n]

def subscribed (sessionId : String) (readRanges : List KeyRange) : Subscription :=
  ⟨js sessionId, 1, [], readRanges, []⟩

/-- Two sessions subscribe, the first one reads more, and the other one goes. -/
def reread : List SubscriptionOp :=
  [.add (subscribed "a" [key 3]), .add (subscribed "b" [rangeFrom 0]),
    .add (subscribed "a" [key 3, key 3, rangeFrom 5]), .removeSession (js "b")]

theorem reread_apart : LiveSubscriptions.AllApart (fun _ _ => none) reread := by
  refine ⟨trivial, trivial, trivial, fun s q hlive hstart => hlive ?_, trivial⟩
  have hne : ∀ id, (js "b" ++ [space]).isPrefixOf (js id) = false → s ≠ js id := by
    rintro id hnot rfl
    rw [ isPrefixOf_iff_prefix.2 hstart] at hnot
    cases hnot
  simp [LiveSubscriptions.apply, subscribed, hne "a" (by decide), hne "b" (by decide)]

end SubscriptionExample

open SubscriptionExample in
theorem affected_are_live_reread : LiveSubscriptions.AllApart (fun _ _ => none) reread ∧
    subscribed "a" [key 3, key 3, rangeFrom 5] ∈
      (reread.foldl apply initial).findAffectedByRanges [key 3, key 7] [] :=
  ⟨reread_apart, ((affected_are_live reread_apart [key 3, key 7] []).2 _).2
    ⟨by decide, .inl ⟨key 3, by decide, key 3, by decide, by decide⟩⟩⟩

open SubscriptionExample in
/-- The removal of session `a` takes the subscription of session `a 1`. -/
theorem removed_session_takes_another :
    [SubscriptionOp.add (subscribed "a 1" [key 3]), .removeSession (js "a")].foldl
        LiveSubscriptions.apply (fun _ _ => none) (js "a 1") 1 = some (subscribed "a 1" [key 3]) ∧
      Concerns [key 3] [] (subscribed "a 1" [key 3]) ∧
      subscribed "a 1" [key 3] ∉ ([SubscriptionOp.add (subscribed "a 1" [key 3]),
        .removeSession (js "a")].foldl apply initial).findAffectedByRanges [key 3] [] :=
  ⟨by decide, .inl ⟨key 3, by decide, key 3, by decide, by decide⟩, by decide +kernel⟩

end Helipod
