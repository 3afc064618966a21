import Mathlib.Data.List.Nodup

/-!
# Insertion-ordered maps

A finite map that iterates in the order in which its keys were first
inserted: writing a present key keeps its place, erasing a key and writing it
again moves it to the end. The entries carry the fact that no key occurs
twice, so every list of entries that can be built is a map.
-/

universe u v

/-- A finite map with its entries in insertion order. -/
@[ext] structure OrderedMap (α : Type u) (β : Type v) where
  entries : List (α × β)
  nodup : (entries.map Prod.fst).Nodup
  deriving DecidableEq

namespace OrderedMap

open List Option

variable {α : Type u} {β : Type v} [DecidableEq α]

def empty : OrderedMap α β := ⟨[], List.nodup_nil⟩

def keys (m : OrderedMap α β) : List α := m.entries.map Prod.fst

def values (m : OrderedMap α β) : List β := m.entries.map Prod.snd

def size (m : OrderedMap α β) : Nat := m.entries.length

def get? (m : OrderedMap α β) (a : α) : Option β :=
  (m.entries.find? fun p => p.1 = a).map Prod.snd

@[simp] def has (m : OrderedMap α β) (a : α) : Bool := (m.get? a).isSome

/-- Replace the value of `a` in place, or append it. -/
@[simp] def setEntries (a : α) (b : β) : List (α × β) → List (α × β)
  | [] => [(a, b)]
  | p :: ps => if p.1 = a then (a, b) :: ps else p :: setEntries a b ps

theorem map_fst_setEntries (a : α) (b : β) (ps : List (α × β)) :
    (setEntries a b ps).map Prod.fst =
      if a ∈ ps.map Prod.fst then ps.map Prod.fst else ps.map Prod.fst ++ [a] := by
  induction ps with
  | nil => simp
  | cons p ps ih =>
    by_cases h : p.1 = a
    · simp [h]
    · by_cases hm : a ∈ ps.map Prod.fst
      · simp [h, ih, hm]
      · simp [h, ih, hm, Ne.symm h]

theorem setEntries_of_not_mem {a : α} {b : β} {ps : List (α × β)} (h : a ∉ ps.map Prod.fst) :
    setEntries a b ps = ps ++ [(a, b)] := by
  induction ps with
  | nil => rfl
  | cons p ps ih =>
    rw [map_cons, mem_cons, not_or] at h
    rw [setEntries, if_neg (Ne.symm h.1), ih h.2, cons_append]

def set (m : OrderedMap α β) (a : α) (b : β) : OrderedMap α β where
  entries := setEntries a b m.entries
  nodup := by
    rw [map_fst_setEntries]
    split
    · exact m.nodup
    · rename_i h
      exact List.nodup_append.2 ⟨m.nodup, List.nodup_singleton a, by
        intro x hx y hy
        rw [List.mem_singleton] at hy
        subst hy
        rintro rfl
        exact h hx⟩

def erase (m : OrderedMap α β) (a : α) : OrderedMap α β where
  entries := m.entries.filter fun p => p.1 ≠ a
  nodup := m.nodup.sublist (List.filter_sublist.map Prod.fst)

/-- Change every value, keeping the keys and their order. -/
def mapValues (m : OrderedMap α β) (f : β → β) : OrderedMap α β where
  entries := m.entries.map fun p => (p.1, f p.2)
  nodup := by
    rw [List.map_map]
    exact m.nodup

/-- Change values and drop entries, keeping the order of those that stay. -/
def filterMap (m : OrderedMap α β) (f : α → β → Option β) : OrderedMap α β where
  entries := m.entries.filterMap fun p => (f p.1 p.2).map fun b => (p.1, b)
  nodup := by
    have hsub : ∀ ps : List (α × β),
        ((ps.filterMap fun p => (f p.1 p.2).map fun b => (p.1, b)).map Prod.fst).Sublist
          (ps.map Prod.fst) := by
      intro ps
      induction ps with
      | nil => exact .slnil
      | cons p ps ih =>
        cases hp : f p.1 p.2 with
        | none => simpa [List.filterMap_cons, hp] using ih.cons p.1
        | some b => simpa [List.filterMap_cons, hp] using ih.cons_cons p.1
    exact m.nodup.sublist (hsub m.entries)

section Lookup

variable (m : OrderedMap α β) {a a' : α} {b b' : β}

@[simp] theorem get?_empty : (empty : OrderedMap α β).get? a = none := rfl

theorem get?_eq_some_iff : m.get? a = some b ↔ (a, b) ∈ m.entries := by
  obtain ⟨ps, hnd⟩ := m
  show (ps.find? fun p => p.1 = a).map Prod.snd = some b ↔ (a, b) ∈ ps
  induction ps with
  | nil => simp
  | cons p ps ih =>
    have hnd' : (p.1 :: ps.map Prod.fst).Nodup := hnd
    obtain ⟨hp, hps⟩ := nodup_cons.1 hnd'
    by_cases h : p.1 = a
    · subst h
      have : (p.1, b) ∉ ps := fun hb => hp (mem_map.2 ⟨_, hb, rfl⟩)
      simp only [find?_cons, decide_true, map_some, Option.some.injEq, mem_cons,
        this, or_false, Prod.ext_iff, true_and]
      exact eq_comm
    · have hne : (a, b) ≠ p := fun hb => h (by rw [← hb])
      simp only [find?_cons, h, mem_cons, hne, false_or]
      exact ih hps

theorem get?_eq_none_iff : m.get? a = none ↔ a ∉ m.keys := by
  simp only [get?, map_eq_none_iff, find?_eq_none, keys, List.mem_map, not_exists,
    not_and, decide_eq_true_eq]

theorem has_iff : m.has a = true ↔ a ∈ m.keys := by
  rw [has, isSome_iff_ne_none, ne_eq, get?_eq_none_iff, not_not]

theorem get?_set : (m.set a b).get? a' = if a = a' then some b else m.get? a' := by
  obtain ⟨ps, hnd⟩ := m
  show ((setEntries a b ps).find? fun p => p.1 = a').map Prod.snd =
    if a = a' then some b else (ps.find? fun p => p.1 = a').map Prod.snd
  induction ps with
  | nil =>
    by_cases h : a = a' <;> simp
  | cons p ps ih =>
    have ih := ih (nodup_cons.1 hnd).2
    by_cases hp : p.1 = a
    · by_cases h : a = a' <;> simp [hp, h]
    · by_cases h : p.1 = a'
      · have : a ≠ a' := fun ha => hp (h.trans ha.symm)
        simp [h, this, Ne.symm this]
      · simpa [hp, h] using ih

@[simp] theorem get?_set_self : (m.set a b).get? a = some b := by simp [get?_set]

theorem get?_set_ne (h : a ≠ a') : (m.set a b).get? a' = m.get? a' := by simp [get?_set, h]

theorem get?_set_eq_some {m : OrderedMap α β} :
    (m.set a b).get? a' = some b' ↔ a' = a ∧ b' = b ∨ a' ≠ a ∧ m.get? a' = some b' := by
  rw [get?_set]
  by_cases h : a = a'
  · simp [h, eq_comm]
  · simp [h, Ne.symm h]

theorem get?_erase : (m.erase a).get? a' = if a = a' then none else m.get? a' := by
  by_cases h : a = a'
  · subst h
    rw [if_pos rfl, get?_eq_none_iff]
    simp [keys, erase]
  · rw [if_neg h]
    apply Option.ext
    simp [get?_eq_some_iff, erase, Ne.symm h]

theorem get?_erase_eq_some {m : OrderedMap α β} :
    (m.erase a).get? a' = some b ↔ a ≠ a' ∧ m.get? a' = some b := by
  rw [get?_erase, ite_none_left_eq_some]

theorem has_set : (m.set a b).has a' = (decide (a = a') || m.has a') := by
  rw [has, has, get?_set]
  by_cases h : a = a' <;> simp [h]

theorem has_erase_of_ne (h : a ≠ a') : (m.erase a).has a' = m.has a' := by
  rw [has, has, get?_erase, if_neg h]

theorem get?_mapValues (f : β → β) : (m.mapValues f).get? a = (m.get? a).map f := by
  simp only [get?, mapValues, List.find?_map, Option.map_map]
  rfl

theorem get?_filterMap (f : α → β → Option β) : (m.filterMap f).get? a = (m.get? a).bind (f a) := by
  apply Option.ext
  intro b
  rw [get?_eq_some_iff, bind_eq_some_iff]
  simp only [filterMap, mem_filterMap, map_eq_some_iff, get?_eq_some_iff, Prod.exists,
    Prod.mk.injEq]
  constructor
  · rintro ⟨a', b', hmem, c, hc, rfl, rfl⟩
    exact ⟨b', hmem, hc⟩
  · rintro ⟨b', hmem, hc⟩
    exact ⟨a, b', hmem, b, hc, rfl, rfl⟩

theorem mem_keys_set : a' ∈ (m.set a b).keys ↔ a' = a ∨ a' ∈ m.keys := by
  show a' ∈ (setEntries a b m.entries).map Prod.fst ↔ a' = a ∨ a' ∈ m.entries.map Prod.fst
  rw [map_fst_setEntries]
  split
  · rename_i h
    exact ⟨Or.inr, fun h' => h'.elim (fun e => e ▸ h) id⟩
  · simp [or_comm]

theorem mem_entries_set : (a', b') ∈ (m.set a b).entries ↔
    (a' = a ∧ b' = b) ∨ (a' ≠ a ∧ (a', b') ∈ m.entries) := by
  rw [← get?_eq_some_iff, ← get?_eq_some_iff, get?_set]
  by_cases h : a = a'
  · simp [h, eq_comm]
  · simp [h, Ne.symm h]

theorem get?_foldl_set (l : List (α × β)) :
    (l.foldl (fun m p => m.set p.1 p.2) m).get? a =
      ((l.reverse.find? fun p => p.1 = a).map Prod.snd).or (m.get? a) := by
  induction l generalizing m with
  | nil => rfl
  | cons p l ih =>
    rw [foldl_cons, ih, reverse_cons, find?_append, get?_set]
    cases l.reverse.find? (fun p => p.1 = a) with
    | some q => rfl
    | none => by_cases h : p.1 = a <;> simp [h]

/-- A map with no other key than `a` has at most one entry. -/
theorem entries_of_keys_eq (h : ∀ p ∈ m.entries, p.1 = a) :
    m.entries = ((m.get? a).map fun b => (a, b)).toList := by
  obtain ⟨ps, hnd⟩ := m
  match ps with
  | [] => rfl
  | [p] =>
    have hp : p.1 = a := h p mem_cons_self
    simp [get?, hp, Prod.ext_iff]
  | p :: q :: ps =>
    have hp : p.1 = a := h p mem_cons_self
    have hq : q.1 = a := h q (mem_cons_of_mem _ mem_cons_self)
    simp [hp, hq] at hnd

theorem head_set {p : α × β} (h : m.entries.head? = some p) (hp : p.1 ≠ a) :
    (m.set a b).entries.head? = some p := by
  obtain ⟨_ | ⟨q, ps⟩, hnd⟩ := m
  · cases h
  · obtain rfl : q = p := Option.some.inj h
    show (setEntries a b (q :: ps)).head? = some q
    rw [setEntries, if_neg hp]
    rfl

theorem head_erase {p : α × β} (h : m.entries.head? = some p) (hp : p.1 ≠ a) :
    (m.erase a).entries.head? = some p := by
  obtain ⟨_ | ⟨q, ps⟩, hnd⟩ := m
  · cases h
  · obtain rfl : q = p := Option.some.inj h
    show ((q :: ps).filter fun p => p.1 ≠ a).head? = some q
    rw [filter_cons_of_pos (by simpa using hp)]
    rfl

end Lookup

end OrderedMap
