import Mathlib.Order.WithBot
import Mathlib.Order.Compare
import Mathlib.Data.List.Pairwise

/-!
# Interval treaps

A search tree whose keys are intervals: each key starts somewhere and stops somewhere, or nowhere,
and each node carries the last stop of its subtree. Priorities shape the tree and nothing else.

Results:
* `collectAt_eq`, `IntervalTreap`
* `toList_removeAt`, `mem_toList_insertAt`: what an insertion and a removal do to the entries.
-/

namespace Helipod

open List

inductive Treap (ε ν α : Type*) where
  | nil
  | node (key : ε) (value : ν) (priority : Nat) (last : WithTop α) (left right : Treap ε ν α)

namespace Treap

variable {ε ν α : Type*} [LinearOrder ε] [LinearOrder α] (start : ε → α) (stop : ε → WithTop α)
  {e : ε × ν}

/-! ## Operations -/

@[simp] def toList : Treap ε ν α → List (ε × ν)
  | nil => []
  | node k v _ _ l r => l.toList ++ (k, v) :: r.toList

def priority : Treap ε ν α → Nat
  | nil => 0
  | node _ _ p _ _ _ => p

/-- The later of a stop and the last stop of a subtree. -/
def lastWith (m : WithTop α) : Treap ε ν α → WithTop α
  | nil => m
  | node _ _ _ m' _ _ => max m m'

/-- A node whose last stop is computed anew. -/
def build (k : ε) (v : ν) (p : Nat) (l r : Treap ε ν α) : Treap ε ν α :=
  node k v p (r.lastWith (l.lastWith (stop k))) l r

def rotateRight : Treap ε ν α → Treap ε ν α
  | node k v p _ (node lk lv lp _ ll lr) r => build stop lk lv lp ll (build stop k v p lr r)
  | t => t

def rotateLeft : Treap ε ν α → Treap ε ν α
  | node k v p _ l (node rk rv rp _ rl rr) => build stop rk rv rp (build stop k v p l rl) rr
  | t => t

/-- Insert a key that is not there yet; `size` counts the nodes. -/
def insertAt (k : ε) (v : ν) (p size : Nat) : Treap ε ν α → Treap ε ν α × Nat
  | nil => (node k v p (stop k) nil nil, size + 1)
  | node k' v' p' m l r =>
    match compare k k' with
    | .eq => (node k' v' p' m l r, size)
    | .lt =>
      let inserted := insertAt k v p size l
      let t := build stop k' v' p' inserted.1 r
      (if p' < inserted.1.priority then rotateRight stop t else t, inserted.2)
    | .gt =>
      let inserted := insertAt k v p size r
      let t := build stop k' v' p' l inserted.1
      (if p' < inserted.1.priority then rotateLeft stop t else t, inserted.2)

def count : Treap ε ν α → Nat
  | nil => 0
  | node _ _ _ _ l r => l.count + r.count + 1

omit [LinearOrder ε] in
@[simp] theorem count_build {k : ε} {v : ν} {p : Nat} {l r : Treap ε ν α} :
    (build stop k v p l r).count = l.count + r.count + 1 := rfl

/-- Remove a key: it is rotated down until one of its subtrees is empty. -/
def removeAt (k : ε) (size : Nat) : Treap ε ν α → Treap ε ν α × Nat
  | nil => (nil, size)
  | node k' v' p' _ l r =>
    match compare k k' with
    | .lt =>
      let removed := removeAt k size l
      (build stop k' v' p' removed.1 r, removed.2)
    | .gt =>
      let removed := removeAt k size r
      (build stop k' v' p' l removed.1, removed.2)
    | .eq =>
      match l, r with
      | nil, r => (r, size - 1)
      | l, nil => (l, size - 1)
      | node lk lv lp lm ll lr, node rk rv rp rm rl rr =>
        if rp < lp then
          let removed := removeAt k size (build stop k' v' p' lr (node rk rv rp rm rl rr))
          (build stop lk lv lp ll removed.1, removed.2)
        else
          let removed := removeAt k size (build stop k' v' p' (node lk lv lp lm ll lr) rl)
          (build stop rk rv rp removed.1 rr, removed.2)
termination_by t => t.count
decreasing_by all_goals simp only [count, count_build]; omega

/-- The values of the keys that overlap a query. Where the subtree stops before the query starts, or
starts after it stops, nothing is looked at. -/
def collectAt (qstart : α) (qstop : WithTop α) : Treap ε ν α → List ν
  | nil => []
  | node k v _ m l r =>
    if m ≤ qstart then []
    else
      collectAt qstart qstop l ++
        (if (start k : WithTop α) < qstop ∧ qstart < stop k then [v] else []) ++
        (if (start k : WithTop α) < qstop then collectAt qstart qstop r else [])

/-! ## Entries -/

/-- The keys go up from left to right. -/
def Sorted (t : Treap ε ν α) : Prop := t.toList.Pairwise fun a b => a.1 < b.1

/-- Every node has the last stop of its subtree. -/
def Augmented : Treap ε ν α → Prop
  | nil => True
  | node k _ _ m l r => m = r.lastWith (l.lastWith (stop k)) ∧ Augmented l ∧ Augmented r

variable {stop} {k k' : ε} {v v' : ν} {p p' size : Nat} {m : WithTop α} {l r t : Treap ε ν α}

omit [LinearOrder ε] in
@[simp] theorem toList_build : (build stop k v p l r).toList = l.toList ++ (k, v) :: r.toList := rfl

omit [LinearOrder ε] in
@[simp] theorem augmented_build :
    Augmented stop (build stop k v p l r) ↔ Augmented stop l ∧ Augmented stop r := by
  simp [build, Augmented]

omit [LinearOrder ε] in
@[simp] theorem toList_rotateRight : (rotateRight stop t).toList = t.toList := by
  unfold rotateRight
  split <;> simp

omit [LinearOrder ε] in
@[simp] theorem toList_rotateLeft : (rotateLeft stop t).toList = t.toList := by
  unfold rotateLeft
  split <;> simp

omit [LinearOrder ε] in
theorem augmented_rotateRight (h : Augmented stop t) : Augmented stop (rotateRight stop t) := by
  unfold rotateRight
  split
  · obtain ⟨-, ⟨-, hll, hlr⟩, hr⟩ := h
    exact augmented_build.2 ⟨hll, augmented_build.2 ⟨hlr, hr⟩⟩
  · exact h

omit [LinearOrder ε] in
theorem augmented_rotateLeft (h : Augmented stop t) : Augmented stop (rotateLeft stop t) := by
  unfold rotateLeft
  split
  · obtain ⟨-, hl, -, hrl, hrr⟩ := h
    exact augmented_build.2 ⟨augmented_build.2 ⟨hl, hrl⟩, hrr⟩
  · exact h

omit [LinearOrder α] in
theorem sorted_node : Sorted (node k v p m l r) ↔ Sorted l ∧ Sorted r ∧
    (∀ e ∈ l.toList, e.1 < k) ∧ ∀ e ∈ r.toList, k < e.1 := by
  rw [Sorted, toList, pairwise_append, pairwise_cons]
  constructor
  · rintro ⟨hl, ⟨hkr, hr⟩, hlr⟩
    exact ⟨hl, hr, fun e he => hlr e he (k, v) (.head _), hkr⟩
  · rintro ⟨hl, hr, hlk, hkr⟩
    refine ⟨hl, ⟨hkr, hr⟩, fun a ha b hb => ?_⟩
    rcases mem_cons.1 hb with rfl | hb
    · exact hlk a ha
    · exact (hlk a ha).trans (hkr b hb)

theorem sorted_build : Sorted (build stop k v p l r) ↔ Sorted l ∧ Sorted r ∧
    (∀ e ∈ l.toList, e.1 < k) ∧ ∀ e ∈ r.toList, k < e.1 := sorted_node

/-! ## Insertion -/

theorem augmented_insertAt (h : Augmented stop t) :
    Augmented stop (insertAt stop k v p size t).1 := by
  induction t with
  | nil => exact ⟨rfl, trivial, trivial⟩
  | node k' v' p' m l r ihl ihr =>
    rw [insertAt]
    cases compare k k' with
    | eq => exact h
    | lt =>
      have hbuilt : Augmented stop (build stop k' v' p' (insertAt stop k v p size l).1 r) :=
        augmented_build.2 ⟨ihl h.2.1, h.2.2⟩
      dsimp only
      split
      · exact augmented_rotateRight hbuilt
      · exact hbuilt
    | gt =>
      have hbuilt : Augmented stop (build stop k' v' p' l (insertAt stop k v p size r).1) :=
        augmented_build.2 ⟨h.2.1, ihr h.2.2⟩
      dsimp only
      split
      · exact augmented_rotateLeft hbuilt
      · exact hbuilt

theorem toList_insertAt_node : (insertAt stop k v p size (node k' v' p' m l r)).1.toList =
    match compare k k' with
    | .eq => l.toList ++ (k', v') :: r.toList
    | .lt => (insertAt stop k v p size l).1.toList ++ (k', v') :: r.toList
    | .gt => l.toList ++ (k', v') :: (insertAt stop k v p size r).1.toList := by
  rw [insertAt]
  cases compare k k' with
  | eq => rfl
  | lt | gt =>
    dsimp only
    split <;> simp

theorem mem_toList_insertAt (h : Sorted t) : e ∈ (insertAt stop k v p size t).1.toList ↔
    e ∈ t.toList ∨ e = (k, v) ∧ ∀ e' ∈ t.toList, e'.1 ≠ k := by
  induction t with
  | nil => simp [insertAt]
  | node k' v' p' m l r ihl ihr =>
    obtain ⟨hl, hr, hlk, hkr⟩ := sorted_node.1 h
    rw [toList_insertAt_node, toList]
    cases hcmp : compare k k' with
    | eq =>
      obtain rfl := compare_eq_iff_eq.1 hcmp
      refine ⟨.inl, fun he => he.elim id ?_⟩
      rintro ⟨-, hnone⟩
      exact absurd rfl (hnone (k, v') (mem_append_right _ (.head _)))
    | lt =>
      have hlt := compare_lt_iff_lt.1 hcmp
      have hright : ∀ e' ∈ (k', v') :: r.toList, e'.1 ≠ k := by
        intro e' he'
        rcases mem_cons.1 he' with rfl | he'
        · exact hlt.ne'
        · exact (hlt.trans (hkr e' he')).ne'
      simp only [mem_append, ihl hl]
      constructor
      · rintro ((he | ⟨rfl, hnone⟩) | he)
        · exact .inl (.inl he)
        · exact .inr ⟨rfl, fun e' he' => he'.elim (hnone e') (hright e')⟩
        · exact .inl (.inr he)
      · rintro ((he | he) | ⟨rfl, hnone⟩)
        · exact .inl (.inl he)
        · exact .inr he
        · exact .inl (.inr ⟨rfl, fun e' he' => hnone e' (.inl he')⟩)
    | gt =>
      have hlt := compare_gt_iff_gt.1 hcmp
      have hleft : ∀ e' ∈ l.toList, e'.1 ≠ k := fun e' he' => ((hlk e' he').trans hlt).ne
      simp only [mem_append, mem_cons, ihr hr]
      constructor
      · rintro (he | he | he | ⟨rfl, hnone⟩)
        · exact .inl (.inl he)
        · exact .inl (.inr (.inl he))
        · exact .inl (.inr (.inr he))
        · refine .inr ⟨rfl, fun e' he' => ?_⟩
          rcases he' with he' | rfl | he'
          · exact hleft e' he'
          · exact hlt.ne
          · exact hnone e' he'
      · rintro ((he | he | he) | ⟨rfl, hnone⟩)
        · exact .inl he
        · exact .inr (.inl he)
        · exact .inr (.inr (.inl he))
        · exact .inr (.inr (.inr ⟨rfl, fun e' he' => hnone e' (.inr (.inr he'))⟩))

theorem sorted_insertAt (h : Sorted t) : Sorted (insertAt stop k v p size t).1 := by
  induction t with
  | nil => simp [insertAt, Sorted]
  | node k' v' p' m l r ihl ihr =>
    obtain ⟨hl, hr, hlk, hkr⟩ := sorted_node.1 h
    rw [Sorted, toList_insertAt_node]
    cases hcmp : compare k k' with
    | eq => exact h
    | lt =>
      refine (sorted_node (p := p') (m := m)).2 ⟨ihl hl, hr, fun e he => ?_, hkr⟩
      rcases (mem_toList_insertAt hl).1 he with he | ⟨rfl, -⟩
      · exact hlk e he
      · exact compare_lt_iff_lt.1 hcmp
    | gt =>
      refine (sorted_node (p := p') (m := m)).2 ⟨hl, ihr hr, hlk, fun e he => ?_⟩
      rcases (mem_toList_insertAt hr).1 he with he | ⟨rfl, -⟩
      · exact hkr e he
      · exact compare_gt_iff_gt.1 hcmp

theorem size_insertAt : (insertAt stop k v p size t).2 + t.toList.length =
    size + (insertAt stop k v p size t).1.toList.length := by
  induction t with
  | nil => simp [insertAt]
  | node k' v' p' m l r ihl ihr =>
    rw [toList_insertAt_node, toList, insertAt]
    cases compare k k' with
    | eq => rfl
    | lt | gt =>
      simp only [length_append, length_cons]
      omega

/-! ## Removal -/

omit [LinearOrder α] in
theorem filter_ne_node (h : Sorted (node k' v p m l r)) :
    (node k' v p m l r).toList.filter (fun e => decide (e.1 ≠ k)) =
      match compare k k' with
      | .eq => l.toList ++ r.toList
      | .lt => l.toList.filter (fun e => decide (e.1 ≠ k)) ++ (k', v) :: r.toList
      | .gt => l.toList ++ (k', v) :: r.toList.filter (fun e => decide (e.1 ≠ k)) := by
  obtain ⟨-, -, hlk, hkr⟩ := sorted_node.1 h
  have hkeep : ∀ {es : List (ε × ν)}, (∀ e ∈ es, e.1 ≠ k) →
      es.filter (fun e => decide (e.1 ≠ k)) = es := fun hne =>
    filter_eq_self.2 fun e he => decide_eq_true (hne e he)
  rw [toList, filter_append]
  cases hcmp : compare k k' with
  | eq =>
    obtain rfl := compare_eq_iff_eq.1 hcmp
    rw [filter_cons_of_neg (by simp), hkeep fun e he => (hlk e he).ne,
      hkeep fun e he => (hkr e he).ne']
  | lt =>
    have hlt := compare_lt_iff_lt.1 hcmp
    rw [filter_cons_of_pos (by simpa using hlt.ne'), hkeep fun e he => (hlt.trans (hkr e he)).ne']
  | gt =>
    have hlt := compare_gt_iff_gt.1 hcmp
    rw [filter_cons_of_pos (by simpa using hlt.ne), hkeep fun e he => ((hlk e he).trans hlt).ne]

theorem toList_removeAt (h : Sorted t) :
    (removeAt stop k size t).1.toList = t.toList.filter fun e => decide (e.1 ≠ k) := by
  fun_induction removeAt stop k size t with
  | case1 => rfl
  | case2 k' v' p' m l r hcmp removed ih =>
    rw [filter_ne_node h, hcmp, toList_build, ih (sorted_node.1 h).1]
  | case3 k' v' p' m l r hcmp removed ih =>
    rw [filter_ne_node h, hcmp, toList_build, ih (sorted_node.1 h).2.1]
  | case4 k' v' p' m hcmp r =>
    rw [filter_ne_node h, hcmp]
    rfl
  | case5 k' v' p' m hcmp l hnil =>
    rw [filter_ne_node h, hcmp, toList, append_nil]
  | case6 k' v' p' m hcmp lk lv lp lm ll lr rk rv rp rm rl rr hlt removed ih =>
    -- the rotated tree has the same entries, and the key is right of its root
    have hrotated : Sorted (build stop lk lv lp ll
      (build stop k' v' p' lr (node rk rv rp rm rl rr))) := by
      simpa [Sorted] using h
    have hright := (sorted_build.1 hrotated).2.2.2 (k', v') (by simp)
    have hgt : compare k lk = .gt := compare_gt_iff_gt.2 (compare_eq_iff_eq.1 hcmp ▸ hright)
    have hfilter := filter_ne_node (k := k) hrotated
    simp only [hgt] at hfilter
    rw [toList_build, ih (sorted_build.1 hrotated).2.1, ← hfilter]
    simp
  | case7 k' v' p' m hcmp lk lv lp lm ll lr rk rv rp rm rl rr hlt removed ih =>
    have hrotated : Sorted
      (build stop rk rv rp (build stop k' v' p' (node lk lv lp lm ll lr) rl) rr) := by
      simpa [Sorted] using h
    have hleft := (sorted_build.1 hrotated).2.2.1 (k', v') (by simp)
    have hlt : compare k rk = .lt := compare_lt_iff_lt.2 (compare_eq_iff_eq.1 hcmp ▸ hleft)
    have hfilter := filter_ne_node (k := k) hrotated
    simp only [hlt] at hfilter
    rw [toList_build, ih (sorted_build.1 hrotated).1, ← hfilter]
    simp

theorem sorted_removeAt (h : Sorted t) : Sorted (removeAt stop k size t).1 := by
  rw [Sorted, toList_removeAt h]
  exact List.Pairwise.filter _ h

theorem augmented_removeAt (h : Augmented stop t) : Augmented stop (removeAt stop k size t).1 := by
  fun_induction removeAt stop k size t with
  | case1 => trivial
  | case2 k' v' p' m l r hcmp removed ih => exact augmented_build.2 ⟨ih h.2.1, h.2.2⟩
  | case3 k' v' p' m l r hcmp removed ih => exact augmented_build.2 ⟨h.2.1, ih h.2.2⟩
  | case4 k' v' p' m hcmp r => exact h.2.2
  | case5 k' v' p' m hcmp l hnil => exact h.2.1
  | case6 k' v' p' m hcmp lk lv lp lm ll lr rk rv rp rm rl rr hlt removed ih =>
    obtain ⟨-, ⟨-, hll, hlr⟩, hr⟩ := h
    exact augmented_build.2 ⟨hll, ih (augmented_build.2 ⟨hlr, hr⟩)⟩
  | case7 k' v' p' m hcmp lk lv lp lm ll lr rk rv rp rm rl rr hlt removed ih =>
    obtain ⟨-, hl, -, hrl, hrr⟩ := h
    exact augmented_build.2 ⟨ih (augmented_build.2 ⟨hl, hrl⟩), hrr⟩

theorem size_removeAt (h : t.toList.length ≤ size) : (removeAt stop k size t).2 + t.toList.length =
    size + (removeAt stop k size t).1.toList.length := by
  fun_induction removeAt stop k size t with
  | case1 => simp
  | case2 k' v' p' m l r hcmp removed ih | case3 k' v' p' m l r hcmp removed ih =>
    simp only [toList, toList_build, length_append, length_cons, removed] at h ⊢
    omega
  | case4 k' v' p' m hcmp r =>
    simp only [toList, nil_append, length_cons] at h ⊢
    omega
  | case5 k' v' p' m hcmp l hnil =>
    simp only [toList, length_append, length_singleton] at h ⊢
    omega
  | case6 k' v' p' m hcmp lk lv lp lm ll lr rk rv rp rm rl rr hlt removed ih
  | case7 k' v' p' m hcmp lk lv lp lm ll lr rk rv rp rm rl rr hlt removed ih =>
    simp only [toList, toList_build, length_append, length_cons, removed] at h ih ⊢
    omega

/-! ## Queries -/

omit [LinearOrder ε] in
theorem le_lastWith : m ≤ t.lastWith m := by
  cases t with
  | nil => exact le_rfl
  | node => exact le_max_left _ _

omit [LinearOrder ε] in
theorem stop_le_lastWith (h : Augmented stop t) (he : e ∈ t.toList) : stop e.1 ≤ t.lastWith m := by
  induction t generalizing m with
  | nil => cases he
  | node k v p m' l r ihl ihr =>
    obtain ⟨rfl, hl, hr⟩ := h
    refine le_trans ?_ (le_max_right _ _)
    rcases mem_append.1 he with he | he
    · exact (ihl hl he).trans le_lastWith
    · rcases mem_cons.1 he with rfl | he
      · exact le_lastWith.trans le_lastWith
      · exact ihr hr he

omit [LinearOrder ε] in
theorem stop_le_last (h : Augmented stop (node k v p m l r))
    (he : e ∈ (node k v p m l r).toList) : stop e.1 ≤ m := by
  simpa [lastWith] using stop_le_lastWith (m := m) h he

variable {start}

/-- A query returns what overlaps it, from left to right. -/
theorem collectAt_eq (hstart : Monotone start) {qstart : α} {qstop : WithTop α} (hs : Sorted t)
    (ha : Augmented stop t) : collectAt start stop qstart qstop t = (t.toList.filter fun e =>
      decide ((start e.1 : WithTop α) < qstop ∧ qstart < stop e.1)).map Prod.snd := by
  induction t with
  | nil => rfl
  | node k v p m l r ihl ihr =>
    obtain ⟨hl, hr, -, hkr⟩ := sorted_node.1 hs
    rw [collectAt]
    split
    · rename_i hlast
      rw [filter_eq_nil_iff.2, map_nil]
      intro e he
      have hle := (stop_le_last ha he).trans hlast
      simpa using fun _ => hle
    · rw [ihl hl ha.2.1, ihr hr ha.2.2, toList, filter_append, map_append, append_assoc]
      by_cases hk : (start k : WithTop α) < qstop
      · by_cases hov : (qstart : WithTop α) < stop k
        · simp [hk, hov]
        · simp [hk, hov]
      · -- what is right of the root starts no earlier
        have hnone : r.toList.filter (fun e =>
            decide ((start e.1 : WithTop α) < qstop ∧ qstart < stop e.1)) = [] := by
          refine filter_eq_nil_iff.2 fun e he => ?_
          have hle : (start k : WithTop α) ≤ start e.1 :=
            WithTop.coe_le_coe.2 (hstart (hkr e he).le)
          simpa using fun hlt => absurd (hle.trans_lt hlt) hk
        rw [if_neg hk, if_neg fun h => hk h.1, filter_cons_of_neg (by simp [hk]), hnone]
        rfl

end Treap

/-! ## Trees with their invariants -/

/-- A treap that is a search tree, has its last stops right and knows how many nodes it has. -/
structure IntervalTreap {ε α : Type*} [LinearOrder ε] [LinearOrder α] (ν : Type*)
    (stop : ε → WithTop α) where
  root : Treap ε ν α
  size : Nat
  sorted : root.Sorted
  augmented : root.Augmented stop
  size_eq : size = root.toList.length

namespace IntervalTreap

open Treap

variable {ε α ν : Type*} [LinearOrder ε] [LinearOrder α] {stop : ε → WithTop α} {start : ε → α}

def empty : IntervalTreap ν stop := ⟨.nil, 0, List.Pairwise.nil, trivial, rfl⟩

def insert (t : IntervalTreap ν stop) (k : ε) (v : ν) (priority : Nat) : IntervalTreap ν stop where
  root := (t.root.insertAt stop k v priority t.size).1
  size := (t.root.insertAt stop k v priority t.size).2
  sorted := sorted_insertAt t.sorted
  augmented := augmented_insertAt t.augmented
  size_eq := by
    have hinsert : (t.root.insertAt stop k v priority t.size).2 + t.root.toList.length =
      t.size + (t.root.insertAt stop k v priority t.size).1.toList.length := size_insertAt
    have := t.size_eq
    omega

def remove (t : IntervalTreap ν stop) (k : ε) : IntervalTreap ν stop where
  root := (t.root.removeAt stop k t.size).1
  size := (t.root.removeAt stop k t.size).2
  sorted := sorted_removeAt t.sorted
  augmented := augmented_removeAt t.augmented
  size_eq := by
    have hremove : (t.root.removeAt stop k t.size).2 + t.root.toList.length =
      t.size + (t.root.removeAt stop k t.size).1.toList.length := size_removeAt t.size_eq.ge
    have := t.size_eq
    omega

def collect (start : ε → α) (t : IntervalTreap ν stop) (qstart : α) (qstop : WithTop α) : List ν :=
  t.root.collectAt start stop qstart qstop

def entries (t : IntervalTreap ν stop) : List (ε × ν) := t.root.toList

variable {t : IntervalTreap ν stop} {k : ε} {v : ν} {e : ε × ν} {priority : Nat}

@[simp] theorem entries_empty : (empty : IntervalTreap ν stop).entries = [] := rfl

theorem mem_entries_insert : e ∈ (t.insert k v priority).entries ↔
    e ∈ t.entries ∨ e = (k, v) ∧ ∀ e' ∈ t.entries, e'.1 ≠ k :=
  mem_toList_insertAt t.sorted

theorem entries_remove : (t.remove k).entries = t.entries.filter fun e => decide (e.1 ≠ k) :=
  toList_removeAt t.sorted

theorem mem_entries_remove : e ∈ (t.remove k).entries ↔ e ∈ t.entries ∧ e.1 ≠ k := by
  rw [entries_remove, mem_filter, decide_eq_true_eq]

theorem mem_collect (hstart : Monotone start) {qstart : α} {qstop : WithTop α} :
    v ∈ t.collect start qstart qstop ↔
      ∃ k, (k, v) ∈ t.entries ∧ (start k : WithTop α) < qstop ∧ qstart < stop k := by
  rw [collect, collectAt_eq hstart t.sorted t.augmented]
  simp only [mem_map, mem_filter, decide_eq_true_eq]
  constructor
  · rintro ⟨⟨k, v⟩, ⟨hmem, hov⟩, rfl⟩
    exact ⟨k, hmem, hov⟩
  · rintro ⟨k, hmem, hov⟩
    exact ⟨(k, v), ⟨hmem, hov⟩, rfl⟩

theorem entries_of_size (h : t.size = 0) : t.entries = [] :=
  eq_nil_of_length_eq_zero (t.size_eq.symm.trans h)

end IntervalTreap

end Helipod
