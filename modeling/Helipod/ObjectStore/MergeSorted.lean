import Helipod.QueryEngine.QueryRuntime

/-!
# Merging the scans of the lanes

Model of `mergeSortedAsyncGenerators` (`objectstore-substrate/src/merge-sorted.ts`). A cursor is
what its source still has to yield: its head is `current`, and the source is done when nothing is
left. Of `keyCompare` only the sign is looked at.

Result: `mergeSorted_eq_take`.
-/

namespace Helipod

open List

variable {T : Type} {cursors : List (List T)}

/-- Whether a head is yielded before the best one so far. -/
def ScanOrder.isBetter (order : ScanOrder) (keyCompare : T → T → Ordering) (a b : T) : Bool :=
  keyCompare a b = match order with
    | .asc => .lt
    | .desc => .gt

/-- The scan for the next head, from cursor `i` on, with the best one so far. -/
def bestIdx (isBetter : T → T → Bool) : List (List T) → Nat → Option (Nat × T) → Option (Nat × T)
  | [], _, best => best
  | [] :: cursors, i, best => bestIdx isBetter cursors (i + 1) best
  | (x :: _) :: cursors, i, none => bestIdx isBetter cursors (i + 1) (some (i, x))
  | (x :: _) :: cursors, i, some (j, y) =>
    bestIdx isBetter cursors (i + 1) (if isBetter x y then some (i, x) else some (j, y))

/-- At most `n` rounds, of which each yields one item. -/
def mergeRounds (isBetter : T → T → Bool) : Nat → List (List T) → List T
  | 0, _ => []
  | n + 1, cursors =>
    match bestIdx isBetter cursors 0 none with
    | none => []
    | some (i, x) => x :: mergeRounds isBetter n (cursors.modify i tail)

/-- Without a limit there are as many rounds as items. -/
def mergeSorted (sources : List (List T)) (keyCompare : T → T → Ordering) (order : ScanOrder)
    (limit : Option Nat) : List T :=
  mergeRounds (order.isBetter keyCompare) (limit.getD sources.flatten.length) sources

section

variable {le : T → T → Prop} {isBetter : T → T → Bool} {x : T}

/-- The first head that no head is before. -/
def IsBest (le : T → T → Prop) (cursors : List (List T)) : Option (Nat × T) → Prop
  | none => ∀ c ∈ cursors, c = []
  | some (i, x) => ∃ front rest back, cursors = front ++ (x :: rest) :: back ∧ front.length = i ∧
      (∀ c ∈ front, ∀ y ∈ c.head?, ¬ le y x) ∧ ∀ c ∈ back, ∀ y ∈ c.head?, le x y

variable [DecidableRel le] [IsTrans T le] [Std.Total le]
  (hbetter : ∀ a b, isBetter a b = true ↔ ¬ le b a)
include hbetter

theorem isBest_bestIdx {best : Option (Nat × T)} {seen : List (List T)} {i : Nat}
    (h : IsBest le seen best)
    (hi : i = seen.length) : IsBest le (seen ++ cursors) (bestIdx isBetter cursors i best) := by
  fun_induction bestIdx isBetter cursors i best generalizing seen with
  | case1 i best => rwa [append_nil]
  | case2 cursors i best ih =>
    rw [append_cons]
    refine ih ?_ (by simp [hi])
    match best, h with
    | none, h => simpa [IsBest, or_imp, forall_and] using h
    | some (i, y), ⟨front, rest, back, hs, hi, hfront, hback⟩ =>
      exact ⟨front, rest, back ++ [[]], by simp [hs], hi, hfront, by grind⟩
  | case3 x rest cursors i ih =>
    rw [append_cons]
    exact ih ⟨seen, rest, [], rfl, hi.symm, fun c hc => by simp [h c hc], by simp⟩ (by simp [hi])
  | case4 x rest cursors i j y ih =>
    obtain ⟨front, rest', back, hs, hj, hfront, hback⟩ := h
    rw [append_cons]
    refine ih ?_ (by simp [hi])
    by_cases hle : le y x
    · rw [if_neg (mt (hbetter x y).1 (not_not.2 hle))]
      exact ⟨front, rest', back ++ [x :: rest], by simp [hs], hj, hfront, by grind⟩
    · rw [if_pos ((hbetter x y).2 hle)]
      have hxy : le x y := (Std.Total.total x y).resolve_right hle
      refine ⟨seen, rest, [], rfl, hi.symm, fun c hc z hz hzx => ?_, by simp⟩
      have hzy := trans_of le hzx hxy
      have hyz : le y z → False := fun h => hle (trans_of le h hzx)
      grind

omit [IsTrans T le] [Std.Total le] hbetter in
theorem insertionSort_first {front back : List T} (hfront : ∀ y ∈ front, ¬ le y x)
    (hback : ∀ y ∈ back, le x y) :
    (front ++ x :: back).insertionSort le = x :: (front ++ back).insertionSort le := by
  induction front with
  | nil =>
    cases hsort : back.insertionSort le with
    | nil => simp [hsort]
    | cons y ys =>
      have hy : y ∈ back := (mem_insertionSort le).1 (hsort ▸ mem_cons_self)
      simp [hsort, hback y hy]
  | cons z front ih =>
    obtain ⟨hz, hfront⟩ := forall_mem_cons.1 hfront
    simp [ih hfront, hz]

theorem mergeRounds_eq_take {n : Nat} (hsorted : ∀ c ∈ cursors, c.Pairwise le) :
    mergeRounds isBetter n cursors = (cursors.flatten.insertionSort le).take n := by
  induction n generalizing cursors with
  | zero => rfl
  | succ n ih =>
    have hbest : IsBest le cursors (bestIdx isBetter cursors 0 none) :=
      isBest_bestIdx hbetter (show IsBest le [] none by simp [IsBest]) rfl
    rw [mergeRounds]
    cases hidx : bestIdx isBetter cursors 0 none with
    | none =>
      rw [hidx] at hbest
      rw [flatten_eq_nil_iff.2 hbest]
      rfl
    | some best =>
      rw [hidx] at hbest
      obtain ⟨front, rest, back, rfl, hi, hfront, hback⟩ := hbest
      -- no item of a cursor is before its head
      have hhead : ∀ c ∈ front ++ (best.2 :: rest) :: back, ∀ y ∈ c, ∃ z ∈ c.head?, le z y := by
        intro c hc y hy
        obtain ⟨z, zs, rfl⟩ := exists_cons_of_ne_nil (ne_nil_of_mem hy)
        rcases mem_cons.1 hy with rfl | hy
        · exact ⟨y, rfl, refl_of le y⟩
        · exact ⟨z, rfl, rel_of_pairwise_cons (hsorted _ hc) hy⟩
      have hmodify : (front ++ (best.2 :: rest) :: back).modify best.1 tail = front ++
        rest :: back := by
        simp [modify_eq_take_drop, ← hi]
      dsimp only
      rw [hmodify, ih, flatten_append, flatten_cons, flatten_append, flatten_cons, cons_append,
        insertionSort_first, take_succ_cons]
      · intro y hy hyx
        obtain ⟨c, hc, hy⟩ := mem_flatten.1 hy
        obtain ⟨z, hz, hzy⟩ := hhead c (mem_append_left _ hc) y hy
        exact hfront c hc z hz (trans_of le hzy hyx)
      · intro y hy
        rcases mem_append.1 hy with hy | hy
        · exact rel_of_pairwise_cons (hsorted _ (by simp)) hy
        · obtain ⟨c, hc, hy⟩ := mem_flatten.1 hy
          obtain ⟨z, hz, hzy⟩ := hhead c (by simp [hc]) y hy
          exact trans_of le (hback c hc z hz) hzy
      · have := (hsorted (best.2 :: rest) (by simp)).of_cons
        grind

end

/-! ## Sources that stop early -/

section

variable {isBetter : T → T → Bool}

theorem bestIdx_map_take {n i : Nat} {best : Option (Nat × T)} :
    bestIdx isBetter (cursors.map (take (n + 1))) i best = bestIdx isBetter cursors i best := by
  fun_induction bestIdx isBetter cursors i best with
  | case1 => rfl
  | case2 _ _ _ ih | case3 _ _ _ _ ih | case4 _ _ _ _ _ _ ih => exact ih

theorem mergeRounds_map_take {n : Nat} :
    mergeRounds isBetter n (cursors.map (take n)) = mergeRounds isBetter n cursors := by
  induction n generalizing cursors with
  | zero => rfl
  | succ n ih =>
    rw [mergeRounds, mergeRounds, bestIdx_map_take]
    split
    · rfl
    · rename_i i x _
      rw [← ih, ← @ih (cursors.modify i tail)]
      congr 2
      ext j : 1
      rw [getElem?_map, getElem?_map, getElem?_modify, getElem?_modify, getElem?_map]
      cases cursors[j]? with
      | none => rfl
      | some c =>
        by_cases hj : i = j
        · cases c <;> simp [hj, take_take]
        · simp [hj, take_take]

end

/-- The order in which a scan yields. -/
def ScanOrder.sortedBy (order : ScanOrder) (keyCompare : T → T → Ordering) (a b : T) : Prop :=
  order.isBetter keyCompare b a = false

instance (order : ScanOrder) (keyCompare : T → T → Ordering) :
    DecidableRel (order.sortedBy keyCompare) :=
  fun _ _ => inferInstanceAs (Decidable (_ = false))

/-- The merge of sorted sources yields the first items of a stable sort of all of them, and the same
when each source stops after as many items or later. -/
theorem mergeSorted_eq_take {keyCompare : T → T → Ordering} [Std.TransCmp keyCompare]
    {order : ScanOrder}
    {sources : List (List T)} (hsorted : ∀ s ∈ sources, s.Pairwise (order.sortedBy keyCompare)) :
    let all := sources.flatten.insertionSort (order.sortedBy keyCompare)
    mergeSorted sources keyCompare order none = all ∧
      ∀ n, mergeSorted sources keyCompare order (some n) = all.take n ∧
        ∀ m, n ≤ m → mergeSorted (sources.map (take m)) keyCompare order (some n) = all.take n := by
  intro all
  have hasc : ∀ {a b}, ScanOrder.asc.sortedBy keyCompare a b ↔ (keyCompare a b).isLE = true := by
    simp [ScanOrder.sortedBy, ScanOrder.isBetter, Ordering.isLE_iff_ne_gt,
      Std.OrientedCmp.gt_iff_lt]
  have hdesc : ∀ {a b}, ScanOrder.desc.sortedBy keyCompare a b ↔ (keyCompare b a).isLE = true := by
    simp [ScanOrder.sortedBy, ScanOrder.isBetter, Ordering.isLE_iff_ne_gt]
  have : IsTrans T (order.sortedBy keyCompare) := ⟨fun a b c hab hbc => by
    cases order with
    | asc => exact hasc.2 (Std.TransCmp.isLE_trans (hasc.1 hab) (hasc.1 hbc))
    | desc => exact hdesc.2 (Std.TransCmp.isLE_trans (hdesc.1 hbc) (hdesc.1 hab))⟩
  have : Std.Total (order.sortedBy keyCompare) := ⟨fun a b => by
    have h := @Std.OrientedCmp.eq_swap _ keyCompare _ a b
    cases order <;> cases hb : keyCompare b a <;> simp_all⟩
  have hrounds : ∀ n, mergeRounds (order.isBetter keyCompare) n sources = all.take n := fun n =>
    mergeRounds_eq_take (fun a b => by simp [ScanOrder.sortedBy]) hsorted
  refine ⟨(hrounds _).trans (take_of_length_le (length_insertionSort ..).le), fun n =>
    ⟨hrounds n, ?_⟩⟩
  intro m hm
  have htake : (sources.map (take m)).map (take n) = sources.map (take n) := by simp [take_take, hm]
  rw [mergeSorted, Option.getD_some, ← mergeRounds_map_take, htake, mergeRounds_map_take, hrounds]

/-- Two lanes with a key in common, and a limit. -/
theorem mergeSorted_eq_take_lanes :
    mergeSorted [[(1, "a"), (3, "a")], [(1, "b"), (2, "b")]] (compareOn Prod.fst) .asc (some 3) =
      [(1, "a"), (1, "b"), (2, "b")] := by
  have hsorted : ∀ s ∈ [[(1, "a"), (3, "a")], [(1, "b"), (2, "b")]],
      s.Pairwise (ScanOrder.asc.sortedBy (compareOn Prod.fst)) := by decide
  exact ((mergeSorted_eq_take hsorted).2 3).1.trans (by decide)

end Helipod
