import Mathlib.Data.List.Sort
import Mathlib.Data.Int.Order.Basic

/-!
# Windows of a sorted list

The entries of a list whose key lies between two bounds, and what cutting a
sorted list after a number of entries says about them.

Results:
* `filter_lt_take`, `eq_filter_append`
* `window_append`: adjacent windows of a sorted list follow each other.
-/

namespace Windows

open List

variable {α : Type*} {f : α → Int} {l : List α} {lo mid hi : Int} {x : α}

/-- The list is sorted by the key. -/
def SortedBy (f : α → Int) (l : List α) : Prop := l.Pairwise fun a b => f a ≤ f b

/-- The entries with key above `lo` and at most `hi`. -/
def window (f : α → Int) (lo hi : Int) (l : List α) : List α :=
  l.filter fun x => lo < f x ∧ f x ≤ hi

theorem mem_window : x ∈ window f lo hi l ↔ x ∈ l ∧ lo < f x ∧ f x ≤ hi := by
  rw [window, mem_filter, decide_eq_true_eq]

theorem window_cons : window f lo hi (x :: l) =
    if lo < f x ∧ f x ≤ hi then x :: window f lo hi l else window f lo hi l := by
  simp [window, filter_cons]

theorem window_eq_nil (h : hi ≤ lo) : window f lo hi l = [] := by
  refine filter_eq_nil_iff.2 fun x _ hx => ?_
  have := of_decide_eq_true hx
  omega

theorem SortedBy.window (h : SortedBy f l) : SortedBy f (window f lo hi l) := h.filter _

theorem window_append (h : SortedBy f l) (hlo : lo ≤ mid) (hhi : mid ≤ hi) :
    window f lo hi l = window f lo mid l ++ window f mid hi l := by
  induction l with
  | nil => rfl
  | cons x l ih =>
    obtain ⟨hx, hl⟩ := pairwise_cons.1 h
    by_cases hmid : f x ≤ mid
    · have hskip : ¬ (mid < f x ∧ f x ≤ hi) := by omega
      have hsame : (lo < f x ∧ f x ≤ hi) ↔ (lo < f x ∧ f x ≤ mid) := by omega
      rw [window_cons, window_cons, window_cons, if_neg hskip, ih hl]
      by_cases hin : lo < f x ∧ f x ≤ mid
      · rw [if_pos (hsame.2 hin), if_pos hin]
        rfl
      · rw [if_neg fun h => hin (hsame.1 h), if_neg hin]
    · -- from here on every key is above the middle
      have hnil : window f lo mid (x :: l) = [] := by
        refine filter_eq_nil_iff.2 fun y hy hin => ?_
        have hin := of_decide_eq_true hin
        rcases mem_cons.1 hy with rfl | hy
        · exact hmid hin.2
        · exact hmid ((hx y hy).trans hin.2)
      rw [hnil, nil_append]
      refine filter_congr fun y hy => ?_
      have : mid < f y := by
        rcases mem_cons.1 hy with rfl | hy
        · omega
        · have := hx y hy
          omega
      have hiff : (lo < f y ∧ f y ≤ hi) ↔ (mid < f y ∧ f y ≤ hi) := by omega
      simp [hiff]

/-- Below the key of the last entry, a cut list has everything. -/
theorem filter_lt_take (h : SortedBy f l) {n : Nat} (hx : (l.take n).getLast? = some x) :
    (l.take n).filter (fun y => f y < f x) = l.filter fun y => f y < f x := by
  have hmem : x ∈ l.take n := mem_of_getLast? hx
  have hsplit : (l.take n ++ l.drop n).Pairwise fun a b => f a ≤ f b := by
    rw [take_append_drop]
    exact h
  have hnil : (l.drop n).filter (fun y => f y < f x) = [] := by
    refine filter_eq_nil_iff.2 fun y hy hlt => ?_
    have := (pairwise_append.1 hsplit).2.2 x hmem y hy
    have := of_decide_eq_true hlt
    omega
  conv_rhs => rw [← take_append_drop n l, filter_append, hnil, append_nil]

theorem filter_lt_window {x : Int} (hx : x ≤ hi) :
    (window f lo hi l).filter (fun y => f y < x) = window f lo (x - 1) l := by
  rw [window, filter_filter, window]
  refine filter_congr fun y _ => ?_
  rw [Bool.eq_iff_iff, Bool.and_eq_true, decide_eq_true_eq, decide_eq_true_eq, decide_eq_true_eq]
  omega

/-- A property that goes down the order of a sorted list holds of a first part of it. -/
theorem eq_filter_append {R : α → α → Prop} {p : α → Bool} (h : l.Pairwise R)
    (hdown : ∀ a ∈ l, ∀ b ∈ l, R a b → p b = true → p a = true) :
    l = l.filter p ++ l.filter fun x => !p x := by
  induction l with
  | nil => rfl
  | cons x l ih =>
    obtain ⟨hx, hl⟩ := pairwise_cons.1 h
    cases hp : p x with
    | true =>
      have hrest := ih hl fun a ha b hb => hdown a (.tail x ha) b (.tail x hb)
      simpa [hp] using hrest
    | false =>
      have hnone : ∀ b ∈ l, p b = false := fun b hb => by
        by_contra hb'
        have := hdown x (.head l) b (.tail x hb) (hx b hb) (by simpa using hb')
        simp [hp] at this
      rw [filter_cons_of_neg (by simp [hp]), filter_cons_of_pos (by simp [hp]),
        filter_eq_nil_iff.2 fun b hb => by simp [hnone b hb],
          filter_eq_self.2 fun b hb => by simp [hnone b hb]]
      rfl

end Windows
