import Mathlib.Data.List.Basic

/-!
# Versioned values

The revisions of one key, each with its timestamp, in any order. A read at a
bound takes the revision with the greatest timestamp at or below the bound.
-/

namespace Versioned

variable {α : Type*}

/-- The revision with the greatest timestamp; the first such one on a tie. -/
def newest : List (Nat × α) → Option (Nat × α)
  | [] => none
  | x :: xs =>
    match newest xs with
    | none => some x
    | some y => if x.1 < y.1 then some y else some x

/-- The revisions at or below `bound`; no bound keeps all. -/
def upTo (bound : Option Nat) (xs : List (Nat × α)) : List (Nat × α) :=
  xs.filter fun x => bound.all fun b => x.1 ≤ b

/-- What a read at `bound` sees. -/
def readAt (bound : Option Nat) (xs : List (Nat × α)) : Option (Nat × α) := newest (upTo bound xs)

variable {x : Nat × α} {xs ys : List (Nat × α)} {b : Option Nat}

@[simp] theorem newest_nil : newest ([] : List (Nat × α)) = none := rfl

theorem newest_eq_none : newest xs = none ↔ xs = [] := by
  cases xs with
  | nil => simp
  | cons x xs =>
    simp only [newest]
    cases newest xs with
    | none => simp
    | some y => dsimp only; split <;> simp

theorem newest_mem (h : newest xs = some x) : x ∈ xs := by
  induction xs with
  | nil => simp at h
  | cons y ys ih =>
    rw [newest] at h
    cases hn : newest ys with
    | none =>
      rw [hn] at h
      cases h
      exact List.mem_cons_self
    | some z =>
      rw [hn] at h
      dsimp only at h
      split at h
      · cases h
        exact List.mem_cons_of_mem _ (ih hn)
      · cases h
        exact List.mem_cons_self

theorem le_newest (h : newest xs = some x) {y : Nat × α} (hy : y ∈ xs) : y.1 ≤ x.1 := by
  induction xs generalizing x y with
  | nil => simp at hy
  | cons z zs ih =>
    rw [newest] at h
    cases hn : newest zs with
    | none =>
      rw [hn] at h
      cases h
      rw [newest_eq_none.1 hn] at hy
      obtain rfl := List.mem_singleton.1 hy
      exact Nat.le_refl _
    | some w =>
      rw [hn] at h
      dsimp only at h
      have htail : ∀ {v}, v ∈ zs → v.1 ≤ w.1 := fun hv => ih hn hv
      split at h <;> cases h <;> rcases List.mem_cons.1 hy with rfl | hy
      · omega
      · exact htail hy
      · exact Nat.le_refl _
      · have := htail hy
        omega

theorem mem_upTo : x ∈ upTo b xs ↔ x ∈ xs ∧ ∀ n, b = some n → x.1 ≤ n := by
  simp only [upTo]
  cases b <;> simp

theorem readAt_mem (h : readAt b xs = some x) : x ∈ xs := (mem_upTo.1 (newest_mem h)).1

theorem newest_eq_some (hinj : ∀ y ∈ xs, ∀ z ∈ xs, y.1 = z.1 → y = z) (hx : x ∈ xs)
    (hmax : ∀ y ∈ xs, y.1 ≤ x.1) : newest xs = some x := by
  cases hn : newest xs with
  | none =>
    rw [newest_eq_none.1 hn] at hx
    simp at hx
  | some y =>
    have hy := newest_mem hn
    have heq : y.1 = x.1 := Nat.le_antisymm (hmax y hy) (le_newest hn hx)
    rw [hinj y hy x hx heq]

theorem upTo_append : upTo b (xs ++ ys) = upTo b xs ++ upTo b ys := List.filter_append ..

end Versioned
