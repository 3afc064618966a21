import Mathlib.Data.List.Forall2

/-!
# Computations that succeed

What a result of `Except.map`, `Except.bind` or `List.mapM` says about the parts.
-/

namespace List

theorem mapM_eq_pure {m : Type → Type} [Monad m] [LawfulMonad m] {α β : Type}
    {f : α → m β} {g : α → β}
    {xs : List α} (h : ∀ x ∈ xs, f x = pure (g x)) : xs.mapM f = pure (xs.map g) := by
  induction xs with
  | nil => simp
  | cons x xs ih => simp [h x mem_cons_self, ih fun y hy => h y (mem_cons_of_mem _ hy)]

end List

namespace Except

variable {ε δ α β : Type} {x : Except ε α}

instance decidableExistsOk {p : α → Prop} [DecidablePred p] : Decidable (∃ a, x = .ok a ∧ p a) :=
  match x with
  | .ok a => decidable_of_iff (p a) (by simp)
  | .error _ => isFalse (by simp)

theorem map_eq_ok {f : α → β} {b : β} : x.map f = .ok b ↔ ∃ a, x = .ok a ∧ f a = b := by
  cases x with
  | error e | ok a => simp [Except.map]

theorem mapError_eq_ok {f : ε → δ} {a : α} : x.mapError f = .ok a ↔ x = .ok a := by
  cases x with
  | error e | ok a => simp [Except.mapError]

theorem bind_eq_ok {f : α → Except ε β} {b : β} :
    x.bind f = .ok b ↔ ∃ a, x = .ok a ∧ f a = .ok b := by
  cases x with
  | error e | ok a => simp [Except.bind]

theorem forall₂_of_mapM_eq_ok {f : α → Except ε β} {xs : List α} {ys : List β}
    (h : xs.mapM f = .ok ys) : List.Forall₂ (fun x y => f x = .ok y) xs ys := by
  induction xs generalizing ys with
  | nil =>
    cases h
    exact .nil
  | cons x xs ih =>
    rw [List.mapM_cons] at h
    obtain ⟨y, hx, h⟩ := bind_eq_ok.1 h
    obtain ⟨rest, hrest, h⟩ := bind_eq_ok.1 h
    cases h
    exact .cons hx (ih hrest)

end Except
