import Helipod.Lib.OrderedMap

/-!
# Tables with index lookups

Rows under document ids, in the order of their creation. A lookup by an index is a lookup of the
rows with a property, and code that takes the first row of the answer takes the oldest one.
-/

namespace OrderedMap

variable {α β : Type*} [DecidableEq α] (m : OrderedMap α β) {p : β → Bool} {a : α} {b : β}

/-- The first row of `query(..).eq(..).collect()`. -/
def first (m : OrderedMap α β) (p : β → Bool) : Option (α × β) := m.entries.find? fun row => p row.2

/-- Delete every row of `query(..).eq(..).collect()`. -/
def deleteWhere (m : OrderedMap α β) (p : β → Bool) : OrderedMap α β :=
  m.filterMap fun _ b => if p b then none else some b

theorem get?_of_first (h : m.first p = some (a, b)) : m.get? a = some b ∧ p b = true := by
  have hp := List.find?_some (p := fun row : α × β => p row.2) h
  exact ⟨(m.get?_eq_some_iff).2 (List.mem_of_find?_eq_some h), hp⟩

theorem first_eq_none : m.first p = none ↔ ∀ a b, m.get? a = some b → p b = false := by
  rw [first, List.find?_eq_none]
  constructor
  · intro h a b hb
    exact Bool.eq_false_iff.2 (h (a, b) ((m.get?_eq_some_iff).1 hb))
  · rintro h ⟨a, b⟩ hb
    exact Bool.eq_false_iff.1 (h a b ((m.get?_eq_some_iff).2 hb))

theorem exists_first (h : m.get? a = some b) (hp : p b = true) : ∃ row, m.first p = some row := by
  refine Option.ne_none_iff_exists'.1 fun hnone => ?_
  rw [(m.first_eq_none).1 hnone a b h] at hp
  cases hp

theorem get?_deleteWhere : (m.deleteWhere p).get? a = some b ↔ m.get? a = some b ∧ p b = false := by
  rw [deleteWhere, get?_filterMap, Option.bind_eq_some_iff]
  constructor
  · rintro ⟨b', hb', h⟩
    split at h
    · cases h
    · rename_i hp
      cases h
      exact ⟨hb', Bool.eq_false_iff.2 hp⟩
  · rintro ⟨hb, hp⟩
    exact ⟨b, hb, by simp [hp]⟩

/-- Every row has a property. -/
def All (m : OrderedMap α β) (q : α → β → Prop) : Prop := ∀ a b, m.get? a = some b → q a b

namespace All

variable {m : OrderedMap α β} {q q' : α → β → Prop}

theorem imp (h : m.All q) (hq : ∀ a b, q a b → q' a b) : m.All q' := fun a b hb => hq a b (h a b hb)

theorem set (h : m.All q) (hq : q a b) : (m.set a b).All q := by
  intro a' b' hb
  rcases get?_set_eq_some.1 hb with ⟨rfl, rfl⟩ | ⟨-, hold⟩
  · exact hq
  · exact h a' b' hold

theorem erase (h : m.All q) : (m.erase a).All q :=
  fun a' b' hb => h a' b' (get?_erase_eq_some.1 hb).2

theorem deleteWhere (h : m.All q) : (m.deleteWhere p).All q :=
  fun a b hb => h a b ((m.get?_deleteWhere).1 hb).1

end All

end OrderedMap
