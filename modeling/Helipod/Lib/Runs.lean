import Mathlib.Logic.Relation

/-!
# Runs of an event-driven machine

A machine is a function `step : σ → ε → Option σ`: the event either is not
enabled in the state or leads to one next state. All nondeterminism
(scheduling, answers of the environment) is in the events, so a run is a list
of events and can be evaluated.

Results:
* `run_invariant`, `run_invariant_of_guarded`, `holds_iff_guarded`
* `outputs_invariant_of_guarded`: the same for a state together with what the steps have given out
  so far.
-/

namespace Runs

variable {σ τ ε : Type*} {fs : List ε}

/-- Take the events in order; `none` when one of them is not enabled. -/
def run (step : σ → ε → Option σ) : σ → List ε → Option σ
  | s, [] => some s
  | s, e :: es => (step s e).bind fun s' => run step s' es

/-- Every step of the run from `s` meets `guard` in the state before it. -/
def Guarded (step : σ → ε → Option σ) (guard : σ → ε → Prop) : σ → List ε → Prop
  | _, [] => True
  | s, e :: es => guard s e ∧ ∀ s', step s e = some s' → Guarded step guard s' es

instance decidableGuarded (step : σ → ε → Option σ) (guard : σ → ε → Prop)
    [∀ s e, Decidable (guard s e)] : ∀ s es, Decidable (Guarded step guard s es)
  | _, [] => isTrue trivial
  | s, e :: es =>
    match h : step s e with
    | none => decidable_of_iff (guard s e) (by simp [Guarded, h])
    | some s' =>
      have := decidableGuarded step guard s' es
      decidable_of_iff (guard s e ∧ Guarded step guard s' es) (by simp [Guarded, h])

/-- Whether a run ends in a state with a property can be computed. -/
instance decidableExistsSome {α : Type*} {o : Option α} {p : α → Prop} [DecidablePred p] :
    Decidable (∃ a, o = some a ∧ p a) :=
  inferInstanceAs (Decidable (∃ a ∈ o, p a))

theorem exists_some_imp {α : Type*} {o : Option α} {q : α → Prop} (p : α → Prop)
    (hp : ∃ a, o = some a ∧ p a) (h : ∀ a, o = some a → p a → q a) : ∃ a, o = some a ∧ q a :=
  hp.imp fun a ha => ⟨ha.1, h a ha.1 ha.2⟩

variable {step : σ → ε → Option σ} {guard : σ → ε → Prop} {s s' : σ} {e : ε} {es : List ε}

@[simp] theorem run_nil : run step s [] = some s := rfl

theorem run_cons : run step s (e :: es) = (step s e).bind fun s' => run step s' es := rfl

theorem run_cons_eq_some :
    run step s (e :: es) = some s' ↔ ∃ m, step s e = some m ∧ run step m es = some s' := by
  simp [run_cons, Option.bind_eq_some_iff]

theorem run_append : run step s (es ++ fs) = (run step s es).bind fun m => run step m fs := by
  induction es generalizing s with
  | nil => rfl
  | cons e es ih => cases h : step s e <;> simp [run_cons, h, ih]

theorem run_snoc_eq_some :
    run step s (es ++ [e]) = some s' ↔ ∃ m, run step s es = some m ∧ step m e = some s' := by
  simp [run_append, Option.bind_eq_some_iff, run_cons]

/-- An event that changes nothing where it stands may be put into a run. -/
theorem run_insert {m : σ} (hr : run step s (es ++ fs) = some s')
    (hm : run step s es = some m) (he : step m e = some m) :
    run step s (es ++ e :: fs) = some s' := by
  rw [run_append, hm] at hr ⊢
  simpa [run_cons, he] using hr

theorem guarded_append (h : Guarded step guard s es)
    (h' : ∀ m, run step s es = some m → Guarded step guard m fs) :
    Guarded step guard s (es ++ fs) := by
  induction es generalizing s with
  | nil => exact h' s rfl
  | cons e es ih =>
    refine ⟨h.1, fun m hm => ih (h.2 m hm) fun m' hm' => h' m' ?_⟩
    exact run_cons_eq_some.2 ⟨m, hm, hm'⟩

theorem Guarded.of_append (h : Guarded step guard s (es ++ fs)) :
    Guarded step guard s es ∧ ∀ m, run step s es = some m → Guarded step guard m fs := by
  induction es generalizing s with
  | nil =>
    refine ⟨trivial, fun m hm => ?_⟩
    cases hm
    exact h
  | cons e es ih =>
    refine ⟨⟨h.1, fun m hm => (ih (h.2 m hm)).1⟩, fun m hm => ?_⟩
    obtain ⟨m', hm', hr⟩ := run_cons_eq_some.1 hm
    exact (ih (h.2 m' hm')).2 m hr

theorem Guarded.and {guard' : σ → ε → Prop} (h : Guarded step guard s es)
    (h' : Guarded step guard' s es) : Guarded step (fun s e => guard s e ∧ guard' s e) s es := by
  induction es generalizing s with
  | nil => trivial
  | cons e es ih => exact ⟨⟨h.1, h'.1⟩, fun m hm => ih (h.2 m hm) (h'.2 m hm)⟩

theorem run_invariant_of_guarded {I : σ → Prop}
    (hstep : ∀ s e s', I s → guard s e → step s e = some s' → I s')
    (hs : I s) (hg : Guarded step guard s es) (hr : run step s es = some s') : I s' := by
  induction es generalizing s with
  | nil =>
    cases hr
    exact hs
  | cons e es ih =>
    obtain ⟨m, hm, hr⟩ := run_cons_eq_some.1 hr
    exact ih (hstep s e m hs hg.1 hm) (hg.2 m hm) hr

theorem guarded_true : Guarded step (fun _ _ => True) s es := by
  induction es generalizing s with
  | nil => trivial
  | cons e es ih => exact ⟨trivial, fun _ _ => ih⟩

theorem run_invariant {I : σ → Prop} (hstep : ∀ s e s', I s → step s e = some s' → I s')
    (hs : I s) (hr : run step s es = some s') : I s' :=
  run_invariant_of_guarded (fun s e s' h _ he => hstep s e s' h he) hs guarded_true hr

/-- A property that a step keeps exactly when it meets the guard, and that never comes back: it
holds after a run exactly when all steps meet the guard. -/
theorem holds_iff_guarded {I P : σ → Prop} (hI : ∀ s e s', I s → step s e = some s' → I s')
    (hstep : ∀ s e s', I s → step s e = some s' → (P s' ↔ P s ∧ guard s e)) (hs : I s)
    (hr : run step s es = some s') : P s' ↔ P s ∧ Guarded step guard s es := by
  induction es generalizing s with
  | nil =>
    cases hr
    exact ⟨fun h => ⟨h, trivial⟩, And.left⟩
  | cons e es ih =>
    obtain ⟨m, hm, hr⟩ := run_cons_eq_some.1 hr
    rw [ih (hI s e m hs hm) hr, hstep s e m hs hm]
    constructor
    · rintro ⟨⟨h, hg⟩, hes⟩
      refine ⟨h, hg, fun m' hm' => ?_⟩
      rw [hm] at hm'
      cases hm'
      exact hes
    · rintro ⟨h, hg, hes⟩
      exact ⟨⟨h, hg⟩, hes m hm⟩

/-- What the steps of a run give out, in order. -/
def outputs {ω : Type*} (step : σ → ε → Option σ) (out : σ → ε → Option ω) : σ → List ε → List ω
  | _, [] => []
  | s, e :: es => (out s e).toList ++ ((step s e).map fun s' => outputs step out s' es).getD []

theorem outputs_invariant_of_guarded {ω : Type*} {out : σ → ε → Option ω} {I : σ → List ω → Prop}
    (hstep : ∀ s e s' l, I s l → guard s e → step s e = some s' → I s' (l ++ (out s e).toList))
    {l : List ω} (hs : I s l) (hg : Guarded step guard s es) (hr : run step s es = some s') :
    I s' (l ++ outputs step out s es) := by
  induction es generalizing s l with
  | nil =>
    cases hr
    rwa [outputs, List.append_nil]
  | cons e es ih =>
    obtain ⟨m, hm, hr⟩ := run_cons_eq_some.1 hr
    rw [outputs, hm, ← List.append_assoc]
    exact ih (hstep s e m l hs hg.1 hm) (hg.2 m hm) hr

theorem outputs_invariant {ω : Type*} {out : σ → ε → Option ω} {I : σ → List ω → Prop}
    (hstep : ∀ s e s' l, I s l → step s e = some s' → I s' (l ++ (out s e).toList))
    (hs : I s []) (hr : run step s es = some s') : I s' (outputs step out s es) :=
  outputs_invariant_of_guarded (fun s e s' l h _ he => hstep s e s' l h he) hs guarded_true hr

end Runs
