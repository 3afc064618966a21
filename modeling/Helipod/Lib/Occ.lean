import Mathlib.Data.Set.Lattice
import Mathlib.Data.List.Pairwise
import Mathlib.Order.Disjoint
import Mathlib.Order.CompletePartialOrder
import Mathlib.Tactic.Tauto

/-!
# Optimistic concurrency control with staged commits

An abstract commit protocol over a multi-version store. A transaction attempt
takes a snapshot of the committed clock, looks at the store a number of times
and is then staged: its read set is checked against the commits that are
younger than its snapshot (kept in a ring) and against everything staged
before it and not yet published. Staged work gets its timestamps from the store, lands,
and is published in order.

Timestamps are drawn before the rows land, and other parties may draw
timestamps and move the clock in between. What keeps the protocol correct is
the premise of `Inv.begin`: a snapshot is taken only when no timestamp at or
below the clock has been drawn but not landed.

Results:
* `Inv.serializable`
* `Inv.begin`, `Inv.stage`, `Inv.allocate`, `Inv.land`, `Inv.publish` and so on: the invariant is
  kept by every move of the protocol.
-/

namespace Occ

/-- A running attempt: its snapshot, and for each look at the store the
timestamps that had landed at that moment. -/
@[ext] structure Attempt where
  snap : Nat
  views : Set (Set Nat)

/-- An attempt that passed validation, with its read and write sets. -/
@[ext] structure Staged (K : Type*) extends Attempt where
  reads : Set K
  writes : Set K

/-- The state of one writer. `allocated` bounds every timestamp drawn so far, by
anybody. `inflight` holds what is staged and not yet published, in order, with
its timestamp once one is drawn; `landed` holds what the store has accepted. -/
structure State (K : Type*) where
  clock : Nat
  allocated : Nat
  landed : Set (Nat × Staged K)
  active : Set Attempt
  ring : Set (Nat × Set K)
  inflight : List (Option Nat × Staged K)

variable {K : Type*}

/-- The attempts whose snapshot still matters: running, staged or landed. -/
def State.Attempts (s : State K) (a : Attempt) : Prop :=
  a ∈ s.active ∨ (∃ e ∈ s.inflight, e.2.toAttempt = a) ∨ ∃ c ∈ s.landed, c.2.toAttempt = a

/-- The order on staged units: timestamps are drawn from the front and increase,
and a later unit has not read what an earlier one writes. -/
def Before (x y : Option Nat × Staged K) : Prop :=
  (∀ t', y.1 = some t' → ∃ t, x.1 = some t ∧ t < t') ∧ Disjoint x.2.writes y.2.reads

structure Inv (s : State K) : Prop where
  clock_le : s.clock ≤ s.allocated
  landed_le : ∀ c ∈ s.landed, c.1 ≤ s.allocated
  inflight_le : ∀ {t u}, (some t, u) ∈ s.inflight → t ≤ s.allocated
  inflight_lt : ∀ {t u}, (some t, u) ∈ s.inflight → u.snap < t
  snap_lt : ∀ c ∈ s.landed, c.2.snap < c.1
  snap_le : ∀ a, s.Attempts a → a.snap ≤ s.allocated
  /-- A commit that landed is below the clock unless it is still to be published. -/
  published : ∀ c ∈ s.landed, c.1 ≤ s.clock ∨ (some c.1, c.2) ∈ s.inflight
  /-- The ring misses no commit that an active attempt can conflict with. -/
  ring_covers : ∀ a ∈ s.active, ∀ c ∈ s.landed, a.snap < c.1 →
    (c.1, c.2.writes) ∈ s.ring ∨ (some c.1, c.2) ∈ s.inflight
  /-- No timestamp at or below a snapshot lands after the snapshot was taken. -/
  complete : ∀ a, s.Attempts a → ∀ t u, (some t, u) ∈ s.inflight → t ≤ a.snap → (t, u) ∈ s.landed
  views : ∀ a, s.Attempts a → ∀ V ∈ a.views, ∀ c ∈ s.landed, c.1 ≤ a.snap → c.1 ∈ V
  landed_lt : ∀ c ∈ s.landed, ∀ t u, (some t, u) ∈ s.inflight →
    c.1 < t ∨ (some c.1, c.2) ∈ s.inflight
  ordered : s.inflight.Pairwise Before
  reads_landed : ∀ x ∈ s.inflight, ∀ c ∈ s.landed, (∀ t, x.1 = some t → c.1 < t) →
    x.2.snap < c.1 → Disjoint c.2.writes x.2.reads
  reads_history : ∀ x ∈ s.landed, ∀ c ∈ s.landed, c.1 < x.1 → x.2.snap < c.1 →
    Disjoint c.2.writes x.2.reads

/-- What the invariant says of a running attempt. -/
structure State.Supports (s : State K) (a : Attempt) : Prop where
  snap_le : a.snap ≤ s.allocated
  ring_covers : ∀ c ∈ s.landed, a.snap < c.1 → (c.1, c.2.writes) ∈ s.ring ∨
    (some c.1, c.2) ∈ s.inflight
  complete : ∀ t u, (some t, u) ∈ s.inflight → t ≤ a.snap → (t, u) ∈ s.landed
  views : ∀ V ∈ a.views, ∀ c ∈ s.landed, c.1 ≤ a.snap → c.1 ∈ V

namespace OccLemmas

variable {u : Staged K}

theorem before_of_lt {F : List (Option Nat × Staged K)} (hF : F.Pairwise Before) {t : Nat}
    {y : Option Nat × Staged K} (hx : (some t, u) ∈ F) (hy : y ∈ F)
    (hlt : ∀ t', y.1 = some t' → t < t') : Disjoint u.writes y.2.reads := by
  obtain ⟨i, hi, hxi⟩ := List.mem_iff_getElem.1 hx
  obtain ⟨j, hj, hyj⟩ := List.mem_iff_getElem.1 hy
  have hp := List.pairwise_iff_getElem.1 hF
  rcases Nat.lt_trichotomy i j with hij | rfl | hji
  · have := (hp i j hi hj hij).2
    rwa [hxi, hyj] at this
  · rw [hxi] at hyj
    subst hyj
    exact absurd (hlt t rfl) (lt_irrefl t)
  · obtain ⟨t', ht', hlt'⟩ := (hp j i hj hi hji).1 t (by rw [hxi])
    rw [hyj] at ht'
    exact absurd (hlt t' ht') (by omega)

theorem attempts_active {s : State K} {a : Attempt} (h : a ∈ s.active) : s.Attempts a :=
  .inl h

theorem attempts_inflight {s : State K} {o : Option Nat} (h : (o, u) ∈ s.inflight) :
    s.Attempts u.toAttempt :=
  .inr (.inl ⟨(o, u), h, rfl⟩)

theorem attempts_landed {s : State K} {c : Nat × Staged K} (h : c ∈ s.landed) :
    s.Attempts c.2.toAttempt :=
  .inr (.inr ⟨c, h, rfl⟩)

/-- Only the staged units are others, and their attempts are counted already. -/
theorem attempts_of_inflight {s s' : State K} {a : Attempt} (hactive : s'.active = s.active)
    (hlanded : s'.landed = s.landed) (h : ∀ e ∈ s'.inflight, s.Attempts e.2.toAttempt)
    (ha : s'.Attempts a) : s.Attempts a := by
  rcases ha with ha | ⟨e, he, rfl⟩ | ha
  · exact .inl (hactive ▸ ha)
  · exact h e he
  · exact .inr (.inr (hlanded ▸ ha))

end OccLemmas

open OccLemmas

namespace Inv

variable {s : State K} {F : List (Option Nat × Staged K)} {n : Nat}

/-! ## The invariant is kept -/

section

variable (h : Inv s)
include h

theorem observe {t : Nat} (ht : t ≤ s.allocated) :
    Inv { s with clock := max s.clock t } where
  __ := h
  clock_le := max_le h.clock_le ht
  published := fun c hc => (h.published c hc).imp_left (le_trans · (le_max_left _ _))

theorem advance (hn : s.allocated ≤ n) :
    Inv { s with allocated := n } where
  __ := h
  clock_le := h.clock_le.trans hn
  landed_le := fun c hc => (h.landed_le c hc).trans hn
  inflight_le := fun hu => (h.inflight_le hu).trans hn
  snap_le := fun a ha => (h.snap_le a ha).trans hn

/-- Changing only the set of active attempts, when each new one is as good as an old one. -/
theorem setActive {A : Set Attempt} (hA : ∀ a ∈ A, s.Supports a) : Inv { s with active := A } where
  __ := h
  snap_le := by
    rintro a (ha | ⟨e, ha, rfl⟩ | ⟨c, ha, rfl⟩)
    · exact (hA a ha).snap_le
    · exact h.snap_le _ (attempts_inflight ha)
    · exact h.snap_le _ (attempts_landed ha)
  ring_covers := fun a ha => (hA a ha).ring_covers
  complete := by
    rintro a (ha | ⟨e, ha, rfl⟩ | ⟨c, ha, rfl⟩)
    · exact (hA a ha).complete
    · exact h.complete _ (attempts_inflight ha)
    · exact h.complete _ (attempts_landed ha)
  views := by
    rintro a (ha | ⟨e, ha, rfl⟩ | ⟨c, ha, rfl⟩)
    · exact (hA a ha).views
    · exact h.views _ (attempts_inflight ha)
    · exact h.views _ (attempts_landed ha)

theorem of_mem_active {a : Attempt} (ha : a ∈ s.active) : s.Supports a :=
  ⟨h.snap_le a (attempts_active ha), h.ring_covers a ha, h.complete a (attempts_active ha),
    h.views a (attempts_active ha)⟩

theorem begin (hg : ∀ t u, (some t, u) ∈ s.inflight → t ≤ s.clock → (t, u) ∈ s.landed) :
    Inv { s with active := insert ⟨s.clock, ∅⟩ s.active } := by
  refine h.setActive fun a ha => ?_
  rcases Set.mem_insert_iff.1 ha with rfl | ha
  · refine ⟨h.clock_le, fun c hc hlt => .inr ?_, hg, fun V hV => absurd hV (Set.notMem_empty V)⟩
    exact (h.published c hc).resolve_left (not_le.2 hlt)
  · exact h.of_mem_active ha

theorem look {a : Attempt} {V : Set Nat} (ha : a ∈ s.active) (hV : ∀ c ∈ s.landed, c.1 ∈ V) :
    Inv { s with active := insert ⟨a.snap, insert V a.views⟩ s.active } := by
  refine h.setActive fun b hb => ?_
  rcases Set.mem_insert_iff.1 hb with rfl | hb
  · obtain ⟨hle, hring, hcomplete, hviews⟩ := h.of_mem_active ha
    refine ⟨hle, hring, hcomplete, fun W hW c hc hle' => ?_⟩
    rcases Set.mem_insert_iff.1 hW with rfl | hW
    · exact hV c hc
    · exact hviews W hW c hc hle'
  · exact h.of_mem_active hb

theorem retire {A : Set Attempt} (hA : A ⊆ s.active) : Inv { s with active := A } :=
  h.setActive fun _ ha => h.of_mem_active (hA ha)

theorem stage (hu : u.toAttempt ∈ s.active)
    (hring : ∀ c ∈ s.ring, u.snap < c.1 → Disjoint c.2 u.reads)
    (hflight : ∀ e ∈ s.inflight, Disjoint e.2.writes u.reads) :
    Inv { s with inflight := s.inflight ++ [(none, u)] } := by
  have hsome : ∀ {t v}, (some t, v) ∈ s.inflight ++ [(none, u)] ↔ (some t, v) ∈ s.inflight := by
    simp
  have hatt : ∀ {a}, State.Attempts { s with inflight := s.inflight ++ [(none, u)] } a →
      s.Attempts a := by
    refine attempts_of_inflight rfl rfl fun e he => ?_
    rcases List.mem_append.1 he with he | he
    · exact attempts_inflight he
    · rw [List.mem_singleton.1 he]
      exact attempts_active hu
  exact
    { h with
      inflight_le := fun hv => h.inflight_le (hsome.1 hv)
      inflight_lt := fun hv => h.inflight_lt (hsome.1 hv)
      snap_le := fun a ha => h.snap_le a (hatt ha)
      published := fun c hc => (h.published c hc).imp_right hsome.2
      ring_covers := fun a ha c hc hlt => (h.ring_covers a ha c hc hlt).imp_right hsome.2
      complete := fun a ha t v hv => h.complete a (hatt ha) t v (hsome.1 hv)
      views := fun a ha => h.views a (hatt ha)
      landed_lt := fun c hc t v hv => (h.landed_lt c hc t v (hsome.1 hv)).imp_right hsome.2
      ordered := by
        refine List.pairwise_append.2 ⟨h.ordered, List.pairwise_singleton _ _, fun e he y hy => ?_⟩
        rw [List.mem_singleton.1 hy]
        exact ⟨fun t' ht' => absurd ht' (by simp), hflight e he⟩
      reads_landed := by
        intro x hx c hc hlt hsnap
        rcases List.mem_append.1 hx with hx | hx
        · exact h.reads_landed x hx c hc hlt hsnap
        · rw [List.mem_singleton.1 hx] at hsnap ⊢
          rcases h.ring_covers _ hu c hc hsnap with hr | hf
          · exact hring _ hr hsnap
          · exact hflight _ hf }

/-- Changing only the staged units, when their attempts are counted already. The
timestamps they carry are the old ones or fresh. -/
theorem setInflight (hn : s.allocated ≤ n)
    (hF : ∀ e ∈ F, ∃ o, (o, e.2) ∈ s.inflight ∧ ∀ t, o = some t → e.1 = some t)
    (hkeep : ∀ c ∈ s.landed, (some c.1, c.2) ∈ s.inflight → (some c.1, c.2) ∈ F)
    (hts : ∀ t u, (some t, u) ∈ F → (some t, u) ∈ s.inflight ∨ (s.allocated < t ∧ t ≤ n))
    (hord : F.Pairwise Before) : Inv { s with allocated := n, inflight := F } := by
  have hatt : ∀ {a}, State.Attempts { s with allocated := n, inflight := F } a →
      s.Attempts a := by
    refine attempts_of_inflight rfl rfl fun e he => ?_
    obtain ⟨o, ho, -⟩ := hF e he
    exact attempts_inflight ho
  exact
    { h with
      clock_le := h.clock_le.trans hn
      landed_le := fun c hc => (h.landed_le c hc).trans hn
      inflight_le := fun hu => (hts _ _ hu).elim (fun hold => (h.inflight_le hold).trans hn) (·.2)
      inflight_lt := by
        intro t u hu
        rcases hts t u hu with hold | hnew
        · exact h.inflight_lt hold
        · obtain ⟨o, ho, -⟩ := hF _ hu
          exact (h.snap_le _ (attempts_inflight ho)).trans_lt hnew.1
      snap_le := fun a ha => (h.snap_le a (hatt ha)).trans hn
      published := fun c hc => (h.published c hc).imp_right (hkeep c hc)
      ring_covers := fun a ha c hc hlt => (h.ring_covers a ha c hc hlt).imp_right (hkeep c hc)
      complete := by
        intro a ha t u hu hle
        rcases hts t u hu with hold | hnew
        · exact h.complete a (hatt ha) t u hold hle
        · have := h.snap_le a (hatt ha)
          omega
      views := fun a ha => h.views a (hatt ha)
      landed_lt := by
        intro c hc t u hu
        rcases hts t u hu with hold | hnew
        · exact (h.landed_lt c hc t u hold).imp_right (hkeep c hc)
        · exact .inl ((h.landed_le c hc).trans_lt hnew.1)
      ordered := hord
      reads_landed := by
        intro x hx c hc hlt hsnap
        obtain ⟨o, ho, hox⟩ := hF x hx
        exact h.reads_landed (o, x.2) ho c hc (fun t ht => hlt t (hox t ht)) hsnap }

theorem allocate (us ws : List (Staged K)) {ts : List Nat}
    (hs : s.inflight = (us ++ ws).map (fun u => (none, u))) (hlen : ts.length = us.length)
    (hts : ts.Pairwise (· < ·)) (hfresh : ∀ t ∈ ts, s.allocated < t ∧ t ≤ n)
    (hn : s.allocated ≤ n) :
    Inv { s with
      allocated := n
      inflight := (ts.zip us).map (fun p => (some p.1, p.2)) ++ ws.map (fun u => (none, u)) } := by
  have hmem : ∀ {o : Option Nat} {u}, (o, u) ∈ s.inflight ↔ o = none ∧ u ∈ us ++ ws := by
    intro o u
    rw [hs, List.mem_map]
    constructor
    · rintro ⟨v, hv, heq⟩
      obtain ⟨rfl, rfl⟩ := Prod.mk.inj heq
      exact ⟨rfl, hv⟩
    · rintro ⟨rfl, hu⟩
      exact ⟨u, hu, rfl⟩
  have hdisj : (us ++ ws).Pairwise fun u v => Disjoint u.writes v.reads := by
    have hp := h.ordered
    rw [hs, List.pairwise_map] at hp
    exact hp.imp fun hb => hb.2
  obtain ⟨hus, -, hcross⟩ := List.pairwise_append.1 hdisj
  refine h.setInflight hn ?_ ?_ ?_ ?_
  · rintro ⟨o, u⟩ he
    refine ⟨none, hmem.2 ⟨rfl, ?_⟩, fun t ht => absurd ht (by simp)⟩
    rcases List.mem_append.1 he with he | he
    · obtain ⟨p, hp, heq⟩ := List.mem_map.1 he
      obtain ⟨-, rfl⟩ := Prod.mk.inj heq
      exact List.mem_append_left _ (List.of_mem_zip hp).2
    · obtain ⟨v, hv, heq⟩ := List.mem_map.1 he
      obtain ⟨-, rfl⟩ := Prod.mk.inj heq
      exact List.mem_append_right _ hv
  · intro c _ hc
    exact absurd (hmem.1 hc).1 (by simp)
  · intro t u hu
    rcases List.mem_append.1 hu with hu | hu
    · obtain ⟨p, hp, heq⟩ := List.mem_map.1 hu
      obtain ⟨ht, -⟩ := Prod.mk.inj heq
      cases ht
      exact .inr (hfresh _ (List.of_mem_zip hp).1)
    · obtain ⟨v, -, heq⟩ := List.mem_map.1 hu
      exact absurd (Prod.mk.inj heq).1 (by simp)
  · refine List.pairwise_append.2 ⟨?_, ?_, ?_⟩
    · -- inside the batch: timestamps and read sets are ordered position by position
      rw [List.pairwise_map]
      refine List.pairwise_iff_getElem.2 fun i j hi hj hij => ⟨fun t' ht' => ?_, ?_⟩
      · refine ⟨_, rfl, ?_⟩
        cases ht'
        simpa using List.pairwise_iff_getElem.1 hts i j (by simp at hi; omega)
          (by simp at hj; omega) hij
      · simpa using List.pairwise_iff_getElem.1 hus i j (by simp at hi; omega)
          (by simp at hj; omega) hij
    · rw [List.pairwise_map]
      exact ((List.pairwise_append.1 hdisj).2.1).imp fun hd =>
        ⟨fun t' ht' => absurd ht' (by simp), hd⟩
    · intro x hx y hy
      obtain ⟨p, hp, rfl⟩ := List.mem_map.1 hx
      obtain ⟨v, hv, rfl⟩ := List.mem_map.1 hy
      exact ⟨fun t' ht' => absurd ht' (by simp), hcross _ (List.of_mem_zip hp).2 v hv⟩

theorem rollback (hs : ∀ t u, (some t, u) ∈ s.inflight → (t, u) ∉ s.landed) :
    Inv { s with inflight := s.inflight.map fun e => (none, e.2) } := by
  have hnone : ∀ {t u}, (some t, u) ∉ s.inflight.map fun e => ((none : Option Nat), e.2) := by simp
  have hatt : ∀ {a}, State.Attempts { s with inflight := s.inflight.map fun e => (none, e.2) } a →
      s.Attempts a := by
    refine attempts_of_inflight rfl rfl fun e he => ?_
    obtain ⟨e', he', rfl⟩ := List.mem_map.1 he
    exact attempts_inflight he'
  exact
    { h with
      inflight_le := fun hu => absurd hu hnone
      inflight_lt := fun hu => absurd hu hnone
      snap_le := fun a ha => h.snap_le a (hatt ha)
      published := fun c hc => .inl ((h.published c hc).resolve_right fun hm => hs _ _ hm hc)
      ring_covers := fun a ha c hc hlt =>
        .inl ((h.ring_covers a ha c hc hlt).resolve_right fun hm => hs _ _ hm hc)
      complete := fun _ _ _ _ hu => absurd hu hnone
      views := fun a ha => h.views a (hatt ha)
      landed_lt := fun _ _ _ _ hu => absurd hu hnone
      ordered := by
        rw [List.pairwise_map]
        exact h.ordered.imp fun hb => ⟨fun t' ht' => absurd ht' (by simp), hb.2⟩
      reads_landed := by
        intro x hx c hc _ hsnap
        obtain ⟨e, he, rfl⟩ := List.mem_map.1 hx
        refine h.reads_landed e he c hc (fun t ht => ?_) hsnap
        -- everything landed is older than a timestamp that is still pending
        exact (h.landed_lt c hc t e.2 (ht ▸ he)).resolve_right fun hm => hs _ _ hm hc }

theorem drop (hF : F.Sublist s.inflight)
    (hs : ∀ t u, (some t, u) ∈ s.inflight → (some t, u) ∈ F) : Inv { s with inflight := F } :=
  h.setInflight le_rfl (fun e he => ⟨e.1, hF.subset he, fun _ ht => ht⟩)
    (fun c _ hc => hs c.1 c.2 hc) (fun _ _ hu => .inl (hF.subset hu)) (h.ordered.sublist hF)

theorem land (cs : Set (Nat × Staged K))
    (hcs : ∀ c ∈ cs, (some c.1, c.2) ∈ s.inflight) : Inv { s with landed := s.landed ∪ cs } := by
  have hatt : ∀ {a}, State.Attempts { s with landed := s.landed ∪ cs } a → s.Attempts a := by
    rintro a (ha | ha | ⟨c, hc | hc, rfl⟩)
    · exact attempts_active ha
    · exact .inr (.inl ha)
    · exact attempts_landed hc
    · exact attempts_inflight (hcs c hc)
  exact
    { h with
      landed_le := by
        rintro c (hc | hc)
        · exact h.landed_le c hc
        · exact h.inflight_le (hcs c hc)
      snap_lt := by
        rintro c (hc | hc)
        · exact h.snap_lt c hc
        · exact h.inflight_lt (hcs c hc)
      snap_le := fun a ha => h.snap_le a (hatt ha)
      published := by
        rintro c (hc | hc)
        · exact h.published c hc
        · exact .inr (hcs c hc)
      ring_covers := by
        rintro a ha c (hc | hc) hlt
        · exact h.ring_covers a ha c hc hlt
        · exact .inr (hcs c hc)
      complete := fun a ha t u hu hle => .inl (h.complete a (hatt ha) t u hu hle)
      views := by
        rintro a ha V hV c (hc | hc) hle
        · exact h.views a (hatt ha) V hV c hc hle
        · exact h.views a (hatt ha) V hV c (h.complete a (hatt ha) _ _ (hcs c hc) hle) hle
      landed_lt := by
        rintro c (hc | hc) t u hu
        · exact h.landed_lt c hc t u hu
        · exact .inr (hcs c hc)
      reads_landed := by
        rintro x hx c (hc | hc) hlt hsnap
        · exact h.reads_landed x hx c hc hlt hsnap
        · exact before_of_lt h.ordered (hcs c hc) hx hlt
      reads_history := by
        rintro x (hx | hx) c (hc | hc) hlt hsnap
        · exact h.reads_history x hx c hc hlt hsnap
        · -- `x` landed earlier and is younger than `c`, so it is still staged
          have hx' := (h.landed_lt x hx c.1 c.2 (hcs c hc)).resolve_left (by omega)
          exact before_of_lt h.ordered (hcs c hc) hx' fun t ht => by cases ht; exact hlt
        · exact h.reads_landed _ (hcs x hx) c hc (fun t ht => by cases ht; exact hlt) hsnap
        · exact before_of_lt h.ordered (hcs c hc) (hcs x hx) fun t ht => by cases ht; exact hlt }

theorem publish {t : Nat} (hs : s.inflight = (some t, u) :: F) :
    Inv { s with
      clock := max s.clock t, ring := insert (t, u.writes) s.ring, inflight := F } := by
  have hsub : ∀ {e}, e ∈ F → e ∈ s.inflight := fun he => by rw [hs]; exact List.mem_cons_of_mem _ he
  have hsplit : ∀ {e}, e ∈ s.inflight → e = (some t, u) ∨ e ∈ F := fun he => by
    rw [hs] at he
    exact List.mem_cons.1 he
  have hatt : ∀ {a}, State.Attempts { s with
      clock := max s.clock t, ring := insert (t, u.writes) s.ring, inflight := F } a →
      s.Attempts a := by
    exact attempts_of_inflight rfl rfl fun e he => attempts_inflight (hsub he)
  have hord : (∀ y ∈ F, Before (some t, u) y) ∧ F.Pairwise Before := by
    rw [← List.pairwise_cons, ← hs]
    exact h.ordered
  exact
    { h with
      clock_le := max_le h.clock_le (h.inflight_le (by rw [hs]; exact List.mem_cons_self))
      inflight_le := fun hu => h.inflight_le (hsub hu)
      inflight_lt := fun hu => h.inflight_lt (hsub hu)
      snap_le := fun a ha => h.snap_le a (hatt ha)
      published := by
        intro c hc
        rcases h.published c hc with hle | hm
        · exact .inl (le_trans hle (le_max_left _ _))
        · rcases hsplit hm with heq | hm
          · cases heq
            exact .inl (le_max_right _ _)
          · exact .inr hm
      ring_covers := by
        intro a ha c hc hlt
        rcases h.ring_covers a ha c hc hlt with hr | hm
        · exact .inl (Set.mem_insert_of_mem _ hr)
        · rcases hsplit hm with heq | hm
          · cases heq
            exact .inl (Set.mem_insert _ _)
          · exact .inr hm
      complete := fun a ha t' u' hu => h.complete a (hatt ha) t' u' (hsub hu)
      views := fun a ha => h.views a (hatt ha)
      landed_lt := by
        intro c hc t' u' hu
        rcases h.landed_lt c hc t' u' (hsub hu) with hlt | hm
        · exact .inl hlt
        · rcases hsplit hm with heq | hm
          · cases heq
            obtain ⟨t₀, ht₀, hlt⟩ := (hord.1 _ hu).1 t' rfl
            cases ht₀
            exact .inl hlt
          · exact .inr hm
      ordered := hord.2
      reads_landed := fun x hx => h.reads_landed x (hsub hx) }

theorem publishAll (ps : List (Nat × Staged K))
    (hs : s.inflight = ps.map (fun p => (some p.1, p.2)) ++ F) :
    Inv { s with
      clock := ps.foldl (fun n p => max n p.1) s.clock
      ring := s.ring ∪ { r | ∃ p ∈ ps, r = (p.1, p.2.writes) }
      inflight := F } := by
  induction ps generalizing s with
  | nil =>
    have hr : s.ring ∪ { r | ∃ p ∈ ([] : List (Nat × Staged K)),
      r = (p.1, p.2.writes) } = s.ring := by
      simp
    have hF : s.inflight = F := hs
    rw [hr, ← hF]
    exact h
  | cons p ps ih =>
    have hp := ih (h.publish hs) rfl
    have hr : insert (p.1, p.2.writes) s.ring ∪ { r | ∃ q ∈ ps, r = (q.1, q.2.writes) } =
        s.ring ∪ { r | ∃ q ∈ p :: ps, r = (q.1, q.2.writes) } := by
      ext r
      simp only [Set.mem_union, Set.mem_insert_iff, Set.mem_ofPred_eq, List.mem_cons,
        or_and_right, exists_or, exists_eq_left]
      tauto
    rw [← hr]
    exact hp

theorem prune {R : Set (Nat × Set K)}
    (hs : ∀ c ∈ s.ring, c ∉ R → ∀ a ∈ s.active, c.1 ≤ a.snap) : Inv { s with ring := R } where
  __ := h
  ring_covers := by
    intro a ha c hc hlt
    rcases h.ring_covers a ha c hc hlt with hr | hm
    · by_cases hR : (c.1, c.2.writes) ∈ R
      · exact .inl hR
      · exact absurd (hs _ hr hR a ha) (not_le.2 hlt)
    · exact .inr hm

end

/-! ## Serializability -/

/-- Of two landed commits, the younger has not read what the older wrote, or had the
older in its snapshot and in the store whenever it looked. -/
theorem serializable (h : Inv s) {x c : Nat × Staged K} (hx : x ∈ s.landed) (hc : c ∈ s.landed)
    (hlt : c.1 < x.1) :
    Disjoint c.2.writes x.2.reads ∨ (c.1 ≤ x.2.snap ∧ ∀ V ∈ x.2.views, c.1 ∈ V) := by
  by_cases hsnap : x.2.snap < c.1
  · exact .inl (h.reads_history x hx c hc hlt hsnap)
  · have hle := not_lt.1 hsnap
    exact .inr ⟨hle, fun V hV => h.views _ (attempts_landed hx) V hV c hc hle⟩

end Inv

end Occ
