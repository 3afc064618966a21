import Helipod.Lib.OrderedMap
import Helipod.Lib.Versioned

/-!
# Tables of versioned rows

A table whose primary key is a key together with a timestamp, so that a key
has at most one row for each timestamp and writing it again replaces the row.
Rows are live or dead: a dead row says that its key has nothing at its
timestamp. A view takes the newest row of a key at or below a bound and is
empty when that row is dead.

`Sound H L` relates a table to a copy of it that may lack rows, and may have
dead rows of its own where the table has nothing to show.

Results: `Sound.view_eq_some`, `Copies.catchUp`, `Mirrors.putAll`, `Mirrors.restore`.
-/

universe u v

/-- Rows under their key and timestamp. -/
abbrev VersionTable (κ : Type u) (ρ : Type v) := OrderedMap (κ × Nat) ρ

namespace VersionTable

open OrderedMap Versioned List Option

variable {κ : Type u} {ρ : Type v} [DecidableEq κ]

/-- The bound lets the timestamp through; no bound lets all through. -/
def Admits (b : Option Nat) (n : Nat) : Prop := ∀ c, b = some c → n ≤ c

@[simp] theorem admits_some {c n : Nat} : Admits (some c) n ↔ n ≤ c := by simp [Admits]

@[simp] theorem admits_none {n : Nat} : Admits none n := by simp [Admits]

theorem Admits.mono {b : Option Nat} {m n : Nat} (h : Admits b n) (hle : m ≤ n) : Admits b m :=
  fun c hc => Nat.le_trans hle (h c hc)

/-- Write the rows in order, replacing those with the same key and timestamp. -/
def putAll (t : VersionTable κ ρ) (rows : List ((κ × Nat) × ρ)) : VersionTable κ ρ :=
  rows.foldl (fun t row => t.set row.1 row.2) t

/-- The rows of a key with their timestamps. -/
def revisions (t : VersionTable κ ρ) (k : κ) : List (Nat × ρ) :=
  t.entries.filterMap fun row => if row.1.1 = k then some (row.1.2, row.2) else none

/-- The newest row of a key at or below the bound. -/
def latest (t : VersionTable κ ρ) (k : κ) (b : Option Nat) : Option (Nat × ρ) :=
  Versioned.readAt b (t.revisions k)

/-- The newest row of a key at or below the bound, if it is live. -/
def view (live : ρ → Bool) (t : VersionTable κ ρ) (k : κ) (b : Option Nat) : Option (Nat × ρ) :=
  (t.latest k b).filter fun row => live row.2

/-- The rows that are seen without a bound. -/
def current (live : ρ → Bool) (t : VersionTable κ ρ) : List ((κ × Nat) × ρ) :=
  t.entries.filter fun row => (t.view live row.1.1 none).map Prod.fst = some row.1.2

variable {live : ρ → Bool} {t H L : VersionTable κ ρ} {rows : List ((κ × Nat) × ρ)} {k : κ}
  {n P F T : Nat} {r : ρ} {b : Option Nat}

theorem get?_putAll : (t.putAll rows).get? (k, n) =
    ((rows.reverse.find? fun row => row.1 = (k, n)).map Prod.snd).or (t.get? (k, n)) :=
  get?_foldl_set t rows

@[simp] theorem putAll_nil : t.putAll [] = t := rfl

theorem mem_or_get?_of_putAll (h : (t.putAll rows).get? (k, n) = some r) :
    ((k, n), r) ∈ rows ∨ t.get? (k, n) = some r := by
  rw [get?_putAll] at h
  cases hf : rows.reverse.find? (fun row => row.1 = (k, n)) with
  | none =>
    rw [hf] at h
    exact .inr h
  | some row =>
    rw [hf] at h
    obtain rfl : row.2 = r := Option.some.inj h
    have hkey : row.1 = (k, n) := by simpa using find?_some hf
    exact .inl (mem_reverse.1 (hkey ▸ mem_of_find?_eq_some hf))

theorem get?_putAll_of_forall_ne (h : ∀ row ∈ rows, row.1 ≠ (k, n)) :
    (t.putAll rows).get? (k, n) = t.get? (k, n) := by
  rw [get?_putAll, find?_eq_none.2 fun row hrow => by
    simpa using h row (mem_reverse.1 hrow)]
  rfl

theorem get?_putAll_ne_none (h : t.get? (k, n) ≠ none) : (t.putAll rows).get? (k, n) ≠ none := by
  rw [get?_putAll]
  cases rows.reverse.find? (fun row => row.1 = (k, n)) with
  | none => exact h
  | some row => simp

theorem get?_putAll_of_mem (h : ((k, n), r) ∈ rows) : (t.putAll rows).get? (k, n) ≠ none := by
  rw [get?_putAll]
  cases hf : rows.reverse.find? (fun row => row.1 = (k, n)) with
  | none => simpa using find?_eq_none.1 hf _ (mem_reverse.2 h)
  | some row => simp

/-- With one row for each key and timestamp, every row is written. -/
theorem get?_putAll_eq_some (h : ((k, n), r) ∈ rows)
    (hone : ∀ r', ((k, n), r') ∈ rows → r' = r) : (t.putAll rows).get? (k, n) = some r := by
  rw [get?_putAll]
  cases hf : rows.reverse.find? (fun row => row.1 = (k, n)) with
  | none => simpa using find?_eq_none.1 hf _ (mem_reverse.2 h)
  | some row =>
    have hkey : row.1 = (k, n) := by simpa using find?_some hf
    have hmem : ((k, n), row.2) ∈ rows :=
      mem_reverse.1 (hkey ▸ mem_of_find?_eq_some hf)
    exact congrArg some (hone row.2 hmem)

theorem get?_putAll_eq_or : (t.putAll rows).get? (k, n) =
    ((putAll .empty rows).get? (k, n)).or (t.get? (k, n)) := by
  rw [get?_putAll, get?_putAll, get?_empty, or_none]

/-! ## Reading -/

theorem mem_revisions : (n, r) ∈ t.revisions k ↔ t.get? (k, n) = some r := by
  rw [get?_eq_some_iff]
  constructor
  · intro h
    obtain ⟨row, hmem, heq⟩ := mem_filterMap.1 h
    obtain ⟨hk, hrow⟩ := ite_none_right_eq_some.1 heq
    cases hrow
    exact hk ▸ hmem
  · exact fun h => mem_filterMap.2 ⟨_, h, if_pos rfl⟩

theorem latest_eq_some : t.latest k b = some (n, r) ↔ t.get? (k, n) = some r ∧ Admits b n ∧
    ∀ m, t.get? (k, m) ≠ none → Admits b m → m ≤ n := by
  constructor
  · intro h
    obtain ⟨hmem, hle⟩ := mem_upTo.1 (newest_mem h)
    refine ⟨mem_revisions.1 hmem, hle, fun m hm hadmits => ?_⟩
    obtain ⟨r', hr'⟩ := ne_none_iff_exists'.1 hm
    exact le_newest h (mem_upTo.2 ⟨mem_revisions.2 hr', hadmits⟩)
  · rintro ⟨hget, hle, hmax⟩
    refine newest_eq_some ?_ (mem_upTo.2 ⟨mem_revisions.2 hget, hle⟩) ?_
    · rintro ⟨m, s⟩ hs ⟨m', s'⟩ hs' rfl
      have h := mem_revisions.1 (mem_upTo.1 hs).1
      have h' := mem_revisions.1 (mem_upTo.1 hs').1
      rw [Option.some.inj (h.symm.trans h')]
    · rintro ⟨m, s⟩ hs
      obtain ⟨hs, hadmits⟩ := mem_upTo.1 hs
      exact hmax m (by simp [mem_revisions.1 hs]) hadmits

theorem latest_eq_none : t.latest k b = none ↔ ∀ m, t.get? (k, m) ≠ none → ¬Admits b m := by
  rw [latest, Versioned.readAt, newest_eq_none, eq_nil_iff_forall_not_mem]
  constructor
  · intro h m hm hadmits
    obtain ⟨s, hs⟩ := ne_none_iff_exists'.1 hm
    exact h (m, s) (mem_upTo.2 ⟨mem_revisions.2 hs, hadmits⟩)
  · rintro h ⟨m, s⟩ hs
    obtain ⟨hs, hadmits⟩ := mem_upTo.1 hs
    exact h m (by simp [mem_revisions.1 hs]) hadmits

theorem exists_latest (h : t.get? (k, n) ≠ none) (hadmits : Admits b n) :
    ∃ m s, t.latest k b = some (m, s) ∧ n ≤ m := by
  cases hl : t.latest k b with
  | none => exact absurd hadmits (latest_eq_none.1 hl n h)
  | some row => exact ⟨row.1, row.2, rfl, (latest_eq_some.1 hl).2.2 n h hadmits⟩

/-- The newest row stays the newest one for every bound down to its timestamp. -/
theorem latest_of_latest {b' : Option Nat} (h : t.latest k b = some (n, r)) (hn : Admits b' n)
    (hle : ∀ m, Admits b' m → Admits b m) : t.latest k b' = some (n, r) := by
  obtain ⟨hget, -, hmax⟩ := latest_eq_some.1 h
  exact latest_eq_some.2 ⟨hget, hn, fun m hm hadmits => hmax m hm (hle m hadmits)⟩

theorem latest_below {c : Nat} (h : t.latest k b = some (n, r)) (hn : n ≤ c) (hc : Admits b c) :
    t.latest k (some c) = some (n, r) :=
  latest_of_latest h (admits_some.2 hn) fun _ hm => hc.mono (admits_some.1 hm)

theorem view_eq_some : t.view live k b = some (n, r) ↔
    t.latest k b = some (n, r) ∧ live r = true := by
  rw [view, filter_eq_some_iff]

theorem view_eq_none : t.view live k b = none ↔
    ∀ m s, t.latest k b = some (m, s) → live s = false := by
  rw [view, filter_eq_none_iff]
  constructor
  · exact fun h m s hl => by simpa using h (m, s) hl
  · rintro h ⟨m, s⟩ hl
    simpa using h m s hl

theorem mem_current : ((k, n), r) ∈ t.current live ↔ t.view live k none = some (n, r) := by
  rw [current, mem_filter, decide_eq_true_eq, ← get?_eq_some_iff]
  constructor
  · rintro ⟨hget, hview⟩
    obtain ⟨⟨m, s⟩, hview, rfl⟩ := map_eq_some_iff.1 hview
    have hs := (latest_eq_some.1 (view_eq_some.1 hview).1).1
    rwa [Option.some.inj (hget.symm.trans hs)]
  · intro h
    exact ⟨(latest_eq_some.1 (view_eq_some.1 h).1).1, by rw [h]; rfl⟩

theorem view_congr {t' : VersionTable κ ρ}
    (h : ∀ m, Admits b m → t.get? (k, m) = t'.get? (k, m)) : t.view live k b =
    t'.view live k b := by
  have hlatest : t.latest k b = t'.latest k b := by
    cases hl : t'.latest k b with
    | none =>
      refine latest_eq_none.2 fun m hm hadmits => latest_eq_none.1 hl m ?_ hadmits
      rwa [← h m hadmits]
    | some row =>
      obtain ⟨n, r⟩ := row
      obtain ⟨hget, hn, hmax⟩ := latest_eq_some.1 hl
      refine latest_eq_some.2 ⟨(h n hn).trans hget, hn, fun m hm hadmits => hmax m ?_ hadmits⟩
      rwa [← h m hadmits]
  rw [view, view, hlatest]

theorem view_of_le (hle : ∀ m, t.get? (k, m) ≠ none → m ≤ T) (hb : Admits b T) :
    t.view live k b = t.view live k none := by
  have hlatest : t.latest k b = t.latest k none := by
    cases hl : t.latest k none with
    | none => exact latest_eq_none.2 fun m hm => absurd admits_none (latest_eq_none.1 hl m hm)
    | some row =>
      obtain ⟨n, r⟩ := row
      have hget := (latest_eq_some.1 hl).1
      exact latest_of_latest hl (hb.mono (hle n (by simp [hget]))) fun _ _ => admits_none
  rw [view, view, hlatest]

theorem get?_putAll_current : (putAll .empty (t.current live)).get? (k, n) = some r ↔
    t.view live k none = some (n, r) := by
  constructor
  · intro h
    rcases mem_or_get?_of_putAll h with hmem | hget
    · exact mem_current.1 hmem
    · cases hget
  · intro h
    refine get?_putAll_eq_some (mem_current.2 h) fun r' hr' => ?_
    exact (Prod.mk.inj (Option.some.inj ((mem_current.1 hr').symm.trans h))).2

theorem view_putAll_current : (putAll .empty (t.current live)).view live k none =
    t.view live k none := by
  cases hview : t.view live k none with
  | none =>
    refine view_eq_none.2 fun m s hl => ?_
    have := get?_putAll_current.1 (latest_eq_some.1 hl).1
    rw [hview] at this
    cases this
  | some row =>
    refine view_eq_some.2 ⟨latest_eq_some.2 ⟨get?_putAll_current.2 hview, admits_none, ?_⟩,
      (view_eq_some.1 hview).2⟩
    intro m hm _
    obtain ⟨s, hs⟩ := ne_none_iff_exists'.1 hm
    have := (get?_putAll_current.1 hs).symm.trans hview
    exact Nat.le_of_eq (Prod.mk.inj (Option.some.inj this)).1

/-! ## Tables that grow -/

/-- No row is later than `F`. -/
def Within (t : VersionTable κ ρ) (F : Nat) : Prop := ∀ k n, t.get? (k, n) ≠ none → n ≤ F

theorem within_empty : Within (.empty : VersionTable κ ρ) F := fun _ _ h => absurd rfl h

theorem Within.mono {F' : Nat} (h : Within t F) (hle : F ≤ F') : Within t F' :=
  fun k n hn => Nat.le_trans (h k n hn) hle

theorem Within.putAll (h : Within t F) (hrows : ∀ row ∈ rows, row.1.2 ≤ F) :
    Within (t.putAll rows) F := by
  intro k n hn
  obtain ⟨r, hr⟩ := ne_none_iff_exists'.1 hn
  rcases mem_or_get?_of_putAll hr with hmem | hget
  · exact hrows _ hmem
  · exact h k n (by simp [hget])

theorem get?_putAll_of_lt (hrows : ∀ row ∈ rows, F < row.1.2) (hn : n ≤ F) :
    (t.putAll rows).get? (k, n) = t.get? (k, n) := by
  refine get?_putAll_of_forall_ne fun row hrow heq => ?_
  have := hrows row hrow
  rw [heq] at this
  exact absurd hn (Nat.not_le.2 this)

theorem view_putAll_of_lt {c : Nat} (hrows : ∀ row ∈ rows, F < row.1.2) (hc : c ≤ F) :
    (t.putAll rows).view live k (some c) = t.view live k (some c) :=
  view_congr fun _ hm => get?_putAll_of_lt hrows (Nat.le_trans (admits_some.1 hm) hc)

/-- Of the rows after `F`, the later ones are all there is. -/
theorem get?_putAll_of_gt {t' : VersionTable κ ρ} (ht : Within t F) (hn : F < n)
    (h : (t.putAll rows).get? (k, n) = some r) : (t'.putAll rows).get? (k, n) = some r := by
  have hnone : t.get? (k, n) = none := by
    by_contra hne
    exact absurd (ht k n hne) (Nat.not_le.2 hn)
  rw [get?_putAll, hnone, or_none] at h
  rw [get?_putAll, h]
  rfl

/-- The rows say what `H` has after `lo` up to `hi`, and nothing else. -/
def Spans (H : VersionTable κ ρ) (lo hi : Nat) (rows : List ((κ × Nat) × ρ)) : Prop :=
  ∀ k n r, (putAll .empty rows).get? (k, n) = some r ↔ H.get? (k, n) = some r ∧ lo < n ∧ n ≤ hi

namespace Spans

variable {lo hi : Nat}

theorem nil : Spans H F F [] := fun k n r => by
  constructor
  · intro h
    cases h
  · rintro ⟨-, hlt, hle⟩
    exact absurd hlt (Nat.not_lt.2 hle)

theorem get?_putAll_of_mem (h : Spans H lo hi rows) (hget : H.get? (k, n) = some r) (hlo : lo < n)
    (hhi : n ≤ hi) : (L.putAll rows).get? (k, n) = some r := by
  rw [get?_putAll_eq_or, (h k n r).2 ⟨hget, hlo, hhi⟩]
  rfl

theorem get?_putAll_of_le (h : Spans H lo hi rows) (hn : n ≤ lo) :
    (L.putAll rows).get? (k, n) = L.get? (k, n) := by
  have hnone : (putAll .empty rows).get? (k, n) = none := by
    by_contra hne
    obtain ⟨r, hr⟩ := ne_none_iff_exists'.1 hne
    exact absurd ((h k n r).1 hr).2.1 (Nat.not_lt.2 hn)
  rw [get?_putAll_eq_or, hnone]
  rfl

theorem of_putAll (h : Spans H lo hi rows) (hget : (L.putAll rows).get? (k, n) = some r) :
    (H.get? (k, n) = some r ∧ lo < n ∧ n ≤ hi) ∨ L.get? (k, n) = some r := by
  rw [get?_putAll_eq_or, or_eq_some_iff] at hget
  rcases hget with hget | ⟨-, hget⟩
  · exact .inl ((h k n r).1 hget)
  · exact .inr hget

end Spans

/-! ## Copies -/

/-- What may be said of `H` by a row: a live one is a row of `H`, a dead one stands where `H` has
nothing to show. -/
def Fits (live : ρ → Bool) (H : VersionTable κ ρ) (k : κ) (n : Nat) (r : ρ) : Prop :=
  if live r then H.get? (k, n) = some r else H.view live k (some n) = none

/-- Every row of `L` may be said of `H`. -/
def Sound (live : ρ → Bool) (H L : VersionTable κ ρ) : Prop :=
  ∀ k n r, L.get? (k, n) = some r → Fits live H k n r

theorem fits_self (h : H.get? (k, n) = some r) : Fits live H k n r := by
  rw [Fits]
  split
  · exact h
  · rename_i hdead
    refine view_eq_none.2 fun m s hl => ?_
    obtain ⟨hget, hm, hmax⟩ := latest_eq_some.1 hl
    obtain rfl : m = n := Nat.le_antisymm (admits_some.1 hm) (hmax n (by simp [h]) (by simp))
    cases hget.symm.trans h
    simpa using hdead

theorem Fits.get?_of_live (h : Fits live H k n r) (hr : live r = true) :
    H.get? (k, n) = some r := by
  rwa [Fits, if_pos hr] at h

theorem Fits.view_of_dead (h : Fits live H k n r) (hr : live r = false) :
    H.view live k (some n) = none := by
  rwa [Fits, if_neg (by simp [hr])] at h

namespace Sound

theorem self : Sound live H H := fun _ _ _ => fits_self

theorem putAll (h : Sound live H L) (hrows : ∀ k n r, ((k, n), r) ∈ rows → Fits live H k n r) :
    Sound live H (L.putAll rows) := fun k n r hget =>
  (mem_or_get?_of_putAll hget).elim (hrows k n r) (h k n r)

/-- A live row that the copy has is seen through the copy wherever it is seen through the table. -/
theorem view_eq_some (h : Sound live H L) (hview : H.view live k b = some (n, r))
    (hget : L.get? (k, n) = some r) : L.view live k b = some (n, r) := by
  obtain ⟨hlatest, hlive⟩ := VersionTable.view_eq_some.1 hview
  obtain ⟨hH, hn, hmax⟩ := latest_eq_some.1 hlatest
  refine VersionTable.view_eq_some.2 ⟨latest_eq_some.2 ⟨hget, hn, fun m hm hadmits => ?_⟩, hlive⟩
  obtain ⟨s, hs⟩ := ne_none_iff_exists'.1 hm
  have hfits := h k m s hs
  by_contra hlt
  cases hs : live s with
  | true => exact hlt (hmax m (by simp [hfits.get?_of_live hs]) hadmits)
  | false =>
    -- the table still shows the row at `m`
    have hlow : H.latest k (some m) = some (n, r) :=
      latest_below hlatest (by omega) hadmits
    have := view_eq_none.1 (hfits.view_of_dead hs) n r hlow
    rw [hlive] at this
    cases this

/-- Where the table shows nothing and the copy shows a row, the table has a later dead one. -/
theorem stale (h : Sound live H L) (hview : H.view live k b = none)
    (hL : L.view live k b = some (n, r)) :
    ∃ m s, H.latest k b = some (m, s) ∧ live s = false ∧ n < m := by
  obtain ⟨hlatest, hlive⟩ := VersionTable.view_eq_some.1 hL
  obtain ⟨hget, hn, -⟩ := latest_eq_some.1 hlatest
  have hH := (h k n r hget).get?_of_live hlive
  obtain ⟨m, s, hl, hle⟩ := exists_latest (t := H) (k := k) (n := n) (by simp [hH]) hn
  have hdead := view_eq_none.1 hview m s hl
  refine ⟨m, s, hl, hdead, Nat.lt_of_le_of_ne hle ?_⟩
  rintro rfl
  rw [Option.some.inj (hH.symm.trans (latest_eq_some.1 hl).1), hdead] at hlive
  cases hlive

end Sound

/-- A sound copy that shows at `P` what the table shows. -/
structure Copies (live : ρ → Bool) (H L : VersionTable κ ρ) (P : Nat) : Prop where
  sound : Sound live H L
  agrees : ∀ k, L.view live k (some P) = H.view live k (some P)

/-- A copy at `P` that got all the rows after `P` shows what the table shows, from `P` on. -/
theorem Copies.catchUp (h : Copies live H L P) {L' : VersionTable κ ρ} (hsound : Sound live H L')
    (hlow : ∀ k m, m ≤ P → L'.get? (k, m) = L.get? (k, m))
    (hhigh : ∀ k m r, P < m → Admits b m → H.get? (k, m) = some r → L'.get? (k, m) = some r)
    (hb : Admits b P) (k : κ) : L'.view live k b = H.view live k b := by
  cases hv : H.view live k b with
  | some row =>
    obtain ⟨n, r⟩ := row
    obtain ⟨hlatest, hlive⟩ := view_eq_some.1 hv
    refine hsound.view_eq_some hv ?_
    by_cases hle : n ≤ P
    · have hP : H.view live k (some P) = some (n, r) := view_eq_some.2
        ⟨latest_below hlatest hle hb, hlive⟩
      rw [← h.agrees k] at hP
      rw [hlow k n hle]
      exact (latest_eq_some.1 (view_eq_some.1 hP).1).1
    · exact hhigh k n r (by omega) (latest_eq_some.1 hlatest).2.1 (latest_eq_some.1 hlatest).1
  | none =>
    by_contra hne
    obtain ⟨⟨n, r⟩, hnew⟩ := ne_none_iff_exists'.1 hne
    obtain ⟨m, s, hl, hdead, hlt⟩ := hsound.stale hv hnew
    obtain ⟨hlatest, hlive⟩ := view_eq_some.1 hnew
    obtain ⟨hH, hm, -⟩ := latest_eq_some.1 hl
    by_cases hle : m ≤ P
    · -- both were there at `P`, where the copy is right
      have hP : H.view live k (some P) = none := by
        simp [VersionTable.view, latest_below hl hle hb, hdead]
      have hL : L.view live k (some P) = some (n, r) := by
        refine view_eq_some.2 ⟨?_, hlive⟩
        have hlow' : L'.latest k (some P) = some (n, r) :=
          latest_below hlatest (by omega) hb
        have hL' := latest_eq_some.1 hlow'
        refine latest_eq_some.2 ⟨(hlow k n (by omega)).symm.trans hL'.1, hL'.2.1,
          fun m' hm' hle' => ?_⟩
        exact hL'.2.2 m' (by rwa [hlow k m' (admits_some.1 hle')]) hle'
      rw [h.agrees k, hP] at hL
      cases hL
    · -- the copy has the dead row
      have hget := hhigh k m s (by omega) hm hH
      exact absurd ((latest_eq_some.1 hlatest).2.2 m (by simp [hget]) hm) (by omega)

/-- The rows are what the table shows at `F`. -/
def IsSnapshot (live : ρ → Bool) (H : VersionTable κ ρ) (F : Nat) (rows : List ((κ × Nat) × ρ)) :
    Prop :=
  ∀ k n r, ((k, n), r) ∈ rows ↔ H.view live k (some F) = some (n, r)

variable {snap : List ((κ × Nat) × ρ)}

theorem IsSnapshot.fits (h : IsSnapshot live H F snap) (hmem : ((k, n), r) ∈ snap) :
    Fits live H k n r :=
  fits_self (latest_eq_some.1 (view_eq_some.1 ((h k n r).1 hmem)).1).1

/-- Dead rows at the time of a snapshot, for all that the table shows and the snapshot does not.
None are needed where no row is dead. -/
structure Buries (live : ρ → Bool) (L : VersionTable κ ρ) (F : Nat)
    (snap dead : List ((κ × Nat) × ρ)) : Prop where
  buried : ∀ k n r, ((k, n), r) ∈ dead → n = F ∧ live r = false ∧ ∀ m s, ((k, m), s) ∉ snap
  all : ∀ k s, live s = false → L.view live k none ≠ none → (∀ m s, ((k, m), s) ∉ snap) →
    ∃ r, ((k, F), r) ∈ dead

variable {dead : List ((κ × Nat) × ρ)}

theorem Buries.fits (h : Buries live L F snap dead) (hsnap : IsSnapshot live H F snap)
    (hmem : ((k, n), r) ∈ dead) : Fits live H k n r := by
  obtain ⟨rfl, hlive, hnot⟩ := h.buried k n r hmem
  rw [Fits, hlive]
  by_contra hne
  obtain ⟨⟨m, s⟩, hms⟩ := ne_none_iff_exists'.1 hne
  exact hnot m s ((hsnap k m s).2 hms)

theorem Sound.putRestored (h : Sound live H L) (hsnap : IsSnapshot live H F snap)
    (hdead : Buries live L F snap dead) : Sound live H ((L.putAll dead).putAll snap) :=
  (h.putAll fun _ _ _ => hdead.fits hsnap).putAll fun _ _ _ => hsnap.fits

/-- A copy that got the rows of a snapshot, a dead row for each of its own live keys that are not
in the snapshot, and all the rows after the snapshot. -/
theorem Sound.restore {L' : VersionTable κ ρ}
    (hsnap : IsSnapshot live H F snap) (hsound : Sound live H L')
    (hrows : ∀ k m r, ((k, m), r) ∈ snap → L'.get? (k, m) = some r)
    (hkept : ∀ k m, L.get? (k, m) ≠ none → L'.get? (k, m) ≠ none)
    (hfrom : ∀ k m r, m ≤ F → L'.get? (k, m) = some r → live r = true →
      ((k, m), r) ∈ snap ∨ L.get? (k, m) = some r)
    (hdead : ∀ k s, live s = false → L.view live k none ≠ none → (∀ m r, ((k, m), r) ∉ snap) →
      L'.get? (k, F) ≠ none)
    (hhigh : ∀ k m r, F < m → Admits b m → H.get? (k, m) = some r → L'.get? (k, m) = some r)
    (hL : ∀ k m, L.get? (k, m) ≠ none → m ≤ T) (hF : Admits b F) (hT : Admits b T) (k : κ) :
    L'.view live k b = H.view live k b := by
  cases hv : H.view live k b with
  | some row =>
    obtain ⟨n, r⟩ := row
    obtain ⟨hlatest, hlive⟩ := VersionTable.view_eq_some.1 hv
    refine hsound.view_eq_some hv ?_
    by_cases hle : n ≤ F
    · refine hrows k n r ((hsnap k n r).2 (VersionTable.view_eq_some.2 ⟨?_, hlive⟩))
      exact latest_below hlatest hle hF
    · exact hhigh k n r (by omega) (latest_eq_some.1 hlatest).2.1 (latest_eq_some.1 hlatest).1
  | none =>
    by_contra hne
    obtain ⟨⟨n, r⟩, hnew⟩ := ne_none_iff_exists'.1 hne
    obtain ⟨m, s, hl, hs, hlt⟩ := hsound.stale hv hnew
    obtain ⟨hlatest, hlive⟩ := VersionTable.view_eq_some.1 hnew
    obtain ⟨hget, hn, hmax⟩ := latest_eq_some.1 hlatest
    obtain ⟨hH, hm, -⟩ := latest_eq_some.1 hl
    by_cases hle : m ≤ F
    · -- nothing is in the snapshot, so the row was in the copy before and got a dead one above it
      have hnone : H.view live k (some F) = none := by
        simp [VersionTable.view, latest_below hl hle hF, hs]
      have hnot : ∀ m r, ((k, m), r) ∉ snap := fun m r hmem => by
        have := (hsnap k m r).1 hmem
        rw [hnone] at this
        cases this
      have hold := (hfrom k n r (by omega) hget hlive).resolve_left (hnot n r)
      have hview : L.view live k none = some (n, r) := VersionTable.view_eq_some.2
        ⟨latest_eq_some.2 ⟨hold, admits_none, fun m' hm' _ =>
          hmax m' (hkept k m' hm') (hT.mono (hL k m' hm'))⟩, hlive⟩
      exact absurd (hmax F (hdead k s hs (by simp [hview]) hnot) hF) (by omega)
    · have hget' := hhigh k m s (by omega) hm hH
      exact absurd (hmax m (by simp [hget']) hm) (by omega)

/-- The same for the rows as they are put. -/
theorem Sound.view_restored {tail : List ((κ × Nat) × ρ)} (h : Sound live H L) (hL : Within L T)
    (hsnap : IsSnapshot live H F snap) (hdead : Buries live L F snap dead)
    (htail : Spans H F P tail) (hhigh : ∀ k m, F < m → Admits b m → H.get? (k, m) ≠ none → m ≤ P)
    (hF : Admits b F) (hT : Admits b T) :
    Sound live H (((L.putAll dead).putAll snap).putAll tail) ∧
      ∀ k, (((L.putAll dead).putAll snap).putAll tail).view live k b = H.view live k b := by
  have hsound : Sound live H (((L.putAll dead).putAll snap).putAll tail) := by
    intro k n r hget
    rcases htail.of_putAll hget with ⟨hH, -, -⟩ | hget
    · exact fits_self hH
    · exact h.putRestored hsnap hdead k n r hget
  refine ⟨hsound, fun k => Sound.restore (L := L) hsnap hsound ?_ (fun k m hm => get?_putAll_ne_none
    (get?_putAll_ne_none (get?_putAll_ne_none hm))) ?_ ?_ ?_ hL hF hT k⟩
  · intro k m r hr
    have hm : m ≤ F :=
      admits_some.1 (latest_eq_some.1 (VersionTable.view_eq_some.1 ((hsnap k m r).1 hr)).1).2.1
    rw [htail.get?_putAll_of_le hm]
    refine get?_putAll_eq_some hr fun r' hr' => ?_
    have heq := ((hsnap k m r).1 hr).symm.trans ((hsnap k m r').1 hr')
    cases heq
    rfl
  · intro k m r hm hget hlive
    rw [htail.get?_putAll_of_le hm] at hget
    rcases mem_or_get?_of_putAll hget with hmem | hget
    · exact .inl hmem
    · rcases mem_or_get?_of_putAll hget with hmem | hget
      · rw [(hdead.buried k m r hmem).2.1] at hlive
        cases hlive
      · exact .inr hget
  · intro k s hs hview hnot
    obtain ⟨r, hr⟩ := hdead.all k s hs hview hnot
    exact get?_putAll_ne_none (get?_putAll_ne_none (get?_putAll_of_mem hr))
  · exact fun k m r hm hadmits hget =>
      htail.get?_putAll_of_mem hget hm (hhigh k m hm hadmits (by simp [hget]))

theorem Sound.extend (h : Sound live H L) (hL : Within L F) (hrows : ∀ row ∈ rows, F < row.1.2) :
    Sound live (H.putAll rows) L := by
  intro k n r hget
  have hn : n ≤ F := hL k n (by simp [hget])
  have hfits := h k n r hget
  rw [Fits] at hfits ⊢
  rw [get?_putAll_of_lt hrows hn, view_putAll_of_lt hrows hn]
  exact hfits

/-- A table that shows what `H` shows at every timestamp from `since` on; neither has rows after
`F`. -/
structure Mirrors (live : ρ → Bool) (H L : VersionTable κ ρ) (since F : Nat) : Prop where
  sound : Sound live H L
  within : Within L F
  view_eq : ∀ k b, Admits b since → L.view live k b = H.view live k b

namespace Mirrors

variable {since : Nat}

theorem self (hH : Within H F) : Mirrors live H H since F := ⟨.self, hH, fun _ _ _ => rfl⟩

/-- What is seen in a mirror is a snapshot. -/
theorem isSnapshot_current (h : Mirrors live H L since F) (hH : Within H F) :
    IsSnapshot live H F (L.current live) := fun k n r => by
  rw [mem_current, h.view_eq k none admits_none, view_of_le (T := F) (b := some F) (hH k)
    (admits_some.2 (Nat.le_refl F))]

/-- Later rows on both sides. -/
theorem putAll {F' : Nat} (h : Mirrors live H L since F) (hH : Within H F) (hsince : since ≤ F)
    (hF : F ≤ F') (hrows : ∀ row ∈ rows, F < row.1.2 ∧ row.1.2 ≤ F') :
    Mirrors live (H.putAll rows) (L.putAll rows) since F' := by
  have hlt : ∀ row ∈ rows, F < row.1.2 := fun row hrow => (hrows row hrow).1
  have hcopies : Copies live (H.putAll rows) L F :=
    ⟨h.sound.extend h.within hlt, fun k => by
      rw [view_putAll_of_lt hlt (Nat.le_refl F)]
      exact h.view_eq k _ (admits_some.2 hsince)⟩
  have hsound : Sound live (H.putAll rows) (L.putAll rows) := by
    intro k n r hget
    by_cases hn : n ≤ F
    · rw [get?_putAll_of_lt hlt hn] at hget
      exact hcopies.sound k n r hget
    · exact fits_self (get?_putAll_of_gt h.within (Nat.lt_of_not_le hn) hget)
  refine ⟨hsound, (h.within.mono hF).putAll fun row hrow => (hrows row hrow).2, fun k b hb => ?_⟩
  by_cases hadmits : Admits b F
  · exact hcopies.catchUp hsound (fun k m hm => get?_putAll_of_lt hlt hm)
      (fun k m r hm _ => get?_putAll_of_gt hH hm) hadmits k
  · obtain ⟨c, rfl, hc⟩ : ∃ c, b = some c ∧ ¬F ≤ c := by
      simpa [Admits] using hadmits
    have hle : c ≤ F := Nat.le_of_not_le hc
    rw [view_putAll_of_lt hlt hle, view_putAll_of_lt hlt hle]
    exact h.view_eq k _ hb

/-- A copy of an earlier table that gets the rows of a snapshot, after dead rows at the time of the
snapshot for all it shows and the snapshot does not. -/
theorem restore (h : Sound live H L) (hH : Within H F) (hL : Within L F)
    (hsnap : IsSnapshot live H F snap) (hdead : Buries live L F snap dead) :
    Mirrors live H ((L.putAll dead).putAll snap) F F := by
  have hwithin : Within ((L.putAll dead).putAll snap) F := by
    refine (hL.putAll ?_).putAll ?_
    · rintro ⟨⟨k, n⟩, r⟩ hr
      exact Nat.le_of_eq (hdead.buried k n r hr).1
    · rintro ⟨⟨k, n⟩, r⟩ hr
      exact admits_some.1
        (latest_eq_some.1 (VersionTable.view_eq_some.1 ((hsnap k n r).1 hr)).1).2.1
  exact ⟨h.putRestored hsnap hdead, hwithin, fun k b hb =>
    (h.view_restored hL hsnap hdead .nil (fun k m _ _ hm => hH k m hm) hb hb).2 k⟩

end Mirrors

end VersionTable
