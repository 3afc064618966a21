import Mathlib.Algebra.Group.Nat.Defs
import Mathlib.Data.List.Induction

/-!
# Regrouping bits

Numbers as lists of bits, most significant first, and lists cut into groups of
one length: what the base-32 and base-64 codecs are made of.

Results:
* `flatMap_ofNat_inj`
* `toNat_ofNat`, `ofNat_toNat`: bits and numbers correspond.
* `flatten_groups`: cutting loses nothing.
* `words_bits`: the words of a list of bits are its bits, filled up with zeros.
-/

namespace Bits

open List

/-- The `w` low bits of a number. -/
def ofNat : Nat → Nat → List Bool
  | 0, _ => []
  | w + 1, n => ofNat w (n / 2) ++ [decide (n % 2 = 1)]

def toNat (bits : List Bool) : Nat := bits.foldl (fun n b => 2 * n + b.toNat) 0

@[simp] theorem length_ofNat (w n : Nat) : (ofNat w n).length = w := by
  induction w generalizing n with
  | zero => rfl
  | succ w ih => simp [ofNat, ih]

theorem toNat_concat (bits : List Bool) (b : Bool) :
    toNat (bits ++ [b]) = 2 * toNat bits + b.toNat := by
  simp [toNat]

variable {w : Nat}

theorem toNat_ofNat {n : Nat} (h : n < 2 ^ w) : toNat (ofNat w n) = n := by
  induction w generalizing n with
  | zero =>
    have : n = 0 := by simpa using h
    simp [this, ofNat, toNat]
  | succ w ih =>
    have hhalf : n / 2 < 2 ^ w := by
      omega
    rw [ofNat, toNat_concat, ih hhalf]
    rcases Nat.mod_two_eq_zero_or_one n with hm | hm <;> simp [hm] <;> omega

theorem toNat_lt (bits : List Bool) : toNat bits < 2 ^ bits.length := by
  induction bits using List.reverseRecOn with
  | nil => simp [toNat]
  | append_singleton bits b ih =>
    rw [toNat_concat, length_append, length_singleton, Nat.pow_succ]
    have := Bool.toNat_lt b
    omega

theorem ofNat_toNat (bits : List Bool) : ofNat bits.length (toNat bits) = bits := by
  induction bits using List.reverseRecOn with
  | nil => rfl
  | append_singleton bits b ih =>
    rw [length_append, length_singleton, ofNat, toNat_concat]
    have hdiv : (2 * toNat bits + b.toNat) / 2 = toNat bits := by
      have := Bool.toNat_lt b
      omega
    rw [hdiv, ih]
    cases b <;> simp

theorem ofNat_inj {m n : Nat} (hm : m < 2 ^ w) (hn : n < 2 ^ w) (h : ofNat w m = ofNat w n) :
    m = n := by
  rw [← toNat_ofNat hm, ← toNat_ofNat hn, h]

/-! ## Groups -/

section Groups

variable {α : Type*}

/-- The first `k` groups of `w`, and what is left. -/
def cut (w : Nat) : Nat → List α → List (List α) × List α
  | 0, l => ([], l)
  | k + 1, l => (l.take w :: (cut w k (l.drop w)).1, (cut w k (l.drop w)).2)

/-- All full groups of `w`, and what is left. -/
def groups (w : Nat) (l : List α) : List (List α) × List α := cut w (l.length / w) l

theorem flatten_cut (w k : Nat) (l : List α) : (cut w k l).1.flatten ++ (cut w k l).2 = l := by
  induction k generalizing l with
  | zero => rfl
  | succ k ih =>
    rw [cut, flatten_cons, append_assoc, ih]
    exact take_append_drop w l

theorem length_of_mem_cut {k : Nat} {l : List α} (h : w * k ≤ l.length) :
    ∀ g ∈ (cut w k l).1, g.length = w := by
  induction k generalizing l with
  | zero => simp [cut]
  | succ k ih =>
    have hle : w * k + w ≤ l.length := by rwa [Nat.mul_succ] at h
    intro g hg
    rcases mem_cons.1 hg with rfl | hg
    · simp
      omega
    · exact ih (by simp; omega) g hg

theorem length_cut_snd {k : Nat} {l : List α} : (cut w k l).2.length = l.length - w * k := by
  induction k generalizing l with
  | zero => simp [cut]
  | succ k ih =>
    rw [cut, ih, length_drop, Nat.mul_succ]
    omega

theorem flatten_groups (w : Nat) (l : List α) : (groups w l).1.flatten ++ (groups w l).2 = l :=
  flatten_cut w _ l

theorem length_of_mem_groups {l g : List α} (hg : g ∈ (groups w l).1) : g.length = w :=
  length_of_mem_cut (Nat.mul_div_le _ _) g hg

theorem length_groups_snd (hw : 0 < w) (l : List α) : (groups w l).2.length < w := by
  rw [groups, length_cut_snd]
  have := Nat.div_add_mod l.length w
  have := Nat.mod_lt l.length hw
  omega

end Groups

/-- Words of one width are determined by their bits. -/
theorem flatMap_ofNat_inj (hw : 0 < w) {ms ns : List Nat} (hm : ∀ m ∈ ms, m < 2 ^ w)
    (hn : ∀ n ∈ ns, n < 2 ^ w) (h : ms.flatMap (ofNat w) = ns.flatMap (ofNat w)) : ms = ns := by
  induction ms generalizing ns with
  | nil =>
    cases ns with
    | nil => rfl
    | cons n ns =>
      have := congrArg List.length h
      simp at this
      omega
  | cons m ms ih =>
    cases ns with
    | nil =>
      have := congrArg List.length h
      simp at this
      omega
    | cons n ns =>
      obtain ⟨hhead, htail⟩ := append_inj (by simpa using h) (by simp)
      rw [ofNat_inj (hm m mem_cons_self) (hn n mem_cons_self) hhead,
        ih (fun x hx => hm x (mem_cons_of_mem _ hx))
          (fun x hx => hn x (mem_cons_of_mem _ hx)) htail]

/-- The words of groups of one length, read back as bits. -/
theorem flatMap_ofNat_toNat {gs : List (List Bool)} (h : ∀ g ∈ gs, g.length = w) :
    (gs.map toNat).flatMap (ofNat w) = gs.flatten := by
  have hmap : gs.map (fun g => ofNat w (toNat g)) = gs := by
    refine (map_congr_left fun g hg => ?_).trans (map_id _)
    rw [← h g hg]
    exact ofNat_toNat g
  rw [flatMap_def, map_map]
  exact congrArg List.flatten hmap

/-! ## Words -/

/-- The groups of `w` bits, the last one filled up with zeros. -/
def padded (w : Nat) (l : List Bool) : List (List Bool) :=
  let (full, left) := groups w l
  let last := if left.isEmpty then [] else [left ++ List.replicate (w - left.length) false]
  full ++ last

def words (w : Nat) (l : List Bool) : List Nat := (padded w l).map toNat

theorem length_of_mem_padded (hw : 0 < w) {l g : List Bool} (hg : g ∈ padded w l) :
    g.length = w := by
  have hleft := length_groups_snd hw l
  rcases mem_append.1 hg with hg | hg
  · exact length_of_mem_groups hg
  · split at hg
    · exact absurd hg not_mem_nil
    · rw [mem_singleton.1 hg, length_append, length_replicate]
      exact Nat.add_sub_of_le (Nat.le_of_lt hleft)

theorem lt_of_mem_words (hw : 0 < w) {l : List Bool} {n : Nat} (hn : n ∈ words w l) :
    n < 2 ^ w := by
  obtain ⟨g, hg, rfl⟩ := mem_map.1 hn
  rw [← length_of_mem_padded hw hg]
  exact toNat_lt g

theorem words_bits (hw : 0 < w) (l : List Bool) :
    ∃ k < w, (words w l).flatMap (ofNat w) = l ++ List.replicate k false := by
  have hflat : (words w l).flatMap (ofNat w) = (padded w l).flatten :=
    flatMap_ofNat_toNat fun _ hg => length_of_mem_padded hw hg
  have hcut := flatten_groups w l
  have hleft := length_groups_snd hw l
  rw [hflat, padded]
  generalize groups w l = cut at hcut hleft
  obtain ⟨full, left⟩ := cut
  cases left with
  | nil => exact ⟨0, hw, by simpa using hcut⟩
  | cons b left =>
    refine ⟨w - (b :: left).length, ?_, ?_⟩
    · simp only [length_cons]
      omega
    · rw [← hcut]
      simp

end Bits
