import Helipod.IndexKey
import Mathlib.Algebra.Order.Floor.Ring
import Mathlib.Data.Rat.Floor

/-!
# Jump consistent hash

Model of `id-codec/src/jump-hash.ts`. The quotient in the loop is any ratio of at least one that
depends on the state of the generator only; `exactRatio` is the one without rounding.

Result: `jump_moves_to_new`.
-/

namespace Helipod

/-- `0x80000000 / denom` for each state of the generator. -/
structure JumpRatio (R : Type) [Semiring R] [LE R] where
  ratio : BitVec 64 → R
  one_le : ∀ k, 1 ≤ ratio k

/-- One step of the 64-bit generator. -/
def lcgNext (k : BitVec 64) : BitVec 64 := k * BitVec.ofNat 64 2862933555777941757 + 1

def exactRatio : JumpRatio ℚ where
  ratio k := 0x80000000 / ((k >>> 33).toNat + 1 : Nat)
  one_le k := by
    have hlt : (k >>> 33).toNat + 1 ≤ 0x80000000 := by
      rw [BitVec.toNat_ushiftRight, Nat.shiftRight_eq_div_pow]
      omega
    rw [one_le_div (by positivity)]
    exact_mod_cast hlt

variable {R : Type} [Field R] [LinearOrder R] [IsStrictOrderedRing R] [FloorRing R]
  (q : JumpRatio R)
  {k : BitVec 64} {b n m : Nat}

namespace JumpRatio

/-- `floor((b + 1) * ratio)`. -/
def jump (k : BitVec 64) (b : Nat) : Nat := ⌊(b + 1 : R) * q.ratio k⌋₊

theorem lt_jump : b < q.jump k b := by
  refine Nat.le_floor ?_
  have hb : (0 : R) ≤ b + 1 := by positivity
  simpa using mul_le_mul_of_nonneg_left (q.one_le k) hb

/-- The loop, from an iteration with `j = b` on. Each jump leads further, so it ends. -/
def jumpLoop (n : Nat) (k : BitVec 64) (b : Nat) : Nat :=
  have := q.lt_jump (k := lcgNext k) (b := b)
  if q.jump (lcgNext k) b < n then jumpLoop n (lcgNext k) (q.jump (lcgNext k) b) else b
termination_by n - b

end JumpRatio

def jumpConsistentHash (key : Int) (buckets : Nat) : Except JsString Nat :=
  if buckets < 1 then .error (js s!"buckets must be >= 1, got {buckets}")
  else .ok (q.jumpLoop buckets (BitVec.ofInt 64 key) 0)

def fnv1a64 (bytes : Bytes) : BitVec 64 :=
  bytes.foldl (fun h b => (h ^^^ BitVec.ofNat 64 b) * BitVec.ofNat 64 0x100000001b3)
    (BitVec.ofNat 64 0xcbf29ce484222325)

/-- The slot of `shardIdForKeyValue`, for an encoded shard key. -/
def shardSlot (numShards : Nat) (key : Bytes) : Except JsString Nat :=
  jumpConsistentHash q (fnv1a64 key).toNat (max 1 numShards)

namespace JumpRatio

theorem le_jumpLoop : b ≤ q.jumpLoop n k b := by
  fun_induction jumpLoop with
  | case1 k b hlt _ ih => exact hlt.le.trans ih
  | case2 => exact le_rfl

theorem jumpLoop_lt (hb : b < n) : q.jumpLoop n k b < n := by
  fun_induction jumpLoop with
  | case1 k b _ hj ih => exact ih hj
  | case2 => exact hb

/-- More buckets: the loops go on together until a jump beyond the fewer ones. -/
theorem jumpLoop_grow (hnm : n ≤ m) : q.jumpLoop m k b = q.jumpLoop n k b ∨
    n ≤ q.jumpLoop m k b := by
  fun_induction q.jumpLoop n k b with
  | case1 k b _ hj ih =>
    rw [jumpLoop, if_pos (hj.trans_le hnm)]
    exact ih
  | case2 k b _ hj =>
    rw [jumpLoop]
    split
    · exact .inr ((not_lt.1 hj).trans q.le_jumpLoop)
    · exact .inl rfl

end JumpRatio

/-- Every key gets one of the `n` buckets, and of `m` buckets the same one or a new one; so does
every encoded shard key its slot. -/
theorem jump_moves_to_new (hn : 1 ≤ n) (hnm : n ≤ m) :
    (∀ key, ∃ b b', jumpConsistentHash q key n = .ok b ∧ b < n ∧
      jumpConsistentHash q key m = .ok b' ∧ b' < m ∧ (b' = b ∨ n ≤ b')) ∧
    ∀ key, ∃ s s', shardSlot q n key = .ok s ∧ s < n ∧ shardSlot q m key = .ok s' ∧
      s' < m ∧ (s' = s ∨ n ≤ s') := by
  refine (and_iff_left_of_imp fun hjump key => ?_).2 fun key => ?_
  · simp only [shardSlot, max_eq_right hn, max_eq_right (hn.trans hnm)]
    exact hjump _
  · exact ⟨_, _, if_neg hn.not_gt, q.jumpLoop_lt hn, if_neg (hn.trans hnm).not_gt,
      q.jumpLoop_lt (hn.trans hnm), q.jumpLoop_grow hnm⟩

/-- From two buckets to three with the exact quotient: the first jump is to 2, so the key moves. -/
theorem jump_moves_to_new_three :
    jumpConsistentHash exactRatio 3 2 = .ok 0 ∧ jumpConsistentHash exactRatio 3 3 = .ok 2 := by
  have hjump : exactRatio.jump (lcgNext (BitVec.ofInt 64 3)) 0 = 2 := by
    rw [JumpRatio.jump, Nat.cast_zero, zero_add, one_mul]
    exact (Rat.natFloor_natCast_div_natCast 0x80000000 _).trans (by decide)
  have hstay : exactRatio.jumpLoop 2 (BitVec.ofInt 64 3) 0 = 0 := by
    rw [JumpRatio.jumpLoop, hjump]
    rfl
  have hmove : 2 ≤ exactRatio.jumpLoop 3 (BitVec.ofInt 64 3) 0 := by
    rw [JumpRatio.jumpLoop, hjump]
    exact exactRatio.le_jumpLoop
  obtain ⟨b, b', hb, -, hb', hlt, -⟩ := (jump_moves_to_new exactRatio one_le_two
    (by decide : 2 ≤ 3)).1 3
  have hloop : exactRatio.jumpLoop 3 (BitVec.ofInt 64 3) 0 = b' := Except.ok.inj hb'
  refine ⟨congrArg Except.ok hstay, hb'.trans (congrArg Except.ok ?_)⟩
  omega

end Helipod
