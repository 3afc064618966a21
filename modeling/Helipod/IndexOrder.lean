import Helipod.IndexKey
import Mathlib.Tactic.Ring

/-!
# Index keys keep the order of values

The contract of `index-key-codec/src/encode.ts`: byte order of the encoded keys is the canonical
order of the tuples, element by element and with a proper prefix first.

A word is compared like the number it spells, and the encoded words of numbers and bigints are
shifted so that this is their order. A string or byte string is compared like its content, because
what follows its terminator, the next tag or the end, is below the byte that follows an escaped
zero.

Results: `compareKeyBytes_eq_compareTuples`.
-/

namespace Helipod

open List

/-! ## Byte order -/

theorem compareKeyBytes_append_left (p : Bytes) (r s : Bytes) :
    compareKeyBytes (p ++ r) (p ++ s) = compareKeyBytes r s := by
  induction p with
  | nil => rfl
  | cons b p ih => simp [ih]

variable {p q : Bytes} {v w : Value} {a b : Byte}

theorem compareKeyBytes_cons_lt (h : a < b) (r s : Bytes) :
    compareKeyBytes (a :: r) (b :: s) = .lt := by
  simp [h.ne, h]

theorem compareKeyBytes_cons_gt (h : b < a) (r s : Bytes) :
    compareKeyBytes (a :: r) (b :: s) = .gt := by
  simp [h.ne', h.not_gt]

/-- Of two parts of one length, the first difference decides. -/
theorem compareKeyBytes_append (hlen : p.length = q.length) (r s : Bytes) :
    compareKeyBytes (p ++ r) (q ++ s) = (compareKeyBytes p q).then (compareKeyBytes r s) := by
  induction p generalizing q with
  | nil =>
    obtain rfl := length_eq_zero_iff.1 hlen.symm
    rfl
  | cons a p ih =>
    cases q with
    | nil => simp at hlen
    | cons b q =>
      rcases lt_trichotomy a b with hlt | rfl | hgt
      · simp [hlt.ne, hlt]
      · simpa using ih (by simpa using hlen)
      · simp [hgt.ne', hgt.not_gt]

/-! ## Words -/

/-- The number that the bytes spell, most significant first. -/
def bigEndianValue : Bytes → Nat
  | [] => 0
  | b :: bytes => b.val * 256 ^ bytes.length + bigEndianValue bytes

theorem bigEndianValue_lt (bytes : Bytes) : bigEndianValue bytes < 256 ^ bytes.length := by
  induction bytes with
  | nil => simp [bigEndianValue]
  | cons b bytes ih =>
    have hb : b.val + 1 ≤ 256 := b.isLt
    calc b.val * 256 ^ bytes.length + bigEndianValue bytes
        < b.val * 256 ^ bytes.length + 256 ^ bytes.length := by omega
      _ = (b.val + 1) * 256 ^ bytes.length := by ring
      _ ≤ 256 * 256 ^ bytes.length := Nat.mul_le_mul_right _ hb
      _ = 256 ^ (bytes.length + 1) := by ring

/-- A greater digit outweighs all that follow. -/
theorem bigEndianValue_cons_lt (h : a < b) (hlen : p.length = q.length) :
    bigEndianValue (a :: p) < bigEndianValue (b :: q) := by
  have hp := bigEndianValue_lt p
  have hab : a.val + 1 ≤ b.val := h
  calc a.val * 256 ^ p.length + bigEndianValue p
      < a.val * 256 ^ p.length + 256 ^ p.length := by omega
    _ = (a.val + 1) * 256 ^ q.length := by rw [hlen]; ring
    _ ≤ b.val * 256 ^ q.length := Nat.mul_le_mul_right _ hab
    _ ≤ b.val * 256 ^ q.length + bigEndianValue q := Nat.le_add_right _ _

theorem compareKeyBytes_eq_compare (hlen : p.length = q.length) :
    compareKeyBytes p q = compare (bigEndianValue p) (bigEndianValue q) := by
  induction p generalizing q with
  | nil =>
    obtain rfl := length_eq_zero_iff.1 hlen.symm
    rfl
  | cons a p ih =>
    cases q with
    | nil => simp at hlen
    | cons b q =>
      have hlen' : p.length = q.length := by simpa using hlen
      rcases lt_trichotomy a b with hlt | rfl | hgt
      · rw [compareKeyBytes_cons_lt hlt, compare_lt_iff_lt.2 (bigEndianValue_cons_lt hlt hlen')]
      · rw [compareKeyBytes, if_pos rfl, ih hlen', bigEndianValue, bigEndianValue, hlen']
        rcases lt_trichotomy (bigEndianValue p) (bigEndianValue q) with h | h | h
        · rw [compare_lt_iff_lt.2 h, compare_lt_iff_lt.2 (by omega)]
        · rw [h, compare_eq_iff_eq.2 rfl, compare_eq_iff_eq.2 rfl]
        · rw [compare_gt_iff_gt.2 h, compare_gt_iff_gt.2 (by omega)]
      · rw [compareKeyBytes_cons_gt hgt, compare_gt_iff_gt.2
          (bigEndianValue_cons_lt hgt hlen'.symm)]

theorem bigEndianValue_bigEndian (x : BitVec 64) : bigEndianValue (bigEndian x) = x.toNat := by
  simp only [bigEndian, List.range, List.range.loop, map_cons, map_nil, bigEndianValue,
    length_cons, length_nil, byte, Fin.val_ofNat]
  omega

theorem compareKeyBytes_bigEndian (x y : BitVec 64) :
    compareKeyBytes (bigEndian x) (bigEndian y) = compare x.toNat y.toNat := by
  rw [compareKeyBytes_eq_compare ((length_bigEndian x).trans (length_bigEndian y).symm),
    bigEndianValue_bigEndian, bigEndianValue_bigEndian]

/-! ## Numbers -/

theorem xor_two_pow_of_lt {n : Nat} (h : n < 2 ^ 63) : n ^^^ 2 ^ 63 = 2 ^ 63 + n := by
  refine Nat.eq_of_testBit_eq fun i => ?_
  rw [Nat.testBit_xor, Nat.testBit_two_pow]
  rcases lt_trichotomy i 63 with hlt | rfl | hgt
  · rw [Nat.testBit_two_pow_add_gt hlt]
    simp [show ¬ 63 = i by omega]
  · rw [Nat.testBit_two_pow_add_eq, Nat.testBit_lt_two_pow h]
    rfl
  · have hlow : n.testBit i = false :=
      Nat.testBit_lt_two_pow (h.trans (Nat.pow_lt_pow_right (by omega) hgt))
    have hsum : (2 ^ 63 + n).testBit i = false :=
      Nat.testBit_lt_two_pow ((by omega : 2 ^ 63 + n < 2 ^ 64).trans_le
        (Nat.pow_le_pow_right (by omega) hgt))
    rw [hlow, hsum, Bool.false_xor, decide_eq_false (by omega)]

/-- Flipping the sign bit moves both halves of the words. -/
theorem toNat_xor_signBit (x : BitVec 64) :
    (x ^^^ signBit).toNat = if x.toNat < 2 ^ 63 then x.toNat + 2 ^ 63 else x.toNat - 2 ^ 63 := by
  have hsign : signBit.toNat = 2 ^ 63 := by decide
  rw [BitVec.toNat_xor, hsign]
  split
  · rename_i hlt
    rw [xor_two_pow_of_lt hlt, Nat.add_comm]
  · rename_i hge
    have hlt : x.toNat - 2 ^ 63 < 2 ^ 63 := by
      omega
    have hx : x.toNat = (x.toNat - 2 ^ 63) ^^^ 2 ^ 63 := by
      rw [xor_two_pow_of_lt hlt]
      omega
    conv_lhs => rw [hx]
    rw [Nat.xor_assoc, Nat.xor_self, Nat.xor_zero]

/-- The word that `encodeFloat64` writes. -/
def floatWord (x : Float64) : Nat :=
  if x.isNaN then 0xFFF8 * 2 ^ 48
  else if x.bits.toNat ≤ 2 ^ 63 then 2 ^ 63 + x.bits.toNat % 2 ^ 63
  else 2 ^ 64 - 1 - x.bits.toNat

theorem encodeFloat64_normalize (x : Float64) :
    ∃ word : BitVec 64, encodeFloat64 (normalizeNumber x) = bigEndian word ∧
      word.toNat = floatWord x := by
  unfold encodeFloat64 normalizeNumber
  refine ⟨_, rfl, ?_⟩
  have hnan : (canonicalNaN.bits.msb = false) ∧
    canonicalNaN.bits.toNat = 0x7FF8 * 2 ^ 48 := by decide
  by_cases hzero : x.bits = signBit
  · have hx : x = ⟨signBit⟩ := by
      exact congrArg Float64.mk hzero
    subst hx
    decide
  · rw [if_neg hzero, floatWord]
    by_cases hx : x.isNaN = true
    · rw [if_pos hx, if_pos hx, hnan.1, if_neg (by simp), toNat_xor_signBit, hnan.2]
      decide
    · rw [if_neg hx, if_neg hx]
      have hne : x.bits.toNat ≠ 2 ^ 63 := fun h => hzero (BitVec.eq_of_toNat_eq h)
      rw [BitVec.msb_eq_decide]
      by_cases hmsb : 2 ^ 63 ≤ x.bits.toNat
      · rw [if_pos (decide_eq_true hmsb), BitVec.toNat_not, if_neg (by omega)]
      · rw [if_neg (by simpa using hmsb), toNat_xor_signBit, if_pos (by omega), if_pos (by omega),
          Nat.mod_eq_of_lt (by omega), Nat.add_comm]

/-- The words of numbers are ordered like their signed magnitudes, below that of NaN. -/
theorem floatWord_eq {x : Float64} (h : x.isNaN = false) :
    (floatWord x : Int) = 2 ^ 63 + x.signedMagnitude - (if x.signedMagnitude < 0 then 1 else 0) ∧
      floatWord x < 0xFFF8 * 2 ^ 48 := by
  have hmsb : x.bits.msb = decide (2 ^ 63 ≤ x.bits.toNat) := BitVec.msb_eq_decide x.bits
  have hfinite : x.bits.toNat % 2 ^ 63 ≤ 0x7FF0 * 2 ^ 48 := by
    by_contra hbig
    have hexp : x.exponent = 2047 := by
      rw [Float64.exponent]
      omega
    have hfrac : x.fraction ≠ 0 := by
      rw [Float64.fraction]
      omega
    simp [Float64.isNaN, hexp, hfrac] at h
  rw [floatWord, h, Float64.signedMagnitude, Float64.isNegative, hmsb]
  by_cases hneg : 2 ^ 63 ≤ x.bits.toNat
  · by_cases hzero : x.bits.toNat = 2 ^ 63
    · simp [hzero]
    · simp only [Bool.false_eq_true, if_false, hneg, decide_true, if_true]
      rw [if_neg (by omega), if_pos (by omega)]
      omega
  · simp only [Bool.false_eq_true, if_false, hneg, decide_false]
    rw [if_pos (by omega), if_neg (by omega)]
    omega

theorem compare_congr {a b : Nat} {m n : Int} (hlt : a < b ↔ m < n) (hgt : b < a ↔ n < m) :
    compare a b = compare m n := by
  have heq : a = b ↔ m = n := by omega
  show compareOfLessAndEq a b = compareOfLessAndEq m n
  simp [compareOfLessAndEq, hlt, heq]

theorem compareKeyBytes_encodeFloat64 (x y : Float64) :
    compareKeyBytes (encodeFloat64 (normalizeNumber x)) (encodeFloat64 (normalizeNumber y)) =
      compareNumbers x y := by
  obtain ⟨wx, hx, hwx⟩ := encodeFloat64_normalize x
  obtain ⟨wy, hy, hwy⟩ := encodeFloat64_normalize y
  rw [hx, hy, compareKeyBytes_bigEndian, hwx, hwy, compareNumbers]
  cases hnx : x.isNaN with
  | true =>
    cases hny : y.isNaN with
    | true => simp [floatWord, hnx, hny]
    | false =>
      have hlt := (floatWord_eq hny).2
      have hword : floatWord x = 0xFFF8 * 2 ^ 48 := by simp [floatWord, hnx]
      exact compare_gt_iff_gt.2 (by omega)
  | false =>
    obtain ⟨hwordx, hltx⟩ := floatWord_eq hnx
    cases hny : y.isNaN with
    | true =>
      have hword : floatWord y = 0xFFF8 * 2 ^ 48 := by simp [floatWord, hny]
      exact compare_lt_iff_lt.2 (by omega)
    | false =>
      obtain ⟨hwordy, hlty⟩ := floatWord_eq hny
      refine compare_congr ?_ ?_ <;> split at hwordx <;> split at hwordy <;> omega

theorem compareKeyBytes_encodeInt64 {m n : Int} (hp : encodeInt64 m = .ok p)
    (hq : encodeInt64 n = .ok q) : compareKeyBytes p q = compare m n := by
  have hword : ∀ {n : Int} {p : Bytes}, encodeInt64 n = .ok p →
      ∃ word : BitVec 64, p = bigEndian word ∧ (word.toNat : Int) = n + 2 ^ 63 := by
    intro n p h
    unfold encodeInt64 at h
    split at h
    · cases h
    · rename_i hrange
      cases h
      refine ⟨_, rfl, ?_⟩
      simp only [int64Min, int64Max] at hrange
      have hnat : ((BitVec.ofInt 64 n).toNat : Int) = n % 2 ^ 64 := by
        rw [BitVec.toNat_ofInt]
        omega
      rw [toNat_xor_signBit]
      split <;> omega
  obtain ⟨wp, rfl, hwp⟩ := hword hp
  obtain ⟨wq, rfl, hwq⟩ := hword hq
  rw [compareKeyBytes_bigEndian]
  exact compare_congr (by omega) (by omega)

/-! ## Strings and byte strings -/

theorem pushEscaped_cons (b : Byte) (content : Bytes) :
    pushEscaped (b :: content) = escapeByte b ++ pushEscaped content := by
  simp [pushEscaped]

theorem byte_zero_lt {b : Byte} (h : b ≠ byte 0) : byte 0 < b := by
  have hval : b.val ≠ 0 := fun h0 => h (Fin.ext h0)
  exact Nat.pos_of_ne_zero hval

theorem compareKeyBytes_escapeByte (h : a < b) (r s : Bytes) :
    compareKeyBytes (escapeByte a ++ r) (escapeByte b ++ s) = .lt := by
  have hb : b ≠ byte 0 := by
    rintro rfl
    exact absurd h (Nat.not_lt_zero _)
  rw [escapeByte, escapeByte, if_neg hb]
  split
  · exact compareKeyBytes_cons_lt (byte_zero_lt hb) _ _
  · exact compareKeyBytes_cons_lt h _ _

/-- What can follow an element: the end of the key or the tag of the next element. -/
def NotEscape (rest : Bytes) : Prop := rest.head? ≠ some (byte 0xFF)

/-- What can follow an element in a key or in the end of a range: an escape byte is the last. -/
def Closing (rest : Bytes) : Prop := NotEscape rest ∨ rest = [byte 0xFF]

theorem lt_escape {c : Byte} (h : c ≠ byte 0xFF) : c < byte 0xFF := by
  have hval : c.val ≠ 255 := fun heq => h (Fin.ext heq)
  show c.val < 255
  omega

/-- A terminated string is below one that goes on. -/
theorem compareKeyBytes_terminated {r : Bytes} (hr : Closing r) (b : Byte) (content s : Bytes) :
    compareKeyBytes (byte 0 :: r) (pushEscaped (b :: content) ++ s) = .lt := by
  rw [pushEscaped_cons, escapeByte]
  by_cases hb : b = byte 0
  · rw [if_pos hb]
    rcases hr with hr | rfl
    · cases r with
      | nil => rfl
      | cons c r =>
        have hc : c < byte 0xFF := lt_escape (by simpa [NotEscape] using hr)
        simp only [cons_append, compareKeyBytes, if_true]
        rw [if_neg hc.ne, if_pos hc]
    · -- the string goes on after the escaped zero
      obtain ⟨c, rest, hrest⟩ : ∃ c rest, pushEscaped content ++ s = c :: rest :=
        exists_cons_of_ne_nil (by simp [pushEscaped])
      simp [hrest]
  · rw [if_neg hb]
    exact compareKeyBytes_cons_lt (byte_zero_lt hb) _ _

theorem compareKeyBytes_swap (a b : Bytes) : compareKeyBytes a b = (compareKeyBytes b a).swap := by
  induction a generalizing b with
  | nil => cases b <;> rfl
  | cons x a ih =>
    cases b with
    | nil => rfl
    | cons y b =>
      rcases lt_trichotomy x y with h | rfl | h
      · rw [compareKeyBytes_cons_lt h, compareKeyBytes_cons_gt h]
        rfl
      · simpa using ih b
      · rw [compareKeyBytes_cons_gt h, compareKeyBytes_cons_lt h]
        rfl

/-- The contents decide, then what follows. -/
theorem compareKeyBytes_pushEscaped (a b : Bytes) {r s : Bytes} (hr : Closing r) (hs : Closing s) :
    compareKeyBytes (pushEscaped a ++ r) (pushEscaped b ++ s) =
      (compareKeyBytes a b).then (compareKeyBytes r s) := by
  induction a generalizing b with
  | nil =>
    cases b with
    | nil => exact compareKeyBytes_append_left [byte 0] r s
    | cons y b => exact compareKeyBytes_terminated hr y b s
  | cons x a ih =>
    cases b with
    | nil =>
      rw [compareKeyBytes_swap]
      exact congrArg Ordering.swap (compareKeyBytes_terminated hs x a r)
    | cons y b =>
      rw [pushEscaped_cons, pushEscaped_cons, append_assoc, append_assoc]
      rcases lt_trichotomy x y with hlt | rfl | hgt
      · rw [compareKeyBytes_cons_lt hlt]
        exact compareKeyBytes_escapeByte hlt _ _
      · rw [compareKeyBytes_append_left, ih, compareKeyBytes, if_pos rfl]
      · rw [compareKeyBytes_cons_gt hgt, compareKeyBytes_swap]
        exact congrArg Ordering.swap (compareKeyBytes_escapeByte hgt _ _)

/-! ## Elements -/

/-- The values that an index key can have: scalars, with bigints that fit in 64 bits. -/
def Value.indexable : Value → Bool
  | .array _ | .object _ => false
  | .bigint n => int64Min ≤ n ∧ n ≤ int64Max
  | _ => true

theorem pushElement_ok_iff {v : Value} : (∃ e, pushElement (.value v) = .ok e) ↔
    v.indexable = true := by
  cases v with
  | null | number x | string s | bytes b | array xs | object fs =>
      simp [pushElement, Value.indexable]
  | bool b => cases b <;> simp [pushElement, Value.indexable]
  | bigint n =>
    simp only [pushElement, encodeInt64, Value.indexable, decide_eq_true_eq]
    split
    · rename_i hrange
      simp only [Except.map, reduceCtorEq, exists_false, false_iff]
      omega
    · rename_i hrange
      exact iff_of_true ⟨_, rfl⟩ (by omega)

theorem pushElement_bigint {n : Int} {e : Bytes} (h : pushElement (.value (.bigint n)) = .ok e) :
    ∃ p, encodeInt64 n = .ok p ∧ e = byte 5 :: p := by
  simp only [pushElement] at h
  cases hn : encodeInt64 n with
  | error err => simp [hn, Except.map] at h
  | ok p =>
    rw [hn] at h
    cases h
    exact ⟨p, rfl, rfl⟩

theorem length_encodeInt64 {n : Int} {p : Bytes} (h : encodeInt64 n = .ok p) : p.length = 8 := by
  unfold encodeInt64 at h
  split at h
  · cases h
  · cases h
    exact length_bigEndian _

/-- The first byte of an element. -/
def elementTag : Value → Byte
  | .null => byte 1
  | .bool b => if b then byte 3 else byte 2
  | .number _ => byte 4
  | .bigint _ => byte 5
  | .string _ => byte 6
  | .bytes _ => byte 7
  | _ => byte 0

theorem elementTag_of_pushElement {v : Value} {e : Bytes} (h : pushElement (.value v) = .ok e) :
    ∃ payload, e = elementTag v :: payload ∧ v.typeRank ≤ 5 := by
  cases v with
  | null => cases h; exact ⟨_, rfl, by decide⟩
  | bool b => cases b <;> cases h <;> exact ⟨_, rfl, by simp [Value.typeRank]⟩
  | number x | string s | bytes b => cases h; exact ⟨_, rfl, by simp [Value.typeRank]⟩
  | bigint n =>
    obtain ⟨p, -, rfl⟩ := pushElement_bigint h
    exact ⟨_, rfl, by simp [Value.typeRank]⟩
  | array xs => cases h
  | object fs => cases h

theorem elementTag_lt (h : v.typeRank < w.typeRank) (hw : w.typeRank ≤ 5) :
    elementTag v < elementTag w := by
  cases v <;> cases w <;> simp only [Value.typeRank] at h hw <;> first
    | omega
    | (simp only [elementTag]; decide)
    | (simp only [elementTag]; split <;> decide)

theorem compareValues_of_typeRank_lt (h : v.typeRank < w.typeRank) : compareValues v w = .lt := by
  cases v <;> cases w <;> simp only [Value.typeRank] at h <;> first | omega | rfl

theorem compareValues_of_typeRank_gt (h : w.typeRank < v.typeRank) : compareValues v w = .gt := by
  cases v <;> cases w <;> simp only [Value.typeRank] at h <;> first | omega | rfl

theorem compareKeyBytes_pushElement {e f r s : Bytes} (hv : pushElement (.value v) = .ok e)
    (hw : pushElement (.value w) = .ok f) (hr : Closing r) (hs : Closing s) :
    compareKeyBytes (e ++ r) (f ++ s) = (compareValues v w).then (compareKeyBytes r s) := by
  obtain ⟨p, rfl, hrankv⟩ := elementTag_of_pushElement hv
  obtain ⟨q, rfl, hrankw⟩ := elementTag_of_pushElement hw
  rcases lt_trichotomy v.typeRank w.typeRank with hlt | heq | hgt
  · rw [compareValues_of_typeRank_lt hlt]
    exact compareKeyBytes_cons_lt (elementTag_lt hlt hrankw) _ _
  · -- values of one type
    have hsame : ∀ {t : Byte} {p q : Bytes},
        compareKeyBytes (t :: p ++ r) (t :: q ++ s) = compareKeyBytes (p ++ r) (q ++ s) :=
      fun {t p q} => compareKeyBytes_append_left [t] (p ++ r) (q ++ s)
    cases v <;> cases w <;> simp only [Value.typeRank] at heq hrankv <;> try omega
    case null.null =>
      cases hv
      cases hw
      exact compareKeyBytes_append_left [byte 1] r s
    case bool.bool a b =>
      cases a <;> cases b <;> cases hv <;> cases hw
      · exact compareKeyBytes_append_left [byte 2] r s
      · exact compareKeyBytes_cons_lt (by decide) r s
      · exact compareKeyBytes_cons_gt (by decide) r s
      · exact compareKeyBytes_append_left [byte 3] r s
    case number.number x y =>
      cases hv
      cases hw
      have hlen : (encodeFloat64 (normalizeNumber x)).length =
        (encodeFloat64 (normalizeNumber y)).length :=
        (length_bigEndian _).trans (length_bigEndian _).symm
      refine hsame.trans ?_
      rw [compareKeyBytes_append hlen, compareKeyBytes_encodeFloat64]
      rfl
    case bigint.bigint m n =>
      obtain ⟨p', hp, hv⟩ := pushElement_bigint hv
      obtain ⟨q', hq, hw⟩ := pushElement_bigint hw
      rw [hv, hw]
      refine hsame.trans ?_
      rw [compareKeyBytes_append ((length_encodeInt64 hp).trans (length_encodeInt64 hq).symm),
        compareKeyBytes_encodeInt64 hp hq]
      rfl
    case string.string a b =>
      cases hv
      cases hw
      exact hsame.trans (compareKeyBytes_pushEscaped _ _ hr hs)
    case bytes.bytes a b =>
      cases hv
      cases hw
      exact hsame.trans (compareKeyBytes_pushEscaped _ _ hr hs)
  · rw [compareValues_of_typeRank_gt hgt]
    exact compareKeyBytes_cons_gt (elementTag_lt hgt hrankv) _ _

/-! ## Tuples -/

/-- Tuples in canonical order: the first elements that differ decide, and a proper prefix is first.
-/
@[simp] def compareTuples : List Value → List Value → Ordering
  | [], [] => .eq
  | [], _ :: _ => .lt
  | _ :: _, [] => .gt
  | v :: vs, w :: ws => (compareValues v w).then (compareTuples vs ws)

variable {vs : List Value}

theorem encodeIndexKey_ok_iff :
    (∃ k, encodeIndexKey (vs.map .value) = .ok k) ↔ ∀ v ∈ vs, v.indexable = true := by
  induction vs with
  | nil => simp [encodeIndexKey]
  | cons v vs ih =>
    rw [forall_mem_cons, ← ih, ← pushElement_ok_iff]
    constructor
    · rintro ⟨k, hk⟩
      obtain ⟨e, rest, he, hrest, -⟩ := encodeIndexKey_cons.1 hk
      exact ⟨⟨e, he⟩, rest, hrest⟩
    · rintro ⟨⟨e, he⟩, rest, hrest⟩
      exact ⟨e ++ rest, encodeIndexKey_cons.2 ⟨e, rest, he, hrest, rfl⟩⟩

theorem values_of_encodeIndexKey {vs : List JsValue} {k : Bytes} (h : encodeIndexKey vs = .ok k) :
    ∃ ws : List Value, vs = ws.map .value := by
  induction vs generalizing k with
  | nil => exact ⟨[], rfl⟩
  | cons v vs ih =>
    obtain ⟨e, rest, he, hrest, -⟩ := encodeIndexKey_cons.1 h
    obtain ⟨ws, rfl⟩ := ih hrest
    cases v with
    | value w => exact ⟨w :: ws, rfl⟩
    | undefined => cases he
    | function => cases he
    | objectPrototype => cases he

theorem elementTag_ne_escape (v : Value) : elementTag v ≠ byte 0xFF := by
  cases v with
  | bool b => cases b <;> decide
  | null | number | bigint | string | bytes | array | object =>
    simp only [elementTag]
    decide

theorem encodeIndexKey_notEscape {k : Bytes} (h : encodeIndexKey (vs.map .value) = .ok k) :
    NotEscape k := by
  cases vs with
  | nil =>
    cases h
    simp [NotEscape]
  | cons v vs =>
    obtain ⟨e, rest, he, -, rfl⟩ := encodeIndexKey_cons.1 h
    obtain ⟨payload, rfl, -⟩ := elementTag_of_pushElement he
    simpa [NotEscape] using elementTag_ne_escape v

theorem compareKeyBytes_encodeIndexKey {ws : List Value} {k l : Bytes}
    (hv : encodeIndexKey (vs.map .value) = .ok k) (hw : encodeIndexKey (ws.map .value) = .ok l) :
    compareKeyBytes k l = compareTuples vs ws := by
  induction vs generalizing ws k l with
  | nil =>
    cases hv
    cases ws with
    | nil =>
      cases hw
      rfl
    | cons w ws =>
      obtain ⟨e, rest, he, -, rfl⟩ := encodeIndexKey_cons.1 hw
      obtain ⟨payload, rfl, -⟩ := elementTag_of_pushElement he
      rfl
  | cons v vs ih =>
    obtain ⟨e, rest, he, hrest, rfl⟩ := encodeIndexKey_cons.1 hv
    cases ws with
    | nil =>
      cases hw
      obtain ⟨payload, rfl, -⟩ := elementTag_of_pushElement he
      rfl
    | cons w ws =>
      obtain ⟨f, rest', hf, hrest', rfl⟩ := encodeIndexKey_cons.1 hw
      rw [compareKeyBytes_pushElement he hf (.inl (encodeIndexKey_notEscape hrest))
        (.inl (encodeIndexKey_notEscape hrest')), ih hrest hrest', compareTuples]

theorem compareTuples_append {ws : List Value} (hlen : vs.length = ws.length)
    (vs' ws' : List Value) :
    compareTuples (vs ++ vs') (ws ++ ws') = (compareTuples vs ws).then (compareTuples vs' ws') := by
  induction vs generalizing ws with
  | nil =>
    obtain rfl := length_eq_zero_iff.1 hlen.symm
    rfl
  | cons v vs ih =>
    cases ws with
    | nil => simp at hlen
    | cons w ws =>
      rw [cons_append, cons_append, compareTuples, compareTuples, ih (by simpa using hlen)]
      cases compareValues v w <;> rfl

/-- For all tuples of indexable values, which are those that have keys: byte order of the keys is
the canonical order of the tuples, with a proper prefix first, and two keys are equal exactly if the
tuples compare equal. -/
theorem compareKeyBytes_eq_compareTuples {vs ws : List Value} (hv : ∀ v ∈ vs, v.indexable = true)
    (hw : ∀ w ∈ ws, w.indexable = true) :
    ∃ k l, encodeIndexKey (vs.map .value) = .ok k ∧ encodeIndexKey (ws.map .value) = .ok l ∧
      compareKeyBytes k l = compareTuples vs ws ∧ (k = l ↔ compareTuples vs ws = .eq) := by
  obtain ⟨k, hk⟩ := encodeIndexKey_ok_iff.2 hv
  obtain ⟨l, hl⟩ := encodeIndexKey_ok_iff.2 hw
  have horder := compareKeyBytes_encodeIndexKey hk hl
  exact ⟨k, l, hk, hl, horder, by rw [← horder, compareKeyBytes_eq_eq]⟩

/-- An array compares with values, but has no key. -/
theorem array_has_no_key : ¬∀ vs ws : List Value, ∃ k l, encodeIndexKey (vs.map .value) = .ok k ∧
    encodeIndexKey (ws.map .value) = .ok l ∧ compareKeyBytes k l = compareTuples vs ws := by
  intro h
  obtain ⟨k, -, hk, -⟩ := h [.array []] []
  cases hk

/-- A string, followed by another element, and the same string with a zero byte at its end. -/
theorem compareKeyBytes_eq_compareTuples_zero : ∃ k l,
    encodeIndexKey [.value (.string (js "a")), .value (.bytes [byte 0xFF])] = .ok k ∧
    encodeIndexKey [.value (.string (js "a" ++ [codeUnit 0]))] = .ok l ∧
      compareKeyBytes k l = .lt := by
  obtain ⟨k, l, hk, hl, horder, -⟩ := compareKeyBytes_eq_compareTuples
    (show ∀ v ∈ [Value.string (js "a"), .bytes [byte 0xFF]], v.indexable = true by decide)
    (show ∀ w ∈ [Value.string (js "a" ++ [codeUnit 0])], w.indexable = true by decide)
  exact ⟨k, l, hk, hl, horder.trans (by decide +kernel)⟩

end Helipod
