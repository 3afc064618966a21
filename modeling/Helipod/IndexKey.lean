import Helipod.Values.Value

/-!
# Index keys

Model of `index-key-codec/src/encode.ts`: the order-preserving binary form of a
tuple of field values. Each element is a tag and a payload; strings and byte
strings are escaped and terminated, so that an element ends where the next one
starts.
-/

namespace Helipod

/-- What `pushElement` throws. -/
inductive EncodeError where
  | notScalar
  | cannotEncodeFunction
  | cannotEncodeUndefined
  | bigintOutOfRange (value : Int)
  deriving DecidableEq

/-! ## Model -/

/-- The eight bytes of a word, most significant first. -/
def bigEndian (x : BitVec 64) : Bytes :=
  (List.range 8).map fun i => byte (x.toNat / 2 ^ (8 * (7 - i)))

def signBit : BitVec 64 := BitVec.ofNat 64 (2 ^ 63)

def canonicalNaN : Float64 := ⟨BitVec.ofNat 64 (0x7FF8 * 2 ^ 48)⟩

/-- `-0` is encoded as `0`. -/
def normalizeNumber (x : Float64) : Float64 := if x.bits = signBit then ⟨0⟩ else x

/-- Negative numbers have all bits flipped, the others the sign bit. -/
def encodeFloat64 (x : Float64) : Bytes :=
  let bits := if x.isNaN then canonicalNaN.bits else x.bits
  bigEndian (if bits.msb then ~~~bits else bits ^^^ signBit)

def int64Min : Int := -2 ^ 63
def int64Max : Int := 2 ^ 63 - 1

def encodeInt64 (n : Int) : Except EncodeError Bytes :=
  if n < int64Min ∨ int64Max < n then .error (.bigintOutOfRange n)
  else .ok (bigEndian (BitVec.ofInt 64 n ^^^ signBit))

def escapeByte (b : Byte) : Bytes := if b = byte 0 then [byte 0, byte 0xFF] else [b]

def pushEscaped (bytes : Bytes) : Bytes := bytes.flatMap escapeByte ++ [byte 0]

def pushElement : JsValue → Except EncodeError Bytes
  | .value .null => .ok [byte 1]
  | .value (.bool false) => .ok [byte 2]
  | .value (.bool true) => .ok [byte 3]
  | .value (.number x) => .ok (byte 4 :: encodeFloat64 (normalizeNumber x))
  | .value (.bigint n) => (encodeInt64 n).map (byte 5 :: ·)
  | .value (.string s) => .ok (byte 6 :: pushEscaped (utf8Encode s))
  | .value (.bytes b) => .ok (byte 7 :: pushEscaped b)
  | .value (.array _) | .value (.object _) | .objectPrototype => .error .notScalar
  | .function => .error .cannotEncodeFunction
  | .undefined => .error .cannotEncodeUndefined

def encodeIndexKey : List JsValue → Except EncodeError Bytes
  | [] => .ok []
  | v :: vs => do
    let element ← pushElement v
    let rest ← encodeIndexKey vs
    return element ++ rest

theorem length_bigEndian (x : BitVec 64) : (bigEndian x).length = 8 := by simp [bigEndian]

theorem encodeIndexKey_cons {v : JsValue} {vs : List JsValue} {k : Bytes} :
    encodeIndexKey (v :: vs) = .ok k ↔
      ∃ e rest, pushElement v = .ok e ∧ encodeIndexKey vs = .ok rest ∧ k = e ++ rest := by
  cases he : pushElement v with
  | error err => simp [encodeIndexKey, he, bind, Except.bind]
  | ok e =>
    cases hr : encodeIndexKey vs with
    | error err => simp [encodeIndexKey, he, hr, bind, Except.bind]
    | ok rest =>
      simp only [encodeIndexKey, he, hr, bind, Except.bind, pure, Except.pure, Except.ok.injEq]
      constructor
      · rintro rfl
        exact ⟨e, rest, rfl, rfl, rfl⟩
      · rintro ⟨_, _, rfl, rfl, rfl⟩
        rfl

end Helipod
