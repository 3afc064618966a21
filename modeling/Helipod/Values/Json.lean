import Helipod.Lib.OrderedMap
import Helipod.Values.Base64
import Mathlib.Algebra.Order.Group.Nat

/-!
# The JSON form of values

Model of `values/src/json.ts`: values as they are sent to clients. What JSON
cannot hold becomes an object with one tagged key, and keys that begin with `$`
get one more. A JSON value is a `Value` without bigints and byte strings, as the
source casts one to the other.

Result: `jsonToConvex_convexToJson`, a well-formed value is decoded from its JSON form.
-/

namespace Helipod

open List

/-! ## Model -/

def dollar : CodeUnit := codeUnit '$'.toNat

def startsWithDollar (key : JsString) : Bool := key.head? = some dollar

def escapeKey (key : JsString) : JsString := if startsWithDollar key then dollar :: key else key

/-- The eight bytes of a word, least significant first. -/
def littleEndian (x : BitVec 64) : Bytes :=
  (List.range 8).map fun i => byte (x.toNat / 2 ^ (8 * i))

def int64ToBytes (n : Int) : Bytes := littleEndian (BitVec.ofInt 64 n)

def float64ToBytes (x : Float64) : Bytes := littleEndian x.bits

def floatTag : JsString := js "$float"

def integerTag : JsString := js "$integer"

def bytesTag : JsString := js "$bytes"

/-- An object that stands for a value JSON does not have. -/
def tagged (tag : JsString) (bytes : Bytes) : Value :=
  .object [(tag, .string (bytesToBase64 bytes))]

mutual

def convexToJson : Value → Value
  | .number x => if x.isFinite then .number x else tagged floatTag (float64ToBytes x)
  | .bigint n => tagged integerTag (int64ToBytes n)
  | .bytes b => tagged bytesTag b
  | .array xs => .array (convexToJsonList xs)
  | .object fs => .object (convexToJsonFields fs)
  | v => v
  termination_by structural v => v

def convexToJsonList : List Value → List Value
  | [] => []
  | x :: xs => convexToJson x :: convexToJsonList xs
  termination_by structural xs => xs

/-- Two keys never become one, so each field stays where it is. -/
def convexToJsonFields : List (JsString × Value) → List (JsString × Value)
  | [] => []
  | (k, x) :: fs => (escapeKey k, convexToJson x) :: convexToJsonFields fs
  termination_by structural fs => fs

end

/-! ## Decoding -/

/-- A key that begins with two `$` loses one. -/
def unescapeKey (key : JsString) : JsString :=
  if startsWithDollar key && startsWithDollar (key.drop 1) then key.drop 1 else key

/-- The word of the first eight bytes, least significant first; fewer throw. -/
def wordOfBytes (bytes : Bytes) : Option (BitVec 64) :=
  if bytes.length < 8 then none
  else some (BitVec.ofNat 64 ((bytes.take 8).foldr (fun b n => b.val + 256 * n) 0))

def bytesToInt64 (bytes : Bytes) : Option Int := (wordOfBytes bytes).map BitVec.toInt

def bytesToFloat64 (bytes : Bytes) : Option Float64 := (wordOfBytes bytes).map Float64.mk

/-- What an object with one tagged key stands for; `none` if it stands for itself. -/
def untag (fields : List (JsString × Value)) : Option (Option Value) :=
  match fields with
  | [(key, .string raw)] =>
    if key = integerTag then
      some ((base64ToBytes raw).bind fun b => (bytesToInt64 b).map .bigint)
    else if key = floatTag then
      some ((base64ToBytes raw).bind fun b => (bytesToFloat64 b).map .number)
    else if key = bytesTag then some ((base64ToBytes raw).map .bytes)
    else none
  | _ => none

mutual

/-- `none` where the source throws. -/
def jsonToConvex : Value → Option Value
  | .null => some .null
  | .bool b => some (.bool b)
  | .number x => some (.number x)
  | .string s => some (.string s)
  | .array xs => (jsonToConvexList xs).map .array
  | .object fs =>
    match untag fs with
    | some v => v
    | none => (jsonToConvexFields [] fs).map .object
  | .bigint _ => none
  -- an `ArrayBuffer` has no enumerable keys
  | .bytes _ => some (.object [])
  termination_by structural v => v

def jsonToConvexList : List Value → Option (List Value)
  | [] => some []
  | x :: xs => (jsonToConvex x).bind fun v => (jsonToConvexList xs).map (v :: ·)
  termination_by structural xs => xs

/-- The loop over the entries, with the object built so far. -/
def jsonToConvexFields (out : List (JsString × Value)) :
    List (JsString × Value) → Option (List (JsString × Value))
  | [] => some out
  | (k, x) :: fs => (jsonToConvex x).bind fun v =>
    jsonToConvexFields (OrderedMap.setEntries (unescapeKey k) v out) fs
  termination_by structural fs => fs

end

/-! ## Plain values -/

open Value

/-! ## Decoding what was encoded -/

/-- No escaped key is a tag: a tag has one `$` in front. -/
theorem escapeKey_ne_tag (k : JsString) {u : CodeUnit} (hu : u ≠ dollar) (rest : JsString) :
    escapeKey k ≠ dollar :: u :: rest := by
  intro h
  unfold escapeKey at h
  split at h
  · rename_i hk
    obtain rfl := (List.cons.inj h).2
    exact hu (by simpa [startsWithDollar] using hk)
  · rename_i hk
    subst h
    simp [startsWithDollar] at hk

theorem untag_convexToJsonFields (fs : List (JsString × Value)) :
    untag (convexToJsonFields fs) = none := by
  match fs with
  | [] => rfl
  | [(k, x)] =>
    have hinteger : escapeKey k ≠ integerTag := escapeKey_ne_tag k (by decide) _
    have hfloat : escapeKey k ≠ floatTag := escapeKey_ne_tag k (by decide) _
    have hbytes : escapeKey k ≠ bytesTag := escapeKey_ne_tag k (by decide) _
    simp only [untag]
    split
    · rename_i h
      obtain ⟨rfl, -⟩ := Prod.mk.inj (List.cons.inj h).1
      rw [if_neg hinteger, if_neg hfloat, if_neg hbytes]
    · rfl
  | _ :: _ :: _ => simp [convexToJsonFields, untag]

/-! ## Round trip -/

namespace Value

mutual

/-- Bigints fit in 64 bits, and no object has a key twice. -/
def wellFormed : Value → Bool
  | .bigint n => -2 ^ 63 ≤ n ∧ n < 2 ^ 63
  | .array xs => wellFormedList xs
  | .object fs => (fs.map Prod.fst).Nodup ∧ wellFormedFields fs
  | _ => true
  termination_by structural v => v

def wellFormedList : List Value → Bool
  | [] => true
  | x :: xs => x.wellFormed && wellFormedList xs
  termination_by structural xs => xs

@[simp] def wellFormedFields : List (JsString × Value) → Bool
  | [] => true
  | (_, x) :: fs => x.wellFormed && wellFormedFields fs
  termination_by structural fs => fs

end

end Value

theorem wordOfBytes_littleEndian (x : BitVec 64) : wordOfBytes (littleEndian x) = some x := by
  have hval : ((littleEndian x).take 8).foldr (fun b n => b.val + 256 * n) 0 = x.toNat := by
    simp only [littleEndian, List.range, List.range.loop, map_cons, List.take,
      foldr_cons, foldr_nil, byte, Fin.val_ofNat]
    omega
  rw [wordOfBytes, if_neg (by simp [littleEndian]), hval]
  simp

theorem unescapeKey_escapeKey (k : JsString) : unescapeKey (escapeKey k) = k := by
  unfold escapeKey
  split
  · rename_i hk
    have hdouble : startsWithDollar (dollar :: k) = true := by simp [startsWithDollar]
    rw [unescapeKey, hdouble]
    simp [hk]
  · rename_i hk
    rw [unescapeKey, Bool.eq_false_iff.2 hk]
    rfl

mutual

theorem decodes_convexToJson : ∀ v : Value,
    ∃ u, jsonToConvex (convexToJson v) = some u ∧ (v.wellFormed = true → u = v)
  | .null | .bool _ | .string _ => ⟨_, rfl, fun _ => rfl⟩
  | .number x => by
    refine ⟨.number x, ?_, fun _ => rfl⟩
    rw [convexToJson]
    split
    · rfl
    · simp [tagged, jsonToConvex, untag, show floatTag ≠ integerTag by decide,
        base64ToBytes_bytesToBase64, bytesToFloat64, float64ToBytes, wordOfBytes_littleEndian]
  | .bigint n => by
    refine ⟨.bigint (BitVec.ofInt 64 n).toInt, ?_, fun h => ?_⟩
    · simp [convexToJson, tagged, jsonToConvex, untag, base64ToBytes_bytesToBase64, bytesToInt64,
        int64ToBytes, wordOfBytes_littleEndian]
    · obtain ⟨hlo, hhi⟩ := of_decide_eq_true h
      rw [BitVec.toInt_ofInt, Int.bmod_eq_of_le (by omega) (by omega)]
  | .bytes b => by
    simp [convexToJson, tagged, jsonToConvex, untag, show bytesTag ≠ integerTag by decide,
      show bytesTag ≠ floatTag by decide, base64ToBytes_bytesToBase64]
  | .array xs => by
    obtain ⟨us, hus, heq⟩ := decodes_convexToJsonList xs
    exact ⟨.array us, by rw [convexToJson, jsonToConvex, hus]; rfl, fun h => congrArg _ (heq h)⟩
  | .object fs => by
    obtain ⟨us, hus, heq⟩ := decodes_convexToJsonFields fs []
    refine ⟨.object us, ?_, fun h => ?_⟩
    · rw [convexToJson, jsonToConvex, untag_convexToJsonFields]
      exact congrArg (Option.map Value.object) hus
    · obtain ⟨hnodup, hfields⟩ := of_decide_eq_true h
      exact congrArg _ (heq hfields hnodup)
  termination_by structural v => v

theorem decodes_convexToJsonList : ∀ xs : List Value,
    ∃ us, jsonToConvexList (convexToJsonList xs) = some us ∧ (wellFormedList xs = true → us = xs)
  | [] => ⟨[], rfl, fun _ => rfl⟩
  | x :: xs => by
    obtain ⟨u, hu, hux⟩ := decodes_convexToJson x
    obtain ⟨us, hus, husx⟩ := decodes_convexToJsonList xs
    refine ⟨u :: us, ?_, fun h => ?_⟩
    · rw [convexToJsonList, jsonToConvexList, hu, Option.bind_some, hus]
      rfl
    · obtain ⟨hx, hxs⟩ := (Bool.and_eq_true _ _).mp h
      rw [hux hx, husx hxs]
  termination_by structural xs => xs

theorem decodes_convexToJsonFields : ∀ fs out : List (JsString × Value),
    ∃ us, jsonToConvexFields out (convexToJsonFields fs) = some us ∧
      (wellFormedFields fs = true → ((out ++ fs).map Prod.fst).Nodup → us = out ++ fs)
  | [], out => ⟨out, rfl, fun _ _ => (append_nil out).symm⟩
  | (k, x) :: fs, out => by
    obtain ⟨u, hu, hux⟩ := decodes_convexToJson x
    obtain ⟨us, hus, heq⟩ := decodes_convexToJsonFields fs (OrderedMap.setEntries k u out)
    refine ⟨us, ?_, fun h hnodup => ?_⟩
    · rw [convexToJsonFields, jsonToConvexFields, hu, Option.bind_some, unescapeKey_escapeKey]
      exact hus
    · obtain ⟨hx, hfs⟩ := (Bool.and_eq_true _ _).mp h
      have hnew : k ∉ out.map Prod.fst := by
        rw [map_append, map_cons] at hnodup
        exact fun hk => (nodup_append.1 hnodup).2.2 k hk k mem_cons_self rfl
      rw [hux hx, OrderedMap.setEntries_of_not_mem hnew, append_assoc] at heq
      exact heq hfs hnodup
  termination_by structural fs => fs

end

theorem jsonToConvex_convexToJson (v : Value) (h : v.wellFormed = true) :
    jsonToConvex (convexToJson v) = some v := by
  obtain ⟨u, hu, huv⟩ := decodes_convexToJson v
  rw [hu, huv h]

/-- A value is decoded from its JSON form, so values that differ have different forms. -/
theorem json_form_faithful {v w : Value} (hv : v.wellFormed = true) (hw : w.wellFormed = true) :
    (∃ u, jsonToConvex (convexToJson v) = some u ∧ compareValues u v = .eq) ∧
      (compareValues v w ≠ .eq → convexToJson v ≠ convexToJson w) := by
  have hback := jsonToConvex_convexToJson v hv
  refine ⟨⟨v, hback, compareValues_self v⟩, fun hne heq => hne ?_⟩
  rw [heq, jsonToConvex_convexToJson w hw] at hback
  cases hback
  exact compareValues_self v

/-- A document with a key that looks like a tag is not taken for a bigint. -/
theorem json_form_faithful_tag :
    let v : Value := .object [(js "$integer", .string (js "AAAAAAAAAAA=")),
      (js "__proto__", .bigint 1)]
    let w : Value := .object [(js "$integer", .bigint 0), (js "__proto__", .bigint 1)]
    convexToJson v ≠ convexToJson w :=
  (json_form_faithful (by decide +kernel) (by decide +kernel)).2 (by decide +kernel)

/-! ## Comparing a value with its JSON form -/

variable {fs : List (JsString × Value)}

end Helipod
