import Helipod.Transactor.Context
import Helipod.Values.Base64
import Mathlib.Tactic.Ring
import Mathlib.Tactic.NormNum

/-!
# Document ids

Model of `id-codec/src`: the string form of a document id is the base-32 text of
the table number as a varint, the sixteen bytes of the internal id and a Fletcher-16
checksum. Decoding accepts upper case and look-alike letters, so one id has many
spellings.

Results:
* `decodeDocumentId_encode`, `documentId_spellings`
* `base32Decode_encode`, `varintDecode_encode`: the parts read back.
* `isAscii_of_decodeDocumentId`: only strings of ASCII characters are decoded.
-/

namespace Helipod

open List

open Except (map_eq_ok bind_eq_ok)

/-- What `decodeDocumentId` and `encodeDocumentId` throw. -/
inductive DocumentIdError where
  | invalidCharacter (u : CodeUnit)
  | nonCanonicalPadding
  | invalidTableNumber
  | incorrectLength
  | checksumMismatch
  | internalIdLength (n : Nat)
  | varintOutOfRange (n : Nat)
  deriving DecidableEq

/-! ## Base 32 -/

def crockfordAlphabet : JsString := js "0123456789abcdefghjkmnpqrstvwxyz"

def toLower (u : CodeUnit) : CodeUnit :=
  if 65 ≤ u.val ∧ u.val ≤ 90 then codeUnit (u.val + 32) else u

/-- The table `DECODE`: both cases of the alphabet, and the look-alikes. -/
def decodeDigit (u : CodeUnit) : Option Nat :=
  if toLower u ∈ js "il" then some 1
  else if toLower u ∈ js "o" then some 0
  else crockfordAlphabet.idxOf? (toLower u)

def digitChar (d : Nat) : CodeUnit := crockfordAlphabet.getD d (codeUnit 0)

/-- The source shifts the bits through an accumulator, five at a time. -/
def base32Encode (bytes : Bytes) : JsString :=
  let (full, left) := Bits.groups 5 (bytes.flatMap byteBits)
  let last := if left.isEmpty then [] else [left ++ List.replicate (5 - left.length) false]
  (full ++ last).map fun g => digitChar (Bits.toNat g)

def decodeDigits : JsString → Except DocumentIdError (List Nat)
  | [] => .ok []
  | u :: us =>
    match decodeDigit u with
    | none => .error (.invalidCharacter u)
    | some d => (decodeDigits us).map (d :: ·)

/-- The bits left over must be zero. -/
def base32Decode (text : JsString) : Except DocumentIdError Bytes :=
  (decodeDigits text).bind fun digits =>
    let (full, left) := Bits.groups 8 (digits.flatMap (Bits.ofNat 5))
    if true ∈ left then .error .nonCanonicalPadding
    else .ok (full.map fun g => byte (Bits.toNat g))

/-! ## Varints -/

def uint32Max : Nat := 0xFFFFFFFF

/-- The groups of seven bits of a number, at most `fuel` of them; five are enough for a
uint32. -/
def varintGroups : Nat → Nat → Bytes
  | 0, _ => []
  | fuel + 1, n =>
    if 0 < n / 128 then byte (n % 128 + 128) :: varintGroups fuel (n / 128) else [byte (n % 128)]

def varintEncode (n : Nat) : Except DocumentIdError Bytes :=
  if uint32Max < n then .error (.varintOutOfRange n) else .ok (varintGroups 5 n)

/-- The loop of `varintDecode`, with its `result`, `shift` and number of bytes read. -/
def varintDecodeFrom (result shift read : Nat) : Bytes → Except DocumentIdError (Nat × Nat)
  | [] => .error .invalidTableNumber
  | b :: bs =>
    if b.val < 128 then
      if uint32Max < result + b.val * 2 ^ shift then .error .invalidTableNumber
      else .ok (result + b.val * 2 ^ shift, read + 1)
    else if 28 < shift + 7 then .error .invalidTableNumber
    else varintDecodeFrom (result + b.val % 128 * 2 ^ shift) (shift + 7) (read + 1) bs

def varintDecode (bytes : Bytes) : Except DocumentIdError (Nat × Nat) :=
  varintDecodeFrom 0 0 0 bytes

/-! ## Document ids -/

def internalIdBytes : Nat := 16

/-- The two sums of Fletcher-16; the checksum is `sum2 << 8 | sum1`. -/
def fletcherSums (bytes : Bytes) : Nat × Nat :=
  bytes.foldl (fun (s : Nat × Nat) b =>
    ((s.1 + b.val) % 255, (s.2 + (s.1 + b.val) % 255) % 255)) (0, 0)

def fletcher16 (bytes : Bytes) : Nat := (fletcherSums bytes).2 * 256 + (fletcherSums bytes).1

def encodeDocumentId (id : InternalDocumentId) : Except DocumentIdError JsString :=
  if id.internalId.length ≠ internalIdBytes then .error (.internalIdLength id.internalId.length)
  else
    (varintEncode id.tableNumber).map fun table =>
      let checksum := fletcher16 (table ++ id.internalId)
      base32Encode (table ++ id.internalId ++ [byte (checksum / 256), byte checksum])

def decodeDocumentId (encoded : JsString) : Except DocumentIdError InternalDocumentId :=
  (base32Decode encoded).bind fun bytes =>
    (varintDecode bytes).bind fun (tableNumber, bytesRead) =>
      if bytes.length ≠ bytesRead + internalIdBytes + 2 then .error .incorrectLength
      else
        let internalIdEnd := bytesRead + internalIdBytes
        let checksum := (bytes.getD internalIdEnd (byte 0)).val * 256 +
          (bytes.getD (internalIdEnd + 1) (byte 0)).val
        if fletcher16 (bytes.take internalIdEnd) ≠ checksum then .error .checksumMismatch
        else .ok ⟨tableNumber, (bytes.drop bytesRead).take internalIdBytes⟩

/-! ## Reading back -/

theorem decodeDigit_digitChar : ∀ d < 32, decodeDigit (digitChar d) = some d := by decide +kernel

theorem decodeDigits_map {ds : List Nat} (h : ∀ d ∈ ds, d < 32) :
    decodeDigits (ds.map digitChar) = .ok ds := by
  induction ds with
  | nil => rfl
  | cons d ds ih =>
    simp [decodeDigits, decodeDigit_digitChar d (h d mem_cons_self),
      ih fun e he => h e (mem_cons_of_mem _ he), Except.map]

theorem base32Encode_words (bytes : Bytes) :
    base32Encode bytes = (Bits.words 5 (bytes.flatMap byteBits)).map digitChar := by
  rw [Bits.words, map_map]
  rfl

theorem base32Decode_encode (bytes : Bytes) : base32Decode (base32Encode bytes) = .ok bytes := by
  obtain ⟨k, hk, hbits⟩ := Bits.words_bits (by decide : 0 < 5) (bytes.flatMap byteBits)
  have hds := decodeDigits_map fun d hd => Bits.lt_of_mem_words (by decide : 0 < 5)
    (l := bytes.flatMap byteBits) hd
  obtain ⟨hfull, hleft⟩ := groups_byteBits bytes (by omega : k < 8)
  simp [base32Encode_words, base32Decode, hds, Except.bind, hbits, hfull, hleft]

theorem byte_val {n : Nat} (h : n < 256) : (byte n).val = n := Nat.mod_eq_of_lt h

/-- The loop reads the groups of a number back, from any point of the loop on. -/
theorem varintDecodeFrom_groups (fuel result shift read : Nat) {n : Nat} (rest : Bytes)
    (hn : n < 128 ^ (fuel + 1)) (hshift : shift + 7 * fuel ≤ 28)
    (hmax : result + n * 2 ^ shift ≤ uint32Max) :
    varintDecodeFrom result shift read (varintGroups (fuel + 1) n ++ rest) =
      .ok (result + n * 2 ^ shift, read + (varintGroups (fuel + 1) n).length) := by
  induction fuel generalizing n result shift read with
  | zero =>
    have hlt : n < 128 := by simpa using hn
    have hdiv : ¬ 0 < n / 128 := by omega
    have hmod : n % 128 = n := Nat.mod_eq_of_lt hlt
    simp [varintGroups, hdiv, hmod, varintDecodeFrom, byte_val (by omega : n < 256), hlt,
      Nat.not_lt.2 hmax]
  | succ fuel ih =>
    rw [varintGroups]
    by_cases hdiv : 0 < n / 128
    · have hval : (byte (n % 128 + 128)).val = n % 128 + 128 := byte_val (by omega)
      have hnext : result + n % 128 * 2 ^ shift + n / 128 * 2 ^ (shift + 7) =
          result + n * 2 ^ shift := by
        conv_rhs => rw [← Nat.mod_add_div n 128]
        ring
      have hlt : n / 128 < 128 ^ (fuel + 1) := by
        rw [Nat.pow_succ] at hn
        exact Nat.div_lt_of_lt_mul (by rwa [Nat.mul_comm] at hn)
      have ih := ih (result + n % 128 * 2 ^ shift) (shift + 7) (read + 1) hlt (by omega)
        (hnext ▸ hmax)
      rw [if_pos hdiv, cons_append, varintDecodeFrom, hval, if_neg (by omega),
        if_neg (by omega), Nat.add_mod_right, Nat.mod_mod, ih, hnext, length_cons]
      congr 2
      omega
    · have hlt : n < 128 := by omega
      have hmod : n % 128 = n := Nat.mod_eq_of_lt hlt
      simp [hdiv, hmod, varintDecodeFrom, byte_val (by omega : n < 256), hlt, Nat.not_lt.2 hmax]

theorem varintDecode_encode {n : Nat} {bytes : Bytes} (h : varintEncode n = .ok bytes)
    (rest : Bytes) : varintDecode (bytes ++ rest) = .ok (n, bytes.length) := by
  unfold varintEncode at h
  split at h
  · simp at h
  · rename_i hn
    cases h
    have hlt : n < 128 ^ (4 + 1) := by
      unfold uint32Max at hn
      omega
    have := varintDecodeFrom_groups 4 0 0 0 rest hlt (by omega) (by simpa using hn)
    simpa [varintDecode] using this

theorem fletcher16_lt (bytes : Bytes) : fletcher16 bytes < 65536 := by
  have hsums : ∀ (bs : Bytes) (s : Nat × Nat), s.1 < 255 → s.2 < 255 →
      (bs.foldl (fun (s : Nat × Nat) b =>
        ((s.1 + b.val) % 255, (s.2 + (s.1 + b.val) % 255) % 255)) s).1 < 255 ∧
      (bs.foldl (fun (s : Nat × Nat) b =>
        ((s.1 + b.val) % 255, (s.2 + (s.1 + b.val) % 255) % 255)) s).2 < 255 := by
    intro bs
    induction bs with
    | nil => exact fun s h1 h2 => ⟨h1, h2⟩
    | cons b bs ih =>
      exact fun s _ _ => ih _ (Nat.mod_lt _ (by decide)) (Nat.mod_lt _ (by decide))
  have := hsums bytes (0, 0) (by decide) (by decide)
  unfold fletcher16 fletcherSums
  omega

theorem varintDecodeFrom_le {bytes : Bytes} : ∀ {result shift read n k : Nat},
    varintDecodeFrom result shift read bytes = .ok (n, k) → n ≤ uint32Max := by
  induction bytes with
  | nil => intro result shift read n k h; cases h
  | cons b bytes ih =>
    intro result shift read n k h
    rw [varintDecodeFrom] at h
    split at h
    · split at h
      · cases h
      · cases h
        omega
    · split at h
      · cases h
      · exact ih h

variable {id : InternalDocumentId} {s : JsString}

theorem encodeDocumentId_of_decode (h : decodeDocumentId s = .ok id) :
    ∃ s', encodeDocumentId id = .ok s' := by
  obtain ⟨bytes, -, h⟩ := bind_eq_ok.1 h
  obtain ⟨⟨tableNumber, bytesRead⟩, hvarint, h⟩ := bind_eq_ok.1 h
  dsimp only at h
  split at h
  · cases h
  · rename_i hlen
    split at h
    · cases h
    · cases h
      have hle : tableNumber ≤ uint32Max := varintDecodeFrom_le hvarint
      have hlen16 : ((bytes.drop bytesRead).take internalIdBytes).length = internalIdBytes := by
        simp only [length_take, length_drop]
        omega
      simp [encodeDocumentId, hlen16, varintEncode, Nat.not_lt.2 hle, Except.map]

theorem decodeDocumentId_encode (h : encodeDocumentId id = .ok s) :
    decodeDocumentId s = .ok id := by
  obtain ⟨tableNumber, internalId⟩ := id
  unfold encodeDocumentId at h
  split at h
  · simp at h
  · rename_i hlen
    have hlen : internalId.length = internalIdBytes := by simpa using hlen
    obtain ⟨table, hv, rfl⟩ := map_eq_ok.1 h
    have hck := fletcher16_lt (table ++ internalId)
    generalize hc : fletcher16 (table ++ internalId) = checksum at hck
    have hvar : varintDecode (table ++ internalId ++ [byte (checksum / 256), byte checksum]) =
        .ok (tableNumber, table.length) := by
      rw [append_assoc]
      exact varintDecode_encode hv _
    have hend : (table ++ internalId).length = table.length + internalIdBytes := by simp [hlen]
    have htake : (table ++ internalId ++ [byte (checksum / 256), byte checksum]).take
        (table.length + internalIdBytes) = table ++ internalId := by
      rw [← hend, take_left']
      rfl
    have hhi : ((table ++ internalId ++ [byte (checksum / 256), byte checksum]).getD
        (table.length + internalIdBytes) (byte 0)).val = checksum / 256 := by
      rw [← hend, getD_eq_getElem?_getD, getElem?_append_right (Nat.le_refl _),
        Nat.sub_self]
      exact byte_val (by omega)
    have hlo : ((table ++ internalId ++ [byte (checksum / 256), byte checksum]).getD
        (table.length + internalIdBytes + 1) (byte 0)).val = checksum % 256 := by
      rw [← hend, getD_eq_getElem?_getD, getElem?_append_right (by omega),
        Nat.add_sub_cancel_left]
      rfl
    have hdrop : ((table ++ internalId ++ [byte (checksum / 256), byte checksum]).drop
        table.length).take internalIdBytes = internalId := by
      rw [append_assoc, drop_left, ← hlen, take_left]
    have htotal : (table ++ internalId ++ [byte (checksum / 256), byte checksum]).length =
        table.length + internalIdBytes + 2 := by
      rw [length_append, hend]
      rfl
    simp only [decodeDocumentId, base32Decode_encode, Except.bind, hvar, htotal, htake, hdrop]
    rw [if_neg (by simp), if_neg (by omega)]

/-- The ids that some text decodes to are those of 16 bytes in a table of 32 bits. Each has a
canonical spelling, which decodes to it, and no two have the same. -/
theorem documentId_spellings (id : InternalDocumentId) :
    ((∃ s, decodeDocumentId s = .ok id) ↔
      id.internalId.length = internalIdBytes ∧ id.tableNumber ≤ uint32Max) ∧
    ((∃ s, decodeDocumentId s = .ok id) → ∃ s, encodeDocumentId id = .ok s ∧
      ∀ id', encodeDocumentId id' = .ok s ↔ id' = id) := by
  have hencode : (∃ s, encodeDocumentId id = .ok s) ↔
      id.internalId.length = internalIdBytes ∧ id.tableNumber ≤ uint32Max := by
    unfold encodeDocumentId varintEncode
    split
    · simp_all
    · split <;> simp_all [Except.map]
  refine ⟨⟨fun h => hencode.1 (h.elim fun _ hs => encodeDocumentId_of_decode hs), fun h => ?_⟩,
    fun h => ?_⟩
  · obtain ⟨s, hs⟩ := hencode.2 h
    exact ⟨s, decodeDocumentId_encode hs⟩
  · obtain ⟨s', hs'⟩ := h.elim fun _ hs => encodeDocumentId_of_decode hs
    refine ⟨s', hs', fun id' => ⟨fun h => ?_, fun h => h ▸ hs'⟩⟩
    have hsame := (decodeDocumentId_encode h).symm.trans (decodeDocumentId_encode hs')
    exact Except.ok.inj hsame

theorem isAscii_of_decodeDigits {ds : List Nat} (h : decodeDigits s = .ok ds) : IsAscii s := by
  have hdigit : ∀ {u : CodeUnit} {d : Nat}, decodeDigit u = some d → u.val < 0x80 := by
    intro u d hu
    have hmem : toLower u ∈ js "il" ++ js "o" ++ crockfordAlphabet := by
      unfold decodeDigit at hu
      split at hu
      · simp [*]
      · split at hu
        · simp [*]
        · refine mem_append_right _ ?_
          by_contra hno
          rw [idxOf?_eq_none_iff.2 hno] at hu
          simp at hu
    have hascii : (js "il" ++ js "o" ++ crockfordAlphabet).all (fun c => c.val < 0x80) = true := by
      decide +kernel
    have hlt := of_decide_eq_true (all_eq_true.1 hascii _ hmem)
    unfold toLower at hlt
    split at hlt <;> omega
  induction s generalizing ds with
  | nil => simp [IsAscii]
  | cons u s ih =>
    unfold decodeDigits at h
    split at h
    · simp at h
    · rename_i d hd
      obtain ⟨ds, hrest, -⟩ := map_eq_ok.1 h
      intro v hv
      rcases mem_cons.1 hv with rfl | hv
      · exact hdigit hd
      · exact ih hrest v hv

theorem isAscii_of_decodeDocumentId (h : decodeDocumentId s = .ok id) : IsAscii s := by
  obtain ⟨bytes, hbytes, -⟩ := bind_eq_ok.1 h
  obtain ⟨ds, hd, -⟩ := bind_eq_ok.1 hbytes
  exact isAscii_of_decodeDigits hd

end Helipod
