import Helipod.Lib.Bits
import Helipod.Lib.Results
import Helipod.Values.Value

/-!
# Bytes as text

The bits of byte strings, which the base-32 text of document ids and base 64 both
regroup, and base 64 as `btoa` and `atob` have it (`bytesToBase64` and
`base64ToBytes` of `values/src/json.ts` and `index-key-codec`).

Results:
* `groups_byteBits`
* `base64ToBytes_bytesToBase64`: base-64 text reads back.
-/

namespace Helipod

open Bits List

def byteBits (b : Byte) : List Bool := Bits.ofNat 8 b.val

theorem flatMap_byteBits (bytes : Bytes) :
    bytes.flatMap byteBits = (bytes.map Fin.val).flatMap (Bits.ofNat 8) := by
  rw [flatMap_map]
  rfl

theorem length_flatMap_byteBits (bytes : Bytes) :
    (bytes.flatMap byteBits).length = 8 * bytes.length := by
  induction bytes with
  | nil => rfl
  | cons b bytes ih =>
    simp only [flatMap_cons, length_append, byteBits, length_ofNat, length_cons]
    omega

/-- Cutting the bits of bytes and fewer than eight zeros into bytes gives the bytes and the
zeros. -/
theorem groups_byteBits (bytes : Bytes) {k : Nat} (hk : k < 8) :
    (Bits.groups 8 (bytes.flatMap byteBits ++ List.replicate k false)).1.map
        (fun g => byte (Bits.toNat g)) = bytes ∧
      (Bits.groups 8 (bytes.flatMap byteBits ++ List.replicate k false)).2 =
        List.replicate k false := by
  have hcut := flatten_groups 8 (bytes.flatMap byteBits ++ List.replicate k false)
  have hlen : ∀ g ∈ (Bits.groups 8 (bytes.flatMap byteBits ++ List.replicate k false)).1,
      g.length = 8 := fun g hg => length_of_mem_groups hg
  have hfull := flatMap_ofNat_toNat hlen
  have hleft := length_groups_snd (by decide : 0 < 8)
    (bytes.flatMap byteBits ++ List.replicate k false)
  generalize Bits.groups 8 (bytes.flatMap byteBits ++ List.replicate k false) = cut
    at hcut hfull hlen hleft
  obtain ⟨full, left⟩ := cut
  simp only at hcut hfull hlen hleft ⊢
  have hflat : full.flatten.length = 8 * full.length := by
    clear hcut hfull
    induction full with
    | nil => rfl
    | cons g full ih =>
      rw [flatten_cons, length_append, hlen g mem_cons_self,
        ih fun g' hg' => hlen g' (mem_cons_of_mem _ hg'), length_cons]
      omega
  have hsum := congrArg List.length hcut
  rw [length_append, length_append, hflat, length_flatMap_byteBits,
    length_replicate] at hsum
  obtain ⟨hbits, hzeros⟩ := append_inj hcut (by rw [hflat, length_flatMap_byteBits]; omega)
  refine ⟨?_, hzeros⟩
  have hvals : full.map Bits.toNat = bytes.map Fin.val := by
    refine flatMap_ofNat_inj (by decide : 0 < 8) ?_ ?_ ?_
    · intro m hm
      obtain ⟨g, hg, rfl⟩ := mem_map.1 hm
      simpa [hlen g hg] using toNat_lt g
    · intro n hn
      obtain ⟨b, -, rfl⟩ := mem_map.1 hn
      exact b.isLt
    · rw [hfull, hbits, flatMap_byteBits]
  have hbyte : ∀ b : Byte, byte b.val = b := fun b => Fin.ext (Nat.mod_eq_of_lt b.isLt)
  have hmap := congrArg (List.map byte) hvals
  rw [map_map, map_map] at hmap
  rw [show (fun g => byte (Bits.toNat g)) = byte ∘ Bits.toNat from rfl, hmap]
  simp [Function.comp_def, hbyte]

/-! ## Base 64 -/

def base64Alphabet : JsString :=
  js "ABCDEFGHIJKLMNOPQRSTUVWXYZabcdefghijklmnopqrstuvwxyz0123456789+/"

def base64Char (d : Nat) : CodeUnit := base64Alphabet.getD d (codeUnit 0)

def padChar : CodeUnit := codeUnit '='.toNat

/-- `btoa`. -/
def bytesToBase64 (bytes : Bytes) : JsString :=
  let digits := Bits.words 6 (bytes.flatMap byteBits)
  digits.map base64Char ++ List.replicate ((4 - digits.length % 4) % 4) padChar

def isAsciiWhitespace (u : CodeUnit) : Bool := u.val ∈ [0x09, 0x0A, 0x0C, 0x0D, 0x20]

/-- At most two `=` are taken off the end of a text whose length is a multiple of four. -/
def stripPadding (text : JsString) : JsString :=
  if text.length % 4 ≠ 0 then text
  else
    match text.reverse with
    | u :: v :: rest =>
      if u ≠ padChar then text else if v ≠ padChar then (v :: rest).reverse else rest.reverse
    | _ => text

/-- `atob`; `none` where it throws. The bits left over are dropped. -/
def base64ToBytes (text : JsString) : Option Bytes :=
  let digits := stripPadding (text.filter fun u => !isAsciiWhitespace u)
  if digits.length % 4 = 1 then none
  else
    (digits.mapM base64Alphabet.idxOf?).map fun ds =>
      (Bits.groups 8 (ds.flatMap (Bits.ofNat 6))).1.map fun g => byte (Bits.toNat g)

theorem idxOf_base64Char : ∀ d < 64, base64Alphabet.idxOf? (base64Char d) = some d := by
  decide +kernel

theorem base64Char_text : ∀ d < 64, isAsciiWhitespace (base64Char d) = false ∧
    base64Char d ≠ padChar := by
  decide +kernel

/-- Up to two `=` after a text that does not end with one come off. -/
theorem stripPadding_append {text : JsString} {k : Nat} (hk : k ≤ 2)
    (hlen : (text.length + k) % 4 = 0) (hlast : ∀ u ∈ text, u ≠ padChar) :
    stripPadding (text ++ List.replicate k padChar) = text := by
  have hmod : (text ++ List.replicate k padChar).length % 4 = 0 := by simpa using hlen
  have hrev : (text ++ List.replicate k padChar).reverse =
      List.replicate k padChar ++ text.reverse := by simp
  have hmem : ∀ u ∈ text.reverse, u ≠ padChar := fun u hu => hlast u (mem_reverse.1 hu)
  rw [stripPadding, if_neg (not_not.2 hmod), hrev]
  have htext : text.reverse.reverse = text := reverse_reverse text
  have hlen' : (text.reverse.length + k) % 4 = 0 := by simpa using hlen
  generalize text.reverse = back at hmem htext hlen'
  subst htext
  match k, back with
  | 0, [] => rfl
  | 0, [u] => simp at hlen'
  | 0, u :: v :: rest => simp [hmem u mem_cons_self]
  | 1, [] => simp at hlen'
  | 1, u :: rest => simp [hmem u mem_cons_self]
  | 2, back => simp

theorem base64ToBytes_bytesToBase64 (bytes : Bytes) :
    base64ToBytes (bytesToBase64 bytes) = some bytes := by
  obtain ⟨k, hk, hbits⟩ := words_bits (by decide : 0 < 6) (bytes.flatMap byteBits)
  have hlt : ∀ d ∈ Bits.words 6 (bytes.flatMap byteBits), d < 64 :=
    fun d hd => lt_of_mem_words (by decide : 0 < 6) hd
  obtain ⟨hfull, -⟩ := groups_byteBits bytes (by omega : k < 8)
  rw [bytesToBase64, base64ToBytes]
  generalize Bits.words 6 (bytes.flatMap byteBits) = digits at hbits hlt
  -- the number of digits is never one more than a multiple of four
  have hlen : 6 * digits.length = 8 * bytes.length + k := by
    have := congrArg List.length hbits
    rw [length_append, length_flatMap_byteBits, length_replicate,
      length_flatMap] at this
    simpa [Nat.mul_comm] using this
  have hfilter : (digits.map base64Char ++
      List.replicate ((4 - digits.length % 4) % 4) padChar).filter (fun u => !isAsciiWhitespace u) =
      digits.map base64Char ++ List.replicate ((4 - digits.length % 4) % 4) padChar := by
    refine filter_eq_self.2 fun u hu => ?_
    rcases mem_append.1 hu with hu | hu
    · obtain ⟨d, hd, rfl⟩ := mem_map.1 hu
      simp [(base64Char_text d (hlt d hd)).1]
    · rw [eq_of_mem_replicate hu]
      decide
  have hstrip : stripPadding (digits.map base64Char ++
      List.replicate ((4 - digits.length % 4) % 4) padChar) = digits.map base64Char := by
    refine stripPadding_append (by omega) (by simp only [length_map]; omega) fun u hu => ?_
    obtain ⟨d, hd, rfl⟩ := mem_map.1 hu
    exact (base64Char_text d (hlt d hd)).2
  have hdecode : (digits.map base64Char).mapM base64Alphabet.idxOf? = some digits := by
    rw [mapM_map]
    exact (mapM_eq_pure fun d hd => idxOf_base64Char d (hlt d hd)).trans
      (congrArg some (map_id digits))
  have hmod : ¬ (digits.map base64Char).length % 4 = 1 := by
    rw [length_map]
    omega
  simp only [hfilter, hstrip, hdecode, hmod, if_false, Option.map_some, hbits, hfull]

end Helipod
