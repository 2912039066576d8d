import TiffJni.Codec.PackBits

/-! # The packets of PackBits

What a strip is a concatenation of, and what the decoder makes of it: each packet is
consumed whole, whatever follows it, so decoding goes packet by packet.
-/
namespace TiffJni.Codec
open FixedWidth

/-- A literal string of 1 to 128 bytes, or 2 to 128 times the same byte. -/
inductive Packet
  | literal (bytes : List UInt8) (hpos : 0 < bytes.length) (hle : bytes.length ≤ 128)
  | run (n : ℕ) (b : UInt8) (htwo : 2 ≤ n) (hle : n ≤ 128)

namespace Packet

def code : Packet → List UInt8
  | .literal bytes _ _ => toByte (bytes.length - 1) :: bytes
  | .run n b _ _ => [toByte (-(n - 1 : ℤ)),b]

def expand : Packet → List UInt8
  | .literal bytes _ _ => bytes
  | .run n b _ _ => List.replicate n b

end Packet

def codes (ps : List Packet) : List UInt8 := ps.flatMap Packet.code

def expansion (ps : List Packet) : List UInt8 := ps.flatMap Packet.expand

@[simp] theorem codes_append (ps qs : List Packet) : codes (ps ++ qs) = codes ps ++ codes qs :=
  List.flatMap_append

@[simp] theorem expansion_append (ps qs : List Packet) : expansion (ps ++ qs) = expansion ps ++ expansion qs :=
  List.flatMap_append

@[simp] theorem codes_singleton (p : Packet) : codes [p] = p.code := List.flatMap_singleton ..

@[simp] theorem expansion_singleton (p : Packet) : expansion [p] = p.expand := List.flatMap_singleton ..

theorem toByte_toNat (x : ℤ) : (toByte x).toNat = toUnsigned 8 x := by
  rw [toByte, UInt8.toNat_ofNat']
  exact Nat.mod_eq_of_lt (toUnsigned_lt 8 x)

/-- The header is read back, whether a `char` is signed or not. -/
theorem headerOf_toByte (charSigned : Bool) {x : ℤ} (hl : -128 ≤ x) (hu : x < 128) :
    headerOf charSigned (toByte x) = x := by
  have hunsigned : ((toByte x).toNat : ℤ) = x % 256 := by
    rw [toByte_toNat, toUnsigned_cast]
    norm_num
  have hsigned : toSigned 8 (toByte x).toNat = x := by
    rw [toByte_toNat, toSigned_toUnsigned le_rfl]
    exact toSigned_of_mem (by norm_num; omega) (by norm_num; omega)
  unfold headerOf plainChar
  cases charSigned with
  | true =>
    rw [if_pos rfl, hsigned, if_neg (by omega)]
  | false =>
    simp only [Bool.false_eq_true, if_false, hunsigned]
    split <;> omega

theorem decodeLoop_run (charSigned : Bool) {n : ℕ} (b : UInt8) (htwo : 2 ≤ n) (hle : n ≤ 128) (bp op : List UInt8)
    {cc : ℤ} {occ : ℕ} (hcc : 2 ≤ cc) (hocc : n ≤ occ) :
    decodeLoop charSigned (toByte (-(n - 1 : ℤ)) :: b :: bp) cc occ op =
      decodeLoop charSigned bp (cc - 2) (occ - n) (op ++ List.replicate n b) := by
  rw [decodeLoop, if_pos ⟨by omega,by omega⟩]
  dsimp only
  rw [headerOf_toByte charSigned (by omega) (by omega), if_pos (by omega), if_neg (by omega)]
  have hcount : min (- -(n - 1 : ℤ) + 1).toNat occ = n := by omega
  rw [hcount]

theorem decodeLoop_literal (charSigned : Bool) {bytes : List UInt8} (hpos : 0 < bytes.length)
    (hle : bytes.length ≤ 128) (bp op : List UInt8) {cc : ℤ} {occ : ℕ} (hcc : bytes.length + 1 ≤ cc)
    (hocc : bytes.length ≤ occ) :
    decodeLoop charSigned (toByte (bytes.length - 1) :: (bytes ++ bp)) cc occ op =
      decodeLoop charSigned bp (cc - (bytes.length + 1)) (occ - bytes.length) (op ++ bytes) := by
  rw [decodeLoop, if_pos ⟨by omega,by omega⟩]
  dsimp only
  rw [headerOf_toByte charSigned (by omega) (by omega), if_neg (by omega)]
  have hcount : min ((bytes.length : ℤ) - 1).toNat (occ - 1) + 1 = bytes.length := by omega
  have hcc' : cc - 1 - (((min ((bytes.length : ℤ) - 1).toNat (occ - 1) : ℕ) : ℤ) + 1) = cc - (bytes.length + 1) := by omega
  rw [hcc', if_neg (by omega), if_neg (by rw [List.length_append]; omega), hcount, List.drop_left, List.take_left]

theorem decodeLoop_packet (charSigned : Bool) (p : Packet) (bp op : List UInt8) {cc : ℤ} {occ : ℕ}
    (hcc : p.code.length ≤ cc) (hocc : p.expand.length ≤ occ) :
    decodeLoop charSigned (p.code ++ bp) cc occ op =
      decodeLoop charSigned bp (cc - p.code.length) (occ - p.expand.length) (op ++ p.expand) := by
  cases p with
  | literal bytes hpos hle =>
    simp only [Packet.code, List.length_cons, Nat.cast_add, Nat.cast_one] at hcc
    simpa only [Packet.code, Packet.expand, List.length_cons, Nat.cast_add, Nat.cast_one, List.cons_append] using
      decodeLoop_literal charSigned hpos hle bp op hcc hocc
  | run n b htwo hle =>
    simp only [Packet.expand, List.length_replicate] at hocc ⊢
    exact decodeLoop_run charSigned b htwo hle bp op hcc hocc

theorem decodeLoop_codes (charSigned : Bool) (ps : List Packet) (bp op : List UInt8) {cc : ℤ} {occ : ℕ}
    (hcc : (codes ps).length ≤ cc) (hocc : (expansion ps).length ≤ occ) :
    decodeLoop charSigned (codes ps ++ bp) cc occ op =
      decodeLoop charSigned bp (cc - (codes ps).length) (occ - (expansion ps).length) (op ++ expansion ps) := by
  induction ps generalizing cc occ op with
  | nil => simp [codes, expansion]
  | cons p ps ih =>
    have hcodes : codes (p :: ps) = p.code ++ codes ps := List.flatMap_cons
    have hexpansion : expansion (p :: ps) = p.expand ++ expansion ps := List.flatMap_cons
    rw [hcodes, List.length_append] at hcc
    rw [hexpansion, List.length_append] at hocc
    rw [hcodes, hexpansion, List.append_assoc, decodeLoop_packet charSigned p _ op (by omega) (by omega),
      ih (op ++ p.expand) (by omega) (by omega), List.length_append, List.length_append, List.append_assoc,
      Nat.sub_sub]
    congr 1
    push_cast
    ring

theorem decodeLoop_full (charSigned : Bool) (bp op : List UInt8) (cc : ℤ) :
    decodeLoop charSigned bp cc 0 op = some ⟨op,bp,cc,0⟩ := by
  rw [decodeLoop.eq_def, if_neg (by omega)]

/-- Packets that fill the request exactly are decoded exactly, and nothing behind them is touched. -/
theorem packBitsDecode_codes (charSigned : Bool) (ps : List Packet) (bp : List UInt8) (cc : ℕ) :
    packBitsDecode charSigned (codes ps ++ bp) ((codes ps).length + cc) (expansion ps).length =
      some ⟨expansion ps,bp,cc,0⟩ := by
  rw [packBitsDecode, decodeLoop_codes charSigned ps bp [] (by omega) le_rfl, Nat.sub_self, decodeLoop_full]
  simp

end TiffJni.Codec
