import TiffJni.Codec.PackBitsFormat

/-! # The PackBits decoder on any bytes

Any string of bytes is packets and no-ops with an incomplete packet behind them. The decoder
gives what these expand to, up to the requested size, and reads outside of its buffer only for
the byte that a run header at the very end leaves out.
-/
namespace TiffJni.Codec
open FixedWidth

inductive Item
  | packet (p : Packet)
  | nop

namespace Item

def code : Item → List UInt8
  | .packet p => p.code
  | .nop => [toByte (-128)]

def expand : Item → List UInt8
  | .packet p => p.expand
  | .nop => []

end Item

def itemCodes (items : List Item) : List UInt8 := items.flatMap Item.code

def itemExpansion (items : List Item) : List UInt8 := items.flatMap Item.expand

/-- A header whose packet is cut off: a run without its byte, or a literal without all of its bytes. -/
inductive Incomplete : List UInt8 → Prop
  | nothing : Incomplete []
  | run (h : UInt8) (hrun : 128 < h.toNat) : Incomplete [h]
  | literal (h : UInt8) (bytes : List UInt8) (hshort : bytes.length < h.toNat + 1) (hliteral : h.toNat < 128) :
      Incomplete (h :: bytes)

theorem toByte_of_toNat {x : ℤ} {h : UInt8} (hx : x % 256 = h.toNat) : toByte x = h := by
  apply UInt8.toNat_inj.mp
  rw [toByte_toNat]
  have hcast : (toUnsigned 8 x : ℤ) = h.toNat := by
    rw [toUnsigned_cast, ← hx]
    norm_num
  exact_mod_cast hcast

/-- Every string of bytes splits so. The induction is on its length: an item takes at least one byte. -/
theorem exists_items (data : List UInt8) : ∃ items tail, data = itemCodes items ++ tail ∧ Incomplete tail := by
  induction hlength : data.length using Nat.strong_induction_on generalizing data with
  | _ length ih =>
    subst hlength
    have hstep : ∀ (item : Item) (rest : List UInt8), data = item.code ++ rest → rest.length < data.length →
        ∃ items tail, data = itemCodes items ++ tail ∧ Incomplete tail := by
      intro item rest hdata hshorter
      obtain ⟨items,tail,hrest,htail⟩ := ih _ hshorter rest rfl
      refine ⟨item :: items,tail,?_,htail⟩
      rw [hdata, hrest, itemCodes, itemCodes, List.flatMap_cons, List.append_assoc]
    cases data with
    | nil => exact ⟨[],[],rfl,.nothing⟩
    | cons h bp =>
      have hbyte := h.toNat_lt
      rcases lt_trichotomy h.toNat 128 with hliteral | hnop | hrun
      · by_cases henough : h.toNat + 1 ≤ bp.length
        · have hbytes : (bp.take (h.toNat + 1)).length = h.toNat + 1 := by
            rw [List.length_take, min_eq_left henough]
          refine hstep (.packet (.literal (bp.take (h.toNat + 1)) (by omega) (by omega))) (bp.drop (h.toNat + 1)) ?_ ?_
          · have hheader : toByte ((bp.take (h.toNat + 1)).length - 1 : ℤ) = h := by
              apply toByte_of_toNat
              rw [hbytes]
              omega
            rw [Item.code, Packet.code, hheader, List.cons_append, List.take_append_drop]
          · simp only [List.length_drop, List.length_cons]
            omega
        · exact ⟨[],h :: bp,rfl,.literal h bp (by omega) hliteral⟩
      · refine hstep .nop bp ?_ ?_
        · have hheader : toByte (-128) = h := toByte_of_toNat (by omega)
          rw [Item.code, hheader]
          rfl
        · simp
      · cases bp with
        | nil => exact ⟨[],[h],rfl,.run h hrun⟩
        | cons b bp =>
          refine hstep (.packet (.run (257 - h.toNat) b (by omega) (by omega))) bp ?_ ?_
          · have hheader : toByte (-(((257 - h.toNat : ℕ) : ℤ) - 1)) = h := by
              apply toByte_of_toNat
              omega
            rw [Item.code, Packet.code, hheader]
            rfl
          · simp only [List.length_cons]
            omega

theorem headerOf_eq (charSigned : Bool) (h : UInt8) :
    headerOf charSigned h = if h.toNat < 128 then (h.toNat : ℤ) else h.toNat - 256 := by
  have hbyte := h.toNat_lt
  have hh : toByte (if h.toNat < 128 then (h.toNat : ℤ) else h.toNat - 256) = h := by
    apply toByte_of_toNat
    split <;> omega
  have hheader := headerOf_toByte charSigned (x := if h.toNat < 128 then (h.toNat : ℤ) else h.toNat - 256)
    (by split <;> omega) (by split <;> omega)
  rwa [hh] at hheader

theorem decodeLoop_nop (charSigned : Bool) (bp op : List UInt8) {cc : ℤ} {occ : ℕ} (hcc : 0 < cc) (hocc : 0 < occ) :
    decodeLoop charSigned (toByte (-128) :: bp) cc occ op = decodeLoop charSigned bp (cc - 1) occ op := by
  rw [decodeLoop, if_pos ⟨hcc,hocc⟩]
  dsimp only
  rw [headerOf_toByte charSigned (by omega) (by omega), if_pos (by omega), if_pos rfl]

theorem decodeLoop_item (charSigned : Bool) (item : Item) (bp op : List UInt8) {cc : ℤ} {occ : ℕ}
    (hcc : item.code.length ≤ cc) (hocc : item.expand.length < occ) :
    decodeLoop charSigned (item.code ++ bp) cc occ op =
      decodeLoop charSigned bp (cc - item.code.length) (occ - item.expand.length) (op ++ item.expand) := by
  cases item with
  | packet p => exact decodeLoop_packet charSigned p bp op hcc hocc.le
  | nop =>
    simp only [Item.code, Item.expand, List.length_cons, List.length_nil, List.append_nil] at hcc hocc ⊢
    exact decodeLoop_nop charSigned bp op (by omega) hocc

theorem decodeLoop_items (charSigned : Bool) (items : List Item) (bp op : List UInt8) {cc : ℤ} {occ : ℕ}
    (hcc : (itemCodes items).length ≤ cc) (hocc : (itemExpansion items).length < occ) :
    decodeLoop charSigned (itemCodes items ++ bp) cc occ op = decodeLoop charSigned bp (cc - (itemCodes items).length)
      (occ - (itemExpansion items).length) (op ++ itemExpansion items) := by
  induction items generalizing cc occ op with
  | nil => simp [itemCodes, itemExpansion]
  | cons item items ih =>
    have hcodes : itemCodes (item :: items) = item.code ++ itemCodes items := List.flatMap_cons
    have hexpansion : itemExpansion (item :: items) = item.expand ++ itemExpansion items := List.flatMap_cons
    rw [hcodes, List.length_append] at hcc
    rw [hexpansion, List.length_append] at hocc
    rw [hcodes, hexpansion, List.append_assoc, decodeLoop_item charSigned item _ op (by omega) (by omega),
      ih (op ++ item.expand) (by omega) (by omega), List.length_append, List.length_append, List.append_assoc,
      Nat.sub_sub]
    congr 1
    push_cast
    ring

/-- The packet that reaches the requested size is cut there. -/
theorem decodeLoop_packet_cut (charSigned : Bool) (p : Packet) (bp op : List UInt8) (cc : ℤ) {occ : ℕ}
    (hcc : p.code.length ≤ cc) (hpos : 0 < occ) (hocc : occ ≤ p.expand.length) :
    ∃ bp' cc', 0 ≤ cc' ∧ decodeLoop charSigned (p.code ++ bp) cc occ op = some ⟨op ++ p.expand.take occ,bp',cc',0⟩ := by
  cases p with
  | literal bytes hbytes hle =>
    simp only [Packet.code, List.length_cons, Packet.expand] at hcc hocc
    push_cast at hcc
    have hcount : min ((bytes.length : ℤ) - 1).toNat (occ - 1) = occ - 1 := by omega
    have hone : occ - 1 + 1 = occ := by omega
    refine ⟨(bytes ++ bp).drop occ,cc - 1 - ((occ - 1 : ℕ) + 1),by omega,?_⟩
    rw [Packet.code, List.cons_append, decodeLoop, if_pos ⟨by omega,hpos⟩]
    dsimp only
    rw [headerOf_toByte charSigned (by omega) (by omega), if_neg (by omega), hcount, if_neg (by omega),
      if_neg (by rw [List.length_append]; omega), hone, Nat.sub_self, decodeLoop_full,
      List.take_append_of_le_length hocc]
    rfl
  | run n b htwo hle =>
    simp only [Packet.code, List.length_cons, List.length_nil, Packet.expand, List.length_replicate] at hcc hocc
    have hcount : min (- -(n - 1 : ℤ) + 1).toNat occ = occ := by omega
    push_cast at hcc
    refine ⟨bp,cc - 2,by omega,?_⟩
    rw [Packet.code, List.cons_append, List.cons_append, List.nil_append, decodeLoop, if_pos ⟨by omega,hpos⟩]
    dsimp only
    rw [headerOf_toByte charSigned (by omega) (by omega), if_pos (by omega), if_neg (by omega), hcount, Nat.sub_self,
      decodeLoop_full, Packet.expand, List.take_replicate, min_eq_left hocc]

/-- Enough items give the requested bytes. -/
theorem decodeLoop_items_cut (charSigned : Bool) (items : List Item) (bp op : List UInt8) (cc : ℤ) (occ : ℕ)
    (hcc : (itemCodes items).length ≤ cc) (hocc : occ ≤ (itemExpansion items).length) :
    ∃ bp' cc', 0 ≤ cc' ∧ decodeLoop charSigned (itemCodes items ++ bp) cc occ op =
      some ⟨op ++ (itemExpansion items).take occ,bp',cc',0⟩ := by
  induction items generalizing cc occ op with
  | nil =>
    obtain rfl : occ = 0 := by simpa [itemExpansion] using hocc
    exact ⟨_,cc,by omega,by rw [decodeLoop_full, List.take_zero, List.append_nil]⟩
  | cons item items ih =>
    have hcodes : itemCodes (item :: items) = item.code ++ itemCodes items := List.flatMap_cons
    have hexpansion : itemExpansion (item :: items) = item.expand ++ itemExpansion items := List.flatMap_cons
    rw [hcodes, List.length_append] at hcc
    rw [hexpansion, List.length_append] at hocc
    rw [hcodes, hexpansion, List.append_assoc]
    rcases Nat.eq_zero_or_pos occ with rfl | hpos
    · exact ⟨_,cc,by omega,by rw [decodeLoop_full, List.take_zero, List.append_nil]⟩
    by_cases hlast : item.expand.length < occ
    · rw [decodeLoop_item charSigned item _ op (by omega) hlast]
      obtain ⟨bp',cc',hcc',hdecode⟩ := ih (op ++ item.expand) (cc - item.code.length)
        (occ - item.expand.length) (by omega) (by omega)
      refine ⟨bp',cc',hcc',?_⟩
      rw [hdecode, List.take_append, List.take_of_length_le hlast.le, List.append_assoc]
    · cases item with
      | packet p =>
        rw [Item.code] at hcc
        rw [Item.expand] at hlast
        obtain ⟨bp',cc',hcc',hdecode⟩ := decodeLoop_packet_cut charSigned p (itemCodes items ++ bp) op cc
          (by omega) hpos (not_lt.mp hlast)
        refine ⟨bp',cc',hcc',?_⟩
        rw [Item.code, Item.expand, hdecode, List.take_append_of_le_length (not_lt.mp hlast)]
      | nop =>
        simp only [Item.expand, List.length_nil] at hlast
        omega

/-- What an incomplete packet at the end of the data gives, `behind` being what the buffer holds after it. -/
def tailDecoded (behind : List UInt8) (occ : ℕ) (op tail : List UInt8) : Option Decoded :=
  match tail with
  | [] => some ⟨op,behind,0,occ⟩
  | h :: bytes =>
    if h.toNat < 128 then
      if occ ≤ bytes.length then some ⟨op ++ bytes.take occ,(bytes ++ behind).drop occ,bytes.length - (occ : ℤ),0⟩
      else some ⟨op,bytes ++ behind,bytes.length,occ⟩
    else
      match behind with
      | [] => none
      | b :: behind => some ⟨op ++ List.replicate (min (257 - h.toNat) occ) b,behind,-1,occ - min (257 - h.toNat) occ⟩

theorem decodeLoop_done (charSigned : Bool) (bp op : List UInt8) {cc : ℤ} (occ : ℕ) (hcc : cc ≤ 0) :
    decodeLoop charSigned bp cc occ op = some ⟨op,bp,cc,occ⟩ := by
  rw [decodeLoop.eq_def, if_neg (by omega)]

theorem decodeLoop_tail (charSigned : Bool) {tail : List UInt8} (htail : Incomplete tail) (behind op : List UInt8)
    {occ : ℕ} (hocc : 0 < occ) :
    decodeLoop charSigned (tail ++ behind) tail.length occ op = tailDecoded behind occ op tail := by
  cases htail with
  | nothing => exact decodeLoop_done charSigned behind op occ le_rfl
  | run h hrun =>
    have hbyte := h.toNat_lt
    have hheader : headerOf charSigned h = h.toNat - 256 := by rw [headerOf_eq, if_neg (by omega)]
    rw [List.singleton_append, decodeLoop, if_pos ⟨by simp,hocc⟩]
    dsimp only
    rw [hheader, if_pos (by omega), if_neg (by omega), tailDecoded.eq_def]
    dsimp only
    rw [if_neg (by omega)]
    cases behind with
    | nil => rfl
    | cons b behind =>
      have hcount : (-((h.toNat : ℤ) - 256) + 1).toNat = 257 - h.toNat := by omega
      dsimp only
      rw [hcount, decodeLoop_done charSigned _ _ _ (by simp)]
      rfl
  | literal h bytes hshort hliteral =>
    have hheader : headerOf charSigned h = h.toNat := by rw [headerOf_eq, if_pos hliteral]
    rw [List.cons_append, decodeLoop, if_pos ⟨by rw [List.length_cons]; omega,hocc⟩]
    dsimp only
    rw [hheader, if_neg (by omega), tailDecoded.eq_def]
    dsimp only
    rw [if_pos hliteral]
    by_cases henough : occ ≤ bytes.length
    · have hcut : min (h.toNat : ℤ).toNat (occ - 1) = occ - 1 := by omega
      have hone : occ - 1 + 1 = occ := by omega
      have hleft : ((bytes.length + 1 : ℕ) : ℤ) - 1 - (((occ - 1 : ℕ) : ℤ) + 1) = bytes.length - (occ : ℤ) := by omega
      rw [if_pos henough, hcut, List.length_cons, if_neg (by omega), if_neg (by rw [List.length_append]; omega), hone,
        Nat.sub_self, decodeLoop_full, List.take_append_of_le_length henough, hleft]
    · rw [if_neg henough, if_pos (by rw [List.length_cons]; omega)]
      simp

/-- What decoding any data gives: enough whole packets fill the request, and otherwise the tail decides. -/
theorem packBitsDecode_any (charSigned : Bool) (data behind : List UInt8) (occ : ℕ) :
    ∃ items tail, data = itemCodes items ++ tail ∧ Incomplete tail ∧
      (occ ≤ (itemExpansion items).length ∧ (∃ bp cc, 0 ≤ cc ∧
        packBitsDecode charSigned (data ++ behind) data.length occ = some ⟨(itemExpansion items).take occ,bp,cc,0⟩) ∨
      (itemExpansion items).length < occ ∧ packBitsDecode charSigned (data ++ behind) data.length occ =
        tailDecoded behind (occ - (itemExpansion items).length) (itemExpansion items) tail) := by
  obtain ⟨items,tail,rfl,htail⟩ := exists_items data
  refine ⟨items,tail,rfl,htail,?_⟩
  have hcc : ((itemCodes items).length : ℤ) ≤ ((itemCodes items ++ tail).length : ℕ) := by
    rw [List.length_append]
    omega
  by_cases henough : occ ≤ (itemExpansion items).length
  · obtain ⟨bp,cc,hpos,hdecode⟩ := decodeLoop_items_cut charSigned items (tail ++ behind) [] _ _ hcc henough
    refine Or.inl ⟨henough,bp,cc,hpos,?_⟩
    rw [packBitsDecode, List.append_assoc, hdecode]
    rfl
  · have hleft : ((itemCodes items ++ tail).length : ℤ) - (itemCodes items).length = tail.length := by
      rw [List.length_append]
      push_cast
      ring
    refine Or.inr ⟨by omega,?_⟩
    rw [packBitsDecode, List.append_assoc, decodeLoop_items charSigned items (tail ++ behind) [] hcc (by omega), hleft,
      decodeLoop_tail charSigned htail behind _ (by omega)]
    rfl

/-- The run header at the end of the data whose byte the decoder still wants. -/
def WantsByteBehind (data : List UInt8) (occ : ℕ) : Prop :=
  ∃ items h, data = itemCodes items ++ [h] ∧ 128 < h.toNat ∧ (itemExpansion items).length < occ

theorem packBitsDecode_of_wants (charSigned : Bool) {data : List UInt8} {occ : ℕ} (h : WantsByteBehind data occ)
    (behind : List UInt8) : ∃ items header, packBitsDecode charSigned (data ++ behind) data.length occ =
      tailDecoded behind (occ - (itemExpansion items).length) (itemExpansion items) [header] ∧ 128 < header.toNat := by
  obtain ⟨items,header,rfl,hrun,hocc⟩ := h
  have hcc : ((itemCodes items).length : ℤ) ≤ ((itemCodes items ++ [header]).length : ℕ) := by
    rw [List.length_append]
    omega
  have hleft : ((itemCodes items ++ [header]).length : ℤ) - (itemCodes items).length = [header].length := by
    rw [List.length_append]
    push_cast
    ring
  refine ⟨items,header,?_,hrun⟩
  rw [packBitsDecode, List.append_assoc, decodeLoop_items charSigned items ([header] ++ behind) [] hcc hocc, hleft,
    decodeLoop_tail charSigned (.run header hrun) behind _ (by omega)]
  rfl

/-- Whatever the data is, the decoder fills at most the request and leaves its buffer exactly
where the buffer ends with the data and the data with the header of a run that is still wanted;
with a longer buffer it takes the byte behind the data there, and nowhere else. -/
theorem packBitsDecode_outside (charSigned : Bool) (data behind : List UInt8) (occ : ℕ) :
    (packBitsDecode charSigned (data ++ behind) data.length occ = none ↔ behind = [] ∧ WantsByteBehind data occ) ∧
    ∀ d, packBitsDecode charSigned (data ++ behind) data.length occ = some d →
      d.written.length + d.occ = occ ∧ -1 ≤ d.rawcc ∧ (d.rawcc = -1 ↔ behind ≠ [] ∧ WantsByteBehind data occ) := by
  have hinside : ∀ d₀, packBitsDecode charSigned (data ++ behind) data.length occ = some d₀ → 0 ≤ d₀.rawcc →
      ¬WantsByteBehind data occ := by
    intro d₀ hd₀ hpos h
    obtain ⟨items,header,hdecode,hrun⟩ := packBitsDecode_of_wants charSigned h behind
    rw [hd₀, tailDecoded.eq_def] at hdecode
    dsimp only at hdecode
    rw [if_neg (by omega)] at hdecode
    cases behind with
    | nil => cases hdecode
    | cons b behind =>
      cases hdecode
      simp at hpos
  have hreturns : ∀ d₀, packBitsDecode charSigned (data ++ behind) data.length occ = some d₀ → 0 ≤ d₀.rawcc →
      d₀.written.length + d₀.occ = occ →
      (packBitsDecode charSigned (data ++ behind) data.length occ = none ↔ behind = [] ∧ WantsByteBehind data occ) ∧
      ∀ d, packBitsDecode charSigned (data ++ behind) data.length occ = some d →
        d.written.length + d.occ = occ ∧ -1 ≤ d.rawcc ∧ (d.rawcc = -1 ↔ behind ≠ [] ∧ WantsByteBehind data occ) := by
    intro d₀ hd₀ hpos hlength
    have hnot := hinside d₀ hd₀ hpos
    rw [hd₀]
    refine ⟨by simp [hnot],?_⟩
    rintro d ⟨⟩
    have hne : d₀.rawcc ≠ -1 := by omega
    exact ⟨hlength,by omega,by simp [hnot, hne]⟩
  obtain ⟨items,tail,hdata,htail,hcase⟩ := packBitsDecode_any charSigned data behind occ
  rcases hcase with ⟨henough,bp,cc,hpos,hdecode⟩ | ⟨hmore,hdecode⟩
  · refine hreturns _ hdecode hpos ?_
    simp only [List.length_take]
    omega
  rw [tailDecoded.eq_def] at hdecode
  cases htail with
  | nothing =>
    refine hreturns _ hdecode le_rfl ?_
    simp only
    omega
  | literal h bytes hshort hliteral =>
    dsimp only at hdecode
    rw [if_pos hliteral] at hdecode
    split at hdecode
    · rename_i henough
      refine hreturns _ hdecode (by simp only; omega) ?_
      simp only [List.length_append, List.length_take]
      omega
    · refine hreturns _ hdecode (by simp only; omega) ?_
      simp only
      omega
  | run h hrun =>
    have hwants : WantsByteBehind data occ := ⟨items,h,hdata,hrun,hmore⟩
    dsimp only at hdecode
    rw [if_neg (by omega)] at hdecode
    cases behind with
    | nil =>
      simp only at hdecode
      rw [hdecode]
      exact ⟨⟨fun _ => ⟨rfl,hwants⟩,fun _ => rfl⟩,fun d hd => nomatch hd⟩
    | cons b behind =>
      simp only at hdecode
      rw [hdecode]
      refine ⟨⟨fun h => (nomatch h),fun h => absurd h.1 (List.cons_ne_nil b behind)⟩,?_⟩
      rintro d ⟨⟩
      refine ⟨?_,le_rfl,⟨fun _ => ⟨List.cons_ne_nil b behind,hwants⟩,fun _ => rfl⟩⟩
      simp only [List.length_append, List.length_replicate]
      omega

end TiffJni.Codec
