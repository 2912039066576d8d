import TiffJni.Codec.PackBitsDecoding
import TiffJni.Reading.Encoded

/-! # Files that are served

A server of the three file calls serves a content if it answers like a file with that content. Then
the raw data buffer receives the bytes of a strip or tile that lies inside the content, and a decoder that knows
these bytes gives what they stand for.
-/
namespace TiffJni.Reading
open FixedWidth Raster TiffJni.Stream Transcript Codec

variable {ε τ : Type}

/-- The server answers like a file; `at_ p` says that a state is at position `p`. -/
structure Serves (calls : Server ε FileCall Answer τ) (c : List UInt8) (at_ : ℕ → τ → Prop) : Prop where
  seek : ∀ p client offset, at_ p client → offset.toNat < 2 ^ 32 → ∃ client',
    calls.call client (.seek offset) = .ok (.offset offset,client') ∧ at_ offset.toNat client'
  read : ∀ p client size, at_ p client → ∃ client', calls.call client (.read size) =
    .ok (.bytes ((c.drop p).take size).length ((c.drop p).take size),client') ∧
    at_ (p + ((c.drop p).take size).length) client'

theorem referenceFile_serves (c : List UInt8) : Serves ReferenceFile.server c fun p f => f = ⟨c,p⟩ where
  seek := by
    rintro p f offset rfl -
    exact ⟨_,rfl,rfl⟩
  read := by
    rintro p f size rfl
    exact ⟨_,rfl,rfl⟩

/-- The decoder gives the bytes that the raw data stands for, or as many of them as are asked for. -/
def Decodes (decoder : Decoder) (raw bytes : List UInt8) : Prop := ∀ behind, ∀ occ ≤ bytes.length,
  decoder (raw ++ behind) raw.length occ = some (true,bytes.take occ)

theorem packBitsDecoder_decodes (charSigned : Bool) (items : List Item) (tail : List UInt8) :
    Decodes (packBitsDecoder charSigned) (itemCodes items ++ tail) (itemExpansion items) := by
  intro behind occ hocc
  obtain ⟨bp,cc,-,hdecode⟩ := decodeLoop_items_cut charSigned items (tail ++ behind) []
    ((itemCodes items ++ tail).length : ℕ) occ (by rw [List.length_append]; omega) hocc
  rw [packBitsDecoder, Int.toNat_natCast, packBitsDecode, List.append_assoc, hdecode, Option.map_some, List.nil_append]
  rfl

namespace Source
variable {s : Source ε τ} {c : List UInt8} {at_ : ℕ → τ → Prop}

/-- A strip or tile that lies inside the content. -/
structure Stored (s : Source ε τ) (c : List UInt8) (number : UInt32) (offset bytecount : ℕ) : Prop where
  counts : ∃ stripbytecount, s.stripbytecount = some stripbytecount ∧
    ∃ count, stripbytecount[number.toNat]? = some count ∧ count.toNat = bytecount
  offsets : ∃ start, s.stripoffset[number.toNat]? = some start ∧ start.toNat = offset
  some : 0 < bytecount
  inside : offset + bytecount ≤ c.length

/-- The raw data of a strip or tile. -/
def raw (s : Source ε τ) (c : List UInt8) (offset bytecount : ℕ) : List UInt8 :=
  if s.reversed then reverseBits ((c.drop offset).take bytecount) else (c.drop offset).take bytecount

theorem reverseBits_length (cp : List UInt8) : (reverseBits cp).length = cp.length := List.length_map ..

theorem raw_length {offset bytecount : ℕ} (h : offset + bytecount ≤ c.length) :
    (s.raw c offset bytecount).length = bytecount := by
  unfold raw
  split
  · rw [reverseBits_length, List.length_take, List.length_drop]
    omega
  · rw [List.length_take, List.length_drop]
    omega

/-- There is memory for a buffer of any size. -/
def Roomy (s : Source ε τ) : Prop := ∀ n : ℤ, 0 < n → ∃ block : List UInt8, s.malloc n = some block ∧ (block.length : ℤ) = n

theorem readBufferSetup_spec (hroomy : s.Roomy) {size : ℕ} (hpos : 0 < size) (hlt : size + 1024 ≤ 2 ^ 31) (tif : Tif τ) :
    ∃ rawdata, s.readBufferSetup size tif = (true,⟨rawdata,tif.client⟩) ∧ size ≤ rawdata.length := by
  have hrounded : (howmany64 (UInt64.ofNat (toUnsigned 64 size)) 1024 * 1024).toNat = (size + 1023) / 1024 * 1024 := by
    have hk : (1024 : UInt64).toNat = 1024 := rfl
    have hone : ((1024 : UInt64) - 1).toNat = 1023 := rfl
    rw [toUnsigned_of_lt (by omega), UInt64.toNat_mul, howmany64, UInt64.toNat_div, UInt64.toNat_add, hk, hone,
      UInt64.toNat_ofNat_of_lt' (show size < 2 ^ 64 by omega), Nat.mod_eq_of_lt (by omega : size + 1023 < 2 ^ 64),
      Nat.mod_eq_of_lt (by omega)]
  have hlong : s.m.toLong ((size + 1023) / 1024 * 1024 : ℕ) = ((size + 1023) / 1024 * 1024 : ℕ) :=
    s.m.toLong_of_lt (by omega)
  obtain ⟨block,hblock,hlength⟩ := hroomy ((size + 1023) / 1024 * 1024 : ℕ) (by omega)
  refine ⟨block,?_,by omega⟩
  unfold readBufferSetup
  dsimp only
  rw [hrounded, hlong, if_neg (by omega), hblock]

theorem readRaw1_spec (hserves : Serves s.calls c at_) {offset : UInt64} {size : ℕ} (tif : Tif τ) {p : ℕ}
    (hat : at_ p tif.client) (hinside : offset.toNat + size ≤ c.length) (hlt : c.length < 2 ^ 32)
    (hbuf : size ≤ tif.rawdata.length) : ∃ client, s.readRaw1 offset size tif =
      some (true,⟨(c.drop offset.toNat).take size ++ tif.rawdata.drop size,client⟩) ∧ ∃ p', at_ p' client := by
  obtain ⟨client,hseek,hat'⟩ := hserves.seek p tif.client offset hat (by omega)
  obtain ⟨client',hread,hat''⟩ := hserves.read _ client size hat'
  have hlength : ((c.drop offset.toNat).take size).length = size := by
    rw [List.length_take, List.length_drop]
    omega
  refine ⟨client',?_,_,hat''⟩
  rw [hlength] at hread
  unfold readRaw1 seekOK
  simp only [hseek, decide_true, Option.bind_eq_bind, Option.bind_some, if_true, hread, hlength]
  rw [if_neg (by omega)]

theorem bytecountm_spec (s : Source ε τ) {bytecount : UInt64} (hpos : 0 < bytecount.toNat) (hlt : bytecount.toNat < 2 ^ 31) :
    s.bytecountm bytecount = some (bytecount.toNat : ℤ) := by
  have hhalf : 2 * bytecount.toNat < 2 ^ 64 := by omega
  have hnot : ¬(bytecount.toNat : ℤ) ≤ 0 := by omega
  rw [bytecountm, toSigned_natCast hhalf, if_neg hnot, s.m.toLong_of_lt hlt, toUnsigned_of_lt bytecount.toNat_lt,
    if_neg (not_not.mpr rfl)]

theorem expand_spec (hroomy : s.Roomy) {size : ℕ} (hpos : 0 < size) (hlt : size + 1024 ≤ 2 ^ 31) (tif : Tif τ) :
    ∃ rawdata, s.expand size tif = (true,⟨rawdata,tif.client⟩) ∧ size ≤ rawdata.length := by
  rcases Nat.lt_or_ge tif.rawdata.length size with hsmall | hlarge
  · obtain ⟨rawdata,hsetup,hlength⟩ := readBufferSetup_spec hroomy hpos hlt tif
    exact ⟨rawdata,by rw [expand, if_pos (Int.ofNat_lt.mpr hsmall), hsetup],hlength⟩
  · exact ⟨tif.rawdata,by rw [expand, if_neg (fun h => Nat.not_lt.mpr hlarge (Int.ofNat_lt.mp h))],hlarge⟩

theorem reorder_spec {offset bytecount : ℕ} (hinside : offset + bytecount ≤ c.length) (behind : List UInt8) (client : τ) :
    s.reorder bytecount ⟨(c.drop offset).take bytecount ++ behind,client⟩ =
      ⟨s.raw c offset bytecount ++ behind,client⟩ := by
  have hslice : ((c.drop offset).take bytecount).length = bytecount := by
    rw [List.length_take, List.length_drop]
    omega
  unfold reorder raw
  split
  · rw [List.take_left' hslice, List.drop_left' hslice]
  · rfl

theorem fillRaw_spec (hserves : Serves s.calls c at_) (hroomy : s.Roomy) (hlt : c.length + 1024 ≤ 2 ^ 31) {number : UInt32}
    {start : UInt64} {size : ℕ} (hstart : s.stripoffset[number.toNat]? = some start) (hpos : 0 < size)
    (hinside : start.toNat + size ≤ c.length) {tif : Tif τ} {p : ℕ} (hat : at_ p tif.client) :
    ∃ behind client, s.fillRaw number size tif =
      some (some (size : ℤ),⟨s.raw c start.toNat size ++ behind,client⟩) ∧ ∃ p', at_ p' client := by
  have hfits : size + 1024 ≤ 2 ^ 31 := by omega
  have hshort : c.length < 2 ^ 32 := by omega
  obtain ⟨rawdata,hexpand,hlarge⟩ := expand_spec hroomy hpos hfits tif
  obtain ⟨client,hread,hat'⟩ := readRaw1_spec hserves ⟨rawdata,tif.client⟩ hat hinside hshort hlarge
  refine ⟨rawdata.drop size,client,?_,hat'⟩
  rw [fillRaw, hexpand, if_pos rfl, hstart, Int.toNat_natCast]
  rw [Option.bind_eq_bind, Option.bind_some, hread, Option.bind_eq_bind, Option.bind_some]
  dsimp only
  rw [if_pos rfl, reorder_spec hinside]

theorem fill_spec (hserves : Serves s.calls c at_) (hroomy : s.Roomy) (hlt : c.length + 1024 ≤ 2 ^ 31) {number : UInt32}
    {offset bytecount : ℕ} (hstored : s.Stored c number offset bytecount) {tif : Tif τ} {p : ℕ} (hat : at_ p tif.client) :
    ∃ behind client, s.fill number tif =
      some (some (bytecount : ℤ),⟨s.raw c offset bytecount ++ behind,client⟩) ∧ ∃ p', at_ p' client := by
  obtain ⟨counts,hcounts,count,hcount,rfl⟩ := hstored.counts
  obtain ⟨start,hstart,rfl⟩ := hstored.offsets
  have hbytecount := s.bytecountm_spec hstored.some (show count.toNat < 2 ^ 31 by have := hstored.inside; omega)
  obtain ⟨behind,client,hfill,hat'⟩ := fillRaw_spec hserves hroomy hlt hstart hstored.some hstored.inside hat
  refine ⟨behind,client,?_,hat'⟩
  rw [fill, hcounts]
  dsimp only
  rw [hcount, Option.bind_eq_bind, Option.bind_some, hbytecount]
  exact hfill

end Source

end TiffJni.Reading
