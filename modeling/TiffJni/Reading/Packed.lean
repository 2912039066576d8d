import TiffJni.Codec.PackBitsRoundTrip
import TiffJni.Reading.Pictures

/-! # Images that were packed

The strips and tiles of an image as libtiff writes them: the bytes of the samples are swapped if need be, packed row by row,
and stored with their bits reversed if need be. Read back they are the samples again.
-/
namespace TiffJni.Reading
open FixedWidth Raster TiffJni.Stream Transcript Codec

variable {ε τ : Type}

theorem reverseBits_reverseBits (cp : List UInt8) : reverseBits (reverseBits cp) = cp := by
  have hbyte : ∀ n < 256, bitRevTable.getD (bitRevTable.getD n 0).toNat 0 = UInt8.ofNat n := by
    decide +kernel
  have htwice : ((fun b : UInt8 => bitRevTable.getD b.toNat 0) ∘ fun b : UInt8 => bitRevTable.getD b.toNat 0) = id := by
    funext b
    rw [Function.comp_apply, hbyte _ b.toNat_lt, UInt8.ofNat_toNat, id]
  rw [reverseBits, reverseBits, List.map_map, htwice, List.map_id]

theorem swabArrayOfShort_swabArrayOfShort : (wp : List UInt8) → swabArrayOfShort (swabArrayOfShort wp) = wp
  | a :: b :: wp => by rw [swabArrayOfShort, swabArrayOfShort, swabArrayOfShort_swabArrayOfShort wp]
  | [a] => rfl
  | [] => rfl

theorem itemCodes_packets (ps : List Packet) : itemCodes (ps.map Item.packet) = codes ps := by
  rw [itemCodes, List.flatMap_map]
  rfl

theorem itemExpansion_packets (ps : List Packet) : itemExpansion (ps.map Item.packet) = expansion ps := by
  rw [itemExpansion, List.flatMap_map]
  rfl

theorem packets_decodes (charSigned : Bool) (ps : List Packet) : Decodes (packBitsDecoder charSigned) (codes ps) (expansion ps) := by
  have hdecodes := packBitsDecoder_decodes charSigned (ps.map Item.packet) []
  rwa [itemCodes_packets, itemExpansion_packets, List.append_nil] at hdecodes

/-- What the encoder made of a strip or tile decodes to it, or to as much of it as is asked for. -/
theorem packed_decodes (charSigned : Bool) {appends : List UInt8 → List UInt8 → Bool} {rowsize : ℕ} (hrow : 0 < rowsize)
    {buf rawdata : List UInt8} (hsize : 130 ≤ rawdata.length) {e : RawData}
    (hencode : packBitsEncodeChunk appends rowsize buf (RawData.start rawdata) = .ok e) :
    Decodes (packBitsDecoder charSigned) e.data buf := by
  have hyields := packBitsEncodeChunk_yields appends hsize hrow buf (RawData.start_idle rawdata)
  rw [hencode] at hyields
  obtain ⟨-,rows,hdata,hrows⟩ := hyields
  have hbuf : expansion rows.flatten = buf := by rw [expansion_flatten, hrows, rowsOf_flatten hrow]
  rw [hdata, ← hbuf]
  exact packets_decodes charSigned rows.flatten

namespace Source
variable {s : Source ε τ} {c : List UInt8} {at_ : ℕ → τ → Prop} {tiled : Bool} {pixels : UInt32 → List UInt8}

theorem samples_samples (bytes : List UInt8) : s.samples (s.samples bytes) = bytes := by
  unfold samples
  split
  · exact swabArrayOfShort_swabArrayOfShort bytes
  · rfl

/-- The samples of a strip or tile were packed into a part of the content. -/
structure Packed (s : Source ε τ) (c : List UInt8) (number : UInt32) (pixels : List UInt8) : Prop where
  part : ∃ (appends : List UInt8 → List UInt8 → Bool) (rowsize : ℕ) (rawdata : List UInt8) (e : RawData) (offset : ℕ),
    0 < rowsize ∧ 130 ≤ rawdata.length ∧
    packBitsEncodeChunk appends rowsize (s.samples pixels) (RawData.start rawdata) = .ok e ∧
    s.Stored c number offset e.data.length ∧
    (c.drop offset).take e.data.length = if s.reversed then reverseBits e.data else e.data

/-- All strips or tiles of an image were packed, each of them whole. -/
structure PackedImage (s : Source ε τ) (c : List UInt8) (tiled : Bool) (pixels : UInt32 → List UInt8) : Prop where
  decoder : ∃ charSigned, s.decoder = packBitsDecoder charSigned
  packed : ∀ number < s.d.nstrips, s.Packed c number (pixels number)
  whole : ∀ number < s.d.nstrips, (pixels number).length = s.partBytes tiled number
  extent : tiled = true → s.d.tilelength ≠ 0xffffffff

theorem PackedImage.holds (h : s.PackedImage c tiled pixels) : s.Holds c tiled fun number => s.samples (pixels number) where
  stored := by
    intro number hnumber
    obtain ⟨charSigned,hdecoder⟩ := h.decoder
    obtain ⟨appends,rowsize,rawdata,e,offset,hrow,hsize,hencode,hstored,hslice⟩ := (h.packed number hnumber).part
    refine ⟨offset,_,hstored,?_⟩
    have hraw : s.raw c offset e.data.length = e.data := by
      rw [raw, hslice]
      cases s.reversed with
      | false => rfl
      | true => exact reverseBits_reverseBits e.data
    rw [hdecoder, hraw]
    exact packed_decodes charSigned hrow hsize hencode
  enough := by
    intro number hnumber
    rw [samples_length, h.whole number hnumber]
  extent := h.extent

/-- Swapping twice and taking all of it changes nothing. -/
theorem PackedImage.contents_eq (h : s.PackedImage c tiled pixels) {number : UInt32} (hnumber : number < s.d.nstrips) :
    s.contents tiled (fun number => s.samples (pixels number)) number = pixels number := by
  rw [contents, ← h.whole number hnumber, ← samples_length (s := s) (pixels number), List.take_length, samples_samples]

/-- An image that was packed shows the samples that it was packed from. -/
theorem packed_rendered {stop memory : Bool} {conversions : Conversions} {t : Tags} {room : ℤ → Bool} {img : RGBAImage}
    {put : Put} {turns orientation p : ℕ} (h : s.Prepared c tiled conversions memory t room stop img put)
    (hpacked : s.PackedImage c tiled pixels) (hserves : Serves s.calls c at_) (raster : List Word) (tif : Tif τ)
    (hturns : s.d.imagewidth.toNat + s.d.imagelength.toNat < turns)
    (hraster : raster.length = s.d.imagewidth.toNat * s.d.imagelength.toNat) (horientation : IsOrientation orientation)
    (hat : at_ p tif.client) :
    ∃ tif', readRGBAImageOriented s.m conversions memory tiled s.d t (s.readEncoded tiled) room turns s.d.imagewidth
      s.d.imagelength raster orientation stop tif = some (true,rasterOf (corner orientation) s.d.imagewidth.toNat
        s.d.imagelength.toNat (scene t.orientation s.d.imagewidth.toNat s.d.imagelength.toNat
          (picture s.m s.d t img put tiled pixels)),tif') ∧ ∃ p', at_ p' tif'.client := by
  have hshowable : s.Showable c tiled (fun number => s.samples (pixels number)) conversions memory t room stop img put :=
    ⟨h,hpacked.holds⟩
  exact hshowable.rendered_as hserves (fun number hnumber => hpacked.contents_eq hnumber) raster tif hturns hraster
    horientation hat

/-- A file with the two lines packed, each as a literal of three bytes. -/
def packedLines : Source StillRunning ReferenceFile :=
  ⟨.lp64,twoLines,[1],some [8],false,false,packBitsDecoder true,
    fun n => if 0 < n then some (List.replicate n.toNat 0) else none,ReferenceFile.server⟩

theorem packedLines_packed : packedLines.PackedImage [77,2,10,20,30,2,40,50,60] false fun _ => [10,20,30,40,50,60] where
  decoder := ⟨true,rfl⟩
  packed := by
    intro number hnumber
    obtain rfl : number = 0 := UInt32.toNat_inj.mp (Nat.lt_one_iff.mp (UInt32.lt_iff_toNat_lt.mp hnumber))
    have hdata : (packBitsEncodeChunk (fun _ _ => true) 3 [10,20,30,40,50,60]
        (RawData.start (List.replicate 130 0))).map RawData.data = .ok [2,10,20,30,2,40,50,60] := by decide +kernel
    rcases hencode : packBitsEncodeChunk (fun _ _ => true) 3 [10,20,30,40,50,60]
      (RawData.start (List.replicate 130 0)) with fault | e
    · rw [hencode] at hdata
      cases hdata
    · rw [hencode] at hdata
      have hlength : e.data = [2,10,20,30,2,40,50,60] := Except.ok.inj hdata
      refine ⟨fun _ _ => true,3,List.replicate 130 0,e,1,by decide,by rw [List.length_replicate],hencode,?_⟩
      rw [hlength]
      exact ⟨⟨⟨[8],rfl,8,rfl,rfl⟩,⟨1,rfl,rfl⟩,by decide,by decide⟩,rfl⟩
  whole := by
    intro number hnumber
    obtain rfl : number = 0 := UInt32.toNat_inj.mp (Nat.lt_one_iff.mp (UInt32.lt_iff_toNat_lt.mp hnumber))
    decide
  extent := fun h => absurd h Bool.false_ne_true

theorem packed_rendered_twoLines : ∃ img put tif',
    readRGBAImageOriented .lp64 ⟨none,none,none⟩ true false twoLines twoLinesTags (packedLines.readEncoded false)
      (fun n => 0 ≤ n) 6 3 2 (List.replicate 6 0) orientationBotLeft false ⟨[],⟨[77,2,10,20,30,2,40,50,60],0⟩⟩ =
        some (true,rasterOf (corner orientationBotLeft) 3 2 (scene orientationTopRight 3 2
          (picture .lp64 twoLines twoLinesTags img put false fun _ => [10,20,30,40,50,60])),tif') ∧
      ∃ p, tif'.client = ⟨[77,2,10,20,30,2,40,50,60],p⟩ := by
  obtain ⟨img,put,hpasses⟩ := twoLines_passes
  refine ⟨img,put,?_⟩
  have hprepared : packedLines.Prepared [77,2,10,20,30,2,40,50,60] false ⟨none,none,none⟩ true twoLinesTags
      (fun n => 0 ≤ n) false img put := by
    refine ⟨twoLines_layout,hpasses,twoLines_slack,by decide,fun n hn => of_decide_eq_true hn,?_,by decide⟩
    intro n hn
    refine ⟨_,if_pos hn,?_⟩
    rw [List.length_replicate]
    omega
  exact packed_rendered hprepared packedLines_packed (referenceFile_serves _) (List.replicate 6 0)
    ⟨[],⟨[77,2,10,20,30,2,40,50,60],0⟩⟩ (by decide) (by decide) (by decide) rfl

end Source

end TiffJni.Reading
