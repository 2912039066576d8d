import TiffJni.Image.DecodeEffects
import TiffJni.Image.PixelConversion

/-! # The picture of a raster

Where the dimensions are small the buffer has one word for each pixel. libtiff fills all of
them, the loop converts each of them once, and what is left is the picture of the raster.
-/
namespace TiffJni.Image
open FixedWidth Jni TiffJni.Stream Machine Native
variable {m : DataModel}

theorem sizeFits_of_small {pixels : ℕ} (h : 4 * pixels < 2 ^ 31) : SizeFits m pixels := by
  cases m with
  | ilp32 => exact show pixels < 2 ^ 30 by omega
  | lp64 => exact Or.inl (by omega)

theorem PixelBuffer.words_of_write {b b' : PixelBuffer} {written : List Word} (h : b.write written = some b')
    (hlength : written.length = b.words.length) : b'.words = written := by
  unfold write at h
  rw [dif_pos hlength.le] at h
  cases h
  change written ++ b.words.drop written.length = written
  rw [hlength, List.drop_length, List.append_nil]

namespace DecodeOutcome
variable {d : DecodeOutcome} {block : PixelBuffer}

/-- Signed dimensions of a small image multiply to its number of pixels: a dimension that does
not fit an `int` comes with one that is zero. -/
theorem width_mul_height (h : 4 * d.pixels < 2 ^ 31) :
    d.width * d.height = d.pixels := by
  have hw := d.imageWidth.toNat_lt
  have hh := d.imageLength.toNat_lt
  rw [width, height]
  rw [pixels] at h ⊢
  generalize d.imageWidth.toNat = w at hw h ⊢
  generalize d.imageLength.toNat = l at hh h ⊢
  rcases Nat.eq_zero_or_pos w with rfl | hwpos
  · simp [toSigned]
  rcases Nat.eq_zero_or_pos l with rfl | hlpos
  · simp [toSigned]
  have hwl : w ≤ w * l := Nat.le_mul_of_pos_right w hlpos
  have hlw : l ≤ w * l := Nat.le_mul_of_pos_left l hwpos
  rw [toSigned_natCast (by omega), toSigned_natCast (by omega), Nat.cast_mul]

theorem pixels_pos (hsmall : 4 * d.pixels < 2 ^ 31) (hs : d.Succeeds m) : 0 < d.pixels := by
  have hsize := hs.1.2
  rw [bufferSize_eq_iff.mpr (sizeFits_of_small hsmall)] at hsize
  exact Nat.pos_of_ne_zero (right_ne_zero_of_mul hsize)

/-- An image with pixels, and not too many, has dimensions that fit an `int`. -/
theorem dimensions_eq (hsmall : 4 * d.pixels < 2 ^ 31) (hpos : 0 < d.pixels) :
    d.width = d.imageWidth.toNat ∧ d.height = d.imageLength.toNat := by
  rw [pixels] at hsmall hpos
  have hw := Nat.le_mul_of_pos_right d.imageWidth.toNat (Nat.pos_of_mul_pos_left hpos)
  have hh := Nat.le_mul_of_pos_left d.imageLength.toNat (Nat.pos_of_mul_pos_right hpos)
  exact ⟨toSigned_natCast (by omega),toSigned_natCast (by omega)⟩

theorem Fills.words (h : d.Fills m block) (hsmall : 4 * d.pixels < 2 ^ 31) (hs : d.Succeeds m) :
    block.words = ((List.range d.pixels).map d.raster).map toArgb := by
  obtain ⟨hwidth,hheight⟩ := dimensions_eq hsmall (pixels_pos hsmall hs)
  obtain ⟨allocated,raster,hbytes,hw,hc⟩ := h
  have hlength := words_of_bytes (sizeFits_of_small hsmall) hbytes
  have hwritten : d.writtenWords (toUnsigned 32 d.width) (toUnsigned 32 d.height) =
      (List.range d.pixels).map d.raster := by
    rw [toUnsigned_width, toUnsigned_height, writtenWords, if_pos hs.2, pixels]
  rw [hwritten] at hw
  have hraster : raster.words = (List.range d.pixels).map d.raster :=
    PixelBuffer.words_of_write hw (by rw [List.length_map, List.length_range, hlength])
  have hfull : raster.words.length = d.imageWidth.toNat * d.imageLength.toNat := by
    rw [hraster, List.length_map, List.length_range, pixels]
  rw [pixels] at hsmall
  have hconvert : ∃ b', raster.convert d.imageWidth.toNat d.imageLength.toNat = some b' ∧
      b'.words = raster.words.map toArgb := PixelBuffer.convert_words (by omega) hfull
  obtain ⟨converted,hrun,hwords⟩ := hconvert
  rw [hwidth, hheight, hrun] at hc
  cases hc
  rw [hwords, hraster]

end DecodeOutcome

/-- A block holds the picture of the raster of `d`: every pixel of it was converted, by one turn
of the loop and by no other, and a second run of the loop would give the raster back. -/
structure Converted (d : DecodeOutcome) (block : PixelBuffer) : Prop where
  length : block.words.length = d.imageWidth.toNat * d.imageLength.toNat
  converted : ∀ y < d.imageLength.toNat, ∀ x < d.imageWidth.toNat,
    ∃ argb, block.words[y * d.imageWidth.toNat + x]? = some argb ∧
      SamePixel (d.raster (y * d.imageWidth.toNat + x)) argb
  once : ∀ y < d.imageLength.toNat, ∀ x < d.imageWidth.toNat,
    (conversionIndices d.width d.height).count ((y * d.imageWidth.toNat + x : ℕ) : ℤ) = 1
  covered : ∀ index ∈ conversionIndices d.width d.height, ∃ y < d.imageLength.toNat, ∃ x < d.imageWidth.toNat,
    index = (y * d.imageWidth.toNat + x : ℕ)
  restored : ∃ block', block.convert d.width d.height = some block' ∧
    block'.words = (List.range (d.imageWidth.toNat * d.imageLength.toNat)).map d.raster

theorem DecodeOutcome.Fills.converted {d : DecodeOutcome} {block : PixelBuffer} (h : d.Fills m block)
    (hsmall : 4 * d.pixels < 2 ^ 31) (hs : d.Succeeds m) : Converted d block := by
  have hwords := h.words hsmall hs
  obtain ⟨hwidth,hheight⟩ := DecodeOutcome.dimensions_eq hsmall (DecodeOutcome.pixels_pos hsmall hs)
  rw [DecodeOutcome.pixels] at hsmall hwords
  have hlength : block.words.length = d.imageWidth.toNat * d.imageLength.toNat := by
    rw [hwords, List.length_map, List.length_map, List.length_range]
  have hindices : conversionIndices d.width d.height =
      (List.range (d.imageWidth.toNat * d.imageLength.toNat)).map fun (i : ℕ) => (i : ℤ) := by
    rw [hwidth, hheight, conversionIndices_eq (by omega)]
  have hinside : ∀ y < d.imageLength.toNat, ∀ x < d.imageWidth.toNat,
      y * d.imageWidth.toNat + x < d.imageWidth.toNat * d.imageLength.toNat := by
    intro y hy x hx
    rw [Nat.mul_comm y]
    exact index_lt_mul hy hx
  refine ⟨hlength,?_,?_,?_,?_⟩
  · intro y hy x hx
    refine ⟨_,?_,samePixel_toArgb _⟩
    rw [hwords, List.getElem?_map, List.getElem?_map, List.getElem?_range (hinside y hy x hx)]
    rfl
  · intro y hy x hx
    rw [hindices]
    apply List.count_eq_one_of_mem
    · exact List.nodup_range.map Nat.cast_injective
    · exact List.mem_map_of_mem (List.mem_range.mpr (hinside y hy x hx))
  · intro index hindex
    rw [hindices, List.mem_map] at hindex
    obtain ⟨i,hi,rfl⟩ := hindex
    have hlt := List.mem_range.mp hi
    have hpos : 0 < d.imageWidth.toNat := Nat.pos_of_ne_zero fun hzero => by simp [hzero] at hlt
    refine ⟨i / d.imageWidth.toNat,Nat.div_lt_of_lt_mul hlt,i % d.imageWidth.toNat,Nat.mod_lt _ hpos,?_⟩
    rw [Nat.mul_comm, Nat.div_add_mod]
  · obtain ⟨block',hrun,hrestored⟩ : ∃ b', block.convert d.imageWidth.toNat d.imageLength.toNat = some b' ∧
        b'.words = block.words.map toArgb := PixelBuffer.convert_words (by omega) hlength
    refine ⟨block',?_,?_⟩
    · rw [hwidth, hheight, hrun]
    · rw [hrestored, hwords, map_toArgb_map_toArgb]

end TiffJni.Image
