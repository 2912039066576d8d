import TiffJni.Raster.ImageBegin

/-! # What the samples of an image mean

A pixel has samples, which lie in a scanline one behind the other or each in a scanline of its own plane, and
the samples have a colour. The tables and the put routines that the library picks for an image give every
pixel the colour of its samples.
-/
namespace TiffJni.Raster

/-- Sample `s` of pixel `x` in a scanline; samples of less than eight bits fill a byte from its high bits on. -/
def sample (bitspersample samplesperpixel : ℕ) (line : ℕ → UInt8) (x s : ℕ) : ℕ :=
  if bitspersample = 16 then sample16 line (2 * (x * samplesperpixel + s))
  else if bitspersample = 8 then (line (x * samplesperpixel + s)).toNat
  else
    let perByte := 8 / bitspersample
    let i := x * samplesperpixel + s
    (line (i / perByte)).toNat / 2 ^ (8 - bitspersample * (i % perByte + 1)) % 2 ^ bitspersample

def channel (bitspersample v : ℕ) : UInt8 :=
  if bitspersample = 16 then buildMapBitdepth16To8 v else UInt8.ofNat v

/-- A colour channel that alpha was multiplied into. -/
def premultiplied (v a : UInt8) : UInt8 := buildMapUaToAa (a.toNat * 256 + v.toNat)

def rgba (alpha : ℕ) (r g b a : UInt8) : Word :=
  if alpha = extrasampleAssocalpha then pack4 (ofByte r) (ofByte g) (ofByte b) (ofByte a)
  else if alpha = extrasampleUnassalpha then
    pack4 (ofByte (premultiplied r a)) (ofByte (premultiplied g a)) (ofByte (premultiplied b a)) (ofByte a)
  else pack (ofByte r) (ofByte g) (ofByte b)

def cmyk (c m y k : UInt8) : Word :=
  pack (BitVec.ofNat 32 (cmykChannel c k)) (BitVec.ofNat 32 (cmykChannel m k)) (BitVec.ofNat 32 (cmykChannel y k))

def colour (photometric bitspersample samplesperpixel alpha : ℕ) (cmap : Colormap) (v : ℕ → ℕ) : Word :=
  let c := fun s => channel bitspersample (v s)
  if photometric = photometricRgb then rgba alpha (c 0) (c 1) (c 2) (c 3)
  else if photometric = photometricSeparated then cmyk (c 0) (c 1) (c 2) (c 3)
  else if photometric = photometricPalette then paletteWord (buildColormap bitspersample cmap) (v 0)
  else
    let level := grey (setupMap photometric bitspersample (if bitspersample = 16 then v 0 / 256 else v 0))
    if bitspersample = 8 ∧ alpha ≠ 0 ∧ samplesperpixel = 2 then level &&& (ofByte (c 1) <<< 24 ||| ~~~a1) else level

/-- The colour of a pixel with each sample in a plane of its own; greyscale is shown as RGB. -/
def colourSeparate (photometric bitspersample alpha : ℕ) (v : ℕ → ℕ) : Word :=
  let c := fun s => channel bitspersample (v s)
  if photometric = photometricSeparated then cmyk (c 0) (c 1) (c 2) (c 3)
  else if photometric = photometricRgb then rgba alpha (c 0) (c 1) (c 2) (c 3)
  else rgba alpha (c 0) (c 0) (c 0) (c 1)

theorem channel_byte (b : UInt8) : channel 8 b.toNat = b := UInt8.ofNat_toNat

theorem samplesOf_getElem? {bitspersample k i : ℕ} (hbits : bitspersample = 1 ∨ bitspersample = 2 ∨ bitspersample = 4)
    (hk : k < 8 / bitspersample) (hi : i < 256) :
    (samplesOf bitspersample i)[k]? = some (i / 2 ^ (8 - bitspersample * (k + 1)) % 2 ^ bitspersample) := by
  have hone (n : ℕ) : n &&& 1 = n % 2 := Nat.and_two_pow_sub_one_eq_mod n 1
  have hthree (n : ℕ) : n &&& 3 = n % 4 := Nat.and_two_pow_sub_one_eq_mod n 2
  have hfifteen (n : ℕ) : n &&& 0xf = n % 16 := Nat.and_two_pow_sub_one_eq_mod n 4
  rcases hbits with rfl | rfl | rfl
  · interval_cases k <;> simp [samplesOf, Nat.shiftRight_eq_div_pow, hone]
    omega
  · interval_cases k <;> simp [samplesOf, Nat.shiftRight_eq_div_pow, hthree]
    omega
  · interval_cases k <;> simp [samplesOf, Nat.shiftRight_eq_div_pow, hfifteen]
    omega

/-- A table over the samples of a byte finds the sample of the pixel. -/
theorem packed_sample {bitspersample : ℕ} (hbits : bitspersample = 1 ∨ bitspersample = 2 ∨ bitspersample = 4)
    (word : ℕ → Word) (line : ℕ → UInt8) (x : ℕ) :
    ((samplesOf bitspersample (line (x / (8 / bitspersample))).toNat)[x % (8 / bitspersample)]?.map word).getD 0 =
      word (sample bitspersample 1 line x 0) := by
  have hper : 0 < 8 / bitspersample := by rcases hbits with rfl | rfl | rfl <;> decide
  rw [samplesOf_getElem? hbits (Nat.mod_lt x hper) (UInt8.toNat_lt _)]
  have hone : x * 1 + 0 = x := by omega
  rcases hbits with rfl | rfl | rfl <;> simp only [sample, hone] <;> rfl

end TiffJni.Raster
