import TiffJni.Raster.Meaning

/-! # The routines that are picked

For every image that `TIFFRGBAImageBegin` lets pass, the put routine that it picks walks scanlines of the
size that the library computes for the image, and gives the pixels the colours of their samples.
-/
namespace TiffJni.Raster
open FixedWidth

/-- A routine that puts pixels with their samples together; `clips` is for which widths of a tile it also finds the
lines of a clipped tile. -/
def Draws (put : PutRoutine) (bitspersample samplesperpixel : ℕ) (clips : ℕ → Prop) (colourOf : (ℕ → ℕ) → Word) : Prop :=
  ∃ scan : Scan, put.Puts scan ∧
    (∀ line x, scan.word line x = colourOf (sample bitspersample samplesperpixel line x)) ∧
    ∀ w clip, clip = 0 ∨ clips w →
      scan.Walks w ((w * samplesperpixel * bitspersample + 7) / 8) [0] clip

theorem draws_putTile {f : PixelFormat} {step bitspersample samplesperpixel : ℕ} {skew : ℤ → ℤ} {clips : ℕ → Prop}
    {colourOf : (ℕ → ℕ) → Word} (hstep : samplesperpixel * bitspersample = 8 * step) (hbytes : f.bytes ≤ step)
    (hzero : skew 0 = 0) (hskew : ∀ w, clips w → ∀ fromskew : ℕ, fromskew ≤ w → skew fromskew = fromskew * step)
    (hword : ∀ line x, f.word (fun k => line (x * step + k)) = colourOf (sample bitspersample samplesperpixel line x)) :
    Draws (putTile f step skew) bitspersample samplesperpixel clips colourOf := by
  refine ⟨tileScan f step skew,putTile_puts f step skew,hword,?_⟩
  intro w clip hclip
  have hline : (w * samplesperpixel * bitspersample + 7) / 8 = w * step := by
    rw [Nat.mul_assoc, hstep, Nat.mul_left_comm]
    omega
  rw [hline]
  refine tileScan_walks hbytes ?_
  intro fromskew hle hw
  rcases hclip with rfl | hclips
  · rw [Nat.le_zero.mp hle, Nat.cast_zero, hzero, zero_mul]
  · exact hskew w hclips fromskew hw

theorem draws_putPackedTile {bitspersample : ℕ} (hbits : bitspersample = 1 ∨ bitspersample = 2 ∨ bitspersample = 4)
    {map : SampleMap} {word : ℕ → Word} {colourOf : (ℕ → ℕ) → Word}
    (hmap : ∀ i k, map i k = ((samplesOf bitspersample i)[k]?.map word).getD 0) (hword : ∀ v, word (v 0) = colourOf v) :
    Draws (putPackedTile map (8 / bitspersample)) bitspersample 1 (8 ∣ ·) colourOf := by
  have hper : 0 < 8 / bitspersample := by rcases hbits with rfl | rfl | rfl <;> decide
  refine ⟨packedScan map (8 / bitspersample),putPackedTile_puts map hper,?_,?_⟩
  · intro line x
    rw [← hword, ← packed_sample hbits word, ← hmap]
    rfl
  · intro w clip hclip
    have hline : (w * 1 * bitspersample + 7) / 8 = (w + 8 / bitspersample - 1) / (8 / bitspersample) := by
      rcases hbits with rfl | rfl | rfl <;> omega
    rw [hline]
    refine packedScan_walks map hper (hclip.imp_right ?_)
    intro height
    refine dvd_trans ?_ height
    rcases hbits with rfl | rfl | rfl <;> decide

theorem bySamples_eq {samplesperpixel w fromskew : ℕ} (hw : w * samplesperpixel < 2 ^ 31) (hle : fromskew ≤ w) :
    bySamples samplesperpixel fromskew = fromskew * samplesperpixel := by
  have hmul : fromskew * samplesperpixel ≤ w * samplesperpixel := Nat.mul_le_mul_right _ hle
  rw [bySamples, ← Nat.cast_mul]
  exact toSigned_natCast (by omega)

theorem bySamples_zero (samplesperpixel : ℕ) : bySamples samplesperpixel 0 = 0 := by
  rw [bySamples, zero_mul]
  exact toSigned_natCast (x := 0) (by decide)

/-- A routine for RGB or CMYK with eight bits a sample. -/
theorem draws_bytes {f : PixelFormat} {samplesperpixel : ℕ} {colourOf : (ℕ → ℕ) → Word} (hbytes : f.bytes ≤ samplesperpixel)
    (hword : ∀ g : ℕ → UInt8, f.word g = colourOf fun k => (g k).toNat) :
    Draws (putTile f samplesperpixel (bySamples samplesperpixel)) 8 samplesperpixel (· * samplesperpixel < 2 ^ 31)
      colourOf := by
  refine draws_putTile (Nat.mul_comm _ _) hbytes (bySamples_zero samplesperpixel) ?_ ?_
  · exact fun w hw fromskew hle => bySamples_eq hw hle
  · intro line x
    exact hword _

/-- A routine for RGB with 16 bits a sample. -/
theorem draws_samples16 {count samplesperpixel : ℕ} {word : (ℕ → ℕ) → Word}
    {reads : ∀ f g : ℕ → ℕ, (∀ k < count, f k = g k) → word f = word g} (hcount : count ≤ samplesperpixel) :
    Draws (putTile (ofSamples16 count word reads) (2 * samplesperpixel) fun fromskew => 2 * bySamples samplesperpixel fromskew)
      16 samplesperpixel (· * samplesperpixel < 2 ^ 31) word := by
  have hcast : (2 * samplesperpixel : ℤ) = (2 * samplesperpixel : ℕ) := by push_cast; rfl
  rw [hcast]
  refine draws_putTile (by omega) ?_ ?_ ?_ ?_
  · exact Nat.mul_le_mul_left 2 hcount
  · rw [bySamples_zero, mul_zero]
  · intro w hw fromskew hle
    rw [bySamples_eq hw hle]
    push_cast
    ring
  · intro line x
    have hat (k : ℕ) : x * (2 * samplesperpixel) + 2 * k = 2 * (x * samplesperpixel + k) := by ring
    simp only [ofSamples16]
    congr 1
    funext k
    simp only [sample, if_true, sample16, ← Nat.add_assoc, hat]

/-- The samples that a pixel of the image must have for its colour. -/
structure Sampled (photometric samplesperpixel alpha : ℕ) : Prop where
  some : 0 < samplesperpixel
  rgb : photometric = photometricRgb → 3 ≤ samplesperpixel
  alpha : photometric = photometricRgb → alpha ≠ 0 → 4 ≤ samplesperpixel
  cmyk : photometric = photometricSeparated → 4 ≤ samplesperpixel

/-- Samples together; a byte with several pixels has no other samples. -/
structure Fitted (photometric bitspersample samplesperpixel alpha : ℕ) : Prop extends
    Sampled photometric samplesperpixel alpha where
  packed : photometric = photometricPalette ∨ photometric = photometricMiniswhite ∨ photometric = photometricMinisblack →
    bitspersample < 8 → samplesperpixel = 1

/-- The widths of tiles whose lines are found where a tile is clipped at the right edge. `put8bitcmaptile`, `putgreytile`,
`putagreytile` and `put16bitbwtile` count `fromskew` in bytes, whatever a pixel takes, so a pixel must be a byte. -/
def clipsRight (photometric bitspersample samplesperpixel w : ℕ) : Prop :=
  if photometric = photometricRgb ∨ photometric = photometricSeparated then w * samplesperpixel < 2 ^ 31
  else if bitspersample < 8 then 8 ∣ w
  else bitspersample = 8 ∧ samplesperpixel = 1

theorem withTable_eq_some {α : Type} {memory : Bool} {put put' : α} (h : withTable memory put = some put') :
    put = put' := by
  unfold withTable at h
  split at h
  · exact Option.some.inj h
  · cases h

theorem Draws.mono {put : PutRoutine} {bitspersample samplesperpixel : ℕ} {clips clips' : ℕ → Prop}
    {colourOf : (ℕ → ℕ) → Word} (h : Draws put bitspersample samplesperpixel clips colourOf)
    (hclips : ∀ w, clips' w → clips w) : Draws put bitspersample samplesperpixel clips' colourOf := by
  obtain ⟨scan,hputs,hword,hwalks⟩ := h
  exact ⟨scan,hputs,hword,fun w clip hclip => hwalks w clip (hclip.imp_right (hclips w))⟩

section contig
variable {conversions : Conversions} {memory : Bool} {photometric bitspersample samplesperpixel alpha : ℕ} {cmap : Colormap}
variable {put : PutRoutine}

/-- A routine that takes a pixel from the first bytes of it and is skewed by bytes. -/
theorem draws_level {f : PixelFormat} {step : ℕ} {colourOf : (ℕ → ℕ) → Word}
    (hplain : ¬(photometric = photometricRgb ∨ photometric = photometricSeparated)) (hbits : 8 ≤ bitspersample)
    (hstep : samplesperpixel * bitspersample = 8 * step) (hbytes : f.bytes ≤ step)
    (hword : ∀ line x, f.word (fun k => line (x * step + k)) = colourOf (sample bitspersample samplesperpixel line x)) :
    Draws (putTile f step id) bitspersample samplesperpixel (clipsRight photometric bitspersample samplesperpixel)
      colourOf := by
  refine draws_putTile hstep hbytes rfl ?_ hword
  intro w hw fromskew _
  rw [clipsRight, if_neg hplain, if_neg (by omega)] at hw
  obtain ⟨rfl,rfl⟩ := hw
  obtain rfl : step = 1 := by omega
  rw [id, Nat.cast_one, mul_one]

theorem draws_packed (hplain : ¬(photometric = photometricRgb ∨ photometric = photometricSeparated))
    (hbits : bitspersample = 1 ∨ bitspersample = 2 ∨ bitspersample = 4) (word : ℕ → Word) {colourOf : (ℕ → ℕ) → Word}
    (hword : ∀ v, word (v 0) = colourOf v) :
    Draws (putPackedTile (fun i k => ((samplesOf bitspersample i)[k]?.map word).getD 0) (8 / bitspersample)) bitspersample 1
      (clipsRight photometric bitspersample 1) colourOf := by
  refine (draws_putPackedTile hbits (fun _ _ => rfl) hword).mono ?_
  intro w hw
  rwa [clipsRight, if_neg hplain, if_pos (by omega)] at hw

theorem sample_byte (samplesperpixel : ℕ) (line : ℕ → UInt8) (x s : ℕ) :
    sample 8 samplesperpixel line x s = (line (x * samplesperpixel + s)).toNat := rfl

theorem pickRgb_draws (hfitted : Fitted photometricRgb bitspersample samplesperpixel alpha)
    (h : pickContigCase conversions memory photometricRgb bitspersample samplesperpixel alpha cmap = some put) :
    Draws put bitspersample samplesperpixel (· * samplesperpixel < 2 ^ 31)
      (colour photometricRgb bitspersample samplesperpixel alpha cmap) := by
  have hthree := hfitted.rgb rfl
  have hfour := hfitted.alpha rfl
  have hcolour (v : ℕ → ℕ) : colour photometricRgb bitspersample samplesperpixel alpha cmap v =
      rgba alpha (channel bitspersample (v 0)) (channel bitspersample (v 1)) (channel bitspersample (v 2))
        (channel bitspersample (v 3)) := by
    rw [colour]
    exact if_pos rfl
  rw [pickContigCase, if_pos rfl] at h
  split_ifs at h with h8 hassoc hunass h16 hassoc hunass
  · obtain rfl := Option.some.inj h
    subst h8
    refine draws_bytes (hfour (by rw [hassoc]; decide)) ?_
    intro g
    rw [hcolour, rgba, if_pos hassoc]
    simp only [channel_byte]
    rfl
  · obtain rfl := withTable_eq_some h
    subst h8
    refine draws_bytes (hfour (by rw [hunass]; decide)) ?_
    intro g
    rw [hcolour, rgba, if_neg hassoc, if_pos hunass]
    simp only [channel_byte]
    rfl
  · obtain rfl := Option.some.inj h
    subst h8
    refine draws_bytes hthree ?_
    intro g
    rw [hcolour, rgba, if_neg hassoc, if_neg hunass]
    simp only [channel_byte]
    rfl
  · obtain rfl := withTable_eq_some h
    subst h16
    have hword : colour photometricRgb 16 samplesperpixel alpha cmap = fun v => pack4 (ofByte (buildMapBitdepth16To8 (v 0)))
        (ofByte (buildMapBitdepth16To8 (v 1))) (ofByte (buildMapBitdepth16To8 (v 2)))
        (ofByte (buildMapBitdepth16To8 (v 3))) := by
      funext v
      rw [hcolour, rgba, if_pos hassoc]
      rfl
    rw [hword]
    exact draws_samples16 (hfour (by rw [hassoc]; decide))
  · obtain rfl := withTable_eq_some h
    subst h16
    have hword : colour photometricRgb 16 samplesperpixel alpha cmap = fun v =>
        let a := buildMapBitdepth16To8 (v 3)
        let m := fun k => buildMapUaToAa (a.toNat * 256 + (buildMapBitdepth16To8 (v k)).toNat)
        pack4 (ofByte (m 0)) (ofByte (m 1)) (ofByte (m 2)) (ofByte a) := by
      funext v
      rw [hcolour, rgba, if_neg hassoc, if_pos hunass]
      rfl
    rw [hword]
    exact draws_samples16 (hfour (by rw [hunass]; decide))
  · obtain rfl := withTable_eq_some h
    subst h16
    have hword : colour photometricRgb 16 samplesperpixel alpha cmap = fun v => pack (ofByte (buildMapBitdepth16To8 (v 0)))
        (ofByte (buildMapBitdepth16To8 (v 1))) (ofByte (buildMapBitdepth16To8 (v 2))) := by
      funext v
      rw [hcolour, rgba, if_neg hassoc, if_neg hunass]
      rfl
    rw [hword]
    exact draws_samples16 hthree

theorem pickCmyk_draws (hfitted : Fitted photometricSeparated bitspersample samplesperpixel alpha)
    (h : pickContigCase conversions memory photometricSeparated bitspersample samplesperpixel alpha cmap = some put) :
    Draws put bitspersample samplesperpixel (· * samplesperpixel < 2 ^ 31)
      (colour photometricSeparated bitspersample samplesperpixel alpha cmap) := by
  rw [pickContigCase, if_neg (by decide), if_pos rfl] at h
  split_ifs at h with h8
  obtain rfl := Option.some.inj h
  subst h8
  refine draws_bytes (hfitted.cmyk rfl) ?_
  intro g
  rw [colour, if_neg (by decide), if_pos rfl]
  simp only [channel_byte]
  rfl

theorem pickPalette_draws (hfitted : Fitted photometricPalette bitspersample samplesperpixel alpha)
    (h : pickContigCase conversions memory photometricPalette bitspersample samplesperpixel alpha cmap = some put) :
    Draws put bitspersample samplesperpixel (clipsRight photometricPalette bitspersample samplesperpixel)
      (colour photometricPalette bitspersample samplesperpixel alpha cmap) := by
  have hcolour (v : ℕ → ℕ) : colour photometricPalette bitspersample samplesperpixel alpha cmap v =
      paletteWord (buildColormap bitspersample cmap) (v 0) := by
    rw [colour, if_neg (by decide), if_neg (by decide)]
    exact if_pos rfl
  rw [pickContigCase, if_neg (by decide), if_neg (by decide), if_pos rfl] at h
  have hplain : ¬(photometricPalette = photometricRgb ∨ photometricPalette = photometricSeparated) := by decide
  split_ifs at h with h8 h4 h2 h1
  · obtain rfl := withTable_eq_some h
    subst h8
    refine draws_level hplain le_rfl (Nat.mul_comm _ _) hfitted.some ?_
    intro line x
    rw [hcolour, sample_byte]
    rfl
  all_goals
    obtain rfl := withTable_eq_some h
    obtain rfl := hfitted.packed (Or.inl rfl) (by omega)
  · subst h4
    exact draws_packed hplain (by decide) (paletteWord (buildColormap 4 cmap)) fun v => (hcolour v).symm
  · subst h2
    exact draws_packed hplain (by decide) (paletteWord (buildColormap 2 cmap)) fun v => (hcolour v).symm
  · subst h1
    exact draws_packed hplain (by decide) (paletteWord (buildColormap 1 cmap)) fun v => (hcolour v).symm

theorem pickGrey_draws (hgrey : photometric = photometricMiniswhite ∨ photometric = photometricMinisblack)
    (hfitted : Fitted photometric bitspersample samplesperpixel alpha)
    (h : pickContigCase conversions memory photometric bitspersample samplesperpixel alpha cmap = some put) :
    Draws put bitspersample samplesperpixel (clipsRight photometric bitspersample samplesperpixel)
      (colour photometric bitspersample samplesperpixel alpha cmap) := by
  have hplain : ¬(photometric = photometricRgb ∨ photometric = photometricSeparated) := by
    rcases hgrey with rfl | rfl <;> decide
  have hpalette : photometric ≠ photometricPalette := by rcases hgrey with rfl | rfl <;> decide
  obtain ⟨hrgb,hcmyk⟩ := not_or.mp hplain
  have hcolour (v : ℕ → ℕ) : colour photometric bitspersample samplesperpixel alpha cmap v =
      if bitspersample = 8 ∧ alpha ≠ 0 ∧ samplesperpixel = 2 then
        grey (setupMap photometric bitspersample (if bitspersample = 16 then v 0 / 256 else v 0)) &&&
          (ofByte (channel bitspersample (v 1)) <<< 24 ||| ~~~a1)
      else grey (setupMap photometric bitspersample (if bitspersample = 16 then v 0 / 256 else v 0)) := by
    rw [colour]
    dsimp only
    rw [if_neg hrgb, if_neg hcmyk, if_neg hpalette]
  rw [pickContigCase, if_neg hrgb, if_neg hcmyk, if_neg hpalette, if_pos hgrey] at h
  split_ifs at h with h16 h8 hagrey h4 h2 h1
  · obtain rfl := withTable_eq_some h
    subst h16
    have hcast : (2 * samplesperpixel : ℤ) = (2 * samplesperpixel : ℕ) := by push_cast; rfl
    rw [put16bitbwtile, hcast]
    refine draws_level hplain (by omega) (by omega) (Nat.mul_le_mul_left 2 hfitted.some) ?_
    intro line x
    have hat : x * (2 * samplesperpixel) = 2 * (x * samplesperpixel + 0) := by ring
    rw [hcolour, if_neg (by omega), if_pos rfl, sample, if_pos rfl, hat]
    rfl
  · obtain rfl := withTable_eq_some h
    subst h8
    refine draws_level hplain le_rfl (Nat.mul_comm _ _) hagrey.2.ge ?_
    intro line x
    rw [hcolour, if_pos ⟨rfl,hagrey⟩, if_neg (by decide), sample_byte, sample_byte, channel_byte]
    rfl
  · obtain rfl := withTable_eq_some h
    subst h8
    refine draws_level hplain le_rfl (Nat.mul_comm _ _) hfitted.some ?_
    intro line x
    rw [hcolour, if_neg (fun hall => hagrey hall.2), if_neg (by decide), sample_byte]
    rfl
  all_goals
    obtain rfl := withTable_eq_some h
    obtain rfl := hfitted.packed (Or.inr hgrey) (by omega)
    have hlevel (v : ℕ → ℕ) : grey (setupMap photometric bitspersample (v 0)) =
        colour photometric bitspersample 1 alpha cmap v := by
      rw [hcolour, if_neg (by omega), if_neg (by omega)]
  · subst h4
    exact draws_packed hplain (by decide) (fun x => grey (setupMap photometric 4 x)) hlevel
  · subst h2
    exact draws_packed hplain (by decide) (fun x => grey (setupMap photometric 2 x)) hlevel
  · subst h1
    exact draws_packed hplain (by decide) (fun x => grey (setupMap photometric 1 x)) hlevel

/-- What `PickContigCase` picks gives the pixels their colours. -/
theorem pickContigCase_draws (hycbcr : photometric ≠ photometricYcbcr) (hlab : photometric ≠ photometricCielab)
    (hfitted : Fitted photometric bitspersample samplesperpixel alpha)
    (h : pickContigCase conversions memory photometric bitspersample samplesperpixel alpha cmap = some put) :
    Draws put bitspersample samplesperpixel (clipsRight photometric bitspersample samplesperpixel)
      (colour photometric bitspersample samplesperpixel alpha cmap) := by
  by_cases hrgb : photometric = photometricRgb
  · subst hrgb
    refine (pickRgb_draws hfitted h).mono ?_
    intro w hw
    rwa [clipsRight, if_pos (Or.inl rfl)] at hw
  by_cases hcmyk : photometric = photometricSeparated
  · subst hcmyk
    refine (pickCmyk_draws hfitted h).mono ?_
    intro w hw
    rwa [clipsRight, if_pos (Or.inr rfl)] at hw
  by_cases hpalette : photometric = photometricPalette
  · subst hpalette
    exact pickPalette_draws hfitted h
  by_cases hgrey : photometric = photometricMiniswhite ∨ photometric = photometricMinisblack
  · exact pickGrey_draws hgrey hfitted h
  · rw [pickContigCase, if_neg hrgb, if_neg hcmyk, if_neg hpalette, if_neg hgrey, if_neg hycbcr, if_neg hlab] at h
    cases h

end contig

/-- The colour of a pixel from its samples in four planes, the last of which is for alpha or black. -/
def planesColour (photometric bitspersample alpha : ℕ) (v : ℕ → ℕ) : Word :=
  let c := fun s => channel bitspersample (v s)
  if photometric = photometricSeparated then cmyk (c 0) (c 1) (c 2) (c 3) else rgba alpha (c 0) (c 1) (c 2) (c 3)

/-- A routine that puts pixels with their samples in planes. -/
def DrawsPlanes (put : (ℕ → ℕ) → PutRoutine) (bitspersample count : ℕ) (colourOf : (ℕ → ℕ) → Word) : Prop :=
  ∀ plane : ℕ → ℕ, ∃ scan : Scan, (put plane).Puts scan ∧
    (∀ g x, scan.word g x = colourOf fun k => sample bitspersample 1 (fun i => g (plane k + i)) x 0) ∧
    ∀ starts w clip, (∀ k < count, plane k ∈ starts) → scan.Walks w ((w * bitspersample + 7) / 8) starts clip

theorem drawsPlanes_bytes {f : PixelFormat} {count : ℕ} {colourOf : (ℕ → ℕ) → Word} (hcount : f.bytes = count)
    (hpos : 0 < count) (hword : ∀ g : ℕ → UInt8, f.word g = colourOf fun k => (g k).toNat) :
    DrawsPlanes (fun plane => putTile (f.separate 1 plane) 1 id) 8 count colourOf := by
  intro plane
  refine ⟨tileScan (f.separate 1 plane) 1 id,putTile_puts _ _ _,?_,?_⟩
  · intro g x
    have hat (k : ℕ) : x * (1 : ℤ).toNat + (plane (k / 1) + k % 1) = plane k + (x * 1 + 0) := by
      rw [Nat.div_one, Nat.mod_one, Int.toNat_one]
      omega
    simp only [tileScan, PixelFormat.separate, hword, hat]
    rfl
  · intro starts w clip hstarts
    have hline : (w * 8 + 7) / 8 = w * 1 := by omega
    rw [hline]
    refine separate_walks id ?_ (hcount ▸ hpos) fun fromskew _ _ => ?_
    · rw [hcount, Nat.div_one, Nat.add_sub_cancel]
      exact hstarts
    · rw [id, Nat.cast_one, mul_one]

theorem drawsPlanes_samples16 {count : ℕ} {word : (ℕ → ℕ) → Word}
    {reads : ∀ f g : ℕ → ℕ, (∀ k < count, f k = g k) → word f = word g} (hpos : 0 < count) :
    DrawsPlanes (fun plane => putTile ((ofSamples16 count word reads).separate 2 plane) 2 fun fromskew => 2 * fromskew) 16
      count word := by
  intro plane
  refine ⟨tileScan ((ofSamples16 count word reads).separate 2 plane) 2 fun fromskew => 2 * fromskew,
    putTile_puts _ _ _,?_,?_⟩
  · intro g x
    have hlow (k : ℕ) : x * (2 : ℤ).toNat + (plane (2 * k / 2) + 2 * k % 2) = plane k + 2 * (x * 1 + 0) := by
      have htwo : (2 : ℤ).toNat = 2 := rfl
      rw [Nat.mul_div_cancel_left k (by decide), Nat.mul_mod_right, htwo]
      omega
    have hhigh (k : ℕ) : x * (2 : ℤ).toNat + (plane ((2 * k + 1) / 2) + (2 * k + 1) % 2) =
        plane k + (2 * (x * 1 + 0) + 1) := by
      have htwo : (2 : ℤ).toNat = 2 := rfl
      have hhalf : (2 * k + 1) / 2 = k := by omega
      have hodd : (2 * k + 1) % 2 = 1 := by omega
      rw [hhalf, hodd, htwo]
      omega
    simp only [tileScan, PixelFormat.separate, ofSamples16, sample16, hlow, hhigh]
    rfl
  · intro starts w clip hstarts
    have hline : (w * 16 + 7) / 8 = w * 2 := by omega
    rw [hline]
    refine separate_walks _ ?_ (Nat.mul_pos (by decide) hpos) fun fromskew _ _ => ?_
    · have hplanes : ((ofSamples16 count word reads).bytes + 2 - 1) / 2 = count := by
        change (2 * count + 2 - 1) / 2 = count
        omega
      rw [hplanes]
      exact hstarts
    · push_cast
      ring

section separate
variable {conversions : Conversions} {memory : Bool} {photometric bitspersample samplesperpixel alpha alpha' : ℕ}
variable {put : (ℕ → ℕ) → PutRoutine}

/-- Planes of greys are shown as planes of red, green and blue. -/
theorem planesColour_of_ne (hne : photometric ≠ photometricSeparated) :
    planesColour photometric bitspersample alpha = planesColour photometricRgb bitspersample alpha := by
  funext v
  rw [planesColour, planesColour]
  dsimp only
  rw [if_neg hne, if_neg (show photometricRgb ≠ photometricSeparated by decide)]

theorem putRGBAAseparate8bittile_draws :
    DrawsPlanes putRGBAAseparate8bittile 8 4 (planesColour photometricRgb 8 extrasampleAssocalpha) := by
  refine drawsPlanes_bytes rfl (by decide) ?_
  intro g
  simp only [planesColour, channel_byte]
  rfl

theorem putRGBUAseparate8bittile_draws : DrawsPlanes (fun plane => putRGBUAseparate8bittile plane buildMapUaToAa) 8 4
    (planesColour photometricRgb 8 extrasampleUnassalpha) := by
  refine drawsPlanes_bytes rfl (by decide) ?_
  intro g
  simp only [planesColour, channel_byte]
  rfl

theorem putRGBseparate8bittile_draws :
    DrawsPlanes putRGBseparate8bittile 8 3 (planesColour photometricRgb 8 0) := by
  refine drawsPlanes_bytes rfl (by decide) ?_
  intro g
  simp only [planesColour, channel_byte]
  rfl

theorem putRGBAAseparate16bittile_draws : DrawsPlanes (fun plane => putRGBAAseparate16bittile plane buildMapBitdepth16To8)
    16 4 (planesColour photometricRgb 16 extrasampleAssocalpha) :=
  drawsPlanes_samples16 (by decide)

theorem putRGBUAseparate16bittile_draws :
    DrawsPlanes (fun plane => putRGBUAseparate16bittile plane buildMapUaToAa buildMapBitdepth16To8) 16 4
      (planesColour photometricRgb 16 extrasampleUnassalpha) :=
  drawsPlanes_samples16 (by decide)

theorem putRGBseparate16bittile_draws : DrawsPlanes (fun plane => putRGBseparate16bittile plane buildMapBitdepth16To8)
    16 3 (planesColour photometricRgb 16 0) :=
  drawsPlanes_samples16 (by decide)

theorem putCMYKseparate8bittile_draws (alpha : ℕ) :
    DrawsPlanes putCMYKseparate8bittile 8 4 (planesColour photometricSeparated 8 alpha) := by
  refine drawsPlanes_bytes rfl (by decide) ?_
  intro g
  simp only [planesColour, channel_byte]
  have hopaque : (255 : Word) <<< 24 = a1 := by decide
  change pack4 _ _ _ 255 = _
  rw [pack4, hopaque]
  rfl

theorem alpha_eq_zero (halpha : alpha ≤ 2) (hassoc : alpha ≠ extrasampleAssocalpha)
    (hunass : alpha ≠ extrasampleUnassalpha) : alpha = 0 := by
  unfold extrasampleAssocalpha at hassoc
  unfold extrasampleUnassalpha at hunass
  omega

/-- What `PickSeparateCase` picks gives the pixels the colours of their planes. -/
theorem pickSeparateCase_draws (hycbcr : photometric ≠ photometricYcbcr) (halpha : alpha ≤ 2)
    (h : pickSeparateCase conversions memory photometric bitspersample samplesperpixel alpha = some (put,alpha')) :
    (photometric = photometricSeparated ∧ alpha' ≠ 0 ∨ photometric ≠ photometricSeparated ∧ alpha' = alpha) ∧
      (bitspersample = 8 ∨ bitspersample = 16) ∧
      DrawsPlanes put bitspersample (if alpha' = 0 then 3 else 4) (planesColour photometric bitspersample alpha) := by
  have hne (hrgb : photometric = photometricMiniswhite ∨ photometric = photometricMinisblack ∨
      photometric = photometricRgb) : photometric ≠ photometricSeparated := by
    rcases hrgb with rfl | rfl | rfl <;> decide
  rw [pickSeparateCase] at h
  split_ifs at h with hrgb h8 hassoc hunass h16 hassoc hunass hcmyk h8
  · obtain ⟨rfl,rfl⟩ := Prod.mk.inj (Option.some.inj h)
    subst h8 hassoc
    rw [planesColour_of_ne (hne hrgb)]
    exact ⟨Or.inr ⟨hne hrgb,rfl⟩,Or.inl rfl,putRGBAAseparate8bittile_draws⟩
  · obtain ⟨rfl,rfl⟩ := Prod.mk.inj (withTable_eq_some h)
    subst h8 hunass
    rw [planesColour_of_ne (hne hrgb)]
    exact ⟨Or.inr ⟨hne hrgb,rfl⟩,Or.inl rfl,putRGBUAseparate8bittile_draws⟩
  · obtain ⟨rfl,rfl⟩ := Prod.mk.inj (Option.some.inj h)
    obtain rfl := alpha_eq_zero halpha hassoc hunass
    subst h8
    rw [planesColour_of_ne (hne hrgb)]
    exact ⟨Or.inr ⟨hne hrgb,rfl⟩,Or.inl rfl,putRGBseparate8bittile_draws⟩
  · obtain ⟨rfl,rfl⟩ := Prod.mk.inj (withTable_eq_some h)
    subst h16 hassoc
    rw [planesColour_of_ne (hne hrgb)]
    exact ⟨Or.inr ⟨hne hrgb,rfl⟩,Or.inr rfl,putRGBAAseparate16bittile_draws⟩
  · obtain ⟨rfl,rfl⟩ := Prod.mk.inj (withTable_eq_some h)
    subst h16 hunass
    rw [planesColour_of_ne (hne hrgb)]
    exact ⟨Or.inr ⟨hne hrgb,rfl⟩,Or.inr rfl,putRGBUAseparate16bittile_draws⟩
  · obtain ⟨rfl,rfl⟩ := Prod.mk.inj (withTable_eq_some h)
    obtain rfl := alpha_eq_zero halpha hassoc hunass
    subst h16
    rw [planesColour_of_ne (hne hrgb)]
    exact ⟨Or.inr ⟨hne hrgb,rfl⟩,Or.inr rfl,putRGBseparate16bittile_draws⟩
  · obtain ⟨rfl,rfl⟩ := Prod.mk.inj (Option.some.inj h)
    obtain ⟨rfl,-⟩ := h8
    subst hcmyk
    exact ⟨Or.inl ⟨rfl,by decide⟩,Or.inl rfl,putCMYKseparate8bittile_draws alpha⟩

end separate

end TiffJni.Raster
