import TiffJni.Raster.Begun

/-! # Pixels and their planes

The samples of a pixel lie in one plane or in three or four, which the get routines read one after the other. What
the put routine makes of the planes is the colour of the pixel, in both cases.
-/
namespace TiffJni.Raster
open FixedWidth

namespace Put

def routine (img : RGBAImage) (size : ℕ) : Put → PutRoutine
  | .contig put => put
  | .separate put => put (planeStart img size)

def planes (img : RGBAImage) (size : ℕ) : Put → List Plane
  | .contig _ => [⟨0,0⟩]
  | .separate _ => separatePlanes img size

/-- The plane that the `k`-th sample of a pixel is taken from. -/
def plane (img : RGBAImage) (size k : ℕ) : Put → Plane
  | .contig _ => ⟨0,0⟩
  | .separate _ => ⟨planeStart img size k,planeSample img k⟩

end Put

theorem colorchannels_cases (img : RGBAImage) : colorchannels img = 1 ∨ colorchannels img = 3 := by
  unfold colorchannels
  split
  · exact Or.inl rfl
  · exact Or.inr rfl

/-- The planes that are read are those that samples are taken from. -/
theorem mem_separatePlanes {img : RGBAImage} {size : ℕ} {q : Plane} : q ∈ separatePlanes img size ↔
    ∃ k < if img.alpha = 0 then 3 else 4, q = ⟨planeStart img size k,planeSample img k⟩ := by
  have hthree (P : ℕ → Prop) : (∃ k < 3, P k) ↔ P 0 ∨ P 1 ∨ P 2 := by
    constructor
    · rintro ⟨k,hk,h⟩
      obtain rfl | rfl | rfl : k = 0 ∨ k = 1 ∨ k = 2 := by omega
      · exact Or.inl h
      · exact Or.inr (Or.inl h)
      · exact Or.inr (Or.inr h)
    · rintro (h | h | h)
      · exact ⟨0,by decide,h⟩
      · exact ⟨1,by decide,h⟩
      · exact ⟨2,by decide,h⟩
  have hfour (P : ℕ → Prop) : (∃ k < 4, P k) ↔ (∃ k < 3, P k) ∨ P 3 := Nat.exists_lt_succ_right
  rcases colorchannels_cases img with hchannels | hchannels <;> by_cases halpha : img.alpha = 0
  all_goals
    simp only [halpha, if_true, if_false, hfour, hthree]
    simp [separatePlanes, planeStart, planeSample, hchannels, halpha, or_assoc]

theorem separatePlanes_apart (img : RGBAImage) (size : ℕ) :
    Apart (separatePlanes img size) size ((if img.alpha = 0 then 3 else 4) * size) := by
  unfold separatePlanes
  by_cases halpha : img.alpha = 0 <;> by_cases hone : colorchannels img = 1 <;> constructor <;>
    simp [halpha, hone] <;> omega

theorem sample_congr {bitspersample w x : ℕ} (hbits : bitspersample = 8 ∨ bitspersample = 16) (hx : x < w)
    {line line' : ℕ → UInt8} (h : ∀ i < (w * bitspersample + 7) / 8, line i = line' i) :
    sample bitspersample 1 line x 0 = sample bitspersample 1 line' x 0 := by
  rcases hbits with rfl | rfl
  · simp only [sample_byte, h (x * 1 + 0) (by omega)]
  · simp only [sample, if_true, sample16, h (2 * (x * 1 + 0)) (by omega), h (2 * (x * 1 + 0) + 1) (by omega)]

theorem planesColour_congr {photometric bitspersample alpha : ℕ} (hcmyk : photometric = photometricSeparated → alpha ≠ 0)
    {v v' : ℕ → ℕ} (h : ∀ k < if alpha = 0 then 3 else 4, v k = v' k) :
    planesColour photometric bitspersample alpha v = planesColour photometric bitspersample alpha v' := by
  unfold planesColour
  dsimp only
  by_cases halpha : alpha = 0
  · have hplain : photometric ≠ photometricSeparated := fun h => hcmyk h halpha
    rw [if_pos halpha] at h
    have hassoc : alpha ≠ extrasampleAssocalpha := by rw [halpha]; decide
    have hunass : alpha ≠ extrasampleUnassalpha := by rw [halpha]; decide
    rw [if_neg hplain, if_neg hplain, h 0 (by omega), h 1 (by omega), h 2 (by omega), rgba, rgba, if_neg hassoc,
      if_neg hassoc, if_neg hunass, if_neg hunass]
  · rw [if_neg halpha] at h
    rw [h 0 (by omega), h 1 (by omega), h 2 (by omega), h 3 (by omega)]

/-- Whether the lines of a clipped tile of a width are found. -/
def Put.Clips (d : Directory) (img : RGBAImage) (w : ℕ) : Put → Prop
  | .contig _ => clipsRight img.photometric d.bitspersample.toNat img.samplesperpixel.toNat w
  | .separate _ => True

/-- What a put routine takes from the planes of a buffer is the colour of the pixel. -/
theorem Drawn.scans {d : Directory} {img : RGBAImage} {cmap : Colormap} {put : Put} (h : Drawn d img cmap put) (size : ℕ) :
    ∃ scan : Scan, (put.routine img size).Puts scan ∧ ∀ w clip, clip = 0 ∨ put.Clips d img w →
      scan.Walks w ((w * d.channels * d.bitspersample.toNat + 7) / 8) ((put.planes img size).map Plane.start) clip ∧
      ∀ data ρ, ∀ x < w, ∀ p, FromPlanes scan (put.planes img size) ((w * d.channels * d.bitspersample.toNat + 7) / 8)
        data ρ x p → p = pixelColour img d.bitspersample.toNat cmap put (fun k i => (data (put.plane img size k)).getD
          (ρ * ((w * d.channels * d.bitspersample.toNat + 7) / 8) + i) 0) x := by
  cases put with
  | contig put =>
    obtain ⟨hchannels,scan,hputs,hword,hwalks⟩ := h
    refine ⟨scan,hputs,?_⟩
    intro w clip hclip
    rw [hchannels]
    refine ⟨hwalks w clip hclip,?_⟩
    rintro data ρ x hx p ⟨g,rfl,hg⟩
    rw [pixelColour, ← hword]
    refine (hwalks w clip hclip).word_congr _ _ x hx ?_
    intro s hs i hi
    rw [List.mem_singleton.mp hs]
    have hbyte := hg ⟨0,0⟩ (List.mem_singleton.mpr rfl) i hi
    rw [Nat.zero_add] at hbyte ⊢
    exact hbyte
  | separate put =>
    obtain ⟨hchannels,hbits,hcmyk,-,hdraws⟩ := h
    obtain ⟨scan,hputs,hword,hwalks⟩ := hdraws (planeStart img size)
    refine ⟨scan,hputs,?_⟩
    intro w clip _
    rw [hchannels, Nat.mul_one]
    refine ⟨hwalks _ w clip ?_,?_⟩
    · intro k hk
      exact List.mem_map.mpr ⟨_,mem_separatePlanes.mpr ⟨k,hk,rfl⟩,rfl⟩
    rintro data ρ x hx p ⟨g,rfl,hg⟩
    rw [pixelColour, hword]
    refine planesColour_congr hcmyk ?_
    intro k hk
    refine sample_congr hbits hx ?_
    intro i hi
    exact hg _ (mem_separatePlanes.mpr ⟨k,hk,rfl⟩) i hi

/-- The colour of a pixel depends on the lines of its planes only. -/
theorem Drawn.colour_congr {d : Directory} {img : RGBAImage} {cmap : Colormap} {put : Put} (h : Drawn d img cmap put)
    {w x : ℕ} (hx : x < w) {line line' : ℕ → ℕ → UInt8}
    (hagree : ∀ k < put.count img, ∀ i < (w * d.channels * d.bitspersample.toNat + 7) / 8, line k i = line' k i) :
    pixelColour img d.bitspersample.toNat cmap put line x = pixelColour img d.bitspersample.toNat cmap put line' x := by
  cases put with
  | contig put =>
    obtain ⟨hchannels,scan,-,hword,hwalks⟩ := h
    rw [pixelColour, pixelColour, ← hword, ← hword]
    refine (hwalks w 0 (Or.inl rfl)).word_congr _ _ x hx ?_
    intro s hs i hi
    rw [List.mem_singleton.mp hs, Nat.zero_add]
    rw [← hchannels] at hi
    exact hagree 0 Nat.zero_lt_one i hi
  | separate put =>
    obtain ⟨hchannels,hbits,hcmyk,-,-⟩ := h
    rw [hchannels, Nat.mul_one] at hagree
    rw [pixelColour, pixelColour]
    refine planesColour_congr hcmyk ?_
    intro k hk
    exact sample_congr hbits hx (hagree k hk)

end TiffJni.Raster
