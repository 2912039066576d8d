import TiffJni.Machine.Program
import TiffJni.Raster.Buffers
import TiffJni.Raster.Picks

/-! # Images that can be shown

What `TIFFRGBAImageBegin` promises about an image that it lets pass: its routines give every pixel the
colour of its samples, whether these lie together or in planes. Photometric interpretations with a
conversion of their own are left out here.
-/
namespace TiffJni.Raster
open FixedWidth Machine

/-- An interpretation without a conversion of its own. -/
def Plain (photometric : ℕ) : Prop := photometric = photometricMiniswhite ∨ photometric = photometricMinisblack ∨
  photometric = photometricRgb ∨ photometric = photometricPalette ∨ photometric = photometricSeparated

instance (photometric : ℕ) : Decidable (Plain photometric) := inferInstanceAs (Decidable (_ ∨ _))

def Put.count (img : RGBAImage) : Put → ℕ
  | .contig _ => 1
  | .separate _ => if img.alpha = 0 then 3 else 4

def planeSample (img : RGBAImage) (k : ℕ) : UInt16 :=
  if k = 3 then colorchannels img else if colorchannels img = 1 then 0 else UInt16.ofNat k

def pixelColour (img : RGBAImage) (bitspersample : ℕ) (cmap : Colormap) : Put → (ℕ → ℕ → UInt8) → ℕ → Word
  | .contig _, line, x => colour img.photometric bitspersample img.samplesperpixel.toNat img.alpha cmap
      (sample bitspersample img.samplesperpixel.toNat (line 0) x)
  | .separate _, line, x => planesColour img.photometric bitspersample img.alpha fun k => sample bitspersample 1 (line k) x 0

def Drawn (d : Directory) (img : RGBAImage) (cmap : Colormap) : Put → Prop
  | .contig put => d.channels = img.samplesperpixel.toNat ∧
      Draws put d.bitspersample.toNat img.samplesperpixel.toNat
        (clipsRight img.photometric d.bitspersample.toNat img.samplesperpixel.toNat)
        (colour img.photometric d.bitspersample.toNat img.samplesperpixel.toNat img.alpha cmap)
  | .separate put => d.channels = 1 ∧ (d.bitspersample.toNat = 8 ∨ d.bitspersample.toNat = 16) ∧
      (img.photometric = photometricSeparated → img.alpha ≠ 0) ∧
      (∀ k < if img.alpha = 0 then 3 else 4, planeSample img k < d.samplesperpixel) ∧
      DrawsPlanes put d.bitspersample.toNat (if img.alpha = 0 then 3 else 4)
        (planesColour img.photometric d.bitspersample.toNat img.alpha)

structure Begun (d : Directory) (t : Tags) (stop : Bool) (img : RGBAImage) (put : Put) : Prop where
  width_eq : img.width = d.imagewidth
  height_eq : img.height = d.imagelength
  samples_eq : img.samplesperpixel = d.samplesperpixel
  orientation_eq : img.orientation = t.orientation
  stop_eq : img.stoponerr = stop
  row_eq : img.rowOffset = 0
  col_eq : img.colOffset = 0
  tagged : taggedPhotometric d t = .ok img.photometric
  together : ∀ routine, put = .contig routine → ¬(d.separate = true ∧ 1 < d.samplesperpixel.toNat)
  drawn : Drawn d img (t.colormap.getD ⟨[],[],[]⟩) put

theorem Begun.oriented {d : Directory} {t : Tags} {stop : Bool} {img : RGBAImage} {put : Put} (h : Begun d t stop img put)
    (orientation : ℕ) : Begun d t stop { img with reqOrientation := orientation } put := by
  refine ⟨h.width_eq,h.height_eq,h.samples_eq,h.orientation_eq,h.stop_eq,h.row_eq,h.col_eq,h.tagged,h.together,?_⟩
  cases put with
  | contig put => exact h.drawn
  | separate put => exact h.drawn

theorem alphaOf_spec (d : Directory) (t : Tags) : (alphaOf d t).1 ≤ 2 ∧ ((alphaOf d t).1 ≠ 0 → 0 < (alphaOf d t).2) := by
  unfold alphaOf
  cases t.sampleinfo with
  | nil =>
    dsimp only [List.head?_nil, List.length_nil]
    split_ifs
    · exact ⟨by decide,fun _ => by decide⟩
    · exact ⟨by decide,fun h => absurd rfl h⟩
  | cons info infos =>
    dsimp only [List.head?_cons, List.length_cons]
    rw [if_neg (fun h => Nat.succ_ne_zero _ h.1)]
    refine ⟨?_,fun _ => Nat.succ_pos _⟩
    unfold extrasampleUnspecified extrasampleAssocalpha extrasampleUnassalpha
    split_ifs <;> omega

/-- An absent tag stands for an interpretation without a conversion of its own. -/
theorem taggedPhotometric_plain {d : Directory} {t : Tags} {photometric : ℕ}
    (hplain : ∀ tag, t.photometric = some tag → Plain tag) (h : taggedPhotometric d t = .ok photometric) :
    Plain photometric := by
  unfold taggedPhotometric at h
  cases htag : t.photometric with
  | some tag =>
    simp only [htag] at h
    cases h
    exact hplain _ htag
  | none =>
    simp only [htag] at h
    split_ifs at h <;> cases h <;> decide

/-- An image that passed keeps its interpretation and has the samples that go with it. -/
theorem photometricOf_spec {d : Directory} {t : Tags} {memory : Bool} {photometric photometric' bitspersample : ℕ}
    (hplain : Plain photometric) (hsamples : 0 < d.samplesperpixel.toNat)
    (h : photometricOf d t memory photometric = .ok (photometric',bitspersample)) :
    photometric' = photometric ∧ bitspersample = d.bitspersample.toNat ∧
      Sampled photometric d.samplesperpixel.toNat (alphaOf d t).1 ∧
      (¬(d.separate = true ∧ 1 < d.samplesperpixel.toNat) →
        Fitted photometric d.bitspersample.toNat d.samplesperpixel.toNat (alphaOf d t).1) := by
  have halpha := (alphaOf_spec d t).2
  unfold photometricOf at h
  dsimp only at h
  by_cases hgrey : photometric = photometricPalette ∨ photometric = photometricMiniswhite ∨
      photometric = photometricMinisblack
  · have hrgb : photometric ≠ photometricRgb := by rcases hgrey with rfl | rfl | rfl <;> decide
    have hcmyk : photometric ≠ photometricSeparated := by rcases hgrey with rfl | rfl | rfl <;> decide
    rw [if_pos hgrey] at h
    split_ifs at h with hmap hmemory hcontiguous
    cases h
    have hsampled : Sampled photometric d.samplesperpixel.toNat (alphaOf d t).1 :=
      ⟨hsamples,fun h => absurd h hrgb,fun h => absurd h hrgb,fun h => absurd h hcmyk⟩
    refine ⟨rfl,rfl,hsampled,fun hseparate => ⟨hsampled,?_⟩⟩
    intro _ hbits
    by_contra hne
    by_cases hs : d.separate = true
    · exact hseparate ⟨hs,by omega⟩
    · exact hcontiguous ⟨hs,hne,hbits⟩
  rcases hplain with rfl | rfl | rfl | rfl | rfl
  · exact absurd (Or.inr (Or.inl rfl)) hgrey
  · exact absurd (Or.inr (Or.inr rfl)) hgrey
  · have hpalette : photometricRgb ≠ photometricPalette := by decide
    have hcmyk : photometricRgb ≠ photometricSeparated := by decide
    rw [if_neg (fun h => hpalette h.1), if_neg (fun h => hpalette h.1), if_neg hgrey, if_neg (by decide), if_pos rfl] at h
    split_ifs at h with hchannels
    cases h
    have hsampled : Sampled photometricRgb d.samplesperpixel.toNat (alphaOf d t).1 := by
      refine ⟨hsamples,fun _ => by omega,fun _ hne => ?_,fun h => absurd h hcmyk⟩
      have hextra := halpha hne
      omega
    exact ⟨rfl,rfl,hsampled,fun _ => ⟨hsampled,fun h => absurd h hgrey⟩⟩
  · exact absurd (Or.inl rfl) hgrey
  · have hpalette : photometricSeparated ≠ photometricPalette := by decide
    have hrgb : photometricSeparated ≠ photometricRgb := by decide
    rw [if_neg (fun h => hpalette h.1), if_neg (fun h => hpalette h.1), if_neg hgrey, if_neg (by decide), if_neg hrgb,
      if_pos rfl] at h
    split_ifs at h with hinkset hfour
    cases h
    have hsampled : Sampled photometricSeparated d.samplesperpixel.toNat (alphaOf d t).1 :=
      ⟨hsamples,fun h => absurd h hrgb,fun h => absurd h hrgb,fun _ => by omega⟩
    exact ⟨rfl,rfl,hsampled,fun _ => ⟨hsampled,fun h => absurd h hgrey⟩⟩

theorem planeSample_lt {img : RGBAImage} {samplesperpixel : UInt16} (hplain : Plain img.photometric)
    (hmore : 1 < samplesperpixel.toNat)
    (hthree : img.photometric = photometricRgb ∨ img.photometric = photometricSeparated → 3 ≤ samplesperpixel.toNat)
    (hfour : img.photometric = photometricRgb ∨ img.photometric = photometricSeparated → img.alpha ≠ 0 →
      4 ≤ samplesperpixel.toNat) : ∀ k < if img.alpha = 0 then 3 else 4, planeSample img k < samplesperpixel := by
  intro k hk
  rw [UInt16.lt_iff_toNat_lt]
  by_cases hgrey : img.photometric = photometricMiniswhite ∨ img.photometric = photometricMinisblack ∨
      img.photometric = photometricPalette
  · have hone : colorchannels img = 1 := if_pos hgrey
    rw [planeSample, hone, if_pos rfl]
    split
    · exact hmore
    · exact Nat.zero_lt_of_lt hmore
  · have hcolours : img.photometric = photometricRgb ∨ img.photometric = photometricSeparated := by
      unfold Plain at hplain
      tauto
    have hchannels : colorchannels img = 3 := if_neg hgrey
    have hthree' : (3 : UInt16).toNat = 3 := rfl
    rw [planeSample, hchannels, if_neg (show (3 : UInt16) ≠ 1 by decide)]
    have hthree := hthree hcolours
    have hfour := hfour hcolours
    have hother (hk : k < 3) : (UInt16.ofNat k).toNat < samplesperpixel.toNat := by
      rw [UInt16.toNat_ofNat_of_lt' (show k < 2 ^ 16 by omega)]
      omega
    split_ifs at hk ⊢ with hlast halpha halpha
    · omega
    · rw [hthree']
      exact hfour halpha
    · exact hother hk
    · exact hother (by omega)

/-- Read plane by plane, a pixel has the colour of the samples of its image. -/
theorem planesColour_planeSample {img : RGBAImage} (hplain : Plain img.photometric) (bitspersample : ℕ) (v : UInt16 → ℕ) :
    planesColour img.photometric bitspersample img.alpha (fun k => v (planeSample img k)) =
      colourSeparate img.photometric bitspersample img.alpha fun s => v (UInt16.ofNat s) := by
  by_cases hgrey : img.photometric = photometricMiniswhite ∨ img.photometric = photometricMinisblack ∨
      img.photometric = photometricPalette
  · -- the one plane of a greyscale image is read for all three colours, and alpha is the sample behind it
    have hone : colorchannels img = 1 := if_pos hgrey
    have hcolour (k : ℕ) (hk : k ≠ 3) : planeSample img k = 0 := by rw [planeSample, if_neg hk, if_pos hone]
    have halpha : planeSample img 3 = 1 := by rw [planeSample, if_pos rfl, hone]
    have hcmyk : img.photometric ≠ photometricSeparated := by
      rcases hgrey with h | h | h <;> rw [h] <;> decide
    have hrgb : img.photometric ≠ photometricRgb := by
      rcases hgrey with h | h | h <;> rw [h] <;> decide
    rw [planesColour, colourSeparate, if_neg hcmyk, if_neg hcmyk, if_neg hrgb]
    dsimp only
    rw [hcolour 0 (by decide), hcolour 1 (by decide), hcolour 2 (by decide), halpha]
    rfl
  · have hthree : colorchannels img = 3 := if_neg hgrey
    have hcolours : img.photometric = photometricRgb ∨ img.photometric = photometricSeparated := by
      unfold Plain at hplain
      tauto
    have hsample (k : ℕ) : planeSample img k = UInt16.ofNat k := by
      rw [planeSample, hthree, if_neg (show (3 : UInt16) ≠ 1 by decide)]
      split
      · subst k
        rfl
      · rfl
    simp only [hsample]
    rw [planesColour, colourSeparate]
    split
    · rfl
    · rename_i hcmyk
      rw [if_pos (hcolours.resolve_right hcmyk)]

variable {conversions : Conversions} {memory stop : Bool} {d : Directory} {t : Tags} {img : RGBAImage} {put : Put}

/-- What `TIFFRGBAImageBegin` lets pass can be shown. -/
theorem rgbaImageBegin_begun (hplain : ∀ tag, t.photometric = some tag → Plain tag) (hsamples : 0 < d.samplesperpixel.toNat)
    (h : rgbaImageBegin conversions memory d t stop = .ok (img,put)) : Begun d t stop img put := by
  unfold rgbaImageBegin at h
  split at h
  · cases h
  obtain ⟨photometric,htag,h⟩ := bind_eq_ok.mp h
  obtain ⟨⟨photometric',bitspersample⟩,hof,h⟩ := bind_eq_ok.mp h
  have hinterpretation := taggedPhotometric_plain hplain htag
  obtain ⟨rfl,rfl,hsampled,hfitted⟩ := photometricOf_spec hinterpretation hsamples hof
  have hycbcr : photometric' ≠ photometricYcbcr := by rcases hinterpretation with rfl | rfl | rfl | rfl | rfl <;> decide
  have hlab : photometric' ≠ photometricCielab := by rcases hinterpretation with rfl | rfl | rfl | rfl | rfl <;> decide
  dsimp only at h
  by_cases hseparate : d.separate = true ∧ 1 < d.samplesperpixel.toNat
  · rw [if_pos hseparate] at h
    split at h
    · rename_i separate alpha hpick
      obtain ⟨rfl,rfl⟩ := Prod.mk.inj (Except.ok.inj h)
      obtain ⟨halpha,hbits,hdraws⟩ := pickSeparateCase_draws hycbcr (alphaOf_spec d t).1 hpick
      refine ⟨rfl,rfl,rfl,rfl,rfl,rfl,rfl,htag,fun _ h => Put.noConfusion h,if_pos hseparate.1,hbits,?_,?_,?_⟩
      · intro hcmyk
        rcases halpha with ⟨-,hne⟩ | ⟨hne,-⟩
        · exact hne
        · exact absurd hcmyk hne
      · refine planeSample_lt hinterpretation hseparate.2 ?_ ?_
        · rintro (hrgb | hcmyk)
          · exact hsampled.rgb hrgb
          · have hfour := hsampled.cmyk hcmyk
            omega
        · rintro (hrgb | hcmyk) hne
          · rcases halpha with ⟨hcmyk,-⟩ | ⟨-,rfl⟩
            · exact hsampled.cmyk hcmyk
            · exact hsampled.alpha hrgb hne
          · exact hsampled.cmyk hcmyk
      · have hcolour : planesColour photometric' d.bitspersample.toNat alpha =
            planesColour photometric' d.bitspersample.toNat (alphaOf d t).1 := by
          rcases halpha with ⟨hcmyk,-⟩ | ⟨-,rfl⟩
          · funext v
            simp only [planesColour, if_pos hcmyk]
          · rfl
        dsimp only
        rw [hcolour]
        exact hdraws
    · cases h
  · rw [if_neg hseparate] at h
    split at h
    · rename_i contig hpick
      obtain ⟨rfl,rfl⟩ := Prod.mk.inj (Except.ok.inj h)
      refine ⟨rfl,rfl,rfl,rfl,rfl,rfl,rfl,htag,fun _ _ => hseparate,?_,pickContigCase_draws hycbcr hlab (hfitted hseparate) hpick⟩
      unfold Directory.channels
      split_ifs with hs
      · have hone : ¬1 < d.samplesperpixel.toNat := fun hmore => hseparate ⟨hs,hmore⟩
        dsimp only
        omega
      · rfl
    · cases h

end TiffJni.Raster
