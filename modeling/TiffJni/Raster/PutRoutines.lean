import TiffJni.Machine.Painting
import TiffJni.Raster.Geometry
import Mathlib.Data.BitVec
import Mathlib.Data.Finset.Lattice.Fold
import Mathlib.Order.Lattice.Nat

/-! # The put routines

The routines of `tif_getimage.c` that turn decoded samples into words of the raster. All of
them walk `h` lines of `w` pixels with one pointer into the raster and one into the decoded
data, and differ in the bytes they read for a pixel, in the step from a pixel to the next and in
the unit of `fromskew`. Where a byte holds several pixels the loop is unrolled over a byte.
-/
namespace TiffJni.Raster
open FixedWidth Painting

abbrev Word := BitVec 32

def ofByte (b : UInt8) : Word := b.toBitVec.setWidth 32

def a1 : Word := 0xff000000#32

/-- The macro `PACK`, on values that were converted to `uint32`. -/
def pack (r g b : Word) : Word := r ||| g <<< 8 ||| b <<< 16 ||| a1

/-- The macro `PACK4`. -/
def pack4 (r g b a : Word) : Word := r ||| g <<< 8 ||| b <<< 16 ||| a <<< 24

/-- How a word is made of the bytes behind a pointer, of which it reads `bytes`. -/
structure PixelFormat where
  bytes : ℕ
  word : (ℕ → UInt8) → Word
  reads : ∀ f g : ℕ → UInt8, (∀ k < bytes, f k = g k) → word f = word g

/-- The pixel behind `pp`; there is none where reading it would leave the buffer. -/
def PixelFormat.fetch (f : PixelFormat) (buf : List UInt8) (pp : ℤ) : Option Word :=
  if 0 ≤ pp ∧ pp + f.bytes ≤ buf.length then some (f.word fun k => buf.getD (pp.toNat + k) 0) else none

/-- A put routine from its arguments `cp`, `w`, `h`, `fromskew`, `toskew` and `pp` on, the buffer
being what `pp` points into. -/
abbrev PutRoutine := ℤ → ℕ → ℕ → ℤ → ℤ → List UInt8 → ℤ → List Word → Option (List Word)

/-- `*cp++ = …; pp += step`, `w` times. -/
def putLine (f : PixelFormat) (step : ℤ) (buf : List UInt8) : ℕ → ℤ → ℤ → List Word → Option (List Word)
  | 0, _, _, raster => some raster
  | w + 1, cp, pp, raster => do
    let p ← f.fetch buf pp
    let raster ← poke raster cp p
    putLine f step buf w (cp + 1) (pp + step) raster

/-- `while (h-- > 0)` over the lines, with what both pointers move from a line to the next. -/
def putLines (line : ℤ → ℤ → List Word → Option (List Word)) (cpStep ppStep : ℤ) :
    ℕ → ℤ → ℤ → List Word → Option (List Word)
  | 0, _, _, raster => some raster
  | h + 1, cp, pp, raster => do
    let raster ← line cp pp raster
    putLines line cpStep ppStep h (cp + cpStep) (pp + ppStep) raster

/-- A routine with one pixel at a time, `step` bytes apart, that adds `skew fromskew` bytes to `pp` after a line. -/
def putTile (f : PixelFormat) (step : ℤ) (skew : ℤ → ℤ) : PutRoutine :=
  fun cp w h fromskew toskew buf pp raster =>
    putLines (putLine f step buf w) (w + toskew) (w * step + skew fromskew) h cp pp raster

/-- `BWmap[b][k]` or `PALmap[b][k]`. -/
abbrev SampleMap := ℕ → ℕ → Word

/-- `*cp++ = *bw++` for the pixels `k` to `k + count - 1` of a byte. -/
def putEntries (entry : ℕ → Word) : ℕ → ℕ → ℤ → List Word → Option (List Word)
  | 0, _, _, raster => some raster
  | count + 1, k, cp, raster => do
    let raster ← poke raster cp (entry k)
    putEntries entry count (k + 1) (cp + 1) raster

/-- `UNROLL8`, `UNROLL4` and `UNROLL2` over `bw = map[*pp++]`, for 8, 4 and 2 pixels a byte. -/
def putUnrolled (map : SampleMap) (perByte : ℕ) (buf : List UInt8) (x : ℕ) (cp pp : ℤ) (raster : List Word) :
    Option (List Word) :=
  if _hmore : perByte ≤ x ∧ 0 < perByte then do
    let b ← peek buf pp
    let raster ← putEntries (map b.toNat) perByte 0 cp raster
    putUnrolled map perByte buf (x - perByte) (cp + perByte) (pp + 1) raster
  else if 0 < x then do
    let b ← peek buf pp
    putEntries (map b.toNat) x 0 cp raster
  else some raster
termination_by x

def putPackedTile (map : SampleMap) (perByte : ℕ) : PutRoutine :=
  fun cp w h fromskew toskew buf pp raster =>
    putLines (putUnrolled map perByte buf w) (w + toskew) (((w + perByte - 1) / perByte : ℕ) + fromskew.tdiv perByte)
      h cp pp raster

/-- `fromskew *= samplesperpixel` on an `int32`. -/
def bySamples (samplesperpixel : ℕ) (fromskew : ℤ) : ℤ := toSigned 32 (fromskew * samplesperpixel)

/-- The 16-bit sample at a byte offset, which `tif_postdecode` left in the order of a little-endian host. -/
def sample16 (f : ℕ → UInt8) (k : ℕ) : ℕ := (f k).toNat + 256 * (f (k + 1)).toNat

section formats
variable (bwMap palMap : SampleMap) (uaToAa bitdepth16To8 : ℕ → UInt8)

def cmap8 : PixelFormat where
  bytes := 1
  word := fun f => palMap (f 0).toNat 0
  reads := fun f g h => by rw [h 0 (by decide)]

def grey8 : PixelFormat where
  bytes := 1
  word := fun f => bwMap (f 0).toNat 0
  reads := fun f g h => by rw [h 0 (by decide)]

def agrey8 : PixelFormat where
  bytes := 2
  word := fun f => bwMap (f 0).toNat 0 &&& (ofByte (f 1) <<< 24 ||| ~~~a1)
  reads := fun f g h => by rw [h 0 (by decide), h 1 (by decide)]

def bw16 : PixelFormat where
  bytes := 2
  word := fun f => bwMap (sample16 f 0 / 256) 0
  reads := fun f g h => by rw [sample16, sample16, h 0 (by decide), h (0 + 1) (by decide)]

def rgb8 : PixelFormat where
  bytes := 3
  word := fun f => pack (ofByte (f 0)) (ofByte (f 1)) (ofByte (f 2))
  reads := fun f g h => by rw [h 0 (by decide), h 1 (by decide), h 2 (by decide)]

def rgbAA8 : PixelFormat where
  bytes := 4
  word := fun f => pack4 (ofByte (f 0)) (ofByte (f 1)) (ofByte (f 2)) (ofByte (f 3))
  reads := fun f g h => by rw [h 0 (by decide), h 1 (by decide), h 2 (by decide), h 3 (by decide)]

def rgbUA8 : PixelFormat where
  bytes := 4
  word := fun f =>
    let m := fun v : UInt8 => uaToAa ((f 3).toNat * 256 + v.toNat)
    pack4 (ofByte (m (f 0))) (ofByte (m (f 1))) (ofByte (m (f 2))) (ofByte (f 3))
  reads := fun f g h => by dsimp only; rw [h 0 (by decide), h 1 (by decide), h 2 (by decide), h 3 (by decide)]

/-- A format whose word is made of `count` 16-bit samples. -/
def ofSamples16 (count : ℕ) (word : (ℕ → ℕ) → Word)
    (reads : ∀ f g : ℕ → ℕ, (∀ k < count, f k = g k) → word f = word g) : PixelFormat where
  bytes := 2 * count
  word := fun f => word fun k => sample16 f (2 * k)
  reads := fun f g h => reads _ _ fun k hk => by rw [sample16, sample16, h _ (by omega), h _ (by omega)]

def rgb16 : PixelFormat :=
  ofSamples16 3 (fun v => pack (ofByte (bitdepth16To8 (v 0))) (ofByte (bitdepth16To8 (v 1))) (ofByte (bitdepth16To8 (v 2))))
    fun f g h => by rw [h 0 (by decide), h 1 (by decide), h 2 (by decide)]

def rgbAA16 : PixelFormat :=
  ofSamples16 4 (fun v => pack4 (ofByte (bitdepth16To8 (v 0))) (ofByte (bitdepth16To8 (v 1)))
      (ofByte (bitdepth16To8 (v 2))) (ofByte (bitdepth16To8 (v 3))))
    fun f g h => by rw [h 0 (by decide), h 1 (by decide), h 2 (by decide), h 3 (by decide)]

def rgbUA16 : PixelFormat :=
  ofSamples16 4 (fun v =>
      let a := bitdepth16To8 (v 3)
      let m := fun k => uaToAa (a.toNat * 256 + (bitdepth16To8 (v k)).toNat)
      pack4 (ofByte (m 0)) (ofByte (m 1)) (ofByte (m 2)) (ofByte a))
    fun f g h => by dsimp only; rw [h 0 (by decide), h 1 (by decide), h 2 (by decide), h 3 (by decide)]

/-- `(k*(255-v))/255` with `k` the complement of black. -/
def cmykChannel (v black : UInt8) : ℕ := (255 - black.toNat) * (255 - v.toNat) / 255

def cmyk8 : PixelFormat where
  bytes := 4
  word := fun f =>
    let c := fun k => BitVec.ofNat 32 (cmykChannel (f k) (f 3))
    pack (c 0) (c 1) (c 2)
  reads := fun f g h => by dsimp only; rw [h 0 (by decide), h 1 (by decide), h 2 (by decide), h 3 (by decide)]

/-- The complement of black times that of each ink, opaque. -/
def cmykSeparate8 : PixelFormat where
  bytes := 4
  word := fun f =>
    let c := fun k => BitVec.ofNat 32 (cmykChannel (f k) (f 3))
    pack4 (c 0) (c 1) (c 2) 255
  reads := fun f g h => by dsimp only; rw [h 0 (by decide), h 1 (by decide), h 2 (by decide), h 3 (by decide)]

end formats

section contig
variable (samplesperpixel : ℕ) (bwMap palMap : SampleMap) (uaToAa bitdepth16To8 : ℕ → UInt8)

def put8bitcmaptile : PutRoutine := putTile (cmap8 palMap) samplesperpixel id
def put4bitcmaptile : PutRoutine := putPackedTile palMap 2
def put2bitcmaptile : PutRoutine := putPackedTile palMap 4
def put1bitcmaptile : PutRoutine := putPackedTile palMap 8
def putgreytile : PutRoutine := putTile (grey8 bwMap) samplesperpixel id
def putagreytile : PutRoutine := putTile (agrey8 bwMap) samplesperpixel id
def put16bitbwtile : PutRoutine := putTile (bw16 bwMap) (2 * samplesperpixel) id
def put1bitbwtile : PutRoutine := putPackedTile bwMap 8
def put2bitbwtile : PutRoutine := putPackedTile bwMap 4
def put4bitbwtile : PutRoutine := putPackedTile bwMap 2
def putRGBcontig8bittile : PutRoutine := putTile rgb8 samplesperpixel (bySamples samplesperpixel)
def putRGBAAcontig8bittile : PutRoutine := putTile rgbAA8 samplesperpixel (bySamples samplesperpixel)
def putRGBUAcontig8bittile : PutRoutine := putTile (rgbUA8 uaToAa) samplesperpixel (bySamples samplesperpixel)
def putRGBcontig16bittile : PutRoutine :=
  putTile (rgb16 bitdepth16To8) (2 * samplesperpixel) fun fromskew => 2 * bySamples samplesperpixel fromskew
def putRGBAAcontig16bittile : PutRoutine :=
  putTile (rgbAA16 bitdepth16To8) (2 * samplesperpixel) fun fromskew => 2 * bySamples samplesperpixel fromskew
def putRGBUAcontig16bittile : PutRoutine :=
  putTile (rgbUA16 uaToAa bitdepth16To8) (2 * samplesperpixel) fun fromskew => 2 * bySamples samplesperpixel fromskew
def putRGBcontig8bitCMYKtile : PutRoutine := putTile cmyk8 samplesperpixel (bySamples samplesperpixel)

end contig

/-- The samples of a pixel in separate planes of one buffer, of `bytes` each; `plane` is where each begins. -/
def PixelFormat.separate (f : PixelFormat) (bytes : ℕ) [NeZero bytes] (plane : ℕ → ℕ) : PixelFormat where
  bytes := (Finset.range ((f.bytes + bytes - 1) / bytes)).sup plane + bytes
  word := fun g => f.word fun k => g (plane (k / bytes) + k % bytes)
  reads := by
    intro g g' h
    refine f.reads _ _ ?_
    intro k hk
    refine h _ ?_
    have hpos := Nat.pos_of_neZero bytes
    have hindex : k / bytes < (f.bytes + bytes - 1) / bytes := div_lt_ceil hpos hk
    have hle := Finset.le_sup (f := plane) (Finset.mem_range.mpr hindex)
    have hmod := Nat.mod_lt k hpos
    omega

section separate
variable (plane : ℕ → ℕ) (uaToAa bitdepth16To8 : ℕ → UInt8)

def putRGBseparate8bittile : PutRoutine := putTile (rgb8.separate 1 plane) 1 id
def putRGBAAseparate8bittile : PutRoutine := putTile (rgbAA8.separate 1 plane) 1 id
def putCMYKseparate8bittile : PutRoutine := putTile (cmykSeparate8.separate 1 plane) 1 id
def putRGBUAseparate8bittile : PutRoutine := putTile ((rgbUA8 uaToAa).separate 1 plane) 1 id
def putRGBseparate16bittile : PutRoutine :=
  putTile ((rgb16 bitdepth16To8).separate 2 plane) 2 fun fromskew => 2 * fromskew
def putRGBAAseparate16bittile : PutRoutine :=
  putTile ((rgbAA16 bitdepth16To8).separate 2 plane) 2 fun fromskew => 2 * fromskew
def putRGBUAseparate16bittile : PutRoutine :=
  putTile ((rgbUA16 uaToAa bitdepth16To8).separate 2 plane) 2 fun fromskew => 2 * fromskew

end separate

/-- A line that puts the picture into the `w` cells from `cp` on. -/
def PaintsLine (picture : ℕ → Word) (line : List Word → Option (List Word)) (cp : ℤ) (w size : ℕ) : Prop :=
  ∀ raster, raster.length = size → ∃ raster', line raster = some raster' ∧
    Painted picture (span cp w) raster raster'

theorem putLine_paints {picture : ℕ → Word} {f : PixelFormat} {step : ℤ} {buf : List UInt8} {w size : ℕ} {cp pp : ℤ}
    (hcells : ∀ c < w, ∃ k : ℕ, cp + c = k ∧ k < size ∧ f.fetch buf (pp + c * step) = some (picture k)) :
    PaintsLine picture (putLine f step buf w cp pp) cp w size := by
  induction w generalizing cp pp with
  | zero =>
    intro raster _
    refine ⟨raster,rfl,(Painted.refl picture raster).congr ?_⟩
    intro i
    rw [mem_span]
    simp only [Nat.cast_zero, add_zero, Set.mem_empty_iff_false, iff_false]
    omega
  | succ w ih =>
    intro raster hsize
    obtain ⟨k,hk,hlt,hfetch⟩ := hcells 0 (Nat.succ_pos w)
    simp only [Nat.cast_zero, add_zero, zero_mul] at hk hfetch
    obtain ⟨raster₁,hpoke,hpainted⟩ := painted_poke raster hk (by omega) (rfl : picture k = picture k)
    have hrest : ∀ c < w, ∃ k : ℕ, cp + 1 + c = k ∧ k < size ∧ f.fetch buf (pp + step + c * step) = some (picture k) := by
      intro c hc
      obtain ⟨k,hk,hlt,hfetch⟩ := hcells (c + 1) (by omega)
      refine ⟨k,?_,hlt,?_⟩
      · rw [← hk]
        push_cast
        ring
      · rw [← hfetch]
        congr 1
        push_cast
        ring
    obtain ⟨raster₂,hline,hpainted₂⟩ := ih hrest raster₁ (hpainted.length_eq.trans hsize)
    refine ⟨raster₂,?_,(hpainted.trans hpainted₂).congr ?_⟩
    · simp only [putLine, hfetch, hpoke, Option.bind_eq_bind, Option.bind_some]
      exact hline
    · intro i
      rw [Set.mem_union, Set.mem_singleton_iff, mem_span, mem_span]
      push_cast
      omega

theorem putLines_paints {picture : ℕ → Word} {line : ℤ → ℤ → List Word → Option (List Word)} {cpStep ppStep : ℤ}
    {h w size : ℕ} {cp pp : ℤ}
    (hlines : ∀ r < h, PaintsLine picture (line (cp + r * cpStep) (pp + r * ppStep)) (cp + r * cpStep) w size)
    {raster : List Word} (hsize : raster.length = size) :
    ∃ raster', putLines line cpStep ppStep h cp pp raster = some raster' ∧
      Painted picture {i | ∃ r < h, i ∈ span (cp + r * cpStep) w} raster raster' := by
  induction h generalizing cp pp raster with
  | zero =>
    refine ⟨raster,rfl,(Painted.refl picture raster).congr ?_⟩
    simp
  | succ h ih =>
    have hfirst := hlines 0 (Nat.succ_pos h)
    simp only [Nat.cast_zero, zero_mul, add_zero] at hfirst
    obtain ⟨raster₁,hline,hpainted⟩ := hfirst raster hsize
    have hrest : ∀ r < h, PaintsLine picture (line (cp + cpStep + r * cpStep) (pp + ppStep + r * ppStep))
        (cp + cpStep + r * cpStep) w size := by
      intro r hr
      have hnext := hlines (r + 1) (by omega)
      push_cast at hnext
      have hcp : cp + ((r : ℤ) + 1) * cpStep = cp + cpStep + r * cpStep := by ring
      have hpp : pp + ((r : ℤ) + 1) * ppStep = pp + ppStep + r * ppStep := by ring
      rw [hcp, hpp] at hnext
      exact hnext
    obtain ⟨raster₂,hlines₂,hpainted₂⟩ := ih hrest (hpainted.length_eq.trans hsize)
    refine ⟨raster₂,?_,(hpainted.trans hpainted₂).congr ?_⟩
    · simp only [putLines, hline, Option.bind_eq_bind, Option.bind_some]
      exact hlines₂
    · intro i
      constructor
      · rintro ⟨r,hr,hi⟩
        cases r with
        | zero =>
          simp only [Nat.cast_zero, zero_mul, add_zero] at hi
          exact Or.inl hi
        | succ r =>
          refine Or.inr ⟨r,by omega,?_⟩
          have hcp : cp + ((r + 1 : ℕ) : ℤ) * cpStep = cp + cpStep + r * cpStep := by
            push_cast
            ring
          rwa [hcp] at hi
      · rintro (hi | ⟨r,hr,hi⟩)
        · refine ⟨0,Nat.succ_pos h,?_⟩
          simpa only [Nat.cast_zero, zero_mul, add_zero] using hi
        · refine ⟨r + 1,by omega,?_⟩
          have hcp : cp + ((r + 1 : ℕ) : ℤ) * cpStep = cp + cpStep + r * cpStep := by
            push_cast
            ring
          rwa [hcp]

theorem putEntries_paints {picture : ℕ → Word} {entry : ℕ → Word} {count k size : ℕ} {cp : ℤ}
    (hcells : ∀ c < count, ∃ i : ℕ, cp + c = i ∧ i < size ∧ entry (k + c) = picture i) :
    PaintsLine picture (putEntries entry count k cp) cp count size := by
  induction count generalizing k cp with
  | zero =>
    intro raster _
    refine ⟨raster,rfl,(Painted.refl picture raster).congr ?_⟩
    intro i
    rw [mem_span]
    simp only [Nat.cast_zero, add_zero, Set.mem_empty_iff_false, iff_false]
    omega
  | succ count ih =>
    intro raster hsize
    obtain ⟨i,hi,hlt,hentry⟩ := hcells 0 (Nat.succ_pos count)
    simp only [Nat.cast_zero, add_zero] at hi hentry
    obtain ⟨raster₁,hpoke,hpainted⟩ := painted_poke raster hi (by omega) hentry
    have hrest : ∀ c < count, ∃ i : ℕ, cp + 1 + c = i ∧ i < size ∧ entry (k + 1 + c) = picture i := by
      intro c hc
      obtain ⟨i,hi,hlt,hentry⟩ := hcells (c + 1) (by omega)
      have hindex : k + 1 + c = k + (c + 1) := by omega
      refine ⟨i,?_,hlt,?_⟩
      · rw [← hi]
        push_cast
        ring
      · rw [hindex, hentry]
    obtain ⟨raster₂,hline,hpainted₂⟩ := ih hrest raster₁ (hpainted.length_eq.trans hsize)
    refine ⟨raster₂,?_,(hpainted.trans hpainted₂).congr ?_⟩
    · simp only [putEntries, hpoke, Option.bind_eq_bind, Option.bind_some]
      exact hline
    · intro j
      rw [Set.mem_union, Set.mem_singleton_iff, mem_span, mem_span]
      push_cast
      omega

/-- The unrolled loop puts pixel `c` of the line from the bits `c % perByte` of byte `c / perByte`. -/
theorem putUnrolled_paints {picture : ℕ → Word} {map : SampleMap} {perByte : ℕ} (hper : 0 < perByte)
    {buf : List UInt8} {w size : ℕ} {cp pp : ℤ}
    (hcells : ∀ c < w, ∃ i : ℕ, cp + c = i ∧ i < size ∧
      ∃ b, peek buf (pp + (c / perByte : ℕ)) = some b ∧ map b.toNat (c % perByte) = picture i) :
    PaintsLine picture (putUnrolled map perByte buf w cp pp) cp w size := by
  induction hw : w using Nat.strong_induction_on generalizing w cp pp with
  | _ n ih =>
    subst hw
    intro raster hsize
    rw [putUnrolled]
    -- the pixels of the first byte, of which there may be fewer than it holds
    have hbyte : ∀ count, count ≤ perByte → 0 < count → count ≤ w → ∃ b, peek buf pp = some b ∧
        PaintsLine picture (putEntries (map b.toNat) count 0 cp) cp count size := by
      intro count hcount hpos hle
      obtain ⟨i,-,-,b,hb,-⟩ := hcells 0 (by omega)
      simp only [Nat.zero_div, Nat.cast_zero, add_zero] at hb
      refine ⟨b,hb,putEntries_paints ?_⟩
      intro c hc
      obtain ⟨i,hi,hlt,b',hb',hentry⟩ := hcells c (by omega)
      rw [Nat.div_eq_of_lt (by omega), Nat.cast_zero, add_zero, hb] at hb'
      cases hb'
      rw [Nat.mod_eq_of_lt (by omega)] at hentry
      refine ⟨i,hi,hlt,?_⟩
      rw [Nat.zero_add]
      exact hentry
    split
    · rename_i hmore
      obtain ⟨b,hb,hpaints⟩ := hbyte perByte le_rfl hper hmore.1
      obtain ⟨raster₁,hentries,hpainted⟩ := hpaints raster hsize
      have hrest : ∀ c < w - perByte, ∃ i : ℕ, cp + perByte + c = i ∧ i < size ∧
          ∃ b, peek buf (pp + 1 + (c / perByte : ℕ)) = some b ∧ map b.toNat (c % perByte) = picture i := by
        intro c hc
        obtain ⟨i,hi,hlt,b,hb,hentry⟩ := hcells (c + perByte) (by omega)
        rw [Nat.add_div_right c hper] at hb
        rw [Nat.add_mod_right] at hentry
        refine ⟨i,?_,hlt,b,?_,hentry⟩
        · rw [← hi]
          push_cast
          ring
        · rw [← hb]
          congr 1
          push_cast
          ring
      obtain ⟨raster₂,hline,hpainted₂⟩ := ih (w - perByte) (by omega) hrest rfl raster₁ (hpainted.length_eq.trans hsize)
      refine ⟨raster₂,?_,(hpainted.trans hpainted₂).congr ?_⟩
      · simp only [hb, hentries, Option.bind_eq_bind, Option.bind_some]
        exact hline
      · intro i
        rw [Set.mem_union, mem_span, mem_span, mem_span]
        push_cast [hmore.1]
        omega
    · rename_i hfew
      split
      · rename_i hpos
        obtain ⟨b,hb,hpaints⟩ := hbyte w (by omega) hpos le_rfl
        obtain ⟨raster',hentries,hpainted⟩ := hpaints raster hsize
        refine ⟨raster',?_,hpainted⟩
        simp only [hb, hentries, Option.bind_eq_bind, Option.bind_some]
      · rename_i hzero
        refine ⟨raster,rfl,(Painted.refl picture raster).congr ?_⟩
        intro i
        rw [mem_span]
        simp only [Set.mem_empty_iff_false, iff_false]
        omega

/-- How a put routine walks the data: what `pp` moves in a line, skew included, and the pixels of a
line that begins at `pp`; `word` is what a pixel is for the bytes from there on. -/
structure Scan where
  line : ℕ → ℤ → ℤ
  pixel : List UInt8 → ℤ → ℕ → Option Word
  word : (ℕ → UInt8) → ℕ → Word

/-- What a put routine is for: pixel `c` of line `r` goes to its cell of the raster. -/
def PutRoutine.Puts (put : PutRoutine) (scan : Scan) : Prop :=
  ∀ (picture : ℕ → Word) (cp : ℤ) (w h : ℕ) (fromskew toskew : ℤ) (buf : List UInt8) (pp : ℤ) (raster : List Word),
    (∀ r < h, ∀ c < w, ∃ k : ℕ, cp + r * (w + toskew) + c = k ∧ k < raster.length ∧
      scan.pixel buf (pp + r * scan.line w fromskew) c = some (picture k)) →
    ∃ raster', put cp w h fromskew toskew buf pp raster = some raster' ∧
      Painted picture {i | ∃ r < h, i ∈ span (cp + r * (w + toskew)) w} raster raster'

def tileScan (f : PixelFormat) (step : ℤ) (skew : ℤ → ℤ) : Scan where
  line := fun w fromskew => w * step + skew fromskew
  pixel := fun buf pp c => f.fetch buf (pp + c * step)
  word := fun g c => f.word fun k => g (c * step.toNat + k)

def packedScan (map : SampleMap) (perByte : ℕ) : Scan where
  line := fun w fromskew => ((w + perByte - 1) / perByte : ℕ) + fromskew.tdiv perByte
  pixel := fun buf pp c => (peek buf (pp + (c / perByte : ℕ))).map fun b => map b.toNat (c % perByte)
  word := fun g c => map (g (c / perByte)).toNat (c % perByte)

theorem putTile_puts (f : PixelFormat) (step : ℤ) (skew : ℤ → ℤ) :
    (putTile f step skew).Puts (tileScan f step skew) := by
  intro picture cp w h fromskew toskew buf pp raster hcells
  refine putLines_paints ?_ rfl
  intro r hr
  exact putLine_paints (hcells r hr)

theorem putPackedTile_puts (map : SampleMap) {perByte : ℕ} (hper : 0 < perByte) :
    (putPackedTile map perByte).Puts (packedScan map perByte) := by
  intro picture cp w h fromskew toskew buf pp raster hcells
  refine putLines_paints ?_ rfl
  intro r hr
  refine putUnrolled_paints hper ?_
  intro c hc
  obtain ⟨k,hk,hlt,hvalue⟩ := hcells r hr c hc
  obtain ⟨b,hb,hentry⟩ := Option.map_eq_some_iff.mp hvalue
  exact ⟨k,hk,hlt,b,hb,hentry⟩

/-- The put routine fits data in scanlines of a size: every line of `w` pixels is one, with up to `clip` of
its pixels left out, and a pixel depends on no byte outside of its scanlines, one at each of the starts. -/
structure Scan.Walks (scan : Scan) (w scanline : ℕ) (starts : List ℕ) (clip : ℕ) : Prop where
  line_eq : ∀ k fromskew : ℕ, k + fromskew = w → fromskew ≤ clip → scan.line k fromskew = scanline
  pixel_eq : ∀ (buf : List UInt8) (pp c : ℕ), c < w → (∀ s ∈ starts, pp + s + scanline ≤ buf.length) →
    scan.pixel buf pp c = some (scan.word (fun i => buf.getD (pp + i) 0) c)
  word_congr : ∀ (g g' : ℕ → UInt8) (c : ℕ), c < w → (∀ s ∈ starts, ∀ i < scanline, g (s + i) = g' (s + i)) →
    scan.word g c = scan.word g' c

theorem tileScan_walks {f : PixelFormat} {step w clip : ℕ} {skew : ℤ → ℤ} (hbytes : f.bytes ≤ step)
    (hskew : ∀ fromskew : ℕ, fromskew ≤ clip → fromskew ≤ w → skew fromskew = fromskew * step) :
    (tileScan f step skew).Walks w (w * step) [0] clip where
  line_eq := by
    intro k fromskew hk hclip
    simp only [tileScan, hskew fromskew hclip (by omega), ← hk]
    push_cast
    ring
  pixel_eq := by
    intro buf pp c hc hbuf
    have hline : (c + 1) * step ≤ w * step := Nat.mul_le_mul_right step hc
    have hend := hbuf 0 (List.mem_singleton.mpr rfl)
    rw [Nat.succ_mul] at hline
    have hat : (pp : ℤ) + c * step = (pp + c * step : ℕ) := by push_cast; rfl
    simp only [tileScan, PixelFormat.fetch, hat, Int.toNat_natCast, Nat.add_assoc]
    rw [if_pos (by omega)]
  word_congr := by
    intro g g' c hc hsame
    have hline : (c + 1) * step ≤ w * step := Nat.mul_le_mul_right step hc
    rw [Nat.succ_mul] at hline
    refine f.reads _ _ ?_
    intro k hk
    have hbyte := hsame 0 (List.mem_singleton.mpr rfl) (c * step + k) (by omega)
    simpa only [Nat.zero_add, Int.toNat_natCast] using hbyte

theorem separate_walks {f : PixelFormat} {bytes w clip : ℕ} [NeZero bytes] (skew : ℤ → ℤ) {plane : ℕ → ℕ}
    {starts : List ℕ} (hplane : ∀ k < (f.bytes + bytes - 1) / bytes, plane k ∈ starts) (hpos : 0 < f.bytes)
    (hskew : ∀ fromskew : ℕ, fromskew ≤ clip → fromskew ≤ w → skew fromskew = fromskew * bytes) :
    (tileScan (f.separate bytes plane) bytes skew).Walks w (w * bytes) starts clip where
  line_eq := by
    intro k fromskew hk hclip
    simp only [tileScan, hskew fromskew hclip (by omega), ← hk]
    push_cast
    ring
  pixel_eq := by
    intro buf pp c hc hbuf
    have hline : (c + 1) * bytes ≤ w * bytes := Nat.mul_le_mul_right bytes hc
    rw [Nat.succ_mul] at hline
    have hcount : 0 < (f.bytes + bytes - 1) / bytes := (Nat.zero_le (0 / bytes)).trans_lt (div_lt_ceil (Nat.pos_of_neZero bytes) hpos)
    obtain ⟨k,hk,hmax⟩ := Finset.exists_mem_eq_sup _ (Finset.nonempty_range_iff.mpr hcount.ne') plane
    have hend := hbuf (plane k) (hplane k (Finset.mem_range.mp hk))
    have hat : (pp : ℤ) + c * bytes = (pp + c * bytes : ℕ) := by push_cast; rfl
    have hbytes : (f.separate bytes plane).bytes = plane k + bytes := by rw [← hmax]; rfl
    simp only [tileScan, PixelFormat.fetch, hat, hbytes, Int.toNat_natCast, Nat.add_assoc]
    rw [if_pos (by omega)]
  word_congr := by
    intro g g' c hc hsame
    have hline : (c + 1) * bytes ≤ w * bytes := Nat.mul_le_mul_right bytes hc
    rw [Nat.succ_mul] at hline
    refine f.reads _ _ ?_
    intro k hk
    have hmod := Nat.mod_lt k (Nat.pos_of_neZero bytes)
    have hbyte := hsame _ (hplane (k / bytes) (div_lt_ceil (Nat.pos_of_neZero bytes) hk)) (c * bytes + k % bytes) (by omega)
    simpa only [Nat.add_left_comm, Int.toNat_natCast] using hbyte

theorem packedScan_walks (map : SampleMap) {perByte w clip : ℕ} (hper : 0 < perByte) (hclip : clip = 0 ∨ perByte ∣ w) :
    (packedScan map perByte).Walks w ((w + perByte - 1) / perByte) [0] clip where
  line_eq := by
    intro k fromskew hk hle
    have hskew : (fromskew : ℤ).tdiv perByte = (fromskew / perByte : ℕ) := rfl
    have hsplit : (k + perByte - 1) / perByte + fromskew / perByte = (w + perByte - 1) / perByte := by
      rcases hclip with rfl | ⟨q,rfl⟩
      · rw [Nat.le_zero.mp hle, Nat.add_zero] at hk
        rw [Nat.le_zero.mp hle, hk, Nat.zero_div, Nat.add_zero]
      · have hdiv := Nat.div_add_mod fromskew perByte
        have hmod := Nat.mod_lt fromskew hper
        generalize fromskew / perByte = a at hdiv ⊢
        generalize fromskew % perByte = b at hdiv hmod
        have ha : a ≤ q := by
          by_contra hlt
          have hmul := Nat.mul_le_mul_left perByte (Nat.succ_le_of_lt (not_le.mp hlt))
          rw [Nat.mul_succ] at hmul
          omega
        obtain ⟨rest,rfl⟩ := Nat.exists_eq_add_of_le ha
        rw [Nat.mul_add] at hk ⊢
        have hfirst : k + perByte - 1 = perByte * rest + (perByte - 1 - b) := by omega
        have hlast : perByte * a + perByte * rest + perByte - 1 = perByte * (a + rest) + (perByte - 1) := by
          rw [Nat.mul_add]
          omega
        rw [hfirst, hlast, Nat.mul_add_div hper, Nat.mul_add_div hper, Nat.div_eq_of_lt (by omega),
          Nat.div_eq_of_lt (by omega)]
        omega
    simp only [packedScan, hskew]
    exact_mod_cast hsplit
  pixel_eq := by
    intro buf pp c hc hbuf
    have hbyte := div_lt_ceil hper hc
    have hend := hbuf 0 (List.mem_singleton.mpr rfl)
    have hlt : pp + c / perByte < buf.length := by omega
    have hat : (pp : ℤ) + (c / perByte : ℕ) = (pp + c / perByte : ℕ) := by push_cast; rfl
    simp only [packedScan, peek, hat, Int.natCast_nonneg, if_true, Int.toNat_natCast]
    rw [List.getD_eq_getElem?_getD, List.getElem?_eq_getElem hlt]
    rfl
  word_congr := by
    intro g g' c hc hsame
    have hbyte := hsame 0 (List.mem_singleton.mpr rfl) (c / perByte) (div_lt_ceil hper hc)
    simp only [Nat.zero_add] at hbyte
    simp only [packedScan, hbyte]

end TiffJni.Raster
