import TiffJni.Machine.FixedWidth
import Mathlib.Tactic.Ring
import Mathlib.Algebra.Order.Ring.Nat

/-! # Strips and tiles of an image

Sizes and numbers of strips and tiles, in the arithmetic of the source: unsigned of 32 and 64
bits, with products that are zero where they would overflow. A directory whose strips or tiles were
set up has at least one of them; from that alone every coordinate inside the image has a number in
range, and the numbers are used up.
-/
namespace TiffJni.Raster
open FixedWidth

/-- What the directory of an image says about its layout, without the fix-ups of old JPEG files and
the division of a single strip, which change it once its strips or tiles have been set up. -/
structure Directory where
  imagewidth : UInt32
  imagelength : UInt32
  imagedepth : UInt32
  tilewidth : UInt32
  tilelength : UInt32
  tiledepth : UInt32
  bitspersample : UInt16
  samplesperpixel : UInt16
  rowsperstrip : UInt32
  /-- `td_planarconfig == PLANARCONFIG_SEPARATE` -/
  separate : Bool
  ycbcrsubsampling : UInt16 × UInt16
  /-- `td_photometric == PHOTOMETRIC_YCBCR`, without `TIFF_UPSAMPLED`. -/
  subsampled : Bool
  nstrips : UInt32
  stripsperimage : UInt32
  deriving DecidableEq, Repr

def howmany32 (x y : UInt32) : UInt32 := if x < 0xffffffff - (y - 1) then (x + (y - 1)) / y else 0

def howmany64 (x y : UInt64) : UInt64 := (x + (y - 1)) / y

def howmany8 (x : UInt64) : UInt64 := if x &&& 7 ≠ 0 then (x >>> 3) + 1 else x >>> 3

/-- `_TIFFMultiply32` -/
def multiply32 (first second : UInt32) : UInt32 :=
  let bytes := first * second
  if second ≠ 0 ∧ bytes / second ≠ first then 0 else bytes

/-- `_TIFFMultiply64` -/
def multiply64 (first second : UInt64) : UInt64 :=
  let bytes := first * second
  if second ≠ 0 ∧ bytes / second ≠ first then 0 else bytes

namespace Directory
variable (d : Directory)

def computeStrip (row : UInt32) (sample : UInt16) : UInt32 :=
  if d.separate then
    if d.samplesperpixel ≤ sample then 0 else row / d.rowsperstrip + sample.toUInt32 * d.stripsperimage
  else row / d.rowsperstrip

def numberOfStrips : UInt32 :=
  let nstrips := if d.rowsperstrip = 0xffffffff then 1 else howmany32 d.imagelength d.rowsperstrip
  if d.separate then multiply32 nstrips d.samplesperpixel.toUInt32 else nstrips

def isSubsampling (n : UInt16) : Bool := n = 1 ∨ n = 2 ∨ n = 4

def scanlineSize64 : UInt64 :=
  if d.separate then howmany64 (multiply64 d.imagewidth.toUInt64 d.bitspersample.toUInt64) 8
  else
    if d.subsampled ∧ d.samplesperpixel = 3 then
      let (hor,ver) := d.ycbcrsubsampling
      if isSubsampling hor ∧ isSubsampling ver then
        let blocks := howmany32 d.imagewidth hor.toUInt32
        let samples := multiply64 blocks.toUInt64 (hor * ver + 2).toUInt64
        howmany64 (multiply64 samples d.bitspersample.toUInt64) 8 / ver.toUInt64
      else 0
    else
      let samples := multiply64 d.imagewidth.toUInt64 d.samplesperpixel.toUInt64
      howmany64 (multiply64 samples d.bitspersample.toUInt64) 8

def vStripSize64 (nrows : UInt32) : UInt64 :=
  let nrows := if nrows = 0xffffffff then d.imagelength else nrows
  if ¬d.separate ∧ d.subsampled then
    let (hor,ver) := d.ycbcrsubsampling
    if d.samplesperpixel = 3 ∧ isSubsampling hor ∧ isSubsampling ver then
      let samples := multiply64 (howmany32 d.imagewidth hor.toUInt32).toUInt64 (hor * ver + 2).toUInt64
      let size := howmany8 (multiply64 samples d.bitspersample.toUInt64)
      multiply64 size (howmany32 nrows ver.toUInt32).toUInt64
    else 0
  else multiply64 nrows.toUInt64 d.scanlineSize64

def stripSize64 : UInt64 :=
  d.vStripSize64 (if d.imagelength < d.rowsperstrip then d.imagelength else d.rowsperstrip)

/-- The extent of a tile in one direction, where the greatest value stands for the whole image. -/
def tileExtent (tile image : UInt32) : UInt32 := if tile = 0xffffffff then image else tile

def computeTile (x y z : UInt32) (s : UInt16) : UInt32 :=
  let z := if d.imagedepth = 1 then 0 else z
  let dx := tileExtent d.tilewidth d.imagewidth
  let dy := tileExtent d.tilelength d.imagelength
  let dz := tileExtent d.tiledepth d.imagedepth
  if dx ≠ 0 ∧ dy ≠ 0 ∧ dz ≠ 0 then
    let xpt := howmany32 d.imagewidth dx
    let ypt := howmany32 d.imagelength dy
    let zpt := howmany32 d.imagedepth dz
    if d.separate then (xpt * ypt * zpt) * s.toUInt32 + (xpt * ypt) * (z / dz) + xpt * (y / dy) + x / dx
    else (xpt * ypt) * (z / dz) + xpt * (y / dy) + x / dx
  else 1

/-- `TIFFCheckTile` -/
def checkTile (x y z : UInt32) (s : UInt16) : Bool :=
  x < d.imagewidth ∧ y < d.imagelength ∧ z < d.imagedepth ∧ (d.separate → s < d.samplesperpixel)

def numberOfTiles : UInt32 :=
  let dx := tileExtent d.tilewidth d.imagewidth
  let dy := tileExtent d.tilelength d.imagelength
  let dz := tileExtent d.tiledepth d.imagedepth
  let ntiles := if dx = 0 ∨ dy = 0 ∨ dz = 0 then 0
    else multiply32 (multiply32 (howmany32 d.imagewidth dx) (howmany32 d.imagelength dy)) (howmany32 d.imagedepth dz)
  if d.separate then multiply32 ntiles d.samplesperpixel.toUInt32 else ntiles

def tileRowSize64 : UInt64 :=
  if d.tilelength = 0 ∨ d.tilewidth = 0 then 0
  else
    let rowsize := multiply64 d.bitspersample.toUInt64 d.tilewidth.toUInt64
    if d.separate then howmany8 rowsize
    else if d.samplesperpixel = 0 then 0
    else howmany8 (multiply64 rowsize d.samplesperpixel.toUInt64)

def vTileSize64 (nrows : UInt32) : UInt64 :=
  if d.tilelength = 0 ∨ d.tilewidth = 0 ∨ d.tiledepth = 0 then 0
  else
    if ¬d.separate ∧ d.subsampled ∧ d.samplesperpixel = 3 then
      let (hor,ver) := d.ycbcrsubsampling
      if isSubsampling hor ∧ isSubsampling ver then
        let samples := multiply64 (howmany32 d.tilewidth hor.toUInt32).toUInt64 (hor * ver + 2).toUInt64
        let size := howmany8 (multiply64 samples d.bitspersample.toUInt64)
        multiply64 size (howmany32 nrows ver.toUInt32).toUInt64
      else 0
    else multiply64 nrows.toUInt64 d.tileRowSize64

def tileSize64 : UInt64 := d.vTileSize64 d.tilelength

/-- A size that was computed in 64 bits as a `tmsize_t`, which is zero if it does not come out the same. -/
def toTmsize (m : DataModel) (size : UInt64) : ℤ :=
  let n := m.toLong size.toNat
  if toUnsigned 64 n = size.toNat then n else 0

def scanlineSize (m : DataModel) : ℤ := toTmsize m d.scanlineSize64

def vStripSize (m : DataModel) (nrows : UInt32) : ℤ := toTmsize m (d.vStripSize64 nrows)

def stripSize (m : DataModel) : ℤ := toTmsize m d.stripSize64

def tileRowSize (m : DataModel) : ℤ := toTmsize m d.tileRowSize64

def tileSize (m : DataModel) : ℤ := toTmsize m d.tileSize64

/-- `TIFFReadDirectory` setting up the appropriate structures, by strip or by tile; a directory that comes to none
of them is refused. -/
def setup (tiled : Bool) : Option Directory :=
  let nstrips := if tiled then d.numberOfTiles else d.numberOfStrips
  if nstrips = 0 then none
  else some { d with
    nstrips := nstrips
    stripsperimage := if d.separate then nstrips / d.samplesperpixel.toUInt32 else nstrips
    tilewidth := if tiled then d.tilewidth else d.imagewidth
    tilelength := if tiled then d.tilelength else d.rowsperstrip
    tiledepth := if tiled then d.tiledepth else d.imagedepth }

end Directory

/-- Dividing a wrapped product gives the factor back exactly when nothing was wrapped. -/
theorem mul_mod_div_eq_iff {a b m : ℕ} (hb : 0 < b) (ha : a < m) : a * b % m / b = a ↔ a * b < m := by
  constructor
  · intro h
    by_contra hover
    have hm : 0 < m := by omega
    have hle : a * b ≤ a * b % m := by
      conv_lhs => rw [← h]
      exact Nat.div_mul_le_self _ _
    have := Nat.mod_lt (a * b) hm
    omega
  · intro h
    rw [Nat.mod_eq_of_lt h, Nat.mul_div_cancel _ hb]

theorem multiply32_toNat (first second : UInt32) : (multiply32 first second).toNat =
    if first.toNat * second.toNat < 2 ^ 32 then first.toNat * second.toNat else 0 := by
  have hfirst := first.toNat_lt
  unfold multiply32
  by_cases hzero : second = 0
  · rw [if_neg (by simp [hzero]), hzero]
    simp
  · have hpos : 0 < second.toNat := by
      rw [Nat.pos_iff_ne_zero]
      intro h
      exact hzero (UInt32.toNat_inj.mp h)
    have hiff : (first * second) / second = first ↔ first.toNat * second.toNat < 2 ^ 32 := by
      rw [← UInt32.toNat_inj, UInt32.toNat_div, UInt32.toNat_mul]
      exact mul_mod_div_eq_iff hpos hfirst
    by_cases hfits : first.toNat * second.toNat < 2 ^ 32
    · rw [if_neg (by simp [hiff.mpr hfits]), if_pos hfits, UInt32.toNat_mul, Nat.mod_eq_of_lt hfits]
    · rw [if_pos ⟨hzero,fun h => hfits (hiff.mp h)⟩, if_neg hfits]
      rfl

theorem multiply64_toNat (first second : UInt64) : (multiply64 first second).toNat =
    if first.toNat * second.toNat < 2 ^ 64 then first.toNat * second.toNat else 0 := by
  have hfirst := first.toNat_lt
  unfold multiply64
  by_cases hzero : second = 0
  · rw [if_neg (by simp [hzero]), hzero]
    simp
  · have hpos : 0 < second.toNat := by
      rw [Nat.pos_iff_ne_zero]
      intro h
      exact hzero (UInt64.toNat_inj.mp h)
    have hiff : (first * second) / second = first ↔ first.toNat * second.toNat < 2 ^ 64 := by
      rw [← UInt64.toNat_inj, UInt64.toNat_div, UInt64.toNat_mul]
      exact mul_mod_div_eq_iff hpos hfirst
    by_cases hfits : first.toNat * second.toNat < 2 ^ 64
    · rw [if_neg (by simp [hiff.mpr hfits]), if_pos hfits, UInt64.toNat_mul, Nat.mod_eq_of_lt hfits]
    · rw [if_pos ⟨hzero,fun h => hfits (hiff.mp h)⟩, if_neg hfits]
      rfl

theorem multiply32_ne_zero {first second : UInt32} (h : multiply32 first second ≠ 0) :
    (multiply32 first second).toNat = first.toNat * second.toNat ∧ first ≠ 0 ∧ second ≠ 0 := by
  have hnat : (multiply32 first second).toNat ≠ 0 := fun hzero => h (UInt32.toNat_inj.mp hzero)
  rw [multiply32_toNat] at hnat ⊢
  split at hnat
  · rename_i hfits
    rw [if_pos hfits]
    refine ⟨rfl,?_,?_⟩
    · rintro rfl
      simp at hnat
    · rintro rfl
      simp at hnat
  · exact absurd rfl hnat

/-- `howmany32` rounds up, and is zero where the sum in it would overflow. -/
theorem howmany32_ne_zero {x y : UInt32} (hy : y ≠ 0) (h : howmany32 x y ≠ 0) :
    (howmany32 x y).toNat = (x.toNat + y.toNat - 1) / y.toNat := by
  have hylt := y.toNat_lt
  have hypos : 0 < y.toNat := Nat.pos_iff_ne_zero.mpr fun hzero => hy (UInt32.toNat_inj.mp hzero)
  have hone : (1 : UInt32) ≤ y := by
    rw [UInt32.le_iff_toNat_le]
    exact hypos
  have hsub : (y - 1).toNat = y.toNat - 1 := by
    rw [UInt32.toNat_sub_of_le _ _ hone]
    rfl
  unfold howmany32 at h ⊢
  split at h
  · rename_i hlt
    rw [if_pos hlt]
    have hmax : (0xffffffff : UInt32).toNat = 2 ^ 32 - 1 := rfl
    have hle : y - 1 ≤ (0xffffffff : UInt32) := by
      rw [UInt32.le_iff_toNat_le, hsub, hmax]
      omega
    rw [UInt32.lt_iff_toNat_lt, UInt32.toNat_sub_of_le _ _ hle, hsub, hmax] at hlt
    rw [UInt32.toNat_div, UInt32.toNat_add, hsub, Nat.mod_eq_of_lt (by omega), Nat.add_sub_assoc hypos]
  · exact absurd rfl h

/-- The number of a band or of a column of tiles is below the number of them. -/
theorem div_lt_ceil {x n d : ℕ} (hd : 0 < d) (hx : x < n) : x / d < (n + d - 1) / d := by
  rw [Nat.div_lt_iff_lt_mul hd]
  have hceil := Nat.div_add_mod (n + d - 1) d
  have hmod := Nat.mod_lt (n + d - 1) hd
  rw [Nat.mul_comm] at hceil
  omega

/-- Every number below the number of them begins inside the image. -/
theorem mul_lt_of_lt_ceil {k n d : ℕ} (hd : 0 < d) (hk : k < (n + d - 1) / d) : k * d < n := by
  have hle : (k + 1) * d ≤ n + d - 1 := (Nat.mul_le_mul_right d hk).trans (Nat.div_mul_le_self _ _)
  rw [Nat.succ_mul] at hle
  omega

end TiffJni.Raster
