import TiffJni.Raster.Geometry

/-! # Strips and tiles have numbers

A strip or a tile is found by its number, which is computed from a coordinate. Once
`TIFFReadDirectory` has set the strips or tiles of a directory up, the numbers of two coordinates
agree exactly when they lie in the same strip or tile, none is out of range and none is left over.
What it changes in a directory after that (the fix-ups of old JPEG files, and the division of a
single strip) is not followed.
-/
namespace TiffJni.Raster

/-- `number` counts the cells of the valid coordinates from zero to `count`. -/
structure Numbers {C K : Type} (valid : C → Prop) (cell : C → K) (number : C → UInt32) (count : UInt32) : Prop where
  inRange : ∀ c, valid c → number c < count
  sameCell : ∀ c c', valid c → valid c' → (number c = number c' ↔ cell c = cell c')
  allUsed : ∀ n < count, ∃ c, valid c ∧ number c = n

/-- The digit `s` above a digit `i < n`. -/
theorem radix_lt {n k s i : ℕ} (hi : i < n) (hs : s < k) : n * s + i < n * k := by
  have hle := Nat.mul_le_mul_left n (Nat.succ_le_of_lt hs)
  rw [Nat.mul_succ] at hle
  omega

theorem radix_inj {n s s' i i' : ℕ} (hi : i < n) (hi' : i' < n) : n * s + i = n * s' + i' ↔ s = s' ∧ i = i' := by
  constructor
  · intro h
    have hpos : 0 < n := by omega
    have hs : s = s' := by
      have hdiv := congrArg (· / n) h
      simpa only [Nat.mul_add_div hpos, Nat.div_eq_of_lt hi, Nat.div_eq_of_lt hi', Nat.add_zero] using hdiv
    subst hs
    exact ⟨rfl,Nat.add_left_cancel h⟩
  · rintro ⟨rfl,rfl⟩
    rfl

namespace Directory
variable {d d' : Directory}

/-- The strips of one plane. -/
def stripsPerPlane (d : Directory) : UInt32 :=
  if d.rowsperstrip = 0xffffffff then 1 else howmany32 d.imagelength d.rowsperstrip

theorem numberOfStrips_eq (d : Directory) : d.numberOfStrips =
    if d.separate then multiply32 d.stripsPerPlane d.samplesperpixel.toUInt32 else d.stripsPerPlane := rfl

theorem stripsPerPlane_spec (h : d.stripsPerPlane ≠ 0) : 0 < d.rowsperstrip.toNat ∧
    (∀ row < d.imagelength.toNat, row / d.rowsperstrip.toNat < d.stripsPerPlane.toNat) ∧
    (0 < d.imagelength.toNat → ∀ k < d.stripsPerPlane.toNat, k * d.rowsperstrip.toNat < d.imagelength.toNat) := by
  have hlength := d.imagelength.toNat_lt
  unfold stripsPerPlane at h ⊢
  split at h
  · rename_i hall
    have hmax : d.rowsperstrip.toNat = 2 ^ 32 - 1 := by rw [hall]; rfl
    rw [if_pos hall, hmax]
    refine ⟨by omega,?_,?_⟩
    · intro row hrow
      rw [Nat.div_eq_of_lt (by omega)]
      decide
    · intro hpos k hk
      obtain rfl : k = 0 := by
        have hone : (1 : UInt32).toNat = 1 := rfl
        omega
      omega
  · rename_i hsome
    have hne : d.rowsperstrip ≠ 0 := by
      intro hzero
      rw [hzero] at h
      refine h ?_
      unfold howmany32
      rw [if_neg]
      rw [UInt32.lt_iff_toNat_lt]
      exact Nat.not_lt_zero _
    have hpos : 0 < d.rowsperstrip.toNat :=
      Nat.pos_iff_ne_zero.mpr fun hzero => hne (UInt32.toNat_inj.mp hzero)
    rw [if_neg hsome, howmany32_ne_zero hne h]
    exact ⟨hpos,fun row hrow => div_lt_ceil hpos hrow,fun _ k hk => mul_lt_of_lt_ceil hpos hk⟩

/-- A strip that ends beyond the image counts as one. -/
theorem stripsPerPlane_toNat (h : d.stripsPerPlane ≠ 0) (hpos : 0 < d.imagelength.toNat) : d.stripsPerPlane.toNat =
    (d.imagelength.toNat + min d.rowsperstrip.toNat d.imagelength.toNat - 1) / min d.rowsperstrip.toNat d.imagelength.toNat := by
  obtain ⟨hrps,hlt,hbegin⟩ := stripsPerPlane_spec h
  have hsome : 0 < d.stripsPerPlane.toNat := (Nat.zero_le _).trans_lt (hlt 0 hpos)
  rcases Nat.lt_or_ge d.rowsperstrip.toNat d.imagelength.toNat with hless | hall
  · have hmany : d.rowsperstrip ≠ 0xffffffff := by
      intro hall
      have hmax : (0xffffffff : UInt32).toNat = 2 ^ 32 - 1 := rfl
      rw [hall, hmax] at hless
      have hword := d.imagelength.toNat_lt
      omega
    have hne : d.rowsperstrip ≠ 0 := fun hzero => absurd hrps (by rw [hzero]; exact Nat.lt_irrefl 0)
    rw [stripsPerPlane, if_neg hmany] at h
    rw [stripsPerPlane, if_neg hmany, howmany32_ne_zero hne h, Nat.min_eq_left hless.le]
  · have hone : (d.imagelength.toNat + d.imagelength.toNat - 1) / d.imagelength.toNat = 1 :=
      (Nat.div_eq_iff hpos).mpr (by omega)
    rw [Nat.min_eq_right hall, hone]
    by_contra hmany
    have hsecond := hbegin hpos 1 (by omega)
    omega

theorem setup_eq (tiled : Bool) (h : d.setup tiled = some d') :
    (if tiled then d.numberOfTiles else d.numberOfStrips) ≠ 0 ∧
    d'.nstrips = (if tiled then d.numberOfTiles else d.numberOfStrips) ∧
    d'.stripsperimage = (if d.separate then d'.nstrips / d.samplesperpixel.toUInt32 else d'.nstrips) ∧
    d'.separate = d.separate ∧ d'.samplesperpixel = d.samplesperpixel ∧ d'.rowsperstrip = d.rowsperstrip ∧
    d'.imagelength = d.imagelength ∧ d'.imagewidth = d.imagewidth ∧ d'.imagedepth = d.imagedepth ∧
    (tiled = true → d'.tilewidth = d.tilewidth ∧ d'.tilelength = d.tilelength ∧ d'.tiledepth = d.tiledepth) := by
  have hcount (nstrips : UInt32) (hset : (if nstrips = 0 then none else some { d with
      nstrips := nstrips
      stripsperimage := if d.separate then nstrips / d.samplesperpixel.toUInt32 else nstrips
      tilewidth := if tiled then d.tilewidth else d.imagewidth
      tilelength := if tiled then d.tilelength else d.rowsperstrip
      tiledepth := if tiled then d.tiledepth else d.imagedepth }) = some d') : nstrips ≠ 0 ∧ d'.nstrips = nstrips ∧
      d'.stripsperimage = (if d.separate then d'.nstrips / d.samplesperpixel.toUInt32 else d'.nstrips) ∧
      d'.separate = d.separate ∧ d'.samplesperpixel = d.samplesperpixel ∧ d'.rowsperstrip = d.rowsperstrip ∧
      d'.imagelength = d.imagelength ∧ d'.imagewidth = d.imagewidth ∧ d'.imagedepth = d.imagedepth ∧
      (tiled = true → d'.tilewidth = d.tilewidth ∧ d'.tilelength = d.tilelength ∧ d'.tiledepth = d.tiledepth) := by
    by_cases hzero : nstrips = 0
    · rw [if_pos hzero] at hset
      cases hset
    · rw [if_neg hzero] at hset
      cases hset
      refine ⟨hzero,rfl,rfl,rfl,rfl,rfl,rfl,rfl,rfl,?_⟩
      intro ht
      simp only [ht, if_true, and_self]
  exact hcount _ h

theorem rowsperstrip_pos (h : d.setup false = some d') : 0 < d'.rowsperstrip.toNat := by
  obtain ⟨hne,-,-,-,-,hrps,-⟩ := setup_eq false h
  rw [if_neg Bool.false_ne_true, numberOfStrips_eq] at hne
  rw [hrps]
  refine (stripsPerPlane_spec ?_).1
  intro hzero
  rw [hzero] at hne
  split at hne
  · refine hne (UInt32.toNat_inj.mp ?_)
    rw [multiply32_toNat]
    simp
  · exact hne rfl

/-- Where a row of a sample is: the band of rows, and the plane if there is more than one. -/
def stripCell (d : Directory) (c : UInt32 × UInt16) : UInt32 × UInt16 :=
  (c.1 / d.rowsperstrip,if d.separate then c.2 else 0)

theorem ofNat32_toNat {k : ℕ} (h : k < 2 ^ 32) : (UInt32.ofNat k).toNat = k := UInt32.toNat_ofNat_of_lt' h

theorem ofNat16_toNat {k : ℕ} (h : k < 2 ^ 16) : (UInt16.ofNat k).toNat = k := UInt16.toNat_ofNat_of_lt' h

theorem stripsPerPlane_eq (h : d.setup false = some d') : d'.stripsPerPlane = d.stripsPerPlane := by
  obtain ⟨-,-,-,-,-,hrps,hlength,-⟩ := setup_eq false h
  rw [stripsPerPlane, stripsPerPlane, hrps, hlength]

/-- The strips of a directory: those of a plane, as often as there are planes. -/
theorem nstrips_spec (h : d.setup false = some d') : d'.stripsPerPlane ≠ 0 ∧ d'.stripsperimage = d'.stripsPerPlane ∧
    d'.nstrips.toNat = d'.stripsPerPlane.toNat * (if d'.separate then d'.samplesperpixel.toNat else 1) := by
  obtain ⟨hne,hn,hspi,hsep,hspp,-⟩ := setup_eq false h
  rw [if_neg Bool.false_ne_true] at hne hn
  rw [stripsPerPlane_eq h, hsep, hspp]
  cases hs : d.separate with
  | false =>
    rw [numberOfStrips_eq, hs, if_neg Bool.false_ne_true] at hne hn
    rw [hs, if_neg Bool.false_ne_true] at hspi
    exact ⟨hne,hspi.trans hn,by rw [hn, if_neg Bool.false_ne_true, Nat.mul_one]⟩
  | true =>
    rw [numberOfStrips_eq, hs, if_pos rfl] at hne hn
    obtain ⟨hcount,hplane,hsamples⟩ := multiply32_ne_zero hne
    rw [UInt16.toNat_toUInt32] at hcount
    have hspp0 : 0 < d.samplesperpixel.toNat := by
      rw [Nat.pos_iff_ne_zero, ← UInt16.toNat_toUInt32]
      exact fun hzero => hsamples (UInt32.toNat_inj.mp hzero)
    refine ⟨hplane,?_,by rw [hn, hcount, if_pos rfl]⟩
    apply UInt32.toNat_inj.mp
    rw [hspi, hs, if_pos rfl, UInt32.toNat_div, hn, hcount, UInt16.toNat_toUInt32, Nat.mul_div_cancel _ hspp0]

/-- The number of a strip by its digits; no step of its computation overflows. -/
theorem computeStrip_toNat (h : d.setup false = some d') {c : UInt32 × UInt16} (hrow : c.1.toNat < d'.imagelength.toNat)
    (hsample : d'.separate → c.2 < d'.samplesperpixel) : (d'.computeStrip c.1 c.2).toNat =
      d'.stripsPerPlane.toNat * (if d'.separate then c.2.toNat else 0) + c.1.toNat / d'.rowsperstrip.toNat := by
  obtain ⟨hne,hspi,hcount⟩ := nstrips_spec h
  obtain ⟨-,hlt,-⟩ := stripsPerPlane_spec hne
  have hword := d'.nstrips.toNat_lt
  cases hs : d'.separate with
  | false =>
    rw [computeStrip, hs, if_neg Bool.false_ne_true, UInt32.toNat_div, if_neg Bool.false_ne_true, Nat.mul_zero, Nat.zero_add]
  | true =>
    have hsample := hsample hs
    have hradix := radix_lt (hlt _ hrow) (UInt16.lt_iff_toNat_lt.mp hsample)
    rw [hs, if_pos rfl] at hcount
    rw [computeStrip, hs, if_pos rfl, if_neg (UInt16.not_le.mpr hsample), hspi, UInt32.toNat_add, UInt32.toNat_div,
      UInt32.toNat_mul, UInt16.toNat_toUInt32, Nat.mul_comm c.2.toNat, Nat.add_mod_mod, Nat.add_comm, if_pos rfl,
      Nat.mod_eq_of_lt (by omega)]

theorem strips_numbered (h : d.setup false = some d') (hrows : 0 < d.imagelength) :
    Numbers (fun c : UInt32 × UInt16 => c.1 < d'.imagelength ∧ (d'.separate → c.2 < d'.samplesperpixel))
      d'.stripCell (fun c => d'.computeStrip c.1 c.2) d'.nstrips := by
  obtain ⟨-,-,-,-,-,-,hlength,-⟩ := setup_eq false h
  obtain ⟨hne,-,hcount⟩ := nstrips_spec h
  obtain ⟨hpos,hlt,hbegin⟩ := stripsPerPlane_spec hne
  have hdigit (s : UInt16) (hsample : d'.separate → s < d'.samplesperpixel) :
      (if d'.separate then s.toNat else 0) < (if d'.separate then d'.samplesperpixel.toNat else 1) := by
    split
    · rename_i hs
      exact UInt16.lt_iff_toNat_lt.mp (hsample hs)
    · exact Nat.zero_lt_one
  have hnumber {c : UInt32 × UInt16} (hc : c.1 < d'.imagelength ∧ (d'.separate → c.2 < d'.samplesperpixel)) :
      (d'.computeStrip c.1 c.2).toNat =
        d'.stripsPerPlane.toNat * (if d'.separate then c.2.toNat else 0) + c.1.toNat / d'.rowsperstrip.toNat :=
    computeStrip_toNat h (UInt32.lt_iff_toNat_lt.mp hc.1) hc.2
  refine ⟨?_,?_,?_⟩
  · intro c hc
    rw [UInt32.lt_iff_toNat_lt, hnumber hc, hcount]
    exact radix_lt (hlt _ (UInt32.lt_iff_toNat_lt.mp hc.1)) (hdigit c.2 hc.2)
  · intro c c' hc hc'
    rw [← UInt32.toNat_inj, hnumber hc, hnumber hc', radix_inj (hlt _ (UInt32.lt_iff_toNat_lt.mp hc.1))
      (hlt _ (UInt32.lt_iff_toNat_lt.mp hc'.1)), stripCell, stripCell, Prod.mk.injEq, ← UInt32.toNat_inj,
      UInt32.toNat_div, UInt32.toNat_div, and_comm]
    refine and_congr_right fun _ => ?_
    split
    · exact UInt16.toNat_inj
    · exact iff_of_true rfl rfl
  · intro n hn
    have hlt' := UInt32.lt_iff_toNat_lt.mp hn
    rw [hcount] at hlt'
    have hplanes : 0 < d'.stripsPerPlane.toNat := Nat.pos_of_ne_zero fun hzero => by simp [hzero] at hlt'
    have hsample := Nat.div_lt_of_lt_mul hlt'
    have hrow := hbegin (hlength ▸ UInt32.lt_iff_toNat_lt.mp hrows) _ (Nat.mod_lt n.toNat hplanes)
    have hword := d'.imagelength.toNat_lt
    have hrowNat := ofNat32_toNat (hrow.trans hword)
    have hsampleNat : (UInt16.ofNat (n.toNat / d'.stripsPerPlane.toNat)).toNat = n.toNat / d'.stripsPerPlane.toNat := by
      have hspp := d'.samplesperpixel.toNat_lt
      refine ofNat16_toNat (hsample.trans_le ?_)
      split
      · exact hspp.le
      · decide
    have hvalid : UInt32.ofNat (n.toNat % d'.stripsPerPlane.toNat * d'.rowsperstrip.toNat) < d'.imagelength ∧
        (d'.separate → UInt16.ofNat (n.toNat / d'.stripsPerPlane.toNat) < d'.samplesperpixel) := by
      rw [UInt32.lt_iff_toNat_lt, hrowNat, UInt16.lt_iff_toNat_lt, hsampleNat]
      refine ⟨hrow,fun hs => ?_⟩
      rwa [if_pos hs] at hsample
    refine ⟨(UInt32.ofNat (n.toNat % d'.stripsPerPlane.toNat * d'.rowsperstrip.toNat),
      UInt16.ofNat (n.toNat / d'.stripsPerPlane.toNat)),hvalid,UInt32.toNat_inj.mp ?_⟩
    have hplane : (if d'.separate then n.toNat / d'.stripsPerPlane.toNat else 0) = n.toNat / d'.stripsPerPlane.toNat := by
      split
      · rfl
      · rename_i hs
        rw [if_neg hs] at hsample
        omega
    rw [hnumber hvalid, hrowNat, hsampleNat, Nat.mul_div_cancel _ hpos, hplane, Nat.div_add_mod]

/-- A strip that is read is one of the directory; a sample that is not there is read from the first strip. -/
theorem computeStrip_lt (h : d.setup false = some d') {row : UInt32} (hrow : row.toNat < d'.imagelength.toNat)
    (s : UInt16) : d'.computeStrip row s < d'.nstrips := by
  obtain ⟨hne,hn,-,-,-,-,hlength,-⟩ := setup_eq false h
  have hrow' : row < d'.imagelength := UInt32.lt_iff_toNat_lt.mpr hrow
  have hrows : 0 < d.imagelength := by
    rw [← hlength, UInt32.lt_iff_toNat_lt]
    exact (Nat.zero_le _).trans_lt hrow
  by_cases hs : d'.separate = true ∧ d'.samplesperpixel ≤ s
  · rw [computeStrip, if_pos hs.1, if_pos hs.2, UInt32.lt_iff_toNat_lt, hn]
    exact Nat.pos_iff_ne_zero.mpr fun hzero => hne (UInt32.toNat_inj.mp hzero)
  · refine (strips_numbered h hrows).inRange (row,s) ⟨hrow',fun hseparate => ?_⟩
    have hnot : ¬d'.samplesperpixel ≤ s := fun hle => hs ⟨hseparate,hle⟩
    exact UInt16.not_le.mp hnot

/-- `TIFFComputeStrip` numbers the strips that were set up. -/
theorem computeStrip_numbers (h : d.setup false = some d') (hrows : 0 < d.imagelength) :
    Numbers (fun c : UInt32 × UInt16 => c.1 < d'.imagelength ∧ (d'.separate → c.2 < d'.samplesperpixel))
      d'.stripCell (fun c => d'.computeStrip c.1 c.2) d'.nstrips := strips_numbered h hrows

/-- Seventy rows of three planes in strips of 32 rows, or in tiles of 16 by 32 on two levels. -/
def planes (imagedepth : UInt32) : Directory := ⟨50,70,imagedepth,16,32,1,8,3,32,true,(2,2),false,0,0⟩

theorem computeStrip_numbers_planes : ∃ d', (planes 1).setup false = some d' ∧ d'.nstrips = 9 ∧
    Numbers (fun c : UInt32 × UInt16 => c.1 < d'.imagelength ∧ (d'.separate → c.2 < d'.samplesperpixel))
      d'.stripCell (fun c => d'.computeStrip c.1 c.2) d'.nstrips :=
  ⟨_,rfl,by decide,computeStrip_numbers (d := planes 1) rfl (by decide)⟩

/-- The tiles of one row, of one column, and in depth. -/
def xpt (d : Directory) : UInt32 := howmany32 d.imagewidth (tileExtent d.tilewidth d.imagewidth)

def ypt (d : Directory) : UInt32 := howmany32 d.imagelength (tileExtent d.tilelength d.imagelength)

def zpt (d : Directory) : UInt32 := howmany32 d.imagedepth (tileExtent d.tiledepth d.imagedepth)

/-- Where a pixel of a sample is: the tile in each direction, and the plane if there is more than one. -/
def tileCell (d : Directory) (c : UInt32 × UInt32 × UInt32 × UInt16) : UInt32 × UInt32 × UInt32 × UInt16 :=
  (c.1 / tileExtent d.tilewidth d.imagewidth,c.2.1 / tileExtent d.tilelength d.imagelength,
    c.2.2.1 / tileExtent d.tiledepth d.imagedepth,if d.separate then c.2.2.2 else 0)

/-- One direction of a grid of tiles: how often the extent fits into the image, rounded up. -/
structure Axis (image extent : UInt32) (count : ℕ) : Prop where
  pos : 0 < extent.toNat
  lt : ∀ x < image.toNat, x / extent.toNat < count
  begins : ∀ k < count, k * extent.toNat < image.toNat

theorem axis_howmany32 {image extent : UInt32} (hextent : extent ≠ 0) (h : howmany32 image extent ≠ 0) :
    Axis image extent (howmany32 image extent).toNat := by
  have hpos : 0 < extent.toNat := Nat.pos_iff_ne_zero.mpr fun hzero => hextent (UInt32.toNat_inj.mp hzero)
  rw [howmany32_ne_zero hextent h]
  exact ⟨hpos,fun x hx => div_lt_ceil hpos hx,fun k hk => mul_lt_of_lt_ceil hpos hk⟩

theorem numberOfTiles_eq (d : Directory) (h : d.numberOfTiles ≠ 0) :
    Axis d.imagewidth (tileExtent d.tilewidth d.imagewidth) d.xpt.toNat ∧
    Axis d.imagelength (tileExtent d.tilelength d.imagelength) d.ypt.toNat ∧
    Axis d.imagedepth (tileExtent d.tiledepth d.imagedepth) d.zpt.toNat ∧
    d.numberOfTiles.toNat = d.xpt.toNat * d.ypt.toNat * d.zpt.toNat * (if d.separate then d.samplesperpixel.toNat else 1) := by
  have hextents : ∀ (dx dy dz : UInt32) (product : UInt32), (if dx = 0 ∨ dy = 0 ∨ dz = 0 then 0 else product) ≠ 0 →
      dx ≠ 0 ∧ dy ≠ 0 ∧ dz ≠ 0 ∧ product ≠ 0 := by
    intro dx dy dz product hne
    split at hne
    · exact absurd rfl hne
    · rename_i hnot
      simp only [not_or] at hnot
      exact ⟨hnot.1,hnot.2.1,hnot.2.2,hne⟩
  have hplane (hne : (if tileExtent d.tilewidth d.imagewidth = 0 ∨ tileExtent d.tilelength d.imagelength = 0 ∨
      tileExtent d.tiledepth d.imagedepth = 0 then 0 else multiply32 (multiply32 d.xpt d.ypt) d.zpt) ≠ 0) :
      Axis d.imagewidth (tileExtent d.tilewidth d.imagewidth) d.xpt.toNat ∧
      Axis d.imagelength (tileExtent d.tilelength d.imagelength) d.ypt.toNat ∧
      Axis d.imagedepth (tileExtent d.tiledepth d.imagedepth) d.zpt.toNat ∧
      (if tileExtent d.tilewidth d.imagewidth = 0 ∨ tileExtent d.tilelength d.imagelength = 0 ∨
        tileExtent d.tiledepth d.imagedepth = 0 then 0 else multiply32 (multiply32 d.xpt d.ypt) d.zpt).toNat =
        d.xpt.toNat * d.ypt.toNat * d.zpt.toNat := by
    obtain ⟨hdx,hdy,hdz,hproduct⟩ := hextents _ _ _ _ hne
    obtain ⟨hcount,harea,hz⟩ := multiply32_ne_zero hproduct
    obtain ⟨hcount',hx,hy⟩ := multiply32_ne_zero harea
    refine ⟨axis_howmany32 hdx hx,axis_howmany32 hdy hy,axis_howmany32 hdz hz,?_⟩
    rw [if_neg (by simp [hdx, hdy, hdz]), hcount, hcount']
  have heq : d.numberOfTiles = if d.separate then multiply32 (if tileExtent d.tilewidth d.imagewidth = 0 ∨
      tileExtent d.tilelength d.imagelength = 0 ∨ tileExtent d.tiledepth d.imagedepth = 0 then 0
      else multiply32 (multiply32 d.xpt d.ypt) d.zpt) d.samplesperpixel.toUInt32 else
      if tileExtent d.tilewidth d.imagewidth = 0 ∨ tileExtent d.tilelength d.imagelength = 0 ∨
      tileExtent d.tiledepth d.imagedepth = 0 then 0 else multiply32 (multiply32 d.xpt d.ypt) d.zpt := rfl
  rw [heq] at h ⊢
  cases hs : d.separate with
  | false =>
    simp only [hs, Bool.false_eq_true, if_false] at h ⊢
    obtain ⟨hx,hy,hz,hcount⟩ := hplane h
    exact ⟨hx,hy,hz,by rw [hcount, Nat.mul_one]⟩
  | true =>
    simp only [hs, if_true] at h ⊢
    obtain ⟨hcount,hne,-⟩ := multiply32_ne_zero h
    obtain ⟨hx,hy,hz,hplane⟩ := hplane hne
    exact ⟨hx,hy,hz,by rw [hcount, hplane, UInt16.toNat_toUInt32]⟩

theorem tiles_ne_zero (h : d.setup true = some d') (hwidth : d'.tilewidth ≠ 0xffffffff)
    (hlength : d'.tilelength ≠ 0xffffffff) :
    howmany32 d'.imagewidth d'.tilewidth ≠ 0 ∧ howmany32 d'.imagelength d'.tilelength ≠ 0 := by
  obtain ⟨hne,-,-,-,-,-,hlen,hwid,-,htile⟩ := setup_eq true h
  obtain ⟨htw,htl,-⟩ := htile rfl
  rw [if_pos rfl] at hne
  obtain ⟨-,-,-,hcount⟩ := numberOfTiles_eq d hne
  have hproduct := fun hzero => hne (UInt32.toNat_inj.mp (hcount.trans hzero))
  have hrow := (Nat.mul_ne_zero_iff.mp (Nat.mul_ne_zero_iff.mp (Nat.mul_ne_zero_iff.mp hproduct).1).1)
  rw [htw] at hwidth
  rw [htl] at hlength
  rw [hwid, hlen, htw, htl]
  constructor
  · intro hzero
    refine hrow.1 ?_
    rw [xpt, tileExtent, if_neg hwidth, hzero]
    rfl
  · intro hzero
    refine hrow.2 ?_
    rw [ypt, tileExtent, if_neg hlength, hzero]
    rfl

theorem imagedepth_pos (h : d.setup true = some d') : 0 < d'.imagedepth := by
  obtain ⟨hne,-,-,-,-,-,-,-,hdepth,-⟩ := setup_eq true h
  rw [if_pos rfl] at hne
  obtain ⟨-,-,haxis,hcount⟩ := numberOfTiles_eq d hne
  have hpos : 0 < d.zpt.toNat := by
    by_contra hzero
    rw [Nat.eq_zero_of_not_pos hzero, Nat.mul_zero, Nat.zero_mul] at hcount
    exact hne (UInt32.toNat_inj.mp hcount)
  have hbegins := haxis.begins 0 hpos
  rw [hdepth, UInt32.lt_iff_toNat_lt]
  exact (Nat.zero_mul _).symm.trans_lt hbegins

theorem mul32_toNat {a b : UInt32} (h : a.toNat * b.toNat < 2 ^ 32) : (a * b).toNat = a.toNat * b.toNat := by
  rw [UInt32.toNat_mul, Nat.mod_eq_of_lt h]

theorem add32_toNat {a b : UInt32} (h : a.toNat + b.toNat < 2 ^ 32) : (a + b).toNat = a.toNat + b.toNat := by
  rw [UInt32.toNat_add, Nat.mod_eq_of_lt h]

/-- The number of a tile of a plane, and of all of them, as the source computes it. -/
theorem computeTile_eq (h : d.numberOfTiles ≠ 0) (x y : UInt32) {z : UInt32} (s : UInt16) (hz : z < d.imagedepth) :
    d.computeTile x y z s =
      if d.separate then (d.xpt * d.ypt * d.zpt) * s.toUInt32 + (d.xpt * d.ypt) * (d.tileCell (x,y,z,s)).2.2.1 +
        d.xpt * (d.tileCell (x,y,z,s)).2.1 + (d.tileCell (x,y,z,s)).1
      else (d.xpt * d.ypt) * (d.tileCell (x,y,z,s)).2.2.1 + d.xpt * (d.tileCell (x,y,z,s)).2.1 +
        (d.tileCell (x,y,z,s)).1 := by
  obtain ⟨hx,hy,hz',-⟩ := numberOfTiles_eq d h
  have hne : ∀ {image extent : UInt32} {count : ℕ}, Axis image extent count → extent ≠ 0 := by
    rintro image extent count haxis rfl
    exact absurd haxis.pos (Nat.lt_irrefl 0)
  have hdepth : (if d.imagedepth = 1 then 0 else z) = z := by
    split
    · rename_i hone
      rw [hone] at hz
      apply UInt32.toNat_inj.mp
      have hlt := UInt32.lt_iff_toNat_lt.mp hz
      have hone' : (1 : UInt32).toNat = 1 := rfl
      have hzero : (0 : UInt32).toNat = 0 := rfl
      omega
    · rfl
  unfold computeTile
  dsimp only
  rw [hdepth, if_pos ⟨hne hx,hne hy,hne hz'⟩]
  rfl

theorem tileCell_lt (h : d.numberOfTiles ≠ 0) {c : UInt32 × UInt32 × UInt32 × UInt16}
    (hc : d.checkTile c.1 c.2.1 c.2.2.1 c.2.2.2 = true) :
    (d.tileCell c).1.toNat < d.xpt.toNat ∧ (d.tileCell c).2.1.toNat < d.ypt.toNat ∧
      (d.tileCell c).2.2.1.toNat < d.zpt.toNat ∧
      (d.tileCell c).2.2.2.toNat < (if d.separate then d.samplesperpixel.toNat else 1) := by
  obtain ⟨hx,hy,hz,-⟩ := numberOfTiles_eq d h
  simp only [checkTile, decide_eq_true_eq] at hc
  obtain ⟨hcx,hcy,hcz,hcs⟩ := hc
  refine ⟨?_,?_,?_,?_⟩
  · rw [tileCell, UInt32.toNat_div]
    exact hx.lt _ (UInt32.lt_iff_toNat_lt.mp hcx)
  · rw [tileCell, UInt32.toNat_div]
    exact hy.lt _ (UInt32.lt_iff_toNat_lt.mp hcy)
  · rw [tileCell, UInt32.toNat_div]
    exact hz.lt _ (UInt32.lt_iff_toNat_lt.mp hcz)
  · rw [tileCell]
    cases hs : d.separate with
    | false => exact Nat.one_pos
    | true => exact UInt16.lt_iff_toNat_lt.mp (hcs hs)

/-- The number of a tile by its digits; no step of its computation overflows. -/
theorem computeTile_toNat (h : d.numberOfTiles ≠ 0) {c : UInt32 × UInt32 × UInt32 × UInt16}
    (hc : d.checkTile c.1 c.2.1 c.2.2.1 c.2.2.2 = true) :
    (d.computeTile c.1 c.2.1 c.2.2.1 c.2.2.2).toNat =
      d.xpt.toNat * d.ypt.toNat * d.zpt.toNat * (d.tileCell c).2.2.2.toNat +
        (d.xpt.toNat * d.ypt.toNat * (d.tileCell c).2.2.1.toNat +
          (d.xpt.toNat * (d.tileCell c).2.1.toNat + (d.tileCell c).1.toNat)) := by
  have heta : (c.1,c.2.1,c.2.2.1,c.2.2.2) = c := rfl
  obtain ⟨hX,hY,hZ,hS⟩ := tileCell_lt h hc
  obtain ⟨-,-,-,hcount⟩ := numberOfTiles_eq d h
  have hword := d.numberOfTiles.toNat_lt
  rw [hcount] at hword
  have hdepth : c.2.2.1 < d.imagedepth := by
    simp only [checkTile, decide_eq_true_eq] at hc
    exact hc.2.2.1
  have hrow := radix_lt hX hY
  have hslice := radix_lt hrow hZ
  have hplane := radix_lt hslice hS
  have hall : d.xpt.toNat * d.ypt.toNat * d.zpt.toNat < 2 ^ 32 :=
    (Nat.le_mul_of_pos_right _ (Nat.zero_lt_of_lt hS)).trans_lt hword
  have harea : d.xpt.toNat * d.ypt.toNat < 2 ^ 32 :=
    (Nat.le_mul_of_pos_right _ (Nat.zero_lt_of_lt hZ)).trans_lt hall
  have hxy : (d.xpt * d.ypt).toNat = d.xpt.toNat * d.ypt.toNat := mul32_toNat harea
  have hxyz : (d.xpt * d.ypt * d.zpt).toNat = d.xpt.toNat * d.ypt.toNat * d.zpt.toNat := by
    rw [mul32_toNat (by rw [hxy]; exact hall), hxy]
  have hy : (d.xpt * (d.tileCell c).2.1).toNat = d.xpt.toNat * (d.tileCell c).2.1.toNat := mul32_toNat (by omega)
  have hz : (d.xpt * d.ypt * (d.tileCell c).2.2.1).toNat = d.xpt.toNat * d.ypt.toNat * (d.tileCell c).2.2.1.toNat := by
    rw [mul32_toNat (by rw [hxy]; omega), hxy]
  rw [computeTile_eq h c.1 c.2.1 c.2.2.2 hdepth, heta]
  cases hs : d.separate with
  | false =>
    have hsample : (d.tileCell c).2.2.2.toNat = 0 := by
      rw [tileCell, hs]
      rfl
    rw [if_neg Bool.false_ne_true, hsample]
    have hzy : (d.xpt * d.ypt * (d.tileCell c).2.2.1 + d.xpt * (d.tileCell c).2.1).toNat =
        d.xpt.toNat * d.ypt.toNat * (d.tileCell c).2.2.1.toNat + d.xpt.toNat * (d.tileCell c).2.1.toNat := by
      rw [add32_toNat (by rw [hz, hy]; omega), hz, hy]
    rw [add32_toNat (by rw [hzy]; omega), hzy]
    omega
  | true =>
    have hsample : c.2.2.2.toUInt32.toNat = (d.tileCell c).2.2.2.toNat := by
      rw [UInt16.toNat_toUInt32, tileCell, hs]
      rfl
    have hsp : (d.xpt * d.ypt * d.zpt * c.2.2.2.toUInt32).toNat =
        d.xpt.toNat * d.ypt.toNat * d.zpt.toNat * (d.tileCell c).2.2.2.toNat := by
      rw [mul32_toNat (by rw [hxyz, hsample]; omega), hxyz, hsample]
    have hsz : (d.xpt * d.ypt * d.zpt * c.2.2.2.toUInt32 + d.xpt * d.ypt * (d.tileCell c).2.2.1).toNat =
        d.xpt.toNat * d.ypt.toNat * d.zpt.toNat * (d.tileCell c).2.2.2.toNat +
          d.xpt.toNat * d.ypt.toNat * (d.tileCell c).2.2.1.toNat := by
      rw [add32_toNat (by rw [hsp, hz]; omega), hsp, hz]
    have hszy : (d.xpt * d.ypt * d.zpt * c.2.2.2.toUInt32 + d.xpt * d.ypt * (d.tileCell c).2.2.1 +
        d.xpt * (d.tileCell c).2.1).toNat = d.xpt.toNat * d.ypt.toNat * d.zpt.toNat * (d.tileCell c).2.2.2.toNat +
          d.xpt.toNat * d.ypt.toNat * (d.tileCell c).2.2.1.toNat + d.xpt.toNat * (d.tileCell c).2.1.toNat := by
      rw [add32_toNat (by rw [hsz, hy]; omega), hsz, hy]
    rw [if_pos rfl, add32_toNat (by rw [hszy]; omega), hszy]
    omega

/-- The digits of a number in a mixed radix. -/
theorem exists_digits {nx ny nz k n : ℕ} (h : n < nx * ny * nz * k) : ∃ x < nx, ∃ y < ny, ∃ z < nz, ∃ s < k,
    nx * ny * nz * s + (nx * ny * z + (nx * y + x)) = n := by
  have hslices : 0 < nx * ny * nz := Nat.pos_of_ne_zero fun hzero => by simp [hzero] at h
  have hrows : 0 < nx * ny := Nat.pos_of_mul_pos_right hslices
  have hx : 0 < nx := Nat.pos_of_mul_pos_right hrows
  have hslice := Nat.mod_lt n hslices
  have hrow := Nat.mod_lt (n % (nx * ny * nz)) hrows
  refine ⟨_,Nat.mod_lt (n % (nx * ny * nz) % (nx * ny)) hx,_,Nat.div_lt_of_lt_mul hrow,_,Nat.div_lt_of_lt_mul hslice,
    _,Nat.div_lt_of_lt_mul h,?_⟩
  rw [Nat.div_add_mod, Nat.div_add_mod, Nat.div_add_mod]

/-- There is a tile at every place of the grid: the one that begins there. -/
theorem exists_tile (h : d.numberOfTiles ≠ 0) {x y z s : ℕ} (hx : x < d.xpt.toNat) (hy : y < d.ypt.toNat)
    (hz : z < d.zpt.toNat) (hs : s < if d.separate then d.samplesperpixel.toNat else 1) :
    ∃ c : UInt32 × UInt32 × UInt32 × UInt16, d.checkTile c.1 c.2.1 c.2.2.1 c.2.2.2 = true ∧
      (d.tileCell c).1.toNat = x ∧ (d.tileCell c).2.1.toNat = y ∧ (d.tileCell c).2.2.1.toNat = z ∧
      (d.tileCell c).2.2.2.toNat = s := by
  obtain ⟨haxisx,haxisy,haxisz,-⟩ := numberOfTiles_eq d h
  have hbx := haxisx.begins x hx
  have hby := haxisy.begins y hy
  have hbz := haxisz.begins z hz
  have hsamples : s < 2 ^ 16 := by
    refine hs.trans_le ?_
    split
    · exact d.samplesperpixel.toNat_lt.le
    · decide
  have hnx := ofNat32_toNat (hbx.trans d.imagewidth.toNat_lt)
  have hny := ofNat32_toNat (hby.trans d.imagelength.toNat_lt)
  have hnz := ofNat32_toNat (hbz.trans d.imagedepth.toNat_lt)
  have hns := ofNat16_toNat hsamples
  generalize UInt32.ofNat (x * (tileExtent d.tilewidth d.imagewidth).toNat) = x' at hnx
  generalize UInt32.ofNat (y * (tileExtent d.tilelength d.imagelength).toNat) = y' at hny
  generalize UInt32.ofNat (z * (tileExtent d.tiledepth d.imagedepth).toNat) = z' at hnz
  generalize UInt16.ofNat s = s' at hns
  have hsample : (if d.separate then s' else 0).toNat = s := by
    split
    · exact hns
    · rename_i hsep
      rw [if_neg hsep] at hs
      exact (Nat.lt_one_iff.mp hs).symm
  refine ⟨(x',y',z',s'),?_,?_,?_,?_,hsample⟩
  · simp only [checkTile, decide_eq_true_eq, UInt32.lt_iff_toNat_lt, UInt16.lt_iff_toNat_lt, hnx, hny, hnz, hns]
    refine ⟨hbx,hby,hbz,?_⟩
    intro hsep
    rwa [hsep, if_pos rfl] at hs
  · rw [tileCell, UInt32.toNat_div, hnx, Nat.mul_div_cancel _ haxisx.pos]
  · rw [tileCell, UInt32.toNat_div, hny, Nat.mul_div_cancel _ haxisy.pos]
  · rw [tileCell, UInt32.toNat_div, hnz, Nat.mul_div_cancel _ haxisz.pos]

theorem computeTile_inj (h : d.numberOfTiles ≠ 0) {c c' : UInt32 × UInt32 × UInt32 × UInt16}
    (hc : d.checkTile c.1 c.2.1 c.2.2.1 c.2.2.2 = true) (hc' : d.checkTile c'.1 c'.2.1 c'.2.2.1 c'.2.2.2 = true) :
    d.computeTile c.1 c.2.1 c.2.2.1 c.2.2.2 = d.computeTile c'.1 c'.2.1 c'.2.2.1 c'.2.2.2 ↔
      d.tileCell c = d.tileCell c' := by
  obtain ⟨hX,hY,hZ,hS⟩ := tileCell_lt h hc
  obtain ⟨hX',hY',hZ',hS'⟩ := tileCell_lt h hc'
  rw [← UInt32.toNat_inj, computeTile_toNat h hc, computeTile_toNat h hc',
    radix_inj (radix_lt (radix_lt hX hY) hZ) (radix_lt (radix_lt hX' hY') hZ'),
    radix_inj (radix_lt hX hY) (radix_lt hX' hY'), radix_inj hX hX', UInt16.toNat_inj, UInt32.toNat_inj,
    UInt32.toNat_inj, UInt32.toNat_inj]
  constructor
  · rintro ⟨hs,hz,hy,hx⟩
    exact Prod.ext hx (Prod.ext hy (Prod.ext hz hs))
  · intro hcell
    rw [hcell]
    exact ⟨rfl,rfl,rfl,rfl⟩

theorem computeTile_counts (h : d.numberOfTiles ≠ 0) :
    Numbers (fun c : UInt32 × UInt32 × UInt32 × UInt16 => d.checkTile c.1 c.2.1 c.2.2.1 c.2.2.2 = true) d.tileCell
      (fun c => d.computeTile c.1 c.2.1 c.2.2.1 c.2.2.2) d.numberOfTiles := by
  obtain ⟨-,-,-,hcount⟩ := numberOfTiles_eq d h
  refine ⟨?_,fun c c' => computeTile_inj h,?_⟩
  · intro c hc
    obtain ⟨hX,hY,hZ,hS⟩ := tileCell_lt h hc
    rw [UInt32.lt_iff_toNat_lt, computeTile_toNat h hc, hcount]
    exact radix_lt (radix_lt (radix_lt hX hY) hZ) hS
  · intro n hn
    have hlt := UInt32.lt_iff_toNat_lt.mp hn
    rw [hcount] at hlt
    obtain ⟨x,hx,y,hy,z,hz,s,hs,hdigits⟩ := exists_digits hlt
    obtain ⟨c,hc,hcx,hcy,hcz,hcs⟩ := exists_tile h hx hy hz hs
    refine ⟨c,hc,UInt32.toNat_inj.mp ?_⟩
    rw [computeTile_toNat h hc, hcx, hcy, hcz, hcs, hdigits]

theorem tiles_numbered (h : d.setup true = some d') :
    Numbers (fun c : UInt32 × UInt32 × UInt32 × UInt16 => d'.checkTile c.1 c.2.1 c.2.2.1 c.2.2.2 = true) d'.tileCell
      (fun c => d'.computeTile c.1 c.2.1 c.2.2.1 c.2.2.2) d'.nstrips := by
  obtain ⟨hne,hn,-,hsep,hspp,-,hlength,hwidth,hdepth,htile⟩ := setup_eq true h
  obtain ⟨htw,htl,htd⟩ := htile rfl
  rw [if_pos rfl] at hne hn
  have hnumbers := computeTile_counts hne
  have hcell : d'.tileCell = d.tileCell := by
    funext c
    simp only [tileCell, hsep, hlength, hwidth, hdepth, htw, htl, htd]
  have hnumber (c : UInt32 × UInt32 × UInt32 × UInt16) :
      d'.computeTile c.1 c.2.1 c.2.2.1 c.2.2.2 = d.computeTile c.1 c.2.1 c.2.2.1 c.2.2.2 := by
    simp only [computeTile, hsep, hlength, hwidth, hdepth, htw, htl, htd]
  have hcheck (c : UInt32 × UInt32 × UInt32 × UInt16) :
      d'.checkTile c.1 c.2.1 c.2.2.1 c.2.2.2 = d.checkTile c.1 c.2.1 c.2.2.1 c.2.2.2 := by
    simp only [checkTile, hsep, hlength, hwidth, hdepth, hspp]
  simp only [hn, hcell, hnumber, hcheck]
  exact hnumbers

/-- `TIFFComputeTile` numbers the tiles that were set up, for the coordinates that `TIFFCheckTile`
lets pass. -/
theorem computeTile_numbers (h : d.setup true = some d') :
    Numbers (fun c : UInt32 × UInt32 × UInt32 × UInt16 => d'.checkTile c.1 c.2.1 c.2.2.1 c.2.2.2 = true) d'.tileCell
      (fun c => d'.computeTile c.1 c.2.1 c.2.2.1 c.2.2.2) d'.nstrips := tiles_numbered h

theorem computeTile_numbers_planes : ∃ d', (planes 2).setup true = some d' ∧ d'.nstrips = 72 ∧
    Numbers (fun c : UInt32 × UInt32 × UInt32 × UInt16 => d'.checkTile c.1 c.2.1 c.2.2.1 c.2.2.2 = true) d'.tileCell
      (fun c => d'.computeTile c.1 c.2.1 c.2.2.1 c.2.2.2) d'.nstrips :=
  ⟨_,rfl,by decide,computeTile_numbers (d := planes 2) rfl⟩

end Directory

end TiffJni.Raster
