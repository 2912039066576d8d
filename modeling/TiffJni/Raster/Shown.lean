import TiffJni.Raster.Numbering
import TiffJni.Raster.Ready
import TiffJni.Raster.Strips
import TiffJni.Raster.Tiles

/-! # Images that are shown

Strips and tiles, samples together and in planes, come out the same: where
`TIFFReadRGBAImageOriented` succeeds, the cell of every pixel holds the colour of the samples that
the reads left at the place of the pixel in its strip or tile. The reader is arbitrary.
-/
namespace TiffJni.Raster
open FixedWidth

variable {σ : Type}

namespace Directory
variable (d : Directory)

/-- The strip or tile of a sample of a pixel. -/
def part (tiled : Bool) (x y : ℕ) (s : UInt16) : UInt32 :=
  if tiled then d.computeTile (UInt32.ofNat x) (UInt32.ofNat y) 0 s else d.computeStrip (UInt32.ofNat y) s

def partRow (tiled : Bool) (y : ℕ) : ℕ := y % (if tiled then d.tilelength else d.rowsperstrip).toNat

def partColumn (tiled : Bool) (x : ℕ) : ℕ := if tiled then x % d.tilewidth.toNat else x

/-- The bytes of a row of a strip or tile. -/
def lineSize (m : DataModel) (tiled : Bool) : ℕ := (if tiled then d.tileRowSize m else d.scanlineSize m).toNat

/-- The sizes that are asked for where a row of the part is wanted: all of a tile, and of a strip some rows with
this one. -/
def Asked (m : DataModel) (tiled : Bool) (row : ℕ) (asked : ℤ) : Prop :=
  if tiled then asked = -1 else ∃ rows : ℕ, row < rows ∧
    rows < min d.rowsperstrip.toNat d.imagelength.toNat + 2 ^ 16 ∧ asked = m.toLong (rows * d.scanlineSize m)

theorem asked_zero {m : DataModel} {tiled : Bool} {row : ℕ} {asked : ℤ} (h : d.Asked m tiled row asked) :
    d.Asked m tiled 0 asked := by
  unfold Asked at h ⊢
  split
  · rename_i ht
    rwa [if_pos ht] at h
  · rename_i ht
    rw [if_neg ht] at h
    obtain ⟨rows,hrow,hrest⟩ := h
    exact ⟨rows,by omega,hrest⟩

theorem computeStrip_congr {row row' : UInt32} (h : row.toNat / d.rowsperstrip.toNat = row'.toNat / d.rowsperstrip.toNat)
    (s : UInt16) : d.computeStrip row s = d.computeStrip row' s := by
  have hdiv : row / d.rowsperstrip = row' / d.rowsperstrip := by
    apply UInt32.toNat_inj.mp
    rw [UInt32.toNat_div, UInt32.toNat_div, h]
  rw [computeStrip, computeStrip, hdiv]

theorem computeTile_congr {x y x' y' : UInt32}
    (hx : x.toNat / (tileExtent d.tilewidth d.imagewidth).toNat = x'.toNat / (tileExtent d.tilewidth d.imagewidth).toNat)
    (hy : y.toNat / (tileExtent d.tilelength d.imagelength).toNat =
      y'.toNat / (tileExtent d.tilelength d.imagelength).toNat) (z : UInt32) (s : UInt16) :
    d.computeTile x y z s = d.computeTile x' y' z s := by
  have hcolumn : x / tileExtent d.tilewidth d.imagewidth = x' / tileExtent d.tilewidth d.imagewidth := by
    apply UInt32.toNat_inj.mp
    rw [UInt32.toNat_div, UInt32.toNat_div, hx]
  have hrow : y / tileExtent d.tilelength d.imagelength = y' / tileExtent d.tilelength d.imagelength := by
    apply UInt32.toNat_inj.mp
    rw [UInt32.toNat_div, UInt32.toNat_div, hy]
  simp only [computeTile, hcolumn, hrow]

end Directory

/-- What a read of a strip or tile of an image with rows leaves in a buffer of its size: `left` says what, by the number, the
size that was asked for and the outcome. -/
def Leaves (m : DataModel) (d : Directory) (tiled : Bool) (read : ReadEncoded σ) (holds : σ → Prop)
    (left : UInt32 → ℤ → Bool → List UInt8 → Prop) : Prop :=
  ∀ number < d.nstrips, 0 < d.imagelength.toNat → ∀ asked, d.Asked m tiled 0 asked → ∀ buf file, buf.length = (d.partSize m tiled).toNat →
    holds file → ∃ ok buf' file', read number asked buf file = some (ok,buf',file') ∧
      buf'.length = (d.partSize m tiled).toNat ∧ holds file' ∧ left number asked ok buf'

theorem Leaves.mono {m : DataModel} {d : Directory} {tiled : Bool} {read : ReadEncoded σ} {holds : σ → Prop}
    {left left' : UInt32 → ℤ → Bool → List UInt8 → Prop} (h : Leaves m d tiled read holds left)
    (himp : ∀ number < d.nstrips, ∀ asked ok data, left number asked ok data → left' number asked ok data) :
    Leaves m d tiled read holds left' := by
  intro number hnumber hrows asked hasked buf file hbuf hfile
  obtain ⟨ok,buf',file',hread,hlength,hfile',hleft⟩ := h number hnumber hrows asked hasked buf file hbuf hfile
  exact ⟨ok,buf',file',hread,hlength,hfile',himp number hnumber asked ok buf' hleft⟩

/-- The sample that is read for the `k`-th plane. -/
def Put.sample (img : RGBAImage) (k : ℕ) : Put → UInt16
  | .contig _ => 0
  | .separate _ => planeSample img k

/-- The word is the colour of the pixel, by what reads left of the strips or tiles that it lies in. -/
def ShowsPixel (m : DataModel) (d : Directory) (t : Tags) (img : RGBAImage) (put : Put) (tiled : Bool)
    (left : UInt32 → ℤ → Bool → List UInt8 → Prop) (x y : ℕ) (p : Word) : Prop :=
  ∃ data : ℕ → List UInt8, (∀ k < put.count img, ∃ ok asked, d.Asked m tiled (d.partRow tiled y) asked ∧
    left (d.part tiled x y (put.sample img k)) asked ok (data k)) ∧
  p = pixelColour img d.bitspersample.toNat (t.colormap.getD ⟨[],[],[]⟩) put
    (fun k i => (data k).getD (d.partRow tiled y * d.lineSize m tiled + i) 0) (d.partColumn tiled x)

/-- The sizes of images for which the arithmetic of the get routines does not overflow: `-(int32)(w + w)`, the skew of a
mirrored line, the steps from row to row, the place of a cell in the raster and the column behind the last tile. -/
structure Sizes (d : Directory) (tiled : Bool) : Prop where
  width : d.imagewidth.toNat < 2 ^ 30
  height : d.imagelength.toNat ≤ 2 ^ 31
  cells : d.imagewidth.toNat * d.imagelength.toNat < 2 ^ 32
  tile : tiled = true → d.tilewidth.toNat + d.imagewidth.toNat < 2 ^ 31

theorem plane_mem {img : RGBAImage} {size k : ℕ} {put : Put} (hk : k < put.count img) :
    put.plane img size k ∈ put.planes img size := by
  cases put with
  | contig put => exact List.mem_singleton.mpr rfl
  | separate put => exact mem_separatePlanes.mpr ⟨k,hk,rfl⟩

theorem plane_sample (img : RGBAImage) (size k : ℕ) (put : Put) : (put.plane img size k).sample = put.sample img k := by
  cases put <;> rfl

theorem plane_of_mem {img : RGBAImage} {size : ℕ} {put : Put} {q : Plane} (hq : q ∈ put.planes img size) :
    ∃ k < put.count img, q.sample = put.sample img k := by
  cases put with
  | contig put =>
    rw [List.mem_singleton.mp hq]
    exact ⟨0,Nat.zero_lt_one,rfl⟩
  | separate put =>
    obtain ⟨k,hk,rfl⟩ := mem_separatePlanes.mp hq
    exact ⟨k,hk,rfl⟩

theorem nrowsub_spec {d : Directory} {put : Put} {nrow : UInt32} (hnrow : nrow.toNat ≤ 2 ^ 31)
    (hrows : ∀ routine, put = .contig routine → d.ycbcrsubsampling.2.toUInt32 ≠ 0) :
    nrow.toNat ≤ (put.nrowsub d nrow).toNat ∧ (put.nrowsub d nrow).toNat < nrow.toNat + 2 ^ 16 := by
  cases put with
  | separate put => exact ⟨le_rfl,Nat.lt_add_of_pos_right (by decide)⟩
  | contig put =>
    have hver := hrows put rfl
    have hlt : d.ycbcrsubsampling.2.toUInt32.toNat < 2 ^ 16 := by
      rw [UInt16.toNat_toUInt32]
      exact d.ycbcrsubsampling.2.toNat_lt
    have hpos : 0 < d.ycbcrsubsampling.2.toUInt32.toNat :=
      Nat.pos_iff_ne_zero.mpr fun hzero => hver (UInt32.toNat_inj.mp hzero)
    have hmod := Nat.mod_lt nrow.toNat hpos
    have hle : nrow % d.ycbcrsubsampling.2.toUInt32 ≤ d.ycbcrsubsampling.2.toUInt32 := by
      rw [UInt32.le_iff_toNat_le, UInt32.toNat_mod]
      omega
    rw [Put.nrowsub, roundUp]
    split
    · rw [UInt32.toNat_add, UInt32.toNat_sub_of_le _ _ hle, UInt32.toNat_mod, Nat.mod_eq_of_lt (by omega)]
      rename_i hrest
      have hne : nrow.toNat % d.ycbcrsubsampling.2.toUInt32.toNat ≠ 0 := by
        intro hzero
        refine hrest (UInt32.toNat_inj.mp ?_)
        rw [UInt32.toNat_mod, hzero]
        rfl
      omega
    · omega

section gets
variable {m : DataModel} {d₀ d : Directory} {t : Tags} {stop : Bool} {img : RGBAImage} {put : Put} {read : ReadEncoded σ}
variable {holds : σ → Prop} {left : UInt32 → ℤ → Bool → List UInt8 → Prop} {turns : ℕ} {buf : List UInt8}
variable {raster : List Word} {file : σ}

/-- The rows that are asked for are those of the band, and a few more. -/
theorem StripLoop.Whole.asked {l : StripLoop σ} {scanline : ℕ} (hwhole : l.Whole scanline) (hfits : l.Fits) {put : Put}
    (hnrowsub : l.nrowsub = put.nrowsub l.d) (hver : ∀ routine, put = .contig routine → l.d.ycbcrsubsampling.2.toUInt32 ≠ 0)
    {row : UInt32} (hrow : row.toNat < l.h.toNat) {r y : ℕ} (hr : r < (l.nrow row).toNat)
    (hpart : y = (l.stripRow row).toNat + r) : l.d.Asked l.m false y (l.size row) := by
  have hheight := hfits.band.le
  have hband := hwhole.band_le hfits hrow
  obtain ⟨-,hle,-⟩ := StripLoop.nrow_spec hfits hrow
  obtain ⟨hmore,hfew⟩ := nrowsub_spec (show (l.nrow row).toNat ≤ 2 ^ 31 by omega) hver
  have hstrip : (l.stripRow row).toNat = (row.toNat + l.img.rowOffset.toNat) % l.d.rowsperstrip.toNat :=
    bandRow_toNat hfits.band hrow
  have hmod := Nat.mod_le (row.toNat + l.img.rowOffset.toNat) l.d.rowsperstrip.toNat
  rw [Directory.Asked, if_neg Bool.false_ne_true]
  refine ⟨(l.stripRow row + l.nrowsub (l.nrow row)).toNat,?_,?_,rfl⟩
  · rw [hpart, hnrowsub, UInt32.toNat_add, Nat.mod_eq_of_lt (by omega)]
    omega
  · rw [hnrowsub, UInt32.toNat_add, Nat.mod_eq_of_lt (by omega)]
    omega

theorem Begun.gets_strips (hbegun : Begun d t stop img put) (hsetup : d₀.setup false = some d)
    (hver : ∀ routine, put = .contig routine → d.ycbcrsubsampling.2.toUInt32 ≠ 0) (hsub : d.subsampled = false)
    (hsizes : Sizes d false) (hpos : 0 < d.stripSize m) (hleaves : Leaves m d false read holds left)
    (hbuf : buf.length = put.count img * (d.stripSize m).toNat) (hturns : d.imagelength.toNat < turns)
    (hraster : d.imagewidth.toNat * d.imagelength.toNat ≤ raster.length) (hfile : holds file) :
    Gets (setorientation img.orientation img.reqOrientation) d.imagewidth.toNat d.imagelength.toNat
      (ShowsPixel m d t img put false left) holds (stop = true ∧ ∃ number asked data, left number asked false data) raster
      (StripLoop.get ⟨m,d,img,put.routine img (d.stripSize m).toNat,read,put.planes img (d.stripSize m).toNat,
        put.nrowsub d,d.imagewidth,d.imagelength⟩ turns buf raster file) := by
  obtain ⟨scanline,-,hS,hline,hstrip,hlt,hne⟩ := Directory.stripSize_spec hsub hpos
  rw [Directory.scanlineSize64_toNat hsub hne] at hS
  obtain ⟨scan,hputs,hscan⟩ := hbegun.drawn.scans (d.stripSize m).toNat
  obtain ⟨hwalks,hcolour⟩ := hscan d.imagewidth.toNat 0 (Or.inl rfl)
  rw [← hS] at hwalks hcolour
  have hsize : (d.stripSize m).toNat = min d.rowsperstrip.toNat d.imagelength.toNat * scanline := by
    rw [hstrip, Int.toNat_natCast]
  have hnone : img.rowOffset.toNat = 0 := by
    rw [hbegun.row_eq]
    rfl
  set l : StripLoop σ := ⟨m,d,img,put.routine img (d.stripSize m).toNat,read,put.planes img (d.stripSize m).toNat,
    put.nrowsub d,d.imagewidth,d.imagelength⟩ with hl
  have hfits : l.Fits := ⟨hsizes.width,hsizes.cells,Directory.rowsperstrip_pos hsetup,by
    have hheight := hsizes.height
    change d.imagelength.toNat + img.rowOffset.toNat ≤ 2 ^ 31
    omega⟩
  have hwhole : l.Whole scanline := by
    refine ⟨hbegun.width_eq,hbegun.col_eq,?_,hline,hstrip,hlt⟩
    change d.imagelength.toNat + img.rowOffset.toNat ≤ d.imagelength.toNat
    omega
  have hdelivers : l.Delivers holds (stop = true ∧ ∃ number asked data, left number asked false data) scan
      (put.count img * (d.stripSize m).toNat) (ShowsPixel m d t img put false left) := by
    refine hwhole.delivers hfits hwalks (fun row sample ok data =>
      left (d.computeStrip (row + img.rowOffset) sample) (l.size row) ok data) ?_ ?_ ?_ ?_
    · rw [← hsize]
      exact planes_apart put img _
    · intro row hrow sample buf file hbuf hfile
      rw [← hsize] at hbuf ⊢
      have hpos : 0 < (l.nrow row).toNat := (StripLoop.nrow_spec hfits hrow).1
      refine hleaves _ ?_ (Nat.zero_lt_of_lt hrow) _ (d.asked_zero (hwhole.asked hfits rfl hver hrow hpos rfl)) buf file hbuf hfile
      exact Directory.computeStrip_lt hsetup (by rw [hbegun.row_eq, UInt32.add_zero]; exact hrow) sample
    · intro hstop row hrow q hq data hleft
      exact ⟨hbegun.stop_eq ▸ hstop,_,_,_,hleft⟩
    intro row hrow r hr c hc data p hposts hfrom
    obtain ⟨hsame,hrow'⟩ := bandRows_same hfits.band hrow hr
    rw [show l.img.rowOffset.toNat = 0 from hnone, Nat.add_zero] at hsame hrow'
    have hpart : d.partRow false (row.toNat + r) = (l.stripRow row).toNat + r := hrow'
    refine ⟨fun k => data (put.plane img (d.stripSize m).toNat k),?_,?_⟩
    · intro k hk
      obtain ⟨ok,hleft⟩ := hposts _ (plane_mem hk)
      rw [plane_sample, hbegun.row_eq, UInt32.add_zero] at hleft
      refine ⟨ok,l.size row,?_,?_⟩
      · exact hwhole.asked hfits rfl hver hrow hr hpart
      · have hword := d.imagelength.toNat_lt
        have hnat : (UInt32.ofNat (row.toNat + r)).toNat = row.toNat + r := by
          obtain ⟨-,hle,-⟩ := StripLoop.nrow_spec hfits hrow
          have hle' : row.toNat + (l.nrow row).toNat ≤ d.imagelength.toNat := hle
          exact UInt32.toNat_ofNat_of_lt' (show row.toNat + r < 2 ^ 32 by omega)
        have hstrip : (UInt32.ofNat (row.toNat + r)).toNat / d.rowsperstrip.toNat = row.toNat / d.rowsperstrip.toNat := by
          rw [hnat]
          exact hsame
        rw [Directory.part, if_neg Bool.false_ne_true, d.computeStrip_congr hstrip]
        exact hleft
    · have hlineSize : d.lineSize m false = scanline := by
        simp only [Directory.lineSize, Bool.false_eq_true, if_false, hline, Int.toNat_natCast]
      rw [hpart, hlineSize]
      exact hcolour data _ c hc p hfrom
  exact StripLoop.get_gets hfits hputs hdelivers hturns hraster hbuf hfile

theorem Begun.sample_lt (hbegun : Begun d t stop img put) (hsamples : 0 < d.samplesperpixel.toNat) :
    ∀ k < put.count img, put.sample img k < d.samplesperpixel := by
  cases put with
  | contig put =>
    intro k _
    rw [UInt16.lt_iff_toNat_lt]
    exact hsamples
  | separate put => exact hbegun.drawn.2.2.2.1

/-- A pixel lies in the tile that its band begins in. -/
theorem computeTile_pixel {tocol row : UInt32} {c r : ℕ} (htile : d.tilewidth.toNat + d.imagewidth.toNat < 2 ^ 31)
    (hband : BandFits d.tilelength 0 d.imagelength) (hdvd : d.tilewidth.toNat ∣ tocol.toNat) (hc : c < d.tilewidth.toNat)
    (hcol : tocol.toNat + c < d.imagewidth.toNat) (hrow : row.toNat < d.imagelength.toNat)
    (hr : r < (bandRows d.tilelength 0 d.imagelength row).toNat) (s : UInt16) :
    d.part true (tocol.toNat + c) (row.toNat + r) s = d.computeTile tocol row 0 s := by
  obtain ⟨-,hle,-⟩ := bandRows_spec hband hrow
  obtain ⟨hsame,-⟩ := bandRows_same hband hrow hr
  have hword := d.imagelength.toNat_lt
  have hzero : (0 : UInt32).toNat = 0 := rfl
  have hmax : (0xffffffff : UInt32).toNat = 2 ^ 32 - 1 := rfl
  have hextent : Directory.tileExtent d.tilewidth d.imagewidth = d.tilewidth := by
    refine if_neg fun h => ?_
    rw [h, hmax] at htile
    omega
  have hx : (UInt32.ofNat (tocol.toNat + c)).toNat = tocol.toNat + c :=
    UInt32.toNat_ofNat_of_lt' (show _ < 2 ^ 32 by omega)
  have hy : (UInt32.ofNat (row.toNat + r)).toNat = row.toNat + r :=
    UInt32.toNat_ofNat_of_lt' (show _ < 2 ^ 32 by omega)
  rw [Directory.part, if_pos rfl]
  refine d.computeTile_congr ?_ ?_ 0 s
  · obtain ⟨q,hq⟩ := hdvd
    rw [hextent, hx, hq, Nat.mul_add_div (by omega), Nat.mul_div_cancel_left _ (by omega), Nat.div_eq_of_lt hc, Nat.add_zero]
  · rw [hy]
    unfold Directory.tileExtent
    split
    · rw [Nat.div_eq_of_lt (by omega), Nat.div_eq_of_lt hrow]
    · rw [hzero, Nat.add_zero] at hsame
      exact hsame

/-- What `TIFFReadTile` leaves of a tile that is there; of any other it leaves the buffer as it was. -/
theorem Leaves.reads_tile (hleaves : Leaves m d true read holds left) (hsetup : d₀.setup true = some d) {row : UInt32}
    (hrow : row.toNat < d.imagelength.toNat) (tocol : UInt32) :
    Reads (d.tileSize m).toNat holds (fun sample ok data => d.checkTile tocol row 0 sample = true →
      left (d.computeTile tocol row 0 sample) (-1) ok data) fun sample => readTile d read tocol row 0 sample := by
  intro sample buf file hbuf hfile
  dsimp only
  rw [readTile]
  split
  · rename_i hcheck
    have hlt := (Directory.tiles_numbered hsetup).inRange (tocol,row,0,sample) hcheck
    obtain ⟨ok,buf',file',hread,hbuf',hfile',hleft⟩ := hleaves _ hlt (Nat.zero_lt_of_lt hrow) (-1)
      (by rw [Directory.Asked, if_pos rfl]) buf file hbuf hfile
    exact ⟨ok,buf',file',hread,hbuf',hfile',fun _ => hleft⟩
  · rename_i hnot
    exact ⟨false,buf,file,rfl,hbuf,hfile,fun h => absurd h hnot⟩

theorem Begun.checkTile (hbegun : Begun d t stop img put) (hsetup : d₀.setup true = some d)
    (hsamples : 0 < d.samplesperpixel.toNat) {tocol row : UInt32} (hcol : tocol.toNat < d.imagewidth.toNat)
    (hrow : row.toNat < d.imagelength.toNat) {size : ℕ} {q : Plane} (hq : q ∈ put.planes img size) :
    d.checkTile tocol row 0 q.sample = true := by
  obtain ⟨k,hk,hsample⟩ := plane_of_mem hq
  have hlt := hbegun.sample_lt hsamples k hk
  rw [← hsample] at hlt
  rw [← UInt32.lt_iff_toNat_lt] at hcol hrow
  exact decide_eq_true ⟨hcol,hrow,Directory.imagedepth_pos hsetup,fun _ => hlt⟩

/-- The arithmetic of the loops over the tiles of an image that was begun does not overflow. -/
theorem Begun.tilesFit (hbegun : Begun d t stop img put) (hsizes : Sizes d true) (htile : 0 < d.tilewidth.toNat)
    (hband : BandFits d.tilelength 0 d.imagelength) {routine : PutRoutine} {planes : List Plane} :
    TileLoop.Fits ⟨m,d,img,routine,read,planes,d.imagewidth,d.imagelength⟩ := by
  have hwidth := hsizes.tile rfl
  refine ⟨hwidth,htile,?_,?_,hsizes.cells,?_⟩
  · change img.colOffset % d.tilewidth = 0
    rw [hbegun.col_eq]
    exact UInt32.zero_mod
  · change img.colOffset.toNat + d.imagewidth.toNat < 2 ^ 32
    rw [hbegun.col_eq, show (0 : UInt32).toNat = 0 from rfl]
    omega
  · change BandFits d.tilelength img.rowOffset d.imagelength
    rw [hbegun.row_eq]
    exact hband

theorem Begun.gets_tiles (hbegun : Begun d t stop img put) (hsetup : d₀.setup true = some d) (hsamples : 0 < d.samplesperpixel.toNat)
    (hsub : d.subsampled = false) (hsizes : Sizes d true)
    (hclip : d.tilewidth.toNat ∣ d.imagewidth.toNat ∨ put.Clips d img d.tilewidth.toNat)
    (hpos : 0 < d.tileSize m) (hleaves : Leaves m d true read holds left)
    (hbuf : buf.length = put.count img * (d.tileSize m).toNat) (hturns : d.imagewidth.toNat + d.imagelength.toNat < turns)
    (hraster : d.imagewidth.toNat * d.imagelength.toNat ≤ raster.length) (hfile : holds file) :
    Gets (setorientation img.orientation img.reqOrientation) d.imagewidth.toNat d.imagelength.toNat
      (ShowsPixel m d t img put true left) holds (stop = true ∧ ∃ number asked data, left number asked false data) raster
      (TileLoop.get ⟨m,d,img,put.routine img (d.tileSize m).toNat,read,put.planes img (d.tileSize m).toNat,
        d.imagewidth,d.imagelength⟩ turns buf raster file) := by
  obtain ⟨rowsize,-,hS,hline,htile,hlt,hne,htw,htl⟩ := Directory.tileSize_spec hsub hpos
  rw [Directory.tileRowSize64_toNat hne] at hS
  have htwpos : 0 < d.tilewidth.toNat := Nat.pos_iff_ne_zero.mpr fun hzero => htw (UInt32.toNat_inj.mp hzero)
  have htlpos : 0 < d.tilelength.toNat := Nat.pos_iff_ne_zero.mpr fun hzero => htl (UInt32.toNat_inj.mp hzero)
  obtain ⟨clip,hclip,hclips⟩ : ∃ clip, (d.tilewidth.toNat ∣ d.imagewidth.toNat ∨ d.tilewidth.toNat ≤ clip) ∧
      (clip = 0 ∨ put.Clips d img d.tilewidth.toNat) := by
    rcases hclip with hdvd | hclips
    · exact ⟨0,Or.inl hdvd,Or.inl rfl⟩
    · exact ⟨_,Or.inr le_rfl,Or.inr hclips⟩
  obtain ⟨scan,hputs,hscan⟩ := hbegun.drawn.scans (d.tileSize m).toNat
  obtain ⟨hwalks,hcolour⟩ := hscan d.tilewidth.toNat clip hclips
  rw [← hS] at hwalks hcolour
  have hsize : (d.tileSize m).toNat = d.tilelength.toNat * rowsize := by
    rw [htile, Int.toNat_natCast]
  set l : TileLoop σ := ⟨m,d,img,put.routine img (d.tileSize m).toNat,read,put.planes img (d.tileSize m).toNat,
    d.imagewidth,d.imagelength⟩ with hl
  have hband : BandFits d.tilelength 0 d.imagelength := ⟨htlpos,by simpa using hsizes.height⟩
  have hfits : l.Fits := hbegun.tilesFit hsizes htwpos hband
  have hwhole : l.Whole rowsize := ⟨hline,htile,hlt⟩
  have hdelivers : l.Delivers holds (stop = true ∧ ∃ number asked data, left number asked false data) scan
      (put.count img * (d.tileSize m).toNat) (ShowsPixel m d t img put true left) := by
    refine hwhole.delivers hfits hclip hwalks (fun row tocol sample ok data => d.checkTile tocol row 0 sample = true →
      left (d.computeTile tocol row 0 sample) (-1) ok data) ?_ ?_ ?_ ?_
    · rw [← hsize]
      exact planes_apart put img _
    · intro row hrow tocol hcol hdvd
      change Reads _ holds _ fun sample => readTile d read (img.colOffset + tocol) (row + img.rowOffset) 0 sample
      rw [← hsize, hbegun.col_eq, hbegun.row_eq, UInt32.zero_add, UInt32.add_zero]
      exact hleaves.reads_tile hsetup hrow tocol
    · intro hstop row hrow tocol hcol q hq data hleft
      exact ⟨hbegun.stop_eq ▸ hstop,_,_,_,hleft (hbegun.checkTile hsetup hsamples hcol hrow hq)⟩
    intro row hrow tocol hdvd r hr c hc hcol data p hposts hfrom
    have hnone : l.img.rowOffset = 0 := hbegun.row_eq
    have hr' : r < (bandRows d.tilelength 0 d.imagelength row).toNat := by
      rw [← hnone]
      exact hr
    obtain ⟨-,hrow'⟩ := bandRows_same hband hrow hr'
    refine ⟨fun k => data (put.plane img (d.tileSize m).toNat k),?_,?_⟩
    · intro k hk
      obtain ⟨ok,hleft⟩ := hposts _ (plane_mem hk)
      have hleft := hleft (hbegun.checkTile hsetup hsamples ((Nat.le_add_right _ c).trans_lt hcol) hrow (plane_mem hk))
      rw [plane_sample] at hleft
      refine ⟨ok,-1,by rw [Directory.Asked, if_pos rfl],?_⟩
      rw [computeTile_pixel (hsizes.tile rfl) hband hdvd hc hcol hrow hr']
      exact hleft
    · have hpart : d.partRow true (row.toNat + r) = (bandRow d.tilelength 0 row).toNat + r := hrow'
      have hpart' : d.partColumn true (tocol.toNat + c) = c := by
        obtain ⟨q,hq⟩ := hdvd
        rw [Directory.partColumn, if_pos rfl, hq, Nat.mul_add_mod, Nat.mod_eq_of_lt hc]
      have hlineSize : d.lineSize m true = rowsize := by
        simp only [Directory.lineSize, if_true, hline, Int.toNat_natCast]
      have hrowIn : l.tileRow row = bandRow d.tilelength 0 row := by
        rw [TileLoop.tileRow, hnone]
      rw [hrowIn] at hfrom
      rw [hpart, hpart', hlineSize]
      exact hcolour data _ c hc p hfrom
  exact TileLoop.get_gets hfits hputs hdelivers hturns hraster hbuf hfile

end gets

section oriented
variable {m : DataModel} {conversions : Conversions} {memory tiled : Bool} {d₀ d : Directory} {t : Tags}
variable {read : ReadEncoded σ} {room : ℤ → Bool} {turns : ℕ} {raster : List Word} {orientation : ℕ} {stop : Bool} {file : σ}
variable {holds : σ → Prop} {left : UInt32 → ℤ → Bool → List UInt8 → Prop} {img : RGBAImage} {put : Put}

/-- The image is one that can be shown, and there is memory for the buffer. -/
structure Passes (m : DataModel) (conversions : Conversions) (memory tiled : Bool) (d : Directory) (t : Tags)
    (room : ℤ → Bool) (stop : Bool) (img : RGBAImage) (put : Put) : Prop where
  ok : rgbaImageOK d t = .ok ()
  begun : rgbaImageBegin conversions memory d t stop = .ok (img,put)
  ready : Ready m d img room tiled put

/-- A layout that was set up, and that the arithmetic of the get routines is good for. A tile that is clipped at the right
edge is shown from its second line on only if the put routine finds the line: with 16-bit greyscale, `put16bitbwtile` skips
half of the bytes that are clipped, and `clips` leaves such images out. -/
structure Layout (d : Directory) (t : Tags) (tiled : Bool) : Prop where
  setup : ∃ d₀ : Directory, d₀.setup tiled = some d
  plain : ∀ tag, t.photometric = some tag → Plain tag
  samples : 0 < d.samplesperpixel.toNat
  sampled : d.subsampled = false
  sizes : Sizes d tiled
  clips : tiled = true → d.tilewidth.toNat ∣ d.imagewidth.toNat ∨ d.separate = true ∧ 1 < d.samplesperpixel.toNat ∨
    ∀ photometric, taggedPhotometric d t = .ok photometric →
      clipsRight photometric d.bitspersample.toNat d.samplesperpixel.toNat d.tilewidth.toNat

/-- The image is read into the whole raster. -/
theorem readRGBAImageOriented_eq (hbegun : Begun d t stop img put) (hok : rgbaImageOK d t = .ok ())
    (hbegin : rgbaImageBegin conversions memory d t stop = .ok (img,put)) :
    readRGBAImageOriented m conversions memory tiled d t read room turns d.imagewidth d.imagelength raster orientation
      stop file = rgbaImageGet m d { img with reqOrientation := orientation } read room turns tiled put raster d.imagewidth
        d.imagelength file := by
  have hstart : ((img.height - img.height) * d.imagewidth).toNat = 0 := by
    rw [UInt32.sub_self, UInt32.zero_mul]
    rfl
  rw [← hbegun.height_eq]
  simp only [readRGBAImageOriented, hok, hbegin, hstart, Nat.not_lt_zero, if_false, List.drop_zero, List.take_zero,
    List.nil_append, Option.bind_eq_bind]
  rcases rgbaImageGet m d { img with reqOrientation := orientation } read room turns tiled put raster d.imagewidth
    img.height file with _ | ⟨ok,shown,file'⟩
  · rfl
  · rfl

theorem Layout.clips_put (h : Layout d t true) (hbegun : Begun d t stop img put) :
    d.tilewidth.toNat ∣ d.imagewidth.toNat ∨ put.Clips d img d.tilewidth.toNat := by
  rcases h.clips rfl with hdvd | hseparate | hclips
  · exact Or.inl hdvd
  · cases put with
    | contig put => exact absurd hseparate (hbegun.together put rfl)
    | separate put => exact Or.inr trivial
  · refine Or.inr ?_
    cases put with
    | contig put =>
      rw [Put.Clips, hbegun.samples_eq]
      exact hclips _ hbegun.tagged
    | separate put => trivial

theorem ready_oriented (orientation : ℕ) :
    Ready m d { img with reqOrientation := orientation } room tiled put ↔ Ready m d img room tiled put := by
  cases put <;> exact ⟨fun h => ⟨h.rows,h.size,h.room⟩,fun h => ⟨h.rows,h.size,h.room⟩⟩

theorem ShowsPixel.oriented {x y : ℕ} {p : Word}
    (h : ShowsPixel m d t { img with reqOrientation := orientation } put tiled left x y p) :
    ShowsPixel m d t img put tiled left x y p := by
  obtain ⟨data,hleft,rfl⟩ := h
  refine ⟨data,?_,?_⟩
  · cases put with
    | contig put => exact hleft
    | separate put => exact hleft
  · cases put <;> rfl

theorem Layout.gets (h : Layout d t tiled) (hpasses : Passes m conversions memory tiled d t room stop img put)
    (hroom : ∀ n, room n = true → 0 ≤ n) (hleaves : Leaves m d tiled read holds left)
    (hturns : d.imagewidth.toNat + d.imagelength.toNat < turns)
    (hraster : d.imagewidth.toNat * d.imagelength.toNat ≤ raster.length) (orientation : ℕ) (hfile : holds file) :
    Gets (setorientation t.orientation orientation) d.imagewidth.toNat d.imagelength.toNat
      (ShowsPixel m d t img put tiled left) holds (stop = true ∧ ∃ number asked data, left number asked false data) raster
      (readRGBAImageOriented m conversions memory tiled d t read room turns d.imagewidth d.imagelength raster orientation
        stop file) := by
  obtain ⟨d₀,hsetup⟩ := h.setup
  have hbegun := rgbaImageBegin_begun h.plain h.samples hpasses.begun
  have horiented := hbegun.oriented orientation
  have hready := (ready_oriented orientation).mpr hpasses.ready
  obtain ⟨hpos,hbuf⟩ := hready.size_eq hroom
  have hlength : (List.replicate (put.bufSize m { img with reqOrientation := orientation } (d.partSize m tiled)).toNat
      (0 : UInt8)).length = put.count { img with reqOrientation := orientation } * (d.partSize m tiled).toNat := by
    obtain ⟨n,hn⟩ := Int.eq_ofNat_of_zero_le hpos.le
    rw [List.length_replicate, hbuf, hn, ← Nat.cast_mul, Int.toNat_natCast, Int.toNat_natCast]
  rw [readRGBAImageOriented_eq hbegun hpasses.ok hpasses.begun, rgbaImageGet_ready hready, getLoop]
  have hcorner : setorientation t.orientation orientation = setorientation
      { img with reqOrientation := orientation }.orientation { img with reqOrientation := orientation }.reqOrientation := by
    rw [hbegun.orientation_eq]
  rw [hcorner]
  suffices hgets : Gets _ _ _ (ShowsPixel m d t { img with reqOrientation := orientation } put tiled left) holds _ raster _
    from hgets.mono fun x _ y _ p hp => hp.oriented
  cases tiled with
  | false =>
    exact horiented.gets_strips hsetup (hready.rows rfl) h.sampled h.sizes hpos hleaves hlength
      (by omega) hraster hfile
  | true =>
    exact horiented.gets_tiles hsetup h.samples h.sampled h.sizes (h.clips_put horiented) hpos hleaves hlength hturns
      hraster hfile

/-- An image that cannot be shown leaves the raster and the file alone. -/
theorem Layout.refused (h : Layout d t tiled) (hnot : ¬∃ img put, Passes m conversions memory tiled d t room stop img put) :
    readRGBAImageOriented m conversions memory tiled d t read room turns d.imagewidth d.imagelength raster orientation
        stop file = some (false,raster,file) := by
  rcases hok : rgbaImageOK d t with message | u
  · simp only [readRGBAImageOriented, hok]
  rcases hbegin : rgbaImageBegin conversions memory d t stop with message | ⟨img,put⟩
  · simp only [readRGBAImageOriented, hok, hbegin]
  have hbegun := rgbaImageBegin_begun h.plain h.samples hbegin
  rw [readRGBAImageOriented_eq hbegun hok hbegin, rgbaImageGet_not_ready]
  intro hready
  exact hnot ⟨img,put,hok,hbegin,(ready_oriented orientation).mp hready⟩

/-- An image that can be shown is shown, every pixel of it by what the reads left of its samples, and another one
leaves the raster and the file alone. -/
theorem readRGBAImageOriented_shows (h : Layout d t tiled) (hroom : ∀ n, room n = true → 0 ≤ n)
    (hleaves : Leaves m d tiled read holds left) (hturns : d.imagewidth.toNat + d.imagelength.toNat < turns)
    (hraster : d.imagewidth.toNat * d.imagelength.toNat ≤ raster.length) (hfile : holds file) :
    (∃ img put, Passes m conversions memory tiled d t room stop img put ∧
      Gets (setorientation t.orientation orientation) d.imagewidth.toNat d.imagelength.toNat
        (ShowsPixel m d t img put tiled left) holds (stop = true ∧ ∃ number asked data, left number asked false data) raster
        (readRGBAImageOriented m conversions memory tiled d t read room turns d.imagewidth d.imagelength raster orientation
          stop file)) ∨
      (¬∃ img put, Passes m conversions memory tiled d t room stop img put) ∧
        readRGBAImageOriented m conversions memory tiled d t read room turns d.imagewidth d.imagelength raster orientation
          stop file = some (false,raster,file) := by
  by_cases hpasses : ∃ img put, Passes m conversions memory tiled d t room stop img put
  · obtain ⟨img,put,hpasses'⟩ := hpasses
    exact Or.inl ⟨img,put,hpasses',h.gets hpasses' hroom hleaves hturns hraster orientation hfile⟩
  · exact Or.inr ⟨hpasses,h.refused hpasses⟩

/-- Two lines of three pixels of one grey sample in one strip, from the top right. -/
def twoLines : Directory := ⟨3,2,1,3,2,1,8,1,2,false,(2,2),false,1,1⟩

def twoLinesTags : Tags := ⟨true,some photometricMinisblack,1,[],none,1,orientationTopRight⟩

theorem twoLines_layout : Layout twoLines twoLinesTags false where
  setup := ⟨⟨3,2,1,0,0,1,8,1,2,false,(2,2),false,0,0⟩,rfl⟩
  plain := by
    rintro tag htag
    cases htag
    decide
  samples := by decide
  sampled := rfl
  sizes := ⟨by decide,by decide,by decide,fun h => absurd h Bool.false_ne_true⟩
  clips := fun h => absurd h Bool.false_ne_true

/-- With a reader that leaves every buffer as it is. -/
theorem readRGBAImageOriented_shows_twoLines :
    (∃ img put, Passes .lp64 ⟨none,none,none⟩ true false twoLines twoLinesTags (fun n => 0 ≤ n) false img put ∧
      Gets (setorientation orientationTopRight orientationTopLeft) 3 2
        (ShowsPixel .lp64 twoLines twoLinesTags img put false fun _ _ ok data => ok = true ∧ data.length = 6)
        (fun _ => True) (false = true ∧ ∃ (_ : UInt32) (_ : ℤ) (data : List UInt8), false = true ∧ data.length = 6)
        (List.replicate 6 0)
        (readRGBAImageOriented .lp64 ⟨none,none,none⟩ true false twoLines twoLinesTags
          (fun _ _ buf file => some (true,buf,file)) (fun n => 0 ≤ n) 6 3 2 (List.replicate 6 0) orientationTopLeft false ())) ∨
      (¬∃ img put, Passes .lp64 ⟨none,none,none⟩ true false twoLines twoLinesTags (fun n => 0 ≤ n) false img put) ∧
        readRGBAImageOriented .lp64 ⟨none,none,none⟩ true false twoLines twoLinesTags
          (fun _ _ buf file => some (true,buf,file)) (fun n => 0 ≤ n) 6 3 2 (List.replicate 6 0) orientationTopLeft false () =
          some (false,List.replicate 6 0,()) := by
  refine readRGBAImageOriented_shows twoLines_layout (fun n hn => of_decide_eq_true hn) ?_ (by decide) (by decide) trivial
  intro number _ _ asked _ buf file hbuf _
  have hsize : (twoLines.partSize .lp64 false).toNat = 6 := by decide
  exact ⟨true,buf,file,rfl,hbuf,trivial,rfl,hbuf.trans hsize⟩

end oriented

end TiffJni.Raster
