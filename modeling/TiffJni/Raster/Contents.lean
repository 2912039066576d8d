import TiffJni.Raster.Shown

/-! # The picture of an image

Where the reads give what the strips or tiles of an image hold, the raster becomes the picture of the image, mirrored
for the corner that was asked for.
-/
namespace TiffJni.Raster
open FixedWidth

variable {σ : Type}

/-- The reads give the contents of the strips or tiles, as far as they were asked for. -/
def Gives (contents : UInt32 → List UInt8) (number : UInt32) (asked : ℤ) (ok : Bool) (data : List UInt8) : Prop :=
  ok = true ∧ ∀ i : ℕ, (asked = -1 ∨ i < asked) → i < (contents number).length → data[i]? = (contents number)[i]?

section picture
variable (m : DataModel) (d : Directory) (t : Tags) (img : RGBAImage) (put : Put) (tiled : Bool)
variable (contents : UInt32 → List UInt8)

/-- The colour of a pixel of the image, by the contents of its strips or tiles. -/
def picture (x y : ℕ) : Word :=
  pixelColour img d.bitspersample.toNat (t.colormap.getD ⟨[],[],[]⟩) put
    (fun k i => (contents (d.part tiled x y (put.sample img k))).getD (d.partRow tiled y * d.lineSize m tiled + i) 0)
    (d.partColumn tiled x)

/-- The picture of an image with a plane for each sample. -/
theorem picture_separate (routine : (ℕ → ℕ) → PutRoutine) (hplain : Plain img.photometric) (x y : ℕ) :
    picture m d t img (.separate routine) tiled contents x y =
      colourSeparate img.photometric d.bitspersample.toNat img.alpha fun s => sample d.bitspersample.toNat 1
        (fun i => (contents (d.part tiled x y (UInt16.ofNat s))).getD (d.partRow tiled y * d.lineSize m tiled + i) 0)
        (d.partColumn tiled x) 0 :=
  planesColour_planeSample hplain d.bitspersample.toNat fun s => sample d.bitspersample.toNat 1
    (fun i => (contents (d.part tiled x y s)).getD (d.partRow tiled y * d.lineSize m tiled + i) 0) (d.partColumn tiled x) 0

/-- No strip or tile ends before a row of the image. -/
def Covers : Prop := ∀ x < d.imagewidth.toNat, ∀ y < d.imagelength.toNat, ∀ k < put.count img,
  (d.partRow tiled y + 1) * d.lineSize m tiled ≤ (contents (d.part tiled x y (put.sample img k))).length

end picture

/-- The raster of a picture of `w` by `h` pixels that is mirrored. -/
def rasterOf (flip : Flip) (w h : ℕ) (pixel : ℕ → ℕ → Word) : List Word :=
  (List.range (w * h)).map fun i => pixel (mirror flip.horizontally w (i % w)) (mirror flip.vertically h (i / w))

theorem Shows.eq_rasterOf {flip : Flip} {w h : ℕ} {pixel : ℕ → ℕ → Word} {raster raster' : List Word}
    (hshows : Shows flip w h (fun x y p => p = pixel x y) (fun _ _ => True) raster raster')
    (hlength : raster.length = w * h) : raster' = rasterOf flip w h pixel := by
  apply List.ext_getElem?
  intro i
  rw [rasterOf, List.getElem?_map]
  by_cases hi : i < w * h
  · have hpos : 0 < w := Nat.pos_of_ne_zero fun hzero => by simp [hzero] at hi
    have hx := Nat.mod_lt i hpos
    have hy : i / w < h := Nat.div_lt_of_lt_mul hi
    obtain ⟨p,hp,hpixel⟩ := hshows.shown _ (mirror_lt flip.horizontally hx) _ (mirror_lt flip.vertically hy) trivial
    rw [cell, mirror_mirror _ hx, mirror_mirror _ hy, Nat.mul_comm, Nat.div_add_mod] at hp
    rw [List.getElem?_range hi, hp, hpixel]
    rfl
  · have hle := hshows.length_eq
    rw [List.getElem?_eq_none (by omega), List.getElem?_eq_none (by rw [List.length_range]; omega)]
    rfl

section contents
variable {m : DataModel} {conversions : Conversions} {memory tiled : Bool} {d : Directory} {t : Tags}
variable {read : ReadEncoded σ} {room : ℤ → Bool} {turns : ℕ} {raster : List Word} {orientation : ℕ} {stop : Bool} {file : σ}
variable {holds : σ → Prop} {contents : UInt32 → List UInt8} {img : RGBAImage} {put : Put}

theorem Layout.lineSize_eq (h : Layout d t tiled) (hpos : 0 < d.partSize m tiled) : d.lineSize m tiled =
    ((if tiled then d.tilewidth else d.imagewidth).toNat * d.channels * d.bitspersample.toNat + 7) / 8 := by
  cases tiled with
  | false =>
    obtain ⟨scanline,-,hS,hline,-,-,hne⟩ := Directory.stripSize_spec h.sampled hpos
    rw [Directory.scanlineSize64_toNat h.sampled hne] at hS
    rw [Directory.lineSize, if_neg Bool.false_ne_true, if_neg Bool.false_ne_true, hline, Int.toNat_natCast, hS]
  | true =>
    obtain ⟨rowsize,-,hS,hline,-,-,hne,-⟩ := Directory.tileSize_spec h.sampled hpos
    rw [Directory.tileRowSize64_toNat hne] at hS
    rw [Directory.lineSize, if_pos rfl, if_pos rfl, hline, Int.toNat_natCast, hS]

/-- The sizes of strips do not overflow a `tmsize_t`. `gtStripContig` rounds the rows it asks for up to the subsampling of
the image, which is there for every image and less than `2 ^ 16`, so these may reach beyond the strip. -/
def Slack (m : DataModel) (d : Directory) (tiled : Bool) : Prop := tiled = false →
  2 * ((min d.rowsperstrip.toNat d.imagelength.toNat + 2 ^ 16) * d.lineSize m false) < 2 ^ m.longBits

theorem Layout.asked_rows (h : Layout d t false) (hpos : 0 < d.partSize m false) {row : ℕ} {asked : ℤ}
    (hslack : Slack m d false) (hasked : d.Asked m false row asked) :
    ∃ rows, row < rows ∧ asked = (rows * d.lineSize m false : ℕ) := by
  rw [Directory.Asked, if_neg Bool.false_ne_true] at hasked
  obtain ⟨rows,hrow,hrows,rfl⟩ := hasked
  have hS : d.scanlineSize m = d.lineSize m false := by
    obtain ⟨scanline,-,-,hline,-⟩ := Directory.stripSize_spec h.sampled hpos
    rw [Directory.lineSize, if_neg Bool.false_ne_true, hline, Int.toNat_natCast]
  have hle : rows * d.lineSize m false ≤
      (min d.rowsperstrip.toNat d.imagelength.toNat + 2 ^ 16) * d.lineSize m false := Nat.mul_le_mul_right _ hrows.le
  have hslack := hslack rfl
  refine ⟨rows,hrow,?_⟩
  rw [hS, ← Nat.cast_mul]
  exact toSigned_natCast (by omega)

theorem Layout.asked_enough (h : Layout d t tiled) (hpos : 0 < d.partSize m tiled) {row : ℕ} {asked : ℤ}
    (hslack : Slack m d tiled) (hasked : d.Asked m tiled row asked) {i : ℕ} (hi : i < (row + 1) * d.lineSize m tiled) :
    asked = -1 ∨ i < asked := by
  cases tiled with
  | true =>
    rw [Directory.Asked, if_pos rfl] at hasked
    exact Or.inl hasked
  | false =>
    obtain ⟨rows,hrow,rfl⟩ := h.asked_rows hpos hslack hasked
    have hmore : (row + 1) * d.lineSize m false ≤ rows * d.lineSize m false := Nat.mul_le_mul_right _ hrow
    exact Or.inr (by omega)

theorem Layout.partColumn_lt (h : Layout d t tiled) (hpos : 0 < d.partSize m tiled) {x : ℕ} (hx : x < d.imagewidth.toNat) :
    d.partColumn tiled x < (if tiled then d.tilewidth else d.imagewidth).toNat := by
  cases tiled with
  | false => exact hx
  | true =>
    obtain ⟨-,-,-,-,-,-,-,htw,-⟩ := Directory.tileSize_spec h.sampled hpos
    exact Nat.mod_lt x (Nat.pos_iff_ne_zero.mpr fun hzero => htw (UInt32.toNat_inj.mp hzero))

/-- Where the contents are given, a pixel that is shown is a pixel of the picture. -/
theorem ShowsPixel.eq_picture (h : Layout d t tiled) (hbegun : Begun d t stop img put) (hpos : 0 < d.partSize m tiled)
    (hslack : Slack m d tiled) (hcovers : Covers m d img put tiled contents) {x y : ℕ}
    (hx : x < d.imagewidth.toNat) (hy : y < d.imagelength.toNat) {p : Word}
    (hp : ShowsPixel m d t img put tiled (Gives contents) x y p) : p = picture m d t img put tiled contents x y := by
  obtain ⟨data,hleft,rfl⟩ := hp
  refine hbegun.drawn.colour_congr (h.partColumn_lt hpos hx) ?_
  intro k hk i hi
  rw [← h.lineSize_eq hpos] at hi
  obtain ⟨ok,asked,hasked,-,hgives⟩ := hleft k hk
  have hrow : d.partRow tiled y * d.lineSize m tiled + i < (d.partRow tiled y + 1) * d.lineSize m tiled := by
    rw [Nat.succ_mul]
    omega
  rw [List.getD_eq_getElem?_getD, List.getD_eq_getElem?_getD,
    hgives _ (h.asked_enough hpos hslack hasked hrow) (hrow.trans_le (hcovers x hx y hy k hk))]

theorem Layout.shows_picture (h : Layout d t tiled) (hpasses : Passes m conversions memory tiled d t room stop img put)
    (hroom : ∀ n, room n = true → 0 ≤ n) (hleaves : Leaves m d tiled read holds (Gives contents))
    (hcovers : Covers m d img put tiled contents) (hslack : Slack m d tiled)
    (hturns : d.imagewidth.toNat + d.imagelength.toNat < turns)
    (hraster : raster.length = d.imagewidth.toNat * d.imagelength.toNat) (hfile : holds file) :
    ∃ file', readRGBAImageOriented m conversions memory tiled d t read room turns d.imagewidth d.imagelength raster
      orientation stop file = some (true,rasterOf (setorientation t.orientation orientation) d.imagewidth.toNat
        d.imagelength.toNat (picture m d t img put tiled contents),file') ∧ holds file' := by
  have hbegun := rgbaImageBegin_begun h.plain h.samples hpasses.begun
  obtain ⟨hpos,-⟩ := hpasses.ready.size_eq hroom
  obtain ⟨ok,raster',file',hread,hholds,hstops,-,hshows⟩ := h.gets hpasses hroom hleaves
    hturns hraster.ge orientation hfile
  have hok : ok = true := by
    by_contra hne
    obtain ⟨-,number,asked,data,hfail,-⟩ := hstops (Bool.eq_false_of_not_eq_true hne)
    exact Bool.false_ne_true hfail
  subst hok
  refine ⟨file',?_,hholds⟩
  rw [hread, ((hshows rfl).mono fun x hx y hy p hp =>
    hp.eq_picture h hbegun hpos hslack hcovers hx hy).eq_rasterOf hraster]

/-- The picture with its top left corner first, by the tag that says where it is. -/
def scene (orientation : ℕ) (w h : ℕ) (pixel : ℕ → ℕ → Word) (x y : ℕ) : Word :=
  pixel (mirror (corner orientation).horizontally w x) (mirror (corner orientation).vertically h y)

theorem rasterOf_setorientation {tag orientation : ℕ} (htag : IsOrientation tag) (horientation : IsOrientation orientation)
    (w h : ℕ) (pixel : ℕ → ℕ → Word) :
    rasterOf (setorientation tag orientation) w h pixel = rasterOf (corner orientation) w h (scene tag w h pixel) := by
  rw [setorientation_eq htag horientation]
  apply List.map_congr_left
  intro i hi
  have hlt := List.mem_range.mp hi
  have hpos : 0 < w := Nat.pos_of_ne_zero fun hzero => by simp [hzero] at hlt
  rw [scene, mirror_xor (Nat.mod_lt i hpos), mirror_xor (Nat.div_lt_of_lt_mul hlt)]

/-- Whatever corner an image begins with, the raster begins with the corner of the scene that was asked for. -/
theorem readRGBAImageOriented_scene (h : Layout d t tiled) (hpasses : Passes m conversions memory tiled d t room stop img put)
    (hroom : ∀ n, room n = true → 0 ≤ n) (hleaves : Leaves m d tiled read holds (Gives contents))
    (hcovers : Covers m d img put tiled contents) (hslack : Slack m d tiled)
    (hturns : d.imagewidth.toNat + d.imagelength.toNat < turns)
    (hraster : raster.length = d.imagewidth.toNat * d.imagelength.toNat) (hfile : holds file)
    (htag : IsOrientation t.orientation) (horientation : IsOrientation orientation) :
    ∃ file', readRGBAImageOriented m conversions memory tiled d t read room turns d.imagewidth d.imagelength raster
      orientation stop file = some (true,rasterOf (corner orientation) d.imagewidth.toNat d.imagelength.toNat
        (scene t.orientation d.imagewidth.toNat d.imagelength.toNat (picture m d t img put tiled contents)),file') ∧
      holds file' := by
  rw [← rasterOf_setorientation htag horientation]
  exact h.shows_picture hpasses hroom hleaves hcovers hslack hturns hraster hfile

theorem twoLines_passes : ∃ img put, Passes .lp64 ⟨none,none,none⟩ true false twoLines twoLinesTags (fun n => 0 ≤ n) false
    img put := by
  refine ⟨_,_,rfl,rfl,?_⟩
  exact ⟨fun _ _ _ => by decide,by decide,by decide⟩

theorem twoLines_slack : Slack .lp64 twoLines false := fun _ => by decide

theorem twoLines_covers (img : RGBAImage) (put : Put) :
    Covers .lp64 twoLines img put false fun _ => [10,20,30,40,50,60] := by
  intro x _ y _ k _
  have hline : twoLines.lineSize .lp64 false = 3 := by decide
  have hrow : twoLines.partRow false y < 2 := Nat.mod_lt y (by decide)
  change _ ≤ 6
  rw [hline]
  omega

/-- Ten is at the right end of the first line of the scene, so it ends the first line of the raster. -/
theorem readRGBAImageOriented_scene_twoLines : ∃ img put file',
    readRGBAImageOriented .lp64 ⟨none,none,none⟩ true false twoLines twoLinesTags
      (fun _ _ _ file => some (true,[10,20,30,40,50,60],file)) (fun n => 0 ≤ n) 6 3 2 (List.replicate 6 0)
      orientationTopLeft false () = some (true,rasterOf (corner orientationTopLeft) 3 2 (scene orientationTopRight 3 2
        (picture .lp64 twoLines twoLinesTags img put false fun _ => [10,20,30,40,50,60])),file') ∧ True := by
  obtain ⟨img,put,hpasses⟩ := twoLines_passes
  refine ⟨img,put,?_⟩
  refine readRGBAImageOriented_scene twoLines_layout hpasses (fun n hn => of_decide_eq_true hn) ?_
    (twoLines_covers img put) twoLines_slack (by decide) (by decide) trivial (by decide) (by decide)
  intro number _ _ asked _ buf file _ _
  have hsize : (twoLines.partSize .lp64 false).toNat = 6 := by decide
  exact ⟨true,_,file,rfl,hsize.symm,trivial,rfl,fun i _ _ => rfl⟩

end contents

end TiffJni.Raster
