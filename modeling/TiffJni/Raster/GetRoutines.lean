import TiffJni.Raster.Geometry
import TiffJni.Raster.Orientation
import TiffJni.Raster.PutRoutines

/-! # The get routines

The routines of `tif_getimage.c` that walk an image strip by strip or tile by tile: they read
a part of the file into a buffer, put the rows that are wanted of it into the raster and mirror the
lines at the end. Reading and decoding is a parameter here, with a state of its own.
-/
namespace TiffJni.Raster
open FixedWidth

def photometricMiniswhite : ℕ := 0
def photometricMinisblack : ℕ := 1
def photometricRgb : ℕ := 2
def photometricPalette : ℕ := 3
def photometricSeparated : ℕ := 5

/-- What `TIFFRGBAImageBegin` found out about the image, as far as the get routines use it. -/
structure RGBAImage where
  width : UInt32
  height : UInt32
  samplesperpixel : UInt16
  alpha : ℕ
  photometric : ℕ
  orientation : ℕ
  reqOrientation : ℕ
  stoponerr : Bool
  /-- The bits of an `int`, as is `colOffset`. -/
  rowOffset : UInt32
  colOffset : UInt32
  deriving DecidableEq, Repr

/-- `TIFFReadEncodedStrip` or `TIFFReadEncodedTile` on the part of the file that a number names, for a
size: whether it succeeded, and the bytes behind the pointer after it. There is no result where it faults. -/
abbrev ReadEncoded (σ : Type) := UInt32 → ℤ → List UInt8 → σ → Option (Bool × List UInt8 × σ)

/-- A part of the buffer that one sample of the pixels is read into. -/
structure Plane where
  start : ℕ
  sample : UInt16
  deriving DecidableEq, Repr

/-- What a get routine works on. -/
structure Frame (σ : Type) where
  raster : List Word
  buf : List UInt8
  file : σ

variable {σ : Type}

/-- The reads of a band, up to the first failure that is not to be passed over. -/
def readPlanes (stoponerr : Bool) (size : ℕ) (read : UInt16 → List UInt8 → σ → Option (Bool × List UInt8 × σ)) :
    List Plane → List UInt8 → σ → Option (Bool × List UInt8 × σ)
  | [], buf, file => some (true,buf,file)
  | p :: planes, buf, file => do
    let (ok,data,file) ← read p.sample ((buf.drop p.start).take size) file
    let buf := buf.take p.start ++ data ++ buf.drop (p.start + size)
    if ok = false ∧ stoponerr = true then some (false,buf,file)
    else readPlanes stoponerr size read planes buf file

/-- `_TIFFmalloc` and `_TIFFmemset` to zero; `room` is whether there is memory for a size. -/
def allocate (room : ℤ → Bool) (size : ℤ) : Option (List UInt8) :=
  if size ≠ 0 ∧ room size = true then some (List.replicate size.toNat 0) else none

/-- The macro `TIFFSafeMultiply` for `tmsize_t`. -/
def safeMultiply (m : DataModel) (v size : ℤ) : ℤ :=
  if size ≠ 0 ∧ (m.toLong (v * size)).tdiv size = v then m.toLong (v * size) else 0

/-- `while (left < right)`: swap what they point to and move both inward. -/
def swapInward (left right : ℕ) (raster : List Word) : Option (List Word) :=
  if left < right then do
    let temp ← raster[left]?
    let a ← raster[right]?
    swapInward (left + 1) (right - 1) ((raster.set left a).set right temp)
  else some raster
termination_by right - left

/-- `for (line = 0; line < h; line++)`, each from its left and its right end. -/
def mirrorLines (w h : UInt32) (raster : List Word) : Option (List Word) :=
  (List.range h.toNat).foldlM (fun raster line =>
    let left := (UInt32.ofNat line * w).toNat
    swapInward left (left + w.toNat - 1) raster) raster

/-- The row that a row of the raster is of its strip or tile, of `rows` rows. -/
def bandRow (rows rowOffset row : UInt32) : UInt32 := (row + rowOffset) % rows

/-- `nrow`: what is left of the strip or tile, or of the raster. -/
def bandRows (rows rowOffset h row : UInt32) : UInt32 :=
  let rowstoread := rows - bandRow rows rowOffset row
  if h < row + rowstoread then h - row else rowstoread

def firstLine (flip : Flip) (h : UInt32) : UInt32 := if flip.vertically then h - 1 else 0

def nextLine (flip : Flip) (y nrow : UInt32) : UInt32 := if flip.vertically then y - nrow else y + nrow

/-- `nrowsub`: the rows of a band with those that share its last chroma samples. -/
def roundUp (subsamplingver nrow : UInt32) : UInt32 :=
  if nrow % subsamplingver ≠ 0 then nrow + (subsamplingver - nrow % subsamplingver) else nrow

/-- What is left to do after the rows. -/
def finish (flip : Flip) (w h : UInt32) (r : Option (Bool × Frame σ)) : Option (Bool × List Word × σ) := do
  let (ok,fr) ← r
  let raster ← if flip.horizontally then mirrorLines w h fr.raster else some fr.raster
  some (ok,raster,fr.file)

/-- What the loop over the strips of an image does not change. -/
structure StripLoop (σ : Type) where
  m : DataModel
  d : Directory
  img : RGBAImage
  put : PutRoutine
  read : ReadEncoded σ
  planes : List Plane
  /-- `nrowsub` of `nrow` -/
  nrowsub : UInt32 → UInt32
  w : UInt32
  h : UInt32

namespace StripLoop
variable (l : StripLoop σ)

def flip : Flip := setorientation l.img.orientation l.img.reqOrientation

def toskew : ℤ := -toSigned 32 (if l.flip.vertically then l.w + l.w else l.w - l.w).toNat

def fromskew : ℤ := toSigned 32 (if l.w < l.img.width then l.img.width - l.w else 0).toNat

def stripRow (row : UInt32) : UInt32 := bandRow l.d.rowsperstrip l.img.rowOffset row

def nrow (row : UInt32) : UInt32 := bandRows l.d.rowsperstrip l.img.rowOffset l.h row

def size (row : UInt32) : ℤ :=
  l.m.toLong ((l.stripRow row + l.nrowsub (l.nrow row)).toNat * l.d.scanlineSize l.m)

def pos (row : UInt32) : ℤ :=
  l.m.toLong ((l.stripRow row).toNat * l.d.scanlineSize l.m +
    toSigned 32 l.img.colOffset.toNat * l.img.samplesperpixel.toNat)

def readBand (row : UInt32) (fr : Frame σ) : Option (Bool × List UInt8 × σ) :=
  readPlanes l.img.stoponerr (l.d.stripSize l.m).toNat
    (fun sample => l.read (l.d.computeStrip (row + l.img.rowOffset) sample) (l.size row)) l.planes fr.buf fr.file

/-- `for (row = 0; row < h; row += nrow)`, `y` being the line of the raster that is next. -/
def run : ℕ → UInt32 → UInt32 → Frame σ → Option (Bool × Frame σ)
  | 0, _, _, _ => none
  | turns + 1, row, y, fr =>
    if l.h ≤ row then some (true,fr)
    else if l.d.rowsperstrip = 0 then none
    else do
      let (ok,buf,file) ← l.readBand row fr
      if ok then do
        let raster ← l.put (y * l.w).toNat l.w.toNat (l.nrow row).toNat l.fromskew l.toskew buf (l.pos row) fr.raster
        run turns (row + l.nrow row) (nextLine l.flip y (l.nrow row)) ⟨raster,buf,file⟩
      else some (false,⟨fr.raster,buf,file⟩)

def get (turns : ℕ) (buf : List UInt8) (raster : List Word) (file : σ) : Option (Bool × List Word × σ) :=
  finish l.flip l.w l.h (l.run turns 0 (firstLine l.flip l.h) ⟨raster,buf,file⟩)

end StripLoop

/-- What the loops over the tiles of an image do not change. -/
structure TileLoop (σ : Type) where
  m : DataModel
  d : Directory
  img : RGBAImage
  put : PutRoutine
  read : ReadEncoded σ
  planes : List Plane
  w : UInt32
  h : UInt32

/-- `TIFFReadTile` on a file that was opened for reading and has tiles. -/
def readTile (d : Directory) (read : ReadEncoded σ) (x y z : UInt32) (s : UInt16) (buf : List UInt8) (file : σ) :
    Option (Bool × List UInt8 × σ) :=
  if d.checkTile x y z s then read (d.computeTile x y z s) (-1) buf file else some (false,buf,file)

namespace TileLoop
variable (l : TileLoop σ)

def flip : Flip := setorientation l.img.orientation l.img.reqOrientation

def toskew : ℤ := -toSigned 32 (if l.flip.vertically then l.d.tilewidth + l.w else l.d.tilewidth - l.w).toNat

def tileRow (row : UInt32) : UInt32 := bandRow l.d.tilelength l.img.rowOffset row

def nrow (row : UInt32) : UInt32 := bandRows l.d.tilelength l.img.rowOffset l.h row

def leftmostFromskew : ℤ := toSigned 32 (l.img.colOffset % l.d.tilewidth).toNat

def leftmostTw : UInt32 := l.d.tilewidth - l.img.colOffset % l.d.tilewidth

def pos (row : UInt32) (fromskew : ℤ) : ℤ :=
  l.m.toLong ((l.tileRow row).toNat * l.d.tileRowSize l.m + fromskew * l.img.samplesperpixel.toNat)

def readBand (row col : UInt32) (fr : Frame σ) : Option (Bool × List UInt8 × σ) :=
  readPlanes l.img.stoponerr (l.d.tileSize l.m).toNat
    (fun sample => readTile l.d l.read col (row + l.img.rowOffset) 0 sample) l.planes fr.buf fr.file

/-- `while (tocol < w)`, with the skews and the width of the tile that is next. -/
def columns (row y : UInt32) : ℕ → ℤ → UInt32 → ℤ → UInt32 → UInt32 → Frame σ → Option (Bool × Frame σ)
  | 0, _, _, _, _, _, _ => none
  | turns + 1, fromskew, thisTw, thisToskew, tocol, col, fr =>
    if l.w ≤ tocol then some (true,fr)
    else do
      let (ok,buf,file) ← l.readBand row col fr
      if ok then do
        let pos := l.pos row fromskew
        -- the rightmost tile is clipped on its right side
        let clipped : Bool := l.w < tocol + thisTw
        let fromskew := if clipped then toSigned 32 (l.d.tilewidth - (l.w - tocol)).toNat else fromskew
        let thisTw := if clipped then l.d.tilewidth - UInt32.ofInt fromskew else thisTw
        let thisToskew := if clipped then l.toskew + fromskew else thisToskew
        let raster ← l.put ((y * l.w).toNat + tocol.toNat) thisTw.toNat (l.nrow row).toNat fromskew thisToskew buf pos
          fr.raster
        columns row y turns 0 l.d.tilewidth l.toskew (tocol + thisTw) (col + thisTw) ⟨raster,buf,file⟩
      else some (false,⟨fr.raster,buf,file⟩)

/-- `for (row = 0; row < h; row += nrow)`; a failure that ends a row of tiles does not end the loop. -/
def rows : ℕ → UInt32 → UInt32 → Frame σ → Option (Bool × Frame σ)
  | 0, _, _, _ => none
  | turns + 1, row, y, fr =>
    if l.h ≤ row then some (true,fr)
    else if l.d.tilelength = 0 then none
    else do
      let (ok,fr) ← l.columns row y turns l.leftmostFromskew l.leftmostTw (l.toskew + l.leftmostFromskew) 0
        l.img.colOffset fr
      let (ret,fr) ← rows turns (row + l.nrow row) (nextLine l.flip y (l.nrow row)) fr
      some (ok && ret,fr)

def get (turns : ℕ) (buf : List UInt8) (raster : List Word) (file : σ) : Option (Bool × List Word × σ) :=
  if l.d.tilewidth = 0 then none
  else finish l.flip l.w l.h (l.rows turns 0 (firstLine l.flip l.h) ⟨raster,buf,file⟩)

end TileLoop

/-- The put routine of an image, for samples together or in planes. -/
inductive Put
  | contig (put : PutRoutine)
  | separate (put : (ℕ → ℕ) → PutRoutine)

section get
variable (m : DataModel) (d : Directory) (img : RGBAImage) (read : ReadEncoded σ) (room : ℤ → Bool) (turns : ℕ)

/-- The planes of a buffer and where each begins; greyscale has all its colours in one. -/
def colorchannels : UInt16 :=
  if img.photometric = photometricMiniswhite ∨ img.photometric = photometricMinisblack ∨
    img.photometric = photometricPalette then 1 else 3

def planeStart (size : ℕ) (k : ℕ) : ℕ := if colorchannels img = 1 ∧ k < 3 then 0 else k * size

def separatePlanes (size : ℕ) : List Plane :=
  (if colorchannels img = 1 then [⟨0,0⟩] else [⟨0,0⟩,⟨size,1⟩,⟨2 * size,2⟩]) ++
    if img.alpha ≠ 0 then [⟨3 * size,colorchannels img⟩] else []

def separateSize (size : ℤ) : ℤ := safeMultiply m (if img.alpha ≠ 0 then 4 else 3) size

def gtStripContig (put : PutRoutine) (raster : List Word) (w h : UInt32) (file : σ) : Option (Bool × List Word × σ) :=
  let subsamplingver := d.ycbcrsubsampling.2.toUInt32
  if subsamplingver = 0 then some (false,raster,file)
  else match allocate room (d.stripSize m) with
    | none => some (false,raster,file)
    | some buf =>
      StripLoop.get ⟨m,d,img,put,read,[⟨0,0⟩],roundUp subsamplingver,w,h⟩ turns buf raster file

def gtStripSeparate (put : (ℕ → ℕ) → PutRoutine) (raster : List Word) (w h : UInt32) (file : σ) :
    Option (Bool × List Word × σ) :=
  let stripsize := (d.stripSize m).toNat
  if separateSize m img (d.stripSize m) = 0 then some (false,raster,file)
  else match allocate room (separateSize m img (d.stripSize m)) with
    | none => some (false,raster,file)
    | some buf =>
      StripLoop.get ⟨m,d,img,put (planeStart img stripsize),read,separatePlanes img stripsize,id,w,h⟩ turns buf raster
        file

def gtTileContig (put : PutRoutine) (raster : List Word) (w h : UInt32) (file : σ) : Option (Bool × List Word × σ) :=
  match allocate room (d.tileSize m) with
  | none => some (false,raster,file)
  | some buf => TileLoop.get ⟨m,d,img,put,read,[⟨0,0⟩],w,h⟩ turns buf raster file

def gtTileSeparate (put : (ℕ → ℕ) → PutRoutine) (raster : List Word) (w h : UInt32) (file : σ) :
    Option (Bool × List Word × σ) :=
  let tilesize := (d.tileSize m).toNat
  if separateSize m img (d.tileSize m) = 0 then some (false,raster,file)
  else match allocate room (separateSize m img (d.tileSize m)) with
    | none => some (false,raster,file)
    | some buf =>
      TileLoop.get ⟨m,d,img,put (planeStart img tilesize),read,separatePlanes img tilesize,w,h⟩ turns buf raster file

/-- `TIFFRGBAImageGet` with the routines that were picked for the image. -/
def rgbaImageGet (tiled : Bool) (put : Put) (raster : List Word) (w h : UInt32) (file : σ) :
    Option (Bool × List Word × σ) :=
  match put with
  | .contig put =>
    if tiled then gtTileContig m d img read room turns put raster w h file
    else gtStripContig m d img read room turns put raster w h file
  | .separate put =>
    if tiled then gtTileSeparate m d img read room turns put raster w h file
    else gtStripSeparate m d img read room turns put raster w h file

end get

end TiffJni.Raster
