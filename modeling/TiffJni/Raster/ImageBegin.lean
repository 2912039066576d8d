import TiffJni.Raster.SampleTables

/-! # What can be shown

`TIFFRGBAImageOK` and `TIFFRGBAImageBegin` turn down the images that the library cannot show,
and pick the get and the put routine for the others by their photometric interpretation, the bits
of a sample and the extra samples. The routines for YCbCr and CIE L*a*b* are parameters.
-/
namespace TiffJni.Raster
open FixedWidth

def photometricYcbcr : ℕ := 6
def photometricCielab : ℕ := 8
def photometricLogl : ℕ := 32844
def photometricLogluv : ℕ := 32845
def compressionJpeg : ℕ := 7
def compressionSgilog : ℕ := 34676
def compressionSgilog24 : ℕ := 34677
def inksetCmyk : ℕ := 1
def extrasampleUnspecified : ℕ := 0
def extrasampleAssocalpha : ℕ := 1
def extrasampleUnassalpha : ℕ := 2

def isCCITTCompression (compression : ℕ) : Bool :=
  compression = 3 ∨ compression = 4 ∨ compression = 2 ∨ compression = 32771

/-- The tags of an image that say how its samples are meant. -/
structure Tags where
  /-- `tif_decodestatus` -/
  decodestatus : Bool
  photometric : Option ℕ
  compression : ℕ
  /-- `td_sampleinfo`, of `td_extrasamples` samples -/
  sampleinfo : List ℕ
  colormap : Option Colormap
  inkset : ℕ
  orientation : ℕ
  deriving DecidableEq, Repr

def photoTag : String := "PhotometricInterpretation"

/-- The bits of a sample that the put routines know. -/
def knownBits (bitspersample : ℕ) : Bool :=
  bitspersample = 1 ∨ bitspersample = 2 ∨ bitspersample = 4 ∨ bitspersample = 8 ∨ bitspersample = 16

section
variable (d : Directory) (t : Tags)

def bitsMessage (bitspersample : ℕ) : String := s!"Sorry, can not handle images with {bitspersample}-bit samples"

def contiguousMessage (photometric samplesperpixel bitspersample : ℕ) : String :=
  s!"Sorry, can not handle contiguous data with {photoTag}={photometric}, and Samples/pixel={samplesperpixel} and Bits/Sample={bitspersample}"

/-- `TIFFRGBAImageOK` -/
def rgbaImageOK : Except String Unit :=
  let bitspersample := d.bitspersample.toNat
  let samplesperpixel := d.samplesperpixel.toNat
  let colorchannels : ℤ := samplesperpixel - t.sampleinfo.length
  if ¬t.decodestatus then .error "Sorry, requested compression method is not configured"
  else if ¬knownBits bitspersample then .error (bitsMessage bitspersample)
  else do
    let photometric ← match t.photometric with
      | some photometric => .ok photometric
      | none =>
        if colorchannels = 1 then .ok photometricMinisblack
        else if colorchannels = 3 then .ok photometricRgb
        else .error s!"Missing needed {photoTag} tag"
    if photometric = photometricMiniswhite ∨ photometric = photometricMinisblack ∨ photometric = photometricPalette then
      if ¬d.separate ∧ samplesperpixel ≠ 1 ∧ bitspersample < 8 then
        .error (contiguousMessage photometric samplesperpixel bitspersample)
      else .ok ()
    else if photometric = photometricYcbcr then .ok ()
    else if photometric = photometricRgb then
      if colorchannels < 3 then .error s!"Sorry, can not handle RGB image with Color channels={colorchannels}" else .ok ()
    else if photometric = photometricSeparated then
      if t.inkset ≠ inksetCmyk then .error s!"Sorry, can not handle separated image with InkSet={t.inkset}"
      else if samplesperpixel < 4 then
        .error s!"Sorry, can not handle separated image with Samples/pixel={samplesperpixel}"
      else .ok ()
    else if photometric = photometricLogl then
      if t.compression ≠ compressionSgilog then .error s!"Sorry, LogL data must have Compression={compressionSgilog}"
      else .ok ()
    else if photometric = photometricLogluv then
      if t.compression ≠ compressionSgilog ∧ t.compression ≠ compressionSgilog24 then
        .error s!"Sorry, LogLuv data must have Compression={compressionSgilog} or {compressionSgilog24}"
      else if d.separate then .error "Sorry, can not handle LogLuv images with Planarconfiguration=2"
      else if samplesperpixel ≠ 3 then .error s!"Sorry, can not handle image with Samples/pixel={samplesperpixel}"
      else .ok ()
    else if photometric = photometricCielab then
      if samplesperpixel ≠ 3 ∨ bitspersample ≠ 8 then
        .error s!"Sorry, can not handle image with Samples/pixel={samplesperpixel} and Bits/sample={bitspersample}"
      else .ok ()
    else .error s!"Sorry, can not handle image with {photoTag}={photometric}"

/-- Whether there is an alpha sample: `img->alpha`, and the extra samples with those that stand for alpha untold. -/
def alphaOf : ℕ × ℕ :=
  let alpha := match t.sampleinfo.head? with
    | some info =>
      if info = extrasampleUnspecified then if 3 < d.samplesperpixel.toNat then extrasampleAssocalpha else 0
      else if info = extrasampleAssocalpha ∨ info = extrasampleUnassalpha then info
      else 0
    | none => 0
  -- `DEFAULT_EXTRASAMPLE_AS_ALPHA`
  if t.sampleinfo.length = 0 ∧ d.samplesperpixel.toNat = 4 ∧ t.photometric.getD photometricMiniswhite = photometricRgb then
    (extrasampleAssocalpha,1)
  else (alpha,t.sampleinfo.length)

/-- `td_photometric`, or what the colour channels and the compression of an image without it stand for. -/
def taggedPhotometric : Except String ℕ :=
  let colorchannels : ℤ := d.samplesperpixel.toNat - (alphaOf d t).2
  match t.photometric with
  | some photometric => .ok photometric
  | none =>
    if colorchannels = 1 then
      .ok (if isCCITTCompression t.compression then photometricMiniswhite else photometricMinisblack)
    else if colorchannels = 3 then .ok photometricRgb
    else .error s!"Missing needed {photoTag} tag"

/-- The photometric interpretation and the bits of a sample to show an image by; `memory` is whether there is memory for
tables and the copy of a colour map. -/
def photometricOf (memory : Bool) (photometric : ℕ) : Except String (ℕ × ℕ) :=
  let bitspersample := d.bitspersample.toNat
  let samplesperpixel := d.samplesperpixel.toNat
  let colorchannels : ℤ := samplesperpixel - (alphaOf d t).2
  if photometric = photometricPalette ∧ t.colormap = none then .error "Missing required \"Colormap\" tag"
  else if photometric = photometricPalette ∧ ¬memory then .error "Out of memory for colormap copy"
  else if photometric = photometricPalette ∨ photometric = photometricMiniswhite ∨ photometric = photometricMinisblack then
    if ¬d.separate ∧ samplesperpixel ≠ 1 ∧ bitspersample < 8 then
      .error (contiguousMessage photometric samplesperpixel bitspersample)
    else .ok (photometric,bitspersample)
  else if photometric = photometricYcbcr then
    -- the codec is asked to convert to RGB
    if ¬d.separate ∧ t.compression = compressionJpeg then .ok (photometricRgb,bitspersample)
    else .ok (photometric,bitspersample)
  else if photometric = photometricRgb then
    if colorchannels < 3 then .error s!"Sorry, can not handle RGB image with Color channels={colorchannels}"
    else .ok (photometric,bitspersample)
  else if photometric = photometricSeparated then
    if t.inkset ≠ inksetCmyk then .error s!"Sorry, can not handle separated image with InkSet={t.inkset}"
    else if samplesperpixel < 4 then
      .error s!"Sorry, can not handle separated image with Samples/pixel={samplesperpixel}"
    else .ok (photometric,bitspersample)
  else if photometric = photometricLogl then
    if t.compression ≠ compressionSgilog then .error s!"Sorry, LogL data must have Compression={compressionSgilog}"
    else .ok (photometricMinisblack,8)
  else if photometric = photometricLogluv then
    if t.compression ≠ compressionSgilog ∧ t.compression ≠ compressionSgilog24 then
      .error s!"Sorry, LogLuv data must have Compression={compressionSgilog} or {compressionSgilog24}"
    else if d.separate then .error "Sorry, can not handle LogLuv images with Planarconfiguration=2"
    else .ok (photometricRgb,8)
  else if photometric = photometricCielab then .ok (photometric,bitspersample)
  else .error s!"Sorry, can not handle image with {photoTag}={photometric}"

end

/-- The put routines of the colour spaces that need a conversion of their own. -/
structure Conversions where
  ycbcr : Option PutRoutine
  cielab : Option PutRoutine
  ycbcrSeparate : Option ((ℕ → ℕ) → PutRoutine)

/-- A routine that needs a table of its own. -/
def withTable {α : Type} (memory : Bool) (put : α) : Option α := if memory then some put else none

section pick
variable (conversions : Conversions) (memory : Bool) (photometric bitspersample samplesperpixel alpha : ℕ) (cmap : Colormap)

/-- `PickContigCase` -/
def pickContigCase : Option PutRoutine :=
  let bwMap := makebwmap (setupMap photometric bitspersample) bitspersample
  let palMap := makecmap (buildColormap bitspersample cmap) bitspersample
  if photometric = photometricRgb then
    if bitspersample = 8 then
      if alpha = extrasampleAssocalpha then some (putRGBAAcontig8bittile samplesperpixel)
      else if alpha = extrasampleUnassalpha then withTable memory (putRGBUAcontig8bittile samplesperpixel buildMapUaToAa)
      else some (putRGBcontig8bittile samplesperpixel)
    else if bitspersample = 16 then
      if alpha = extrasampleAssocalpha then
        withTable memory (putRGBAAcontig16bittile samplesperpixel buildMapBitdepth16To8)
      else if alpha = extrasampleUnassalpha then
        withTable memory (putRGBUAcontig16bittile samplesperpixel buildMapUaToAa buildMapBitdepth16To8)
      else withTable memory (putRGBcontig16bittile samplesperpixel buildMapBitdepth16To8)
    else none
  else if photometric = photometricSeparated then
    -- with eight bits there is no `Map`
    if bitspersample = 8 then some (putRGBcontig8bitCMYKtile samplesperpixel) else none
  else if photometric = photometricPalette then
    if bitspersample = 8 then withTable memory (put8bitcmaptile samplesperpixel palMap)
    else if bitspersample = 4 then withTable memory (put4bitcmaptile palMap)
    else if bitspersample = 2 then withTable memory (put2bitcmaptile palMap)
    else if bitspersample = 1 then withTable memory (put1bitcmaptile palMap)
    else none
  else if photometric = photometricMiniswhite ∨ photometric = photometricMinisblack then
    if bitspersample = 16 then withTable memory (put16bitbwtile samplesperpixel bwMap)
    else if bitspersample = 8 then
      if alpha ≠ 0 ∧ samplesperpixel = 2 then withTable memory (putagreytile samplesperpixel bwMap)
      else withTable memory (putgreytile samplesperpixel bwMap)
    else if bitspersample = 4 then withTable memory (put4bitbwtile bwMap)
    else if bitspersample = 2 then withTable memory (put2bitbwtile bwMap)
    else if bitspersample = 1 then withTable memory (put1bitbwtile bwMap)
    else none
  else if photometric = photometricYcbcr then
    if bitspersample = 8 ∧ samplesperpixel = 3 then conversions.ycbcr else none
  else if photometric = photometricCielab then
    if bitspersample = 8 then conversions.cielab else none
  else none

/-- `PickSeparateCase`: the routine and `img->alpha`. -/
def pickSeparateCase : Option (((ℕ → ℕ) → PutRoutine) × ℕ) :=
  if photometric = photometricMiniswhite ∨ photometric = photometricMinisblack ∨ photometric = photometricRgb then
    if bitspersample = 8 then
      if alpha = extrasampleAssocalpha then some (putRGBAAseparate8bittile,alpha)
      else if alpha = extrasampleUnassalpha then
        withTable memory (fun plane => putRGBUAseparate8bittile plane buildMapUaToAa,alpha)
      else some (putRGBseparate8bittile,alpha)
    else if bitspersample = 16 then
      if alpha = extrasampleAssocalpha then
        withTable memory (fun plane => putRGBAAseparate16bittile plane buildMapBitdepth16To8,alpha)
      else if alpha = extrasampleUnassalpha then
        withTable memory (fun plane => putRGBUAseparate16bittile plane buildMapUaToAa buildMapBitdepth16To8,alpha)
      else withTable memory (fun plane => putRGBseparate16bittile plane buildMapBitdepth16To8,alpha)
    else none
  else if photometric = photometricSeparated then
    if bitspersample = 8 ∧ samplesperpixel = 4 then some (putCMYKseparate8bittile,1) else none
  else if photometric = photometricYcbcr then
    if bitspersample = 8 ∧ samplesperpixel = 3 then conversions.ycbcrSeparate.map fun put => (put,alpha) else none
  else none

end pick

/-- `TIFFRGBAImageBegin` -/
def rgbaImageBegin (conversions : Conversions) (memory : Bool) (d : Directory) (t : Tags) (stop : Bool) :
    Except String (RGBAImage × Put) :=
  if ¬knownBits d.bitspersample.toNat then .error (bitsMessage d.bitspersample.toNat)
  else do
    let photometric ← taggedPhotometric d t
    let (photometric,bitspersample) ← photometricOf d t memory photometric
    let alpha := (alphaOf d t).1
    let cmap := t.colormap.getD ⟨[],[],[]⟩
    let img : RGBAImage := ⟨d.imagewidth,d.imagelength,d.samplesperpixel,alpha,photometric,t.orientation,
      orientationBotLeft,stop,0,0⟩
    let failed := .error "Sorry, can not handle image"
    if d.separate ∧ 1 < d.samplesperpixel.toNat then
      match pickSeparateCase conversions memory photometric bitspersample d.samplesperpixel.toNat alpha with
      | some (put,alpha) => .ok ({ img with alpha := alpha },.separate put)
      | none => failed
    else
      match pickContigCase conversions memory photometric bitspersample d.samplesperpixel.toNat alpha cmap with
      | some put => .ok (img,.contig put)
      | none => failed

section read
variable {σ : Type} (m : DataModel) (conversions : Conversions) (memory tiled : Bool) (d : Directory) (t : Tags)
variable (read : ReadEncoded σ) (room : ℤ → Bool) (turns : ℕ)

/-- `TIFFReadRGBAImageOriented`, with the message of a failure to the error handler left to it; there is no result where
the raster begins outside of its block. -/
def readRGBAImageOriented (rwidth rheight : UInt32) (raster : List Word) (orientation : ℕ) (stop : Bool) (file : σ) :
    Option (Bool × List Word × σ) :=
  match rgbaImageOK d t, rgbaImageBegin conversions memory d t stop with
  | .ok (), .ok (img,put) =>
    let img := { img with reqOrientation := orientation }
    let start := ((rheight - img.height) * rwidth).toNat
    if raster.length < start then none
    else do
      let (ok,shown,file) ← rgbaImageGet m d img read room turns tiled put (raster.drop start) rwidth img.height file
      some (ok,raster.take start ++ shown,file)
  | _, _ => some (false,raster,file)

end read

end TiffJni.Raster
