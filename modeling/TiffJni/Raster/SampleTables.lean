import TiffJni.Raster.GetRoutines

/-! # Tables of samples

The tables that the put routines look samples up in: greys and colours for the samples of a
byte, and the two tables that bring alpha and 16-bit samples to eight bits. Packed samples come
out of a byte from its high bits on, and a photometric map is a stretch of the range of the samples
to the range of a byte, upside down where white is zero.
-/
namespace TiffJni.Raster

/-- The samples of a byte as `makebwmap` and `makecmap` unpack it, which is one sample from eight bits on. -/
def samplesOf (bitspersample i : ℕ) : List ℕ :=
  match bitspersample with
  | 1 => [i >>> 7,(i >>> 6) &&& 1,(i >>> 5) &&& 1,(i >>> 4) &&& 1,(i >>> 3) &&& 1,(i >>> 2) &&& 1,(i >>> 1) &&& 1,i &&& 1]
  | 2 => [i >>> 6,(i >>> 4) &&& 3,(i >>> 2) &&& 3,i &&& 3]
  | 4 => [i >>> 4,i &&& 0xf]
  | 8 => [i]
  | 16 => [i]
  | _ => []

/-- The greatest sample; 16 bits are treated the same as eight. -/
def sampleRange (bitspersample : ℕ) : ℕ := if bitspersample = 16 then 255 else 2 ^ bitspersample - 1

def setupMap (photometric bitspersample x : ℕ) : UInt8 :=
  if photometric = photometricMiniswhite then
    UInt8.ofNat ((sampleRange bitspersample - x) * 255 / sampleRange bitspersample)
  else UInt8.ofNat (x * 255 / sampleRange bitspersample)

def grey (c : UInt8) : Word := pack (ofByte c) (ofByte c) (ofByte c)

def makebwmap (map : ℕ → UInt8) (bitspersample : ℕ) : SampleMap :=
  fun i k => ((samplesOf bitspersample i)[k]?.map fun x => grey (map x)).getD 0

/-- The colour map of a palette image; every list has an entry for each sample. -/
structure Colormap where
  red : List ℕ
  green : List ℕ
  blue : List ℕ
  deriving DecidableEq, Repr

def checkcmap (bitspersample : ℕ) (cmap : Colormap) : ℕ :=
  if (List.range (2 ^ bitspersample)).any fun n =>
    256 ≤ cmap.red.getD n 0 ∨ 256 ≤ cmap.green.getD n 0 ∨ 256 ≤ cmap.blue.getD n 0 then 16 else 8

def cvtcmap (cmap : Colormap) : Colormap :=
  ⟨cmap.red.map (· >>> 8),cmap.green.map (· >>> 8),cmap.blue.map (· >>> 8)⟩

def paletteWord (cmap : Colormap) (c : ℕ) : Word :=
  let entry := fun l : List ℕ => BitVec.ofNat 32 (l.getD c 0 &&& 0xff)
  pack (entry cmap.red) (entry cmap.green) (entry cmap.blue)

def makecmap (cmap : Colormap) (bitspersample : ℕ) : SampleMap :=
  fun i k => ((samplesOf bitspersample i)[k]?.map (paletteWord cmap)).getD 0

/-- The colour map as `buildMap` leaves it: of eight bits. -/
def buildColormap (bitspersample : ℕ) (cmap : Colormap) : Colormap :=
  if checkcmap bitspersample cmap = 16 then cvtcmap cmap else cmap

/-- `img->UaToAa`, at `na * 256 + nv` -/
def buildMapUaToAa (i : ℕ) : UInt8 := UInt8.ofNat ((i % 256 * (i / 256) + 127) / 255)

def buildMapBitdepth16To8 (n : ℕ) : UInt8 := UInt8.ofNat ((n + 128) / 257)

end TiffJni.Raster
