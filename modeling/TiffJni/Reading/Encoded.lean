import TiffJni.Codec.PackBits
import TiffJni.Raster.GetRoutines
import TiffJni.Stream.ReferenceFile

/-! # Strips and tiles from a file

`tif_read.c`, for a file that is not mapped into memory: a strip or tile is read as a whole into
the raw data buffer, which grows where it is too small, and decoded from there into the buffer of the
caller. The file is reached through the client procedures.
-/
namespace TiffJni.Reading
open FixedWidth Raster TiffJni.Stream Transcript Codec

def bitRevTable : List UInt8 :=
  [0x00,0x80,0x40,0xc0,0x20,0xa0,0x60,0xe0,0x10,0x90,0x50,0xd0,0x30,0xb0,0x70,0xf0,
   0x08,0x88,0x48,0xc8,0x28,0xa8,0x68,0xe8,0x18,0x98,0x58,0xd8,0x38,0xb8,0x78,0xf8,
   0x04,0x84,0x44,0xc4,0x24,0xa4,0x64,0xe4,0x14,0x94,0x54,0xd4,0x34,0xb4,0x74,0xf4,
   0x0c,0x8c,0x4c,0xcc,0x2c,0xac,0x6c,0xec,0x1c,0x9c,0x5c,0xdc,0x3c,0xbc,0x7c,0xfc,
   0x02,0x82,0x42,0xc2,0x22,0xa2,0x62,0xe2,0x12,0x92,0x52,0xd2,0x32,0xb2,0x72,0xf2,
   0x0a,0x8a,0x4a,0xca,0x2a,0xaa,0x6a,0xea,0x1a,0x9a,0x5a,0xda,0x3a,0xba,0x7a,0xfa,
   0x06,0x86,0x46,0xc6,0x26,0xa6,0x66,0xe6,0x16,0x96,0x56,0xd6,0x36,0xb6,0x76,0xf6,
   0x0e,0x8e,0x4e,0xce,0x2e,0xae,0x6e,0xee,0x1e,0x9e,0x5e,0xde,0x3e,0xbe,0x7e,0xfe,
   0x01,0x81,0x41,0xc1,0x21,0xa1,0x61,0xe1,0x11,0x91,0x51,0xd1,0x31,0xb1,0x71,0xf1,
   0x09,0x89,0x49,0xc9,0x29,0xa9,0x69,0xe9,0x19,0x99,0x59,0xd9,0x39,0xb9,0x79,0xf9,
   0x05,0x85,0x45,0xc5,0x25,0xa5,0x65,0xe5,0x15,0x95,0x55,0xd5,0x35,0xb5,0x75,0xf5,
   0x0d,0x8d,0x4d,0xcd,0x2d,0xad,0x6d,0xed,0x1d,0x9d,0x5d,0xdd,0x3d,0xbd,0x7d,0xfd,
   0x03,0x83,0x43,0xc3,0x23,0xa3,0x63,0xe3,0x13,0x93,0x53,0xd3,0x33,0xb3,0x73,0xf3,
   0x0b,0x8b,0x4b,0xcb,0x2b,0xab,0x6b,0xeb,0x1b,0x9b,0x5b,0xdb,0x3b,0xbb,0x7b,0xfb,
   0x07,0x87,0x47,0xc7,0x27,0xa7,0x67,0xe7,0x17,0x97,0x57,0xd7,0x37,0xb7,0x77,0xf7,
   0x0f,0x8f,0x4f,0xcf,0x2f,0xaf,0x6f,0xef,0x1f,0x9f,0x5f,0xdf,0x3f,0xbf,0x7f,0xff]

def reverseBits (cp : List UInt8) : List UInt8 := cp.map fun b => bitRevTable.getD b.toNat 0

def swabArrayOfShort : List UInt8 → List UInt8
  | a :: b :: wp => b :: a :: swabArrayOfShort wp
  | wp => wp

/-- The `tif_decodestrip` and `tif_decodetile` of a codec, on the bytes of the raw data buffer from `tif_rawcp` on: whether it
succeeded and the bytes it wrote. There is no result where it reads outside of the buffer. -/
abbrev Decoder := List UInt8 → ℤ → ℤ → Option (Bool × List UInt8)

def packBitsDecoder (charSigned : Bool) : Decoder := fun rawcp rawcc occ =>
  (packBitsDecode charSigned rawcp rawcc occ.toNat).map fun decoded => (decoded.occ = 0,decoded.written)

structure Source (ε τ : Type) where
  m : DataModel
  d : Directory
  stripoffset : List UInt64
  /-- `td_stripbytecount`, which may be `NULL` -/
  stripbytecount : Option (List UInt64)
  /-- `!isFillOrder(tif, td->td_fillorder)` and not `TIFF_NOBITREV` -/
  reversed : Bool
  /-- `TIFF_SWAB` -/
  swabbed : Bool
  decoder : Decoder
  /-- A block of a size, of any content, if there is one. -/
  malloc : ℤ → Option (List UInt8)
  calls : Server ε FileCall Answer τ

/-- `tif_rawdata`, of `tif_rawdatasize` bytes, and the state of the client. -/
structure Tif (τ : Type) where
  rawdata : List UInt8
  client : τ

namespace Source
variable {ε τ : Type} (s : Source ε τ)

/-- `tif_postdecode` is `_TIFFSwab16BitData`. -/
def swab : Bool := s.swabbed ∧ s.d.bitspersample = 16

def seekOK (offset : UInt64) (tif : Tif τ) : Option (Bool × Tif τ) :=
  match s.calls.call tif.client (.seek offset) with
  | .ok (.offset result,client) => some (result = offset,{ tif with client := client })
  | _ => none

/-- `TIFFReadRawStrip1` and `TIFFReadRawTile1`, into the raw data buffer. -/
def readRaw1 (offset : UInt64) (size : ℕ) (tif : Tif τ) : Option (Bool × Tif τ) := do
  let (ok,tif) ← s.seekOK offset tif
  if ok then
    match s.calls.call tif.client (.read size) with
    | .ok (.bytes cc buffer,client) =>
      if tif.rawdata.length < buffer.length then none
      else some (cc = size,⟨buffer ++ tif.rawdata.drop buffer.length,client⟩)
    | _ => none
  else some (false,tif)

/-- `TIFFReadBufferSetup` without a buffer. -/
def readBufferSetup (size : ℤ) (tif : Tif τ) : Bool × Tif τ :=
  let rawdatasize := s.m.toLong (howmany64 (UInt64.ofNat (toUnsigned 64 size)) 1024 * 1024).toNat
  if rawdatasize = 0 then (false,{ tif with rawdata := [] })
  else
    match s.malloc rawdatasize with
    | none => (false,{ tif with rawdata := [] })
    | some rawdata => (true,{ tif with rawdata := rawdata })

/-- `bytecountm` of a byte count that is positive and a `tmsize_t`. -/
def bytecountm (bytecount : UInt64) : Option ℤ :=
  if toSigned 64 bytecount.toNat ≤ 0 then none
  else if toUnsigned 64 (s.m.toLong bytecount.toNat) ≠ bytecount.toNat then none
  else some (s.m.toLong bytecount.toNat)

def expand (bytecountm : ℤ) (tif : Tif τ) : Bool × Tif τ :=
  if tif.rawdata.length < bytecountm then s.readBufferSetup bytecountm tif else (true,tif)

def reorder (bytecountm : ℕ) (tif : Tif τ) : Tif τ :=
  if s.reversed then { tif with rawdata := reverseBits (tif.rawdata.take bytecountm) ++ tif.rawdata.drop bytecountm }
  else tif

def fillRaw (number : UInt32) (bytecountm : ℤ) (tif : Tif τ) : Option (Option ℤ × Tif τ) :=
  let expanded := s.expand bytecountm tif
  if expanded.1 then do
    let offset ← s.stripoffset[number.toNat]?
    let (ok,tif) ← s.readRaw1 offset bytecountm.toNat expanded.2
    some (if ok then (some bytecountm,s.reorder bytecountm.toNat tif) else (none,tif))
  else some (none,expanded.2)

/-- `TIFFFillStrip` and `TIFFFillTile` without the start of the decoder: `tif_rawcc` of a strip or tile that was read. -/
def fill (number : UInt32) (tif : Tif τ) : Option (Option ℤ × Tif τ) :=
  match s.stripbytecount with
  | none => some (none,tif)
  | some stripbytecount => do
    let bytecount ← stripbytecount[number.toNat]?
    match s.bytecountm bytecount with
    | none => some (none,tif)
    | some bytecountm => s.fillRaw number bytecountm tif

/-- `_TIFFSwab16BitData`, where it is needed; it asserts that there are whole samples. -/
def postdecode (cc : ℤ) (buf : List UInt8) : Option (List UInt8) :=
  if s.swab then
    if cc % 2 = 0 then some (swabArrayOfShort (buf.take cc.toNat) ++ buf.drop cc.toNat) else none
  else some buf

/-- Decode from the start of the raw data buffer into the first bytes of `buf`, and swap the bytes of samples. -/
def decode (rawcc cc : ℤ) (buf : List UInt8) (tif : Tif τ) : Option (Bool × List UInt8 × Tif τ) := do
  let (ok,written) ← s.decoder tif.rawdata rawcc cc
  if buf.length < written.length then none
  else
    let buf := written ++ buf.drop written.length
    if ok then (s.postdecode cc buf).map fun buf => (true,buf,tif) else some (false,buf,tif)

/-- The rows of a strip; the last strip of each plane may be truncated. -/
def stripRows (strip : UInt32) : Option UInt32 :=
  let rowsperstrip := if s.d.imagelength < s.d.rowsperstrip then s.d.imagelength else s.d.rowsperstrip
  if rowsperstrip = 0 then none
  else
    let stripsperplane := (s.d.imagelength + rowsperstrip - 1) / rowsperstrip
    if stripsperplane = 0 then none
    else
      let stripinplane := strip % stripsperplane
      let rows := s.d.imagelength - stripinplane * rowsperstrip
      some (if rowsperstrip < rows then rowsperstrip else rows)

def decodeStrip (strip : UInt32) (stripsize : ℤ) (buf : List UInt8) (tif : Tif τ) : Option (Bool × List UInt8 × Tif τ) := do
  let (filled,tif) ← s.fill strip tif
  match filled with
  | none => some (false,buf,tif)
  | some rawcc => if s.d.stripsperimage = 0 then none else s.decode rawcc stripsize buf tif

def readEncodedStrip : ReadEncoded (Tif τ) := fun strip size buf tif =>
  if s.d.nstrips ≤ strip then some (false,buf,tif)
  else do
    let rows ← s.stripRows strip
    let stripsize := s.d.vStripSize s.m rows
    if stripsize = 0 then some (false,buf,tif)
    else
      let stripsize := if size ≠ -1 ∧ size < stripsize then size else stripsize
      let (ok,buf,tif) ← s.decodeStrip strip stripsize buf tif
      some (ok && stripsize ≠ -1,buf,tif)

/-- `TIFFFillTile` with `TIFFStartTile`, and the decoder. -/
def decodeTile (tile : UInt32) (size : ℤ) (buf : List UInt8) (tif : Tif τ) : Option (Bool × List UInt8 × Tif τ) := do
  let (filled,tif) ← s.fill tile tif
  match filled with
  | none => some (false,buf,tif)
  | some rawcc =>
    if howmany32 s.d.imagewidth s.d.tilewidth = 0 ∨ howmany32 s.d.imagelength s.d.tilelength = 0 then some (false,buf,tif)
    else if s.d.stripsperimage = 0 then none
    else s.decode rawcc size buf tif

/-- `TIFFReadEncodedTile`, `tif_tilesize` being what `TIFFTileSize` gave for the directory. -/
def readEncodedTile : ReadEncoded (Tif τ) := fun tile size buf tif =>
  let tilesize := s.d.tileSize s.m
  if s.d.nstrips ≤ tile then some (false,buf,tif)
  else do
    let size := if size = -1 ∨ tilesize < size then tilesize else size
    let (ok,buf,tif) ← s.decodeTile tile size buf tif
    some (ok && size ≠ -1,buf,tif)

def readEncoded (tiled : Bool) : ReadEncoded (Tif τ) := if tiled then s.readEncodedTile else s.readEncodedStrip

end Source

end TiffJni.Reading
