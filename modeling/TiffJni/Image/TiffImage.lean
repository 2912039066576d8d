import TiffJni.Image.NativeMemory

/-! # Decoding a file into a pixel buffer

The methods of `TiffImage`, statement by statement. The object is passed by value:
nothing but its own methods reads or writes its members. What libtiff, the allocator
and the opened file answer is given with each call.
-/
namespace TiffJni.Image
open FixedWidth Jni TiffJni.Stream Machine Native

structure TiffImage where
  buffer : Option ℕ
  bufferSize : ℕ
  width : ℤ
  height : ℤ
  javaInputStreamAdaptor : Option ℕ
  tiffInputStream : Option ℕ
  deriving DecidableEq, Repr

/-- What happens below `decode` once a file is open. An open file has both dimensions:
`TIFFReadDirectory` refuses a directory without them. -/
structure DecodeOutcome where
  imageWidth : UInt32
  imageLength : UInt32
  mallocSucceeds : Bool
  uninitialized : ℕ → Word
  reading : List Callback
  readSucceeds : Bool
  written : ℕ
  raster : ℕ → Word

namespace DecodeOutcome
variable (m : DataModel) (d : DecodeOutcome)

def pixels : ℕ := d.imageWidth.toNat * d.imageLength.toNat

/-- The `width` member after `TIFFGetField`, which stores an unsigned value into an `int`. -/
def width : ℤ := toSigned 32 d.imageWidth.toNat

def height : ℤ := toSigned 32 d.imageLength.toNat

def bufferSize : ℕ := bufferSizeOf m d.width d.height

/-- The words written for an image of the given size: all of them, or some when reading fails. -/
def writtenWords (rwidth rheight : ℕ) : List Word :=
  (List.range (if d.readSucceeds then rwidth * rheight else min d.written (rwidth * rheight))).map d.raster

/-- `_TIFFmalloc` answers a block: not for zero bytes. -/
def Allocates : Prop := d.mallocSucceeds = true ∧ d.bufferSize m ≠ 0

instance : Decidable (d.Allocates m) := inferInstanceAs (Decidable (_ ∧ _))

def Succeeds : Prop := d.Allocates m ∧ d.readSucceeds = true

instance : Decidable (d.Succeeds m) := inferInstanceAs (Decidable (_ ∧ _))

variable {m : DataModel} {d : DecodeOutcome} {block : PixelBuffer}

theorem bufferSize_eq_iff : d.bufferSize m = sizeofUnsignedInt * d.pixels ↔ SizeFits m d.pixels :=
  bufferSizeOf_eq_iff m d.imageWidth.toNat d.imageLength.toNat

theorem toUnsigned_width : toUnsigned 32 d.width = d.imageWidth.toNat := by
  rw [width, toUnsigned_toSigned]
  exact toUnsigned_of_lt d.imageWidth.toNat_lt

theorem toUnsigned_height : toUnsigned 32 d.height = d.imageLength.toNat := by
  rw [height, toUnsigned_toSigned]
  exact toUnsigned_of_lt d.imageLength.toNat_lt

theorem not_allocates_iff : ¬d.Allocates m ↔ d.mallocSucceeds = false ∨ SizeVanishes m d.pixels := by
  have hzero : d.bufferSize m = 0 ↔ SizeVanishes m d.pixels :=
    bufferSizeOf_eq_zero_iff m d.imageWidth.toNat d.imageLength.toNat
  rw [← hzero, Allocates, not_and_or, Bool.not_eq_true, not_not]

theorem words_of_bytes (hfits : SizeFits m d.pixels) (hbytes : block.bytes = d.bufferSize m) :
    block.words.length = d.pixels := by
  rw [block.length_words, hbytes, bufferSize_eq_iff.mpr hfits, sizeofUnsignedInt]
  omega

theorem writtenWords_length_le (rwidth rheight : ℕ) : (d.writtenWords rwidth rheight).length ≤ rwidth * rheight := by
  rw [writtenWords, List.length_map, List.length_range]
  split <;> omega

theorem write_of_fits (hfits : SizeFits m d.pixels) (hbytes : block.bytes = d.bufferSize m) :
    ∃ block', block.write (d.writtenWords (toUnsigned 32 d.width) (toUnsigned 32 d.height)) = some block' := by
  refine PixelBuffer.write_of_le ?_
  rw [words_of_bytes hfits hbytes, toUnsigned_width, toUnsigned_height]
  exact d.writtenWords_length_le _ _

theorem convert_of_fits (hfits : SizeFits m d.pixels) (hbytes : block.bytes = d.bufferSize m) :
    ∃ block', block.convert d.width d.height = some block' := by
  refine PixelBuffer.convert_of_inside ?_
  intro index hmem
  rw [words_of_bytes hfits hbytes]
  exact conversionIndices_inside d.imageWidth.toNat_lt d.imageLength.toNat_lt hfits hmem

end DecodeOutcome

namespace TiffImage
variable {σ : Type} (m : DataModel) (S : InputStream σ) (turns : ℕ)

def new : TiffImage := ⟨none,0,0,0,none,none⟩

def getWidth (image : TiffImage) : ℤ := image.width

def getHeight (image : TiffImage) : ℤ := image.height

def getSize (image : TiffImage) : ℕ := image.bufferSize

/-- libtiff reads through its client, then writes the raster without knowing the block's size. -/
def readRGBAImageOriented (tif rwidth rheight raster : ℕ) (d : DecodeOutcome) : NativeProgram σ Bool := do
  record (.readRGBAImageOriented rwidth rheight raster)
  serve m S turns tif d.reading
  let block ← load NativeObject.pixelBuffer? raster
  match block.write (d.writtenWords rwidth rheight) with
  | none => Program.stop .outOfBounds
  | some block =>
    store raster (.pixelBuffer block)
    return d.readSucceeds

def convertBuffer (width height : ℤ) (buffer : ℕ) : NativeProgram σ Unit := do
  let block ← load NativeObject.pixelBuffer? buffer
  match block.convert width height with
  | none => Program.stop .outOfBounds
  | some block => store buffer (.pixelBuffer block)

/-- The part of `decode(TIFF*)` behind the allocation. -/
def fillBuffer (image : TiffImage) (tif : ℕ) (d : DecodeOutcome) : Option ℕ → NativeProgram σ TiffImage
  | none => return { image with buffer := none }
  | some buffer => do
    let ok ← readRGBAImageOriented m S turns tif (toUnsigned 32 image.width) (toUnsigned 32 image.height) buffer d
    if ok then
      convertBuffer image.width image.height buffer
      return { image with buffer := some buffer }
    else
      delete NativeObject.pixelBuffer? buffer
      return { image with buffer := none }

def decodeTiff (image : TiffImage) (tif : ℕ) (d : DecodeOutcome) : NativeProgram σ TiffImage := do
  let image := { image with width := d.width, height := d.height }
  let image := { image with bufferSize := bufferSizeOf m image.width image.height }
  let buffer ← tiffMalloc image.bufferSize d.mallocSucceeds d.uninitialized
  fillBuffer m S turns image tif d buffer

/-- `decode(const char*)`: `opened` is what is found behind the path, if `TIFFOpen` succeeds. -/
def decodePath (image : TiffImage) (mapped : Bool) (opened : Option DecodeOutcome) :
    NativeProgram σ (Option ℕ × TiffImage) := do
  let tif ← tiffOpen mapped opened.isSome
  match tif, opened with
  | some tif, some d =>
    let image ← decodeTiff m S turns image tif d
    tiffClose m S turns tif
    return (image.buffer,image)
  | _, _ => return (none,image)

/-- `decode(JNIEnv*, jobject, jbyteArray)`; the pointers of an earlier call are overwritten. -/
def decodeStream (image : TiffImage) (stream : σ) (array : JByteArray) (opening : List Callback)
    (opened : Option DecodeOutcome) : NativeProgram σ (Option ℕ × TiffImage) := do
  let adaptor ← Native.new (.javaInputStreamAdaptor (.new (JNIEnv.enter stream array)))
  let image := { image with javaInputStreamAdaptor := some adaptor }
  let ts ← Native.new (.tiffInputStream .new)
  let image := { image with tiffInputStream := some ts }
  let tif ← makeFileStream m S turns ts adaptor opening opened.isSome
  match tif, opened with
  | some tif, some d =>
    let image ← decodeTiff m S turns image tif d
    return (image.buffer,image)
  | _, _ => return (none,image)

def ifNotNull (p : Option ℕ) (f : ℕ → NativeProgram σ Unit) : NativeProgram σ Unit :=
  match p with
  | none => pure ()
  | some p => f p

/-- `~TiffImage`, in the order of its three tests. -/
def destroy (image : TiffImage) : NativeProgram σ Unit := do
  ifNotNull image.buffer (delete NativeObject.pixelBuffer?)
  ifNotNull image.javaInputStreamAdaptor (delete NativeObject.javaInputStreamAdaptor?)
  ifNotNull image.tiffInputStream (deleteTiffInputStream m S turns)

end TiffImage

end TiffJni.Image
