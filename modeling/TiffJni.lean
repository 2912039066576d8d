import TiffJni.Machine.FixedWidth
import TiffJni.Machine.Transcript
import TiffJni.Jni.InputStream
import TiffJni.Jni.Environment
import TiffJni.Stream.AdaptorContract
import TiffJni.Stream.ExceptionDiscipline
import TiffJni.Stream.TiffInputStream
import TiffJni.Stream.CallbackContract
import TiffJni.Stream.ReferenceFile
import TiffJni.Stream.SeekOutcomes
import TiffJni.Stream.ShortReads
import TiffJni.Image.NativeMemory
import TiffJni.Image.NativeEffects
import TiffJni.Image.TiffImage
import TiffJni.Image.DecodeEffects
import TiffJni.Image.Ownership
import TiffJni.Image.DecodeCalls
import TiffJni.Image.TiffImageJni
import TiffJni.Image.NativeCalls
import TiffJni.Image.StreamLifetime
import TiffJni.Image.Coherence
import TiffJni.Image.Ledger
import TiffJni.Image.BufferSizing
import TiffJni.Image.Handles
import TiffJni.Image.HandleLifecycle
import TiffJni.Image.ClientRefinement
import TiffJni.Stream.ChunkedReads
import TiffJni.Stream.RelativeSeeks
import TiffJni.Stream.MarkLimit
import TiffJni.Image.PixelConversion
import TiffJni.Image.DecodeReturns
import TiffJni.Image.PixelDelivery
import TiffJni.Codec.PackBitsRoundTrip
import TiffJni.Codec.PackBitsDecoding
import TiffJni.Raster.Numbering
import TiffJni.Raster.PutRoutines
import TiffJni.Raster.Orientation
import TiffJni.Reading.Packed
import TiffJni.Image.Rendering
