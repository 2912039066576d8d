import TiffJni.Image.TiffImage

/-! # The native methods of one Java object

Each method starts from the `TiffImage` its object's handle leads to, if any. A call
comes with what the VM answers it, and gives back the Java result and the image the
handle leads to afterwards.
-/
namespace TiffJni.Image
open FixedWidth Jni TiffJni.Stream Machine Native
variable {σ : Type}

inductive JavaException
  | illegalState
  | illegalArgument
  | outOfMemory
  | runtime
  deriving DecidableEq, Repr

inductive Response
  | void
  | value (v : ℤ)
  | intArray (elements : List Word)
  | null
  | threw (e : JavaException)
  deriving DecidableEq, Repr

/-- A path argument: whether its characters can be had, and the file behind it. -/
structure PathArgument where
  utfChars : Bool
  mapped : Bool
  opened : Option DecodeOutcome

structure StreamArgument (σ : Type) where
  stream : σ
  array : JByteArray
  opening : List Callback
  opened : Option DecodeOutcome

/-- Whether the `int[]` of a picture can be allocated and accessed. -/
structure ArrayOutcome where
  newIntArray : Bool
  getIntArrayElements : Bool

inductive NativeCall (σ : Type)
  | getWidth
  | getHeight
  | getSize
  | decode (path : Option PathArgument) (array : ArrayOutcome)
  | decodeStream (is : Option (StreamArgument σ)) (array : ArrayOutcome)
  | release

section Methods
variable (m : DataModel) (S : InputStream σ) (turns : ℕ)

def getterJNI (get : TiffImage → ℤ) : Option TiffImage → Response
  | none => .threw .illegalState
  | some tiffImage => .value (get tiffImage)

def getWidthJNI : Option TiffImage → Response := getterJNI fun tiffImage => tiffImage.getWidth

def getHeightJNI : Option TiffImage → Response := getterJNI fun tiffImage => tiffImage.getHeight

/-- The size goes from `unsigned long` to `jlong`. -/
def getSizeJNI : Option TiffImage → Response := getterJNI fun tiffImage => toSigned 64 tiffImage.getSize

def copyOut (data : ℕ) (size length : ℕ) : NativeProgram σ Response := do
  let block ← load NativeObject.pixelBuffer? data
  if block.bytes < size ∨ sizeofUnsignedInt * length < size then Program.stop .outOfBounds
  else return .intArray (block.words.take (size / sizeofUnsignedInt) ++
    List.replicate (length - size / sizeofUnsignedInt) 0)

/-- The array of `length` elements the two decode methods build from `size` bytes at `data`. -/
def buildArray (array : ArrayOutcome) (data size : ℕ) (length : ℤ) : NativeProgram σ Response :=
  if array.newIntArray ∧ 0 ≤ length then
    if array.getIntArrayElements then copyOut data size length.toNat
    else return .intArray (List.replicate length.toNat 0)
  else return .threw .outOfMemory

def toIntArray (tiffImage : TiffImage) (data : Option ℕ) (array : ArrayOutcome) : NativeProgram σ Response :=
  match data with
  | none => return .null
  | some data =>
    buildArray array data tiffImage.getSize (toSigned 32 (tiffImage.getSize / sizeofUnsignedInt : ℕ))

def decodeJNI (tiffImage : Option TiffImage) (path : Option PathArgument) (array : ArrayOutcome) :
    NativeProgram σ (Response × Option TiffImage) :=
  match tiffImage, path with
  | none, _ => return (.threw .illegalState,none)
  | some tiffImage, none => return (.threw .illegalArgument,some tiffImage)
  | some tiffImage, some path =>
    if path.utfChars then do
      let (data,tiffImage) ← tiffImage.decodePath m S turns path.mapped path.opened
      let response ← toIntArray tiffImage data array
      return (response,some tiffImage)
    else return (.threw .outOfMemory,some tiffImage)

def decodeStreamJNI (tiffImage : Option TiffImage) (is : Option (StreamArgument σ)) (array : ArrayOutcome) :
    NativeProgram σ (Response × Option TiffImage) :=
  match tiffImage, is with
  | none, _ => return (.threw .illegalState,none)
  | some tiffImage, none => return (.threw .illegalArgument,some tiffImage)
  | some tiffImage, some is => do
    let (data,tiffImage) ← tiffImage.decodeStream m S turns is.stream is.array is.opening is.opened
    let response ← toIntArray tiffImage data array
    return (response,some tiffImage)

/-- `setTiffImage` deletes what the handle leads to before it is overwritten. -/
def setTiffImage (old : Option TiffImage) : NativeProgram σ Unit :=
  match old with
  | none => return ()
  | some old => old.destroy m S turns

def nativeReleaseJNI (tiffImage : Option TiffImage) : NativeProgram σ (Response × Option TiffImage) := do
  setTiffImage m S turns tiffImage
  return (.void,none)

def perform (tiffImage : Option TiffImage) : NativeCall σ → NativeProgram σ (Response × Option TiffImage)
  | .getWidth => return (getWidthJNI tiffImage,tiffImage)
  | .getHeight => return (getHeightJNI tiffImage,tiffImage)
  | .getSize => return (getSizeJNI tiffImage,tiffImage)
  | .decode path array => decodeJNI m S turns tiffImage path array
  | .decodeStream is array => decodeStreamJNI m S turns tiffImage is array
  | .release => nativeReleaseJNI m S turns tiffImage

/-- One call of a sequence, with the state it was made in. -/
structure CallRecord (σ : Type) where
  call : NativeCall σ
  tiffImage : Option TiffImage
  before : Native σ
  result : Except Stop (Response × Option TiffImage) × Native σ

/-- The records of a sequence of calls on one object; it ends with a call that does not return. -/
def callRecords : List (NativeCall σ) → Option TiffImage → Native σ → List (CallRecord σ)
  | [], _, _ => []
  | call :: calls, tiffImage, n =>
    let result := perform m S turns tiffImage call n
    ⟨call,tiffImage,n,result⟩ ::
      match result with
      | (.error _,_) => []
      | (.ok r,n') => callRecords calls r.2 n'

/-- Every call of a sequence on a new object has the property `P`. -/
def EveryCall (P : CallRecord σ → Prop) (calls : List (NativeCall σ)) (n : Native σ) : Prop :=
  ∀ record ∈ callRecords m S turns calls (some TiffImage.new) n, P record

def runCalls : List (NativeCall σ) → Option TiffImage → NativeProgram σ (Option TiffImage)
  | [], tiffImage => return tiffImage
  | call :: calls, tiffImage => do
    let r ← perform m S turns tiffImage call
    runCalls calls r.2

end Methods

end TiffJni.Image
