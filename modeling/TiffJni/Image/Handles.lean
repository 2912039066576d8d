import TiffJni.Image.TiffImageJni

/-! # Java objects and their native handles

Every Java object keeps the address of its `TiffImage` in a `long` field, which native
code reaches through one field id that each construction looks up again. Addresses can
be handed out again once they are free, so a deleted image is told from the next one at
its address by a serial number.
-/
namespace TiffJni.Image
open FixedWidth Jni TiffJni.Stream Machine

structure JavaField where
  name : String
  signature : String
  deriving DecidableEq, Repr

/-- The instance fields of the class, in the order it declares them. -/
def declaredFields : List JavaField := [⟨"mNativeContext","J"⟩,⟨"mPath","Ljava/lang/String;"⟩]

/-- `GetFieldID`: an id is a position among the declared fields. -/
def getFieldID (name signature : String) : Option ℕ := declaredFields.findIdx? (· == ⟨name,signature⟩)

/-- Native code reads and writes no other field. -/
structure JavaObject where
  mNativeContext : ℤ
  deriving DecidableEq, Repr

structure LiveImage where
  serial : ℕ
  image : TiffImage
  deriving DecidableEq, Repr

/-- One process: `fields.context`, the Java objects in the order of their construction, the
live images by address, how many there have been, and the serial numbers of those deleted. -/
structure Process (σ : Type) where
  fieldsContext : Option ℕ
  objects : List JavaObject
  images : ℕ → Option LiveImage
  created : ℕ
  deleted : List ℕ
  native : Native σ

inductive ProcessStop
  | noObject
  | invalidField
  | deletedImage (address : ℕ)
  | native (stop : Stop)
  deriving DecidableEq, Repr

abbrev ProcessProgram (σ α : Type) := Program ProcessStop (Process σ) α

/-- What happens to Java objects. A construction comes with the address its image gets; a call
is one of a native method, `release` included. -/
inductive Operation (σ : Type)
  | construct (address : ℕ)
  | call (thiz : ℕ) (call : NativeCall σ)
  | finalize (thiz : ℕ)

namespace Process
variable {σ α : Type} (m : DataModel) (S : InputStream σ) (turns : ℕ)

def initial (n : Native σ) : Process σ := ⟨none,[],fun _ => none,0,[],n⟩

def findField (thiz : ℕ) (field : Option ℕ) : ProcessProgram σ JavaObject := fun s =>
  match s.objects[thiz]? with
  | none => (.error .noObject,s)
  | some object =>
    if field = getFieldID "mNativeContext" "J" then (.ok object,s) else (.error .invalidField,s)

def getLongField (thiz : ℕ) (field : Option ℕ) : ProcessProgram σ ℤ := do
  let object ← findField thiz field
  return object.mNativeContext

def setLongField (thiz : ℕ) (field : Option ℕ) (value : ℤ) : ProcessProgram σ Unit := do
  let object ← findField thiz field
  Program.modify fun s => { s with objects := s.objects.set thiz { object with mNativeContext := value } }

/-- A `jlong` cast to a pointer; `none` is the null pointer. -/
def toPointer (handle : ℤ) : Option ℕ := if m.toSizeT handle = 0 then none else some (m.toSizeT handle)

def getTiffImage (thiz : ℕ) : ProcessProgram σ (Option ℕ) := do
  let s ← Program.get
  let handle ← getLongField thiz s.fieldsContext
  return toPointer m handle

def onNative (p : NativeProgram σ α) : ProcessProgram σ α :=
  p.zoom native (fun n s => { s with native := n }) .native

def loadTiffImage (address : ℕ) : ProcessProgram σ LiveImage := fun s =>
  match s.images address with
  | none => (.error (.deletedImage address),s)
  | some live => (.ok live,s)

/-- `new TiffImage()`; an allocator does not answer with an address that is taken. -/
def newTiffImage (address : ℕ) : ProcessProgram σ (Option ℕ) := fun s =>
  if 0 < address ∧ address < 2 ^ m.longBits ∧ (s.images address).isNone then
    (.ok (some address),{ s with
      images := Function.update s.images address (some ⟨s.created,TiffImage.new⟩)
      created := s.created + 1 })
  else (.ok none,s)

def deleteTiffImage (address : ℕ) : ProcessProgram σ Unit := do
  let live ← loadTiffImage address
  onNative (live.image.destroy m S turns)
  Program.modify fun s => { s with
    images := Function.update s.images address none
    deleted := live.serial :: s.deleted }

def setTiffImage (thiz : ℕ) (tiffImage : ℤ) : ProcessProgram σ Unit := do
  let old ← getTiffImage m thiz
  match old with
  | none => pure ()
  | some old => deleteTiffImage m S turns old
  let s ← Program.get
  setLongField thiz s.fieldsContext tiffImage

def nativeReleaseJNI (thiz : ℕ) : ProcessProgram σ Response := do
  setTiffImage m S turns thiz 0
  return .void

def nativeSetupJNI (thiz address : ℕ) : ProcessProgram σ Response := do
  Program.modify fun s => { s with fieldsContext := getFieldID "mNativeContext" "J" }
  let s ← Program.get
  match s.fieldsContext with
  | none => return .void
  | some _ => do
    let tiffImage ← newTiffImage m address
    match tiffImage with
    | none => return .threw .runtime
    | some tiffImage => do
      setTiffImage m S turns thiz (m.toLong tiffImage)
      return .void

def imageMethodJNI (thiz : ℕ) (call : NativeCall σ) : ProcessProgram σ Response := do
  let tiffImage ← getTiffImage m thiz
  match tiffImage with
  | none => do
    let r ← onNative (perform m S turns none call)
    return r.1
  | some address => do
    let live ← loadTiffImage address
    let r ← onNative (perform m S turns (some live.image) call)
    Program.modify fun s =>
      { s with images := Function.update s.images address (r.2.map fun image => ⟨live.serial,image⟩) }
    return r.1

def callJNI (thiz : ℕ) : NativeCall σ → ProcessProgram σ Response
  | .release => nativeReleaseJNI m S turns thiz
  | call => imageMethodJNI m S turns thiz call

/-- The Java allocation that precedes a constructor: the fields of a new object are zero. -/
def newObject : ProcessProgram σ ℕ := fun s =>
  (.ok s.objects.length,{ s with objects := s.objects ++ [⟨0⟩] })

/-- One operation. A failed construction leaves an object that can still be finalized. -/
def execute : Operation σ → ProcessProgram σ Response
  | .construct address => do
    let thiz ← newObject
    nativeSetupJNI m S turns thiz address
  | .call thiz call => callJNI m S turns thiz call
  | .finalize thiz => nativeReleaseJNI m S turns thiz

def runOperations (ops : List (Operation σ)) : ProcessProgram σ Unit :=
  Program.each (fun op => execute m S turns op >>= fun _ => pure ()) ops

end Process

def Operation.releases {σ : Type} (thiz : ℕ) : Operation σ → Prop
  | .call object .release => object = thiz
  | .finalize object => object = thiz
  | _ => False

end TiffJni.Image
