import TiffJni.Machine.Program
import TiffJni.Machine.Heap
import TiffJni.Stream.TiffInputStream
import TiffJni.Image.PixelBuffer

/-! # Native objects behind pointers

The objects a decoded image acquires live on one heap and refer to each other by
address. Following a pointer to a deleted object stops the program, and so does an
access outside a block. Every method call on an adaptor is recorded, before its
pointer is followed, since the adaptor holds the Java references of one native call.
So is what `decode` asks of libtiff: a block, and that it be filled.
-/
namespace TiffJni.Image
open FixedWidth Jni TiffJni.Stream Machine

inductive ClientData
  | fileDescriptor
  | tiffInputStream (p : ℕ)
  deriving DecidableEq, Repr

/-- An open `TIFF` handle. The program only opens with mode `"r"`. -/
structure Tiff where
  clientData : ClientData
  mapped : Bool
  deriving DecidableEq, Repr

inductive NativeObject (σ : Type)
  | pixelBuffer (buffer : PixelBuffer)
  | javaInputStreamAdaptor (adaptor : JavaInputStreamAdaptor σ)
  | tiffInputStream (ts : TiffInputStream ℕ)
  | tiff (tif : Tiff)

namespace NativeObject
variable {σ : Type}

def pixelBuffer? : NativeObject σ → Option PixelBuffer
  | .pixelBuffer buffer => some buffer
  | _ => none

def javaInputStreamAdaptor? : NativeObject σ → Option (JavaInputStreamAdaptor σ)
  | .javaInputStreamAdaptor adaptor => some adaptor
  | _ => none

def tiffInputStream? : NativeObject σ → Option (TiffInputStream ℕ)
  | .tiffInputStream ts => some ts
  | _ => none

def tiff? : NativeObject σ → Option Tiff
  | .tiff tif => some tif
  | _ => none

end NativeObject

inductive LibtiffCall
  | malloc (s : ℕ) (answer : Option ℕ)
  | readRGBAImageOriented (rwidth rheight raster : ℕ)
  deriving DecidableEq, Repr

/-- The heap, the adaptors whose methods were called and the calls on libtiff, the latest first. -/
structure Native (σ : Type) where
  heap : Heap (NativeObject σ)
  adaptorCalls : List ℕ
  libtiffCalls : List LibtiffCall

/-- Why a native call does not return: a read loop goes on, or its behaviour is undefined. -/
inductive Stop
  | stillRunning
  | dangling (p : ℕ)
  | outOfBounds
  deriving DecidableEq, Repr

abbrev NativeProgram (σ α : Type) := Program Stop (Native σ) α

namespace Native
variable {σ α : Type} (m : DataModel) (S : InputStream σ) (turns : ℕ)

def empty : Native σ := ⟨Heap.empty,[],[]⟩

def new (o : NativeObject σ) : NativeProgram σ ℕ := fun n =>
  (.ok n.heap.next,{ n with heap := n.heap.alloc o })

def load (select : NativeObject σ → Option α) (p : ℕ) : NativeProgram σ α := fun n =>
  match (n.heap.cells p).bind select with
  | none => (.error (.dangling p),n)
  | some a => (.ok a,n)

def store (p : ℕ) (o : NativeObject σ) : NativeProgram σ Unit := fun n =>
  (.ok (),{ n with heap := n.heap.store p o })

def delete (select : NativeObject σ → Option α) (p : ℕ) : NativeProgram σ Unit := do
  let _ ← load select p
  Program.modify fun n => { n with heap := n.heap.free p }

def record (call : LibtiffCall) : NativeProgram σ Unit :=
  Program.modify fun n => { n with libtiffCalls := call :: n.libtiffCalls }

def tiffMalloc (s : ℕ) (succeeds : Bool) (uninitialized : ℕ → Word) : NativeProgram σ (Option ℕ) :=
  match PixelBuffer.allocate s succeeds uninitialized with
  | none => do
    record (.malloc s none)
    return none
  | some block => do
    let p ← new (.pixelBuffer block)
    record (.malloc s (some p))
    return some p

def callAdaptor (p : ℕ) : NativeProgram σ (JavaInputStreamAdaptor σ) := do
  Program.modify fun n => { n with adaptorCalls := p :: n.adaptorCalls }
  load NativeObject.javaInputStreamAdaptor? p

/-- Whether a client procedure calls methods of the adaptor it finds behind `m_inStream`. -/
def reachesAdaptor : Callback → Bool
  | .read _ => true
  | .seek _ _ => true
  | _ => false

/-- The object behind `fd`, with the adaptor its pointer leads to. -/
def assemble (ts : TiffInputStream ℕ) (inStream : Option (JavaInputStreamAdaptor σ)) :
    TiffInputStream (JavaInputStreamAdaptor σ) := ⟨ts.mTif,inStream,ts.mStreamLength⟩

/-- What a client procedure does when it leaves the adaptor alone: all of them but `read` and
`seek` always, these two when `m_inStream` is null. -/
def onPointer (ts : TiffInputStream ℕ) : Callback → Answer × TiffInputStream ℕ
  | .read _ => (.bytes 0 [],ts)
  | .write _ => (.status 0,ts)
  | .seek _ _ => (.offset (-1),ts)
  | .size => (.size (ts.size m),ts)
  | .close => (.status ts.close.1,ts.close.2)
  | .map => (.status ts.map.1,ts.map.2)
  | .unmap => (.status 0,ts.unmap)

/-- A call of libtiff on the client procedure of the `TiffInputStream` at `fd`. -/
def clientProc (fd : ℕ) (call : Callback) : NativeProgram σ Answer := do
  let ts ← load NativeObject.tiffInputStream? fd
  match ts.mInStream, reachesAdaptor call with
  | some p, true =>
    let adaptor ← callAdaptor p
    match (assemble ts (some adaptor)).callback m S turns call with
    | .error _ => Program.stop .stillRunning
    | .ok (answer,ts') =>
      store p (.javaInputStreamAdaptor (ts'.mInStream.getD adaptor))
      return answer
  | _, _ =>
    store fd (.tiffInputStream (onPointer m ts call).2)
    return (onPointer m ts call).1

/-- libtiff issuing calls on the client of a handle; a file descriptor leads to no Java object. -/
def serve (tif : ℕ) (calls : List Callback) : NativeProgram σ Unit := do
  let handle ← load NativeObject.tiff? tif
  match handle.clientData with
  | .fileDescriptor => return ()
  | .tiffInputStream fd => Program.each (fun call => clientProc m S turns fd call >>= fun _ => pure ()) calls

/-- `TIFFClientOpen` on the client at `fd`. On failure it frees what it had allocated and
leaves the client open. The `map` procedure answers whether the file is mapped. -/
def tiffClientOpen (fd : ℕ) (opening : List Callback) (opens : Bool) : NativeProgram σ (Option ℕ) := do
  Program.each (fun call => clientProc m S turns fd call >>= fun _ => pure ()) opening
  let ts ← load NativeObject.tiffInputStream? fd
  if opens then
    let tif ← new (.tiff ⟨.tiffInputStream fd,ts.map.1 ≠ 0⟩)
    return some tif
  else return none

/-- The object at `p` takes the adaptor at `str`, marks its stream and has libtiff open itself. -/
def makeFileStream (p str : ℕ) (opening : List Callback) (opens : Bool) : NativeProgram σ (Option ℕ) := do
  let ts ← load NativeObject.tiffInputStream? p
  let adaptor ← callAdaptor str
  let attached := (assemble ts none).attach m S adaptor
  store str (.javaInputStreamAdaptor (attached.mInStream.getD adaptor))
  store p (.tiffInputStream { ts with mInStream := some str, mStreamLength := attached.mStreamLength })
  let tif ← tiffClientOpen m S turns p opening opens
  let ts ← load NativeObject.tiffInputStream? p
  store p (.tiffInputStream { ts with mTif := tif })
  return tif

def tiffOpen (mapped opens : Bool) : NativeProgram σ (Option ℕ) :=
  if opens then do
    let tif ← new (.tiff ⟨.fileDescriptor,mapped⟩)
    return some tif
  else return none

/-- `TIFFClose`: `TIFFCleanup` does not flush in mode `"r"`, unmaps what is mapped and frees
the handle; the close procedure comes last. -/
def tiffClose (tif : ℕ) : NativeProgram σ Unit := do
  let handle ← load NativeObject.tiff? tif
  if handle.mapped then serve m S turns tif [.unmap]
  delete NativeObject.tiff? tif
  match handle.clientData with
  | .fileDescriptor => return ()
  | .tiffInputStream fd =>
    let _ ← clientProc m S turns fd .close
    return ()

/-- `delete` on a `TiffInputStream`, whose destructor closes the handle it still has. -/
def deleteTiffInputStream (p : ℕ) : NativeProgram σ Unit := do
  let ts ← load NativeObject.tiffInputStream? p
  match ts.mTif with
  | none => pure ()
  | some tif => tiffClose m S turns tif
  delete NativeObject.tiffInputStream? p

end Native

end TiffJni.Image
