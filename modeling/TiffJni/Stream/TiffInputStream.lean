import TiffJni.Machine.Transcript
import TiffJni.Stream.JavaInputStreamAdaptor

/-! # The client procedures libtiff reads a Java stream through

`TiffInputStream` wraps an adaptor and hands libtiff seven callbacks. The object is
kept over an arbitrary type of references to adaptors: the adaptor itself where one
open file is studied, an address where objects are created and deleted. Signed
arithmetic wraps, and offsets keep the width each conversion of the source gives them.
-/
namespace TiffJni.Stream
open FixedWidth Jni Transcript

structure TiffInputStream (ι : Type*) where
  mTif : Option ℕ
  mInStream : Option ι
  mStreamLength : ℤ
  deriving DecidableEq, Repr

inductive Callback
  | read (size : ℤ)
  | write (size : ℤ)
  | seek (offset : UInt64) (origin : ℤ)
  | size
  | close
  | map
  | unmap
  deriving DecidableEq, Repr

inductive Answer
  | bytes (count : ℤ) (buffer : List UInt8)
  | offset (result : UInt64)
  | size (result : UInt64)
  | status (result : ℤ)
  deriving DecidableEq, Repr

/-- A read loop had not ended within the turns it was given. -/
inductive StillRunning
  | stillRunning
  deriving DecidableEq, Repr

namespace TiffInputStream
variable {σ ι : Type*} (m : DataModel) (S : InputStream σ)

def new : TiffInputStream ι := ⟨none,none,0⟩

def seekBeg : ℤ := 0
def seekCur : ℤ := 1
def seekEnd : ℤ := 2

def isOpen (ts : TiffInputStream ι) : Bool := ts.mInStream.isSome

def read (turns : ℕ) (ts : TiffInputStream (JavaInputStreamAdaptor σ)) (size : ℤ) :
    Except StillRunning ((ℤ × List UInt8) × TiffInputStream (JavaInputStreamAdaptor σ)) :=
  match ts.mInStream with
  | none => .ok ((0,[]),ts)
  | some inStream =>
    let (availableSize,inStream) := inStream.available m S
    let remain := m.toLong availableSize
    let actual := m.toSizeT (if remain < size then remain else size)
    match inStream.read m S turns actual with
    | (none,_,_) => .error .stillRunning
    | (some count,buffer,inStream) => .ok ((m.toLong count,buffer),{ ts with mInStream := some inStream })

def write (ts : TiffInputStream (JavaInputStreamAdaptor σ)) (_size : ℤ) :
    ℤ × TiffInputStream (JavaInputStreamAdaptor σ) := (0,ts)

/-- The `switch` of `seekInt`. The count `doSkip` returns is only logged. -/
def seekSwitch (mStreamLength : ℤ) (inStream : JavaInputStreamAdaptor σ) (offset : ℕ) (origin : ℤ) :
    JavaInputStreamAdaptor σ :=
  if origin = seekBeg then ((inStream.reset S).doSkip m S (m.toSizeT (m.toLong offset))).2
  else if origin = seekCur then (inStream.doSkip m S (m.toSizeT (m.toLong offset))).2
  else if origin = seekEnd then
    ((inStream.reset S).doSkip m S (m.toSizeT (m.toLong (mStreamLength - offset)))).2
  else inStream

def seekInt (ts : TiffInputStream (JavaInputStreamAdaptor σ)) (offset : ℕ) (origin : ℤ) :
    Bool × TiffInputStream (JavaInputStreamAdaptor σ) :=
  if ts.isOpen then
    match ts.mInStream with
    | none => (false,ts)
    | some inStream => (true,{ ts with mInStream := some (seekSwitch m S ts.mStreamLength inStream offset origin) })
  else (false,ts)

/-- The offset is narrowed to the `unsigned int` parameter of `seekInt`, and returned as given. -/
def seek (ts : TiffInputStream (JavaInputStreamAdaptor σ)) (offset : UInt64) (origin : ℤ) :
    UInt64 × TiffInputStream (JavaInputStreamAdaptor σ) :=
  let (moved,ts) := seekInt m S ts (toUnsigned 32 offset.toNat) origin
  (if moved then offset else -1,ts)

theorem seekInt_closed {ts : TiffInputStream (JavaInputStreamAdaptor σ)} (hs : ts.mInStream = none) (offset : ℕ)
    (origin : ℤ) : seekInt m S ts offset origin = (false,ts) := by
  rw [seekInt, isOpen, hs]
  rfl

theorem seekInt_open {ts : TiffInputStream (JavaInputStreamAdaptor σ)} {inStream : JavaInputStreamAdaptor σ}
    (hs : ts.mInStream = some inStream) (offset : ℕ) (origin : ℤ) : seekInt m S ts offset origin =
      (true,{ ts with mInStream := some (seekSwitch m S ts.mStreamLength inStream offset origin) }) := by
  simp only [seekInt, isOpen, hs, Option.isSome_some, if_true]

def getSize (ts : TiffInputStream ι) : ℕ := m.toSizeT ts.mStreamLength

def size (ts : TiffInputStream ι) : UInt64 := UInt64.ofNat (ts.getSize m)

def close (ts : TiffInputStream ι) : ℤ × TiffInputStream ι :=
  match ts.mInStream with
  | none => (-1,ts)
  | some _ => (0,{ ts with mInStream := none })

def map (ts : TiffInputStream ι) : ℤ × TiffInputStream ι := (0,ts)

def unmap (ts : TiffInputStream ι) : TiffInputStream ι := ts

def callback (turns : ℕ) (ts : TiffInputStream (JavaInputStreamAdaptor σ)) :
    Callback → Except StillRunning (Answer × TiffInputStream (JavaInputStreamAdaptor σ))
  | .read size =>
    match ts.read m S turns size with
    | .error e => .error e
    | .ok ((count,buffer),ts) => .ok (.bytes count buffer,ts)
  | .write size => .ok (.status (ts.write size).1,(ts.write size).2)
  | .seek offset origin => .ok (.offset (ts.seek m S offset origin).1,(ts.seek m S offset origin).2)
  | .size => .ok (.size (ts.size m),ts)
  | .close => .ok (.status ts.close.1,ts.close.2)
  | .map => .ok (.status ts.map.1,ts.map.2)
  | .unmap => .ok (.status 0,ts.unmap)

def callbacks (turns : ℕ) :
    Server StillRunning Callback Answer (TiffInputStream (JavaInputStreamAdaptor σ)) :=
  ⟨callback m S turns⟩

/-- What `makeFileStream` does before it calls `TIFFClientOpen`. -/
def attach (ts : TiffInputStream (JavaInputStreamAdaptor σ)) (str : JavaInputStreamAdaptor σ) :
    TiffInputStream (JavaInputStreamAdaptor σ) :=
  let (availableSize,str) := str.available m S
  let mStreamLength := m.toLong availableSize
  { ts with
    mStreamLength := mStreamLength
    mInStream := some (str.mark S (m.toSizeT (m.toLong (mStreamLength * 2)))) }

/-- `TIFFClientOpen` is libtiff: it issues the callbacks `opening` and answers with `tif`. -/
def makeFileStream (turns : ℕ) (ts : TiffInputStream (JavaInputStreamAdaptor σ))
    (str : JavaInputStreamAdaptor σ) (opening : List Callback) (tif : Option ℕ) :
    Except StillRunning (TiffInputStream (JavaInputStreamAdaptor σ)) :=
  match (callbacks m S turns).feed opening (ts.attach m S str) with
  | .error e => .error e
  | .ok ts => .ok { ts with mTif := tif }

/-- The states an open stream file can be in: `makeFileStream` on a fresh object and a
fresh adaptor, then any callbacks, each of which has returned. -/
def Reached (turns : ℕ) (stream : σ) (ts : TiffInputStream (JavaInputStreamAdaptor σ)) : Prop :=
  ∃ (array : JByteArray) (opening : List Callback) (tif : Option ℕ)
    (opened : TiffInputStream (JavaInputStreamAdaptor σ)), 0 < array.data.length ∧
    makeFileStream m S turns new (.new (JNIEnv.enter stream array)) opening tif = .ok opened ∧
    (callbacks m S turns).Reachable opened ts

variable {m S}

theorem Reached.call {turns : ℕ} {stream : σ} {ts ts' : TiffInputStream (JavaInputStreamAdaptor σ)} {call : Callback}
    {answer : Answer} (h : Reached m S turns stream ts) (hcall : ts.callback m S turns call = .ok (answer,ts')) :
    Reached m S turns stream ts' := by
  obtain ⟨array,opening,tif,opened,hpos,hopen,calls,hcalls⟩ := h
  exact ⟨array,opening,tif,opened,hpos,hopen,calls ++ [call],(callbacks m S turns).feed_concat hcalls hcall⟩

end TiffInputStream

end TiffJni.Stream
