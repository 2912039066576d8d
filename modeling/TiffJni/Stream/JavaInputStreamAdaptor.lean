import TiffJni.Jni.Environment

/-! # The adaptor between the native code and a Java input stream

Each operation is translated statement by statement: where it makes a Java call,
where it checks for an exception and clears it, and which fields it updates. The
read loop takes a bound on its turns, since nothing but the stream makes it end;
an unfinished loop still yields the adaptor it has reached.
-/
namespace TiffJni.Stream
open FixedWidth Jni

/-- The object behind `fEnv`, `fJavaInputStream` and `fJavaByteArray` is kept as one
environment. -/
structure JavaInputStreamAdaptor (σ : Type*) where
  fEnv : JNIEnv σ
  fCapacity : ℤ
  fBytesRead : ℕ
  fIsAtEnd : Bool
  deriving DecidableEq

namespace JavaInputStreamAdaptor
variable {σ : Type*} (m : DataModel) (S : InputStream σ)

def new (env : JNIEnv σ) : JavaInputStreamAdaptor σ where
  fEnv := env
  fCapacity := env.getArrayLength
  fBytesRead := 0
  fIsAtEnd := false

def available (a : JavaInputStreamAdaptor σ) : ℕ × JavaInputStreamAdaptor σ :=
  let (availableSize,env) := a.fEnv.callAvailable S
  if env.exceptionCheck then (0,{ a with fEnv := env.exceptionClear })
  else (m.toSizeT (if availableSize < 0 then 0 else availableSize),{ a with fEnv := env })

/-- How the read loop was left: by one of its two `return 0` statements or with a total. -/
inductive LoopExit
  | failed
  | total (bytesRead : ℕ)

/-- The size of the next request, clamped to the capacity of the transfer array. -/
def requested (a : JavaInputStreamAdaptor σ) (size : ℕ) : ℤ :=
  if m.toSizeT a.fCapacity < size then a.fCapacity else toSigned 32 size

/-- The `do … while (size != 0)` loop of `doRead`. `buffer` holds the bytes written so
far, so its length is the offset the next region goes to. `none` means that the
given number of turns did not end the loop. -/
def doReadLoop : ℕ → JavaInputStreamAdaptor σ → ℕ → ℕ → List UInt8 →
    Option LoopExit × List UInt8 × JavaInputStreamAdaptor σ
  | 0, a, _, _, buffer => (none,buffer,a)
  | turns + 1, a, size, bytesRead, buffer =>
    let (n,env) := a.fEnv.callRead S (a.requested m size)
    if env.exceptionCheck then
      (some .failed,buffer,{ a with fEnv := env.exceptionClear, fIsAtEnd := true })
    else if n < 0 then
      (some (.total bytesRead),buffer,{ a with fEnv := env, fIsAtEnd := true })
    else
      let (region,env) := env.getByteArrayRegion n buffer.length
      if env.exceptionCheck then
        (some .failed,buffer,{ a with fEnv := env.exceptionClear, fIsAtEnd := true })
      else
        let size' := m.toSizeT (size - n)
        let bytesRead' := m.toSizeT (bytesRead + n)
        let a' := { a with fEnv := env, fBytesRead := m.toSizeT (a.fBytesRead + n) }
        if size' = 0 then (some (.total bytesRead'),buffer ++ region,a')
        else doReadLoop turns a' size' bytesRead' (buffer ++ region)

/-- The count `doRead` returns, the bytes it wrote and the adaptor after it; the count
is missing while the loop is still running. -/
def doRead (turns : ℕ) (a : JavaInputStreamAdaptor σ) (size : ℕ) :
    Option ℕ × List UInt8 × JavaInputStreamAdaptor σ :=
  match doReadLoop m S turns a size 0 [] with
  | (none,buffer,a') => (none,buffer,a')
  | (some .failed,buffer,a') => (some 0,buffer,a')
  | (some (.total bytesRead),buffer,a') => (some bytesRead,buffer,(a'.available m S).2)

def read (turns : ℕ) (a : JavaInputStreamAdaptor σ) (size : ℕ) :
    Option ℕ × List UInt8 × JavaInputStreamAdaptor σ := a.doRead m S turns size

def doSkip (a : JavaInputStreamAdaptor σ) (size : ℕ) : ℕ × JavaInputStreamAdaptor σ :=
  let (skipped,env) := a.fEnv.callSkip S (toSigned 64 size)
  let (_,a) := available m S { a with fEnv := env }
  -- available has already cleared what skip may have raised
  if a.fEnv.exceptionCheck then (0,{ a with fEnv := a.fEnv.exceptionClear })
  else (m.toSizeT (if skipped < 0 then 0 else skipped),a)

def reset (a : JavaInputStreamAdaptor σ) : JavaInputStreamAdaptor σ :=
  let env := a.fEnv.callReset S
  { a with fEnv := if env.exceptionCheck then env.exceptionClear else env }

def mark (a : JavaInputStreamAdaptor σ) (readLimit : ℕ) : JavaInputStreamAdaptor σ :=
  let env := a.fEnv.callMark S readLimit
  { a with fEnv := if env.exceptionCheck then env.exceptionClear else env }

end JavaInputStreamAdaptor

end TiffJni.Stream
