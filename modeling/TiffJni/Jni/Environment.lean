import TiffJni.Machine.FixedWidth
import TiffJni.Jni.InputStream

/-! # The JNI environment of one native call

The environment carries the Java objects a native call was handed, the pending
exception of its thread and the log of the calls that can raise one. A call is
logged with the state of the pending exception at its start, so that an
invocation under a pending exception, which JNI forbids, stays visible.
-/
namespace TiffJni.Jni
open FixedWidth

/-- The calls that can raise a Java exception, with the arguments Java receives.
`dst` is the offset in the native buffer a region is copied to. -/
inductive JniCall
  | available
  | read (requested : ℤ)
  | skip (n : ℤ)
  | reset
  | mark (readLimit : ℤ)
  | getByteArrayRegion (len : ℤ) (dst : ℕ)
  deriving DecidableEq, Repr

structure JniEvent where
  call : JniCall
  pending : Bool
  threw : Bool
  deriving DecidableEq, Repr

/-- What a `JNIEnv`, the `InputStream` reference and the `byte[]` reference of
one native call reach. `events` has the latest call first. -/
structure JNIEnv (σ : Type*) where
  stream : σ
  array : JByteArray
  exceptionPending : Bool
  events : List JniEvent
  deriving DecidableEq

namespace JNIEnv
variable {σ : Type*} (S : InputStream σ) (env : JNIEnv σ)

/-- The environment a native method is entered with. -/
def enter (stream : σ) (array : JByteArray) : JNIEnv σ := ⟨stream,array,false,[]⟩

def log (call : JniCall) (threw : Bool) : JNIEnv σ :=
  { env with
    exceptionPending := env.exceptionPending || threw
    events := ⟨call,env.exceptionPending,threw⟩ :: env.events }

def callAvailable : ℤ × JNIEnv σ :=
  let r := S.available env.stream
  (toSigned 32 r.1.value, { env.log .available r.1.threw with stream := r.2 })

def callRead (requested : ℤ) : ℤ × JNIEnv σ :=
  let r := S.read env.stream env.array requested
  (toSigned 32 r.1.value,
    { env.log (.read requested) r.1.threw with stream := r.2.2, array := env.array.store r.2.1 })

def callSkip (n : ℤ) : ℤ × JNIEnv σ :=
  let r := S.skip env.stream n
  (toSigned 64 r.1.value, { env.log (.skip n) r.1.threw with stream := r.2 })

def callReset : JNIEnv σ :=
  let r := S.reset env.stream
  { env.log .reset r.1 with stream := r.2 }

/-- The limit is passed through varargs, and Java takes an `int` from it. -/
def callMark (readLimit : ℕ) : JNIEnv σ :=
  let r := S.mark env.stream (toSigned 32 readLimit)
  { env.log (.mark (toSigned 32 readLimit)) r.1 with stream := r.2 }

/-- `GetByteArrayRegion` from index zero; it throws when the region leaves the array. -/
def getByteArrayRegion (len : ℤ) (dst : ℕ) : List UInt8 × JNIEnv σ :=
  if len < 0 ∨ env.array.data.length < len then ([],env.log (.getByteArrayRegion len dst) true)
  else (env.array.data.take len.toNat,env.log (.getByteArrayRegion len dst) false)

def getArrayLength : ℤ := env.array.data.length

def exceptionCheck : Bool := env.exceptionPending

def exceptionClear : JNIEnv σ := { env with exceptionPending := false }

def Threw (events : List JniEvent) (p : JniCall → Prop) : Prop := ∃ e ∈ events, p e.call ∧ e.threw = true

section Fields
variable (call : JniCall) (threw : Bool) (n len : ℤ) (limit dst : ℕ)

@[simp] theorem log_stream : (env.log call threw).stream = env.stream := rfl
@[simp] theorem log_array : (env.log call threw).array = env.array := rfl
@[simp] theorem log_pending : (env.log call threw).exceptionPending = (env.exceptionPending || threw) := rfl
@[simp] theorem log_events : (env.log call threw).events = ⟨call,env.exceptionPending,threw⟩ :: env.events := rfl

@[simp] theorem exceptionClear_stream : env.exceptionClear.stream = env.stream := rfl
@[simp] theorem exceptionClear_array : env.exceptionClear.array = env.array := rfl
@[simp] theorem exceptionClear_pending : env.exceptionClear.exceptionPending = false := rfl
@[simp] theorem exceptionClear_events : env.exceptionClear.events = env.events := rfl

@[simp] theorem callAvailable_stream : (env.callAvailable S).2.stream = (S.available env.stream).2 := rfl
@[simp] theorem callAvailable_array : (env.callAvailable S).2.array = env.array := rfl
@[simp] theorem callAvailable_pending : (env.callAvailable S).2.exceptionPending =
    (env.exceptionPending || (S.available env.stream).1.threw) := rfl
@[simp] theorem callAvailable_events : (env.callAvailable S).2.events =
    ⟨.available,env.exceptionPending,(S.available env.stream).1.threw⟩ :: env.events := rfl

@[simp] theorem callRead_stream : (env.callRead S n).2.stream = (S.read env.stream env.array n).2.2 := rfl
@[simp] theorem callRead_array :
    (env.callRead S n).2.array = env.array.store (S.read env.stream env.array n).2.1 := rfl
@[simp] theorem callRead_pending : (env.callRead S n).2.exceptionPending =
    (env.exceptionPending || (S.read env.stream env.array n).1.threw) := rfl
@[simp] theorem callRead_events : (env.callRead S n).2.events =
    ⟨.read n,env.exceptionPending,(S.read env.stream env.array n).1.threw⟩ :: env.events := rfl

@[simp] theorem callSkip_stream : (env.callSkip S n).2.stream = (S.skip env.stream n).2 := rfl
@[simp] theorem callSkip_array : (env.callSkip S n).2.array = env.array := rfl
@[simp] theorem callSkip_pending : (env.callSkip S n).2.exceptionPending =
    (env.exceptionPending || (S.skip env.stream n).1.threw) := rfl
@[simp] theorem callSkip_events : (env.callSkip S n).2.events =
    ⟨.skip n,env.exceptionPending,(S.skip env.stream n).1.threw⟩ :: env.events := rfl

@[simp] theorem callReset_stream : (env.callReset S).stream = (S.reset env.stream).2 := rfl
@[simp] theorem callReset_array : (env.callReset S).array = env.array := rfl
@[simp] theorem callReset_pending : (env.callReset S).exceptionPending =
    (env.exceptionPending || (S.reset env.stream).1) := rfl
@[simp] theorem callReset_events : (env.callReset S).events =
    ⟨.reset,env.exceptionPending,(S.reset env.stream).1⟩ :: env.events := rfl

@[simp] theorem callMark_stream : (env.callMark S limit).stream = (S.mark env.stream (toSigned 32 limit)).2 := rfl
@[simp] theorem callMark_array : (env.callMark S limit).array = env.array := rfl
@[simp] theorem callMark_pending : (env.callMark S limit).exceptionPending =
    (env.exceptionPending || (S.mark env.stream (toSigned 32 limit)).1) := rfl
@[simp] theorem callMark_events : (env.callMark S limit).events =
    ⟨.mark (toSigned 32 limit),env.exceptionPending,(S.mark env.stream (toSigned 32 limit)).1⟩ :: env.events := rfl

@[simp] theorem getByteArrayRegion_stream : (env.getByteArrayRegion len dst).2.stream = env.stream := by
  unfold getByteArrayRegion
  split <;> rfl
@[simp] theorem getByteArrayRegion_array : (env.getByteArrayRegion len dst).2.array = env.array := by
  unfold getByteArrayRegion
  split <;> rfl

end Fields

theorem getByteArrayRegion_of_le {n : ℕ} (h : n ≤ env.array.data.length) (dst : ℕ) :
    env.getByteArrayRegion n dst = (env.array.data.take n,env.log (.getByteArrayRegion n dst) false) := by
  unfold getByteArrayRegion
  rw [if_neg (by omega), Int.toNat_natCast]

end JNIEnv

end TiffJni.Jni
