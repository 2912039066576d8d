import TiffJni.Stream.AdaptorContract
import TiffJni.Stream.ExceptionDiscipline

/-! # The chunked read loop is exact

`doRead` moves a request through the transfer array one chunk at a time, and the
stream chooses how long each chunk is. The log of its calls shows what was asked of
Java and where the chunks went: at every call, what the earlier ones have copied
settles how much is still wanted and where the next chunk belongs.
-/
namespace TiffJni.Stream.JavaInputStreamAdaptor
open FixedWidth Jni
variable {σ : Type*} {m : DataModel} {S : InputStream σ} {c : List UInt8}

/-- The adaptors a native call can come to hold: one it has made, then operated on. -/
inductive Reached (m : DataModel) (S : InputStream σ) (stream : σ) (array : JByteArray) :
    JavaInputStreamAdaptor σ → Prop
  | new : Reached m S stream array (.new (JNIEnv.enter stream array))
  | operation {a a' turns op returned} (h : Reached m S stream array a)
      (hop : a.perform m S turns op = (some returned,a')) : Reached m S stream array a'

theorem perform_ready (turns : ℕ) {a : JavaInputStreamAdaptor σ} (ha : Ready m a) (op : Operation) :
    Ready m (a.perform m S turns op).2 := by
  cases op with
  | available => exact available_ready ha
  | read size => exact read_ready turns ha size
  | doSkip size => exact doSkip_ready ha size
  | reset => exact reset_ready ha
  | mark readLimit => exact mark_ready ha readLimit

theorem Reached.ready {stream : σ} {array : JByteArray} (harray : 0 < array.data.length)
    {a : JavaInputStreamAdaptor σ} (h : Reached m S stream array a) : Ready m a := by
  induction h with
  | new => exact new_ready stream harray
  | @operation a a' turns op returned _ hop ih =>
    have hr := perform_ready (S := S) turns ih op
    rwa [hop] at hr

/-- How many bytes the calls of a log have copied, the latest call first. -/
def copied : List JniEvent → ℕ
  | [] => 0
  | e :: earlier =>
    match e.call with
    | .getByteArrayRegion len _ => len.toNat + copied earlier
    | _ => copied earlier

/-- A call of a read of `size` bytes that has copied `done` of them: Java is asked for no more
than the array takes and the request still wants, and a chunk goes behind the bytes copied
before it, inside the `size` bytes of the buffer. -/
def CallWithin (capacity size done : ℕ) : JniCall → Prop
  | .read requested => 0 ≤ requested ∧ requested ≤ (min capacity (size - done) : ℕ)
  | .getByteArrayRegion len dst => 0 ≤ len ∧ dst = done ∧ dst + len ≤ size
  | _ => True

def LogWithin (capacity size : ℕ) : List JniEvent → Prop
  | [] => True
  | e :: earlier => CallWithin capacity size (copied earlier) e.call ∧ LogWithin capacity size earlier

/-- What a read of `size` bytes returned, wrote and left behind. -/
structure ExactRead (m : DataModel) (K : ReadContract S c) (a : JavaInputStreamAdaptor σ) (size k : ℕ)
    (buffer : List UInt8) (a' : JavaInputStreamAdaptor σ) : Prop where
  count : k = min size (c.length - K.pos a.fEnv.stream)
  bytes : buffer = (c.drop (K.pos a.fEnv.stream)).take k
  pos : K.pos a'.fEnv.stream = K.pos a.fEnv.stream + k
  bytesRead : a'.fBytesRead = m.toSizeT (a.fBytesRead + k : ℕ)
  log : LogWithin a.fCapacity.toNat size (a.eventsSince a')

/-- However many turns are taken, their calls stay within the request. The induction is on the
turns; `new` holds the calls of the turns before, which have filled the buffer so far. -/
theorem doReadLoop_logWithin (K : ReadContract S c) (turns : ℕ) {a : JavaInputStreamAdaptor σ} (ha : Ready m a)
    {size bytesRead : ℕ} (hsize : bytesRead + size < 2 ^ m.longBits) (buffer : List UInt8)
    {base new : List JniEvent} {total : ℕ} (hevents : a.fEnv.events = new ++ base)
    (hcopied : copied new = buffer.length) (htotal : buffer.length + size = total)
    (hlog : LogWithin a.fCapacity.toNat total new) :
    ∃ new', (doReadLoop m S turns a size bytesRead buffer).2.2.fEnv.events = new' ++ base ∧
      LogWithin a.fCapacity.toNat total new' := by
  induction turns generalizing a size bytesRead buffer new with
  | zero => exact ⟨new,hevents,hlog⟩
  | succ turns ih =>
    have hrequest : LogWithin a.fCapacity.toNat total
        (⟨.read (min a.fEnv.array.data.length size : ℕ),false,false⟩ :: new) := by
      refine ⟨⟨by omega,?_⟩,hlog⟩
      rw [hcopied, ha.capacity]
      omega
    rcases doReadLoop_turn_logged K ha hsize buffer turns with
      ⟨a',he,-,-,hlogged⟩ | ⟨k,a',hk,hin,-,hc,hlogged,he⟩
    · refine ⟨_,?_,hrequest⟩
      rw [he, hlogged, hevents]
      rfl
    · have hchunk : LogWithin a.fCapacity.toNat total (⟨.getByteArrayRegion k buffer.length,false,false⟩ ::
          ⟨.read (min a.fEnv.array.data.length size : ℕ),false,false⟩ :: new) := by
        refine ⟨⟨by omega,hcopied.symm,?_⟩,hrequest⟩
        omega
      have hevents' : a'.fEnv.events = (⟨.getByteArrayRegion k buffer.length,false,false⟩ ::
          ⟨.read (min a.fEnv.array.data.length size : ℕ),false,false⟩ :: new) ++ base := by
        rw [hlogged, hevents]
        rfl
      rw [he]
      split
      · exact ⟨_,hevents',hchunk⟩
      · have hlength : (buffer ++ (c.drop (K.pos a.fEnv.stream)).take k).length = buffer.length + k := by
          rw [List.length_append, List.length_take, List.length_drop]
          omega
        rw [← hc.capacity] at hchunk ⊢
        refine ih hc.ready (by omega) _ hevents' ?_ ?_ hchunk
        · rw [hlength]
          simp only [copied, hcopied, Int.toNat_natCast]
          omega
        · rw [hlength]
          omega

theorem doRead_logWithin (K : ReadContract S c) (turns : ℕ) {a : JavaInputStreamAdaptor σ} (ha : Ready m a)
    {size : ℕ} (hsize : size < 2 ^ m.longBits) :
    LogWithin a.fCapacity.toNat size (a.eventsSince (a.doRead m S turns size).2.2) := by
  have hevents : a.fEnv.events = [] ++ a.fEnv.events := rfl
  have hbound : 0 + size < 2 ^ m.longBits := by omega
  obtain ⟨new,hnew,hlog⟩ := doReadLoop_logWithin K turns ha hbound [] hevents rfl (Nat.zero_add size) trivial
  rw [doRead]
  rcases hloop : doReadLoop m S turns a size 0 [] with ⟨_ | _ | bytesRead,buffer,b⟩
  · rw [hloop] at hnew
    rwa [eventsSince_eq hnew]
  · rw [hloop] at hnew
    rwa [eventsSince_eq hnew]
  · rw [hloop] at hnew
    have hlast : (b.available m S).2.fEnv.events =
        (⟨.available,b.fEnv.exceptionPending,(S.available b.fEnv.stream).1.threw⟩ :: new) ++ a.fEnv.events := by
      rw [available_events, hnew]
      rfl
    rw [eventsSince_eq hlast]
    exact ⟨trivial,hlog⟩

/-- Enough turns end `doRead`, whatever chunk lengths the stream chooses, and it has then
delivered exactly the next bytes without an access outside the request. -/
theorem doRead_exact (K : ReadContract S c) {stream : σ} {array : JByteArray} (harray : 0 < array.data.length)
    {a : JavaInputStreamAdaptor σ} (h : Reached m S stream array a) {size : ℕ} (hsize : size < 2 ^ m.longBits)
    {turns : ℕ} (hturns : min size (c.length - K.pos a.fEnv.stream) < turns) :
    ∃ k buffer a', a.doRead m S turns size = (some k,buffer,a') ∧ ExactRead m K a size k buffer a' := by
  have ha := h.ready harray
  have hlog := doRead_logWithin K turns ha hsize
  obtain ⟨a',hread,hc⟩ := read_delivers K ha size hsize hturns
  rw [read] at hread
  rw [hread] at hlog
  refine ⟨_,_,a',hread,rfl,?_,hc.pos,hc.bytesRead,hlog⟩
  rw [← List.length_drop, ← List.take_take, List.take_length]

/-- Two of three bytes, through an array of one. -/
theorem doRead_exact_oneByte : ∃ k buffer a',
    (JavaInputStreamAdaptor.new (JNIEnv.enter (ByteArrayState.new [1,2,3]) .oneByte)).doRead .lp64
        (byteArrayInputStream [1,2,3]) 4 2 = (some k,buffer,a') ∧
      ExactRead .lp64 (byteArrayContract [1,2,3] (by decide)).toReadContract
        (.new (JNIEnv.enter (ByteArrayState.new [1,2,3]) .oneByte)) 2 k buffer a' :=
  doRead_exact (byteArrayContract [1,2,3] (by decide)).toReadContract (by decide) .new (by decide) (by decide)

end TiffJni.Stream.JavaInputStreamAdaptor
