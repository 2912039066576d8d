import TiffJni.Stream.ReferenceFile

/-! # When the mark of an open file expires

`makeFileStream` marks the stream with twice the length it reports as the read limit,
and Java receives the low 32 bits of it as a signed number. No run moves further from
the mark than the length, so the limit is enough unless the doubling left the range.
-/
namespace TiffJni.Stream.TiffInputStream
open FixedWidth Jni Transcript
variable {σ : Type*} {m : DataModel} {S : InputStream σ} {length turns : ℕ}

/-- The adaptors of a file opened on `stream` after any reads, absolute seeks and size queries. -/
def AfterCalls (m : DataModel) (S : InputStream σ) (turns : ℕ) (stream : σ) (array : JByteArray)
    (a : JavaInputStreamAdaptor σ) : Prop :=
  ∃ (opening : List FileCall) (tif : Option ℕ) (opened : TiffInputStream (JavaInputStreamAdaptor σ))
    (calls : List FileCall) (ts : TiffInputStream (JavaInputStreamAdaptor σ)),
    makeFileStream m S turns new (.new (JNIEnv.enter stream array)) (opening.map FileCall.toCallback) tif = .ok opened ∧
      (fileServer m S turns).feed calls opened = .ok ts ∧ ts.mInStream = some a

/-- Wherever a run has come, the position is within the limit Java was given, and the reset a
seek begins with goes back to the mark. -/
structure MarkHolds (m : DataModel) (K : MarkContract S length) (turns : ℕ) (stream : σ) (array : JByteArray) :
    Prop where
  valid : ∀ a, AfterCalls m S turns stream array a → K.Valid a.fEnv.stream
  reset : ∀ a, AfterCalls m S turns stream array a →
    (S.reset a.fEnv.stream).1 = false ∧ K.pos (S.reset a.fEnv.stream).2 = K.markPos a.fEnv.stream

/-- The stream is marked at `start` with the limit `limit`. -/
def MarkedAt (K : MarkContract S length) (start : ℕ) (limit : ℤ) (a : JavaInputStreamAdaptor σ) : Prop :=
  K.markPos a.fEnv.stream = start ∧ K.readLimit a.fEnv.stream = limit

theorem kept_markedAt (K : MarkContract S length) (start : ℕ) (limit : ℤ) (turns : ℕ) :
    Kept m S turns (MarkedAt K start limit) := by
  have hkeep : ∀ s s', K.markPos s' = K.markPos s ∧ K.readLimit s' = K.readLimit s →
      K.markPos s = start ∧ K.readLimit s = limit → K.markPos s' = start ∧ K.readLimit s' = limit :=
    fun _ _ hk hs => ⟨hk.1.trans hs.1,hk.2.trans hs.2⟩
  exact kept_of_stream (P := fun s => K.markPos s = start ∧ K.readLimit s = limit)
    (fun s => hkeep _ _ (K.available_kept s)) (fun s b n => hkeep _ _ (K.read_kept s b n))
    (fun s n => hkeep _ _ (K.skip_kept s n)) (fun s => hkeep _ _ (K.reset_kept s)) turns

/-- What Java receives of twice the length. -/
theorem readLimit_eq (m : DataModel) {L : ℕ} (hL : L < 2 ^ 31) :
    toSigned 32 (m.toSizeT (m.toLong (m.toLong L * 2))) = if L < 2 ^ 30 then (2 * L : ℤ) else 2 * L - 2 ^ 32 := by
  have hbits : 32 ≤ m.longBits := by cases m <;> decide
  rw [m.toLong_of_lt hL, m.toSizeT_toLong, DataModel.toSizeT, toSigned_toUnsigned hbits]
  have hcast : (L : ℤ) * 2 = (2 * L : ℕ) := by omega
  rw [hcast, toSigned_32]
  split <;> split <;> omega

theorem attach_markedAt (K : MarkContract S length) {stream : σ} {L : ℕ}
    (hopen : (S.available stream).1 = ⟨L,false⟩) (hL : L < 2 ^ 31) (array : JByteArray) :
    ∀ a, (new.attach m S (.new (JNIEnv.enter stream array))).mInStream = some a →
      MarkedAt K (K.pos stream) (if L < 2 ^ 30 then (2 * L : ℤ) else 2 * L - 2 ^ 32) a := by
  have havail : (JavaInputStreamAdaptor.available m S (.new (JNIEnv.enter stream array))).1 = L :=
    JavaInputStreamAdaptor.available_value rfl (congrArg JavaResult.threw hopen) (congrArg JavaResult.value hopen) hL
  intro a ha
  rw [attach_inStream, havail] at ha
  cases ha
  obtain ⟨hmark,hlimit⟩ := K.mark_set (S.available stream).2
    (toSigned 32 (m.toSizeT (m.toLong (m.toLong L * 2))))
  rw [MarkedAt, JavaInputStreamAdaptor.mark_stream, JavaInputStreamAdaptor.available_stream]
  refine ⟨hmark.trans (K.available_pos stream),hlimit.trans (readLimit_eq m hL)⟩

theorem AfterCalls.markedAt (K : MarkContract S length) {stream : σ} {L : ℕ}
    (hopen : (S.available stream).1 = ⟨L,false⟩) (hL : L < 2 ^ 31) {array : JByteArray}
    {a : JavaInputStreamAdaptor σ} (h : AfterCalls m S turns stream array a) :
    MarkedAt K (K.pos stream) (if L < 2 ^ 30 then (2 * L : ℤ) else 2 * L - 2 ^ 32) a := by
  obtain ⟨opening,tif,opened,calls,ts,hopened,hcalls,ha⟩ := h
  have hkept := kept_markedAt (m := m) K (K.pos stream) (if L < 2 ^ 30 then (2 * L : ℤ) else 2 * L - 2 ^ 32) turns
  have hstart := makeFileStream_kept hkept (attach_markedAt K hopen hL array) hopened
  rw [fileServer_feed] at hcalls
  have hrun := (callbacks m S turns).feed_invariant
    (P := fun t => ∀ a, t.mInStream = some a → MarkedAt K (K.pos stream) _ a)
    (fun _ _ _ _ hs hc => callback_kept hkept hs hc) hstart hcalls
  exact hrun a ha

theorem AfterCalls.of_attach (stream : σ) (array : JByteArray) : ∃ a, AfterCalls m S turns stream array a :=
  ⟨_,[],none,_,[],_,rfl,rfl,rfl⟩

theorem not_markHolds_of_le (K : MarkContract S length) {stream : σ} {L : ℕ}
    (hopen : (S.available stream).1 = ⟨L,false⟩) (hL : L < 2 ^ 31) (hlong : 2 ^ 30 ≤ L) (array : JByteArray) :
    ¬MarkHolds m K turns stream array := by
  intro h
  have hopened : ∃ a, AfterCalls m S turns stream array a := AfterCalls.of_attach stream array
  obtain ⟨a,ha⟩ := hopened
  obtain ⟨-,hlimit⟩ := ha.markedAt K hopen hL
  have hnonneg := (h.valid a ha).1
  rw [hlimit, if_neg (by omega)] at hnonneg
  omega

/-- On a stream that reports the whole of its content when it is opened, the mark holds in every
run of reads and absolute seeks if and only if the content is shorter than `2 ^ 30` bytes. -/
theorem mark_holds_iff (K : MarkContract S length) {stream : σ} {L : ℕ}
    (hopen : (S.available stream).1 = ⟨L,false⟩) (hlength : K.pos stream + L = length) (hL : L < 2 ^ 31)
    (array : JByteArray) : MarkHolds m K turns stream array ↔ L < 2 ^ 30 := by
  constructor
  · intro h
    by_contra hlong
    exact not_markHolds_of_le K hopen hL (by omega) array h
  · intro hshort
    have hvalid : ∀ a, AfterCalls m S turns stream array a → K.Valid a.fEnv.stream := by
      intro a ha
      obtain ⟨hmark,hlimit⟩ := ha.markedAt K hopen hL
      have hle := K.pos_le a.fEnv.stream
      rw [if_pos hshort] at hlimit
      constructor <;> omega
    refine ⟨hvalid,?_⟩
    intro a ha
    exact K.reset_pos a.fEnv.stream (hvalid a ha).1 (hvalid a ha).2

theorem mark_holds_iff_threeBytes :
    MarkHolds .lp64 (forgetfulContract [1,2,3]) 4 (ByteArrayState.new [1,2,3],0) .oneByte ↔ 3 < 2 ^ 30 :=
  mark_holds_iff (forgetfulContract [1,2,3]) rfl rfl (by decide) .oneByte

def zeros (n : ℕ) : List UInt8 := List.replicate n 0

/-- A stream of `2 ^ 30` bytes is marked with the limit `-2 ^ 31`. -/
theorem longStream_mark_expires :
    ¬MarkHolds .lp64 (forgetfulContract (zeros (2 ^ 30))) 1 (ByteArrayState.new (zeros (2 ^ 30)),0) .oneByte := by
  have hlength : (zeros (2 ^ 30)).length = 2 ^ 30 := List.length_replicate
  have hopen : ∀ c, ((forgetfulInputStream c).available (ByteArrayState.new c,0)).1 = ⟨c.length,false⟩ := fun _ => rfl
  exact not_markHolds_of_le (forgetfulContract (zeros (2 ^ 30))) (hopen (zeros (2 ^ 30))) (by omega) (by omega) .oneByte

end TiffJni.Stream.TiffInputStream
