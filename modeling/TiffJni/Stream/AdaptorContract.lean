import TiffJni.Stream.JavaInputStreamAdaptor
import Mathlib.Tactic.Ring

/-! # The adaptor over a stream that honours its contract

Over such a stream no operation clears an exception, so each one is its Java call
with the result narrowed. The read loop delivers exactly the requested bytes, or
all that are left, whatever chunk lengths the stream chooses.
-/
namespace TiffJni.Stream.JavaInputStreamAdaptor
open FixedWidth Jni
variable {σ : Type*} {m : DataModel} {S : InputStream σ} {c : List UInt8}

/-- What holds of an adaptor between two operations. -/
structure Ready (m : DataModel) (a : JavaInputStreamAdaptor σ) : Prop where
  quiet : a.fEnv.exceptionPending = false
  capacity : a.fCapacity = a.fEnv.array.data.length
  positive : 0 < a.fEnv.array.data.length
  bytesRead : a.fBytesRead < 2 ^ m.longBits

theorem new_ready (stream : σ) {array : JByteArray} (h : 0 < array.data.length) :
    Ready m (new (JNIEnv.enter stream array)) :=
  ⟨rfl,rfl,h,Nat.two_pow_pos _⟩

theorem Ready.leaving {a : JavaInputStreamAdaptor σ} (h : Ready m a) {env : JNIEnv σ}
    (hq : env.exceptionPending = false) (ha : env.array.data.length = a.fEnv.array.data.length) {bytesRead : ℕ}
    (hb : bytesRead < 2 ^ m.longBits) (isAtEnd : Bool) : Ready m ⟨env,a.fCapacity,bytesRead,isAtEnd⟩ :=
  ⟨hq,by rw [h.capacity,← ha],by rw [ha]; exact h.positive,hb⟩

theorem Ready.withEnv {a : JavaInputStreamAdaptor σ} (h : Ready m a) {env : JNIEnv σ}
    (hq : env.exceptionPending = false) (ha : env.array.data.length = a.fEnv.array.data.length) :
    Ready m { a with fEnv := env } :=
  h.leaving hq ha h.bytesRead a.fIsAtEnd

theorem available_of_quiet {a : JavaInputStreamAdaptor σ} (ha : a.fEnv.exceptionPending = false)
    (hs : (S.available a.fEnv.stream).1.threw = false) :
    a.available m S = (m.toSizeT (if toSigned 32 (S.available a.fEnv.stream).1.value < 0 then 0
      else toSigned 32 (S.available a.fEnv.stream).1.value),{ a with fEnv := (a.fEnv.callAvailable S).2 }) := by
  have hp : (a.fEnv.callAvailable S).2.exceptionPending = false := by
    rw [JNIEnv.callAvailable_pending, ha, hs]
    rfl
  simp only [available, JNIEnv.exceptionCheck, hp, Bool.false_eq_true, ↓reduceIte]
  rfl

/-- Whatever is pending when it is called, `available` leaves nothing pending. -/
theorem available_env (a : JavaInputStreamAdaptor σ) : ∃ env, (a.available m S).2 = { a with fEnv := env } ∧
    env.exceptionPending = false ∧ env.array = a.fEnv.array ∧ env.stream = (S.available a.fEnv.stream).2 := by
  simp only [available]
  split
  · exact ⟨_,rfl,rfl,rfl,rfl⟩
  · next h => exact ⟨_,rfl,Bool.eq_false_iff.mpr h,rfl,rfl⟩

theorem available_stream (a : JavaInputStreamAdaptor σ) :
    (a.available m S).2.fEnv.stream = (S.available a.fEnv.stream).2 := by
  obtain ⟨env,he,-,-,hs⟩ := available_env (m := m) (S := S) a
  rw [he, hs]

theorem available_ready {a : JavaInputStreamAdaptor σ} (ha : Ready m a) : Ready m (a.available m S).2 := by
  obtain ⟨env,he,hq,harray,-⟩ := available_env (m := m) (S := S) a
  rw [he]
  exact ha.withEnv hq (by rw [harray])

theorem available_value {a : JavaInputStreamAdaptor σ} (ha : a.fEnv.exceptionPending = false) {k : ℕ}
    (hs : (S.available a.fEnv.stream).1.threw = false) (hv : (S.available a.fEnv.stream).1.value = k)
    (hk : k < 2 ^ 31) : (a.available m S).1 = k := by
  rw [available_of_quiet ha hs, hv, toSigned_natCast (by omega), if_neg (by omega), m.toSizeT_of_lt (by omega)]

theorem available_contract (K : StreamContract S c) {a : JavaInputStreamAdaptor σ} (ha : Ready m a) :
    (a.available m S).1 = (S.available a.fEnv.stream).1.value.toNat ∧
      (a.available m S).2.fEnv.stream = (S.available a.fEnv.stream).2 ∧ Ready m (a.available m S).2 := by
  have hn := K.available_nonneg a.fEnv.stream
  have hi := K.available_int a.fEnv.stream
  refine ⟨?_,available_stream a,available_ready ha⟩
  exact available_value ha.quiet (K.available_quiet _) (Int.toNat_of_nonneg hn).symm (by omega)

theorem requested_eq {a : JavaInputStreamAdaptor σ} (ha : Ready m a) (size : ℕ) :
    a.requested m size = (min a.fEnv.array.data.length size : ℕ) := by
  have hb := a.fEnv.array.bounded
  rw [requested, ha.capacity, m.toSizeT_of_lt (by omega)]
  split
  · rw [Nat.min_eq_left (by omega)]
  · rw [Nat.min_eq_right (by omega), toSigned_natCast (by omega)]

theorem toSizeT_add_add (x k l : ℕ) :
    m.toSizeT (m.toSizeT (x + k : ℕ) + l : ℕ) = m.toSizeT (x + (k + l) : ℕ) := by
  simp only [DataModel.toSizeT, toUnsigned_natCast, Nat.mod_add_mod, Nat.add_assoc]

/-- From `a` to `a'` the stream moved on by exactly `k` bytes, all of them counted. -/
structure Consumes (m : DataModel) (K : ReadContract S c) (k : ℕ) (a a' : JavaInputStreamAdaptor σ) : Prop where
  pos : K.pos a'.fEnv.stream = K.pos a.fEnv.stream + k
  ready : Ready m a'
  capacity : a'.fCapacity = a.fCapacity
  bytesRead : a'.fBytesRead = m.toSizeT (a.fBytesRead + k : ℕ)

theorem Consumes.trans {K : ReadContract S c} {k l : ℕ} {a b d : JavaInputStreamAdaptor σ}
    (h : Consumes m K k a b) (h' : Consumes m K l b d) : Consumes m K (k + l) a d where
  pos := by rw [h'.pos, h.pos, Nat.add_assoc]
  ready := h'.ready
  capacity := h'.capacity.trans h.capacity
  bytesRead := by rw [h'.bytesRead, h.bytesRead, toSizeT_add_add]

/-- One turn of the loop: it asks for as much as the array takes, and either the stream
reports its end or a chunk is copied behind the bytes written so far. -/
theorem doReadLoop_turn_logged (K : ReadContract S c) {a : JavaInputStreamAdaptor σ} (ha : Ready m a)
    {size bytesRead : ℕ} (hsize : bytesRead + size < 2 ^ m.longBits) (buffer : List UInt8) (turns : ℕ) :
    (∃ a', doReadLoop m S (turns + 1) a size bytesRead buffer = (some (.total bytesRead),buffer,a') ∧
      min size (c.length - K.pos a.fEnv.stream) = 0 ∧ Consumes m K 0 a a' ∧
      a'.fEnv.events = ⟨.read (min a.fEnv.array.data.length size : ℕ),false,false⟩ :: a.fEnv.events) ∨
    ∃ k a', k ≤ size ∧ K.pos a.fEnv.stream + k ≤ c.length ∧ (0 < size → 0 < k) ∧ Consumes m K k a a' ∧
      a'.fEnv.events = ⟨.getByteArrayRegion k buffer.length,false,false⟩ ::
        ⟨.read (min a.fEnv.array.data.length size : ℕ),false,false⟩ :: a.fEnv.events ∧
      doReadLoop m S (turns + 1) a size bytesRead buffer =
        if size - k = 0 then
          (some (.total (bytesRead + k)),buffer ++ (c.drop (K.pos a.fEnv.stream)).take k,a')
        else doReadLoop m S turns a' (size - k) (bytesRead + k)
          (buffer ++ (c.drop (K.pos a.fEnv.stream)).take k) := by
  have hr := requested_eq ha size
  have hb := a.fEnv.array.bounded
  have hpos := ha.positive
  have hq := K.read_quiet a.fEnv.stream a.fEnv.array (a.requested m size)
  have hp : (a.fEnv.callRead S (a.requested m size)).2.exceptionPending = false := by
    rw [JNIEnv.callRead_pending, ha.quiet, hq]
    rfl
  have hlog : (a.fEnv.callRead S (a.requested m size)).2.events =
      ⟨.read (min a.fEnv.array.data.length size : ℕ),false,false⟩ :: a.fEnv.events := by
    rw [JNIEnv.callRead_events, ha.quiet, hq, hr]
  rw [doReadLoop]
  simp only [JNIEnv.exceptionCheck, hp, Bool.false_eq_true, ↓reduceIte]
  rcases K.read_spec a.fEnv.stream a.fEnv.array (a.requested m size) (by omega) (by omega)
    with ⟨hv,hstay,hend⟩ | ⟨k,hv,hle,hone,hin,hmove,hbytes⟩
  · left
    have hn : (a.fEnv.callRead S (a.requested m size)).1 = -1 := by
      simp only [JNIEnv.callRead, hv]
      rfl
    rw [hn, if_pos (by decide)]
    refine ⟨_,rfl,?_,⟨hstay,?_,rfl,?_⟩,hlog⟩
    · rcases hend with h | h <;> omega
    · exact ⟨hp,by rw [ha.capacity, JNIEnv.callRead_array, JByteArray.length_store],
        by rw [JNIEnv.callRead_array, JByteArray.length_store]; exact hpos,ha.bytesRead⟩
    · rw [Nat.add_zero, DataModel.toSizeT, toUnsigned_of_lt ha.bytesRead]
  · right
    have hk : k ≤ min a.fEnv.array.data.length size := by omega
    have hn : (a.fEnv.callRead S (a.requested m size)).1 = k := by
      simp only [JNIEnv.callRead, hv]
      exact toSigned_natCast (by omega)
    have hlen : k ≤ (a.fEnv.callRead S (a.requested m size)).2.array.data.length := by
      rw [JNIEnv.callRead_array, JByteArray.length_store]
      omega
    have hwritten : k ≤ (S.read a.fEnv.stream a.fEnv.array (a.requested m size)).2.1.length := by
      have h := congrArg List.length hbytes
      simp only [List.length_take, List.length_drop] at h
      omega
    have hregion : (a.fEnv.callRead S (a.requested m size)).2.array.data.take k =
        (c.drop (K.pos a.fEnv.stream)).take k := by
      rw [JNIEnv.callRead_array, JByteArray.take_store _ hwritten (by omega), hbytes]
    have hsub : m.toSizeT ((size : ℤ) - k) = size - k := by
      rw [show (size : ℤ) - k = ((size - k : ℕ) : ℤ) by omega]
      exact toUnsigned_of_lt (by omega)
    have hadd : m.toSizeT ((bytesRead : ℤ) + k) = bytesRead + k :=
      toUnsigned_of_lt (x := bytesRead + k) (by omega)
    rw [hn, if_neg (by omega), JNIEnv.getByteArrayRegion_of_le _ hlen]
    simp only [JNIEnv.log_pending, hp, Bool.or_self, Bool.false_eq_true, ↓reduceIte, hregion, hsub, hadd]
    refine ⟨k,_,by omega,hin,by omega,?_,?_,rfl⟩
    · refine ⟨hmove,⟨by rw [JNIEnv.log_pending, hp]; rfl,?_,?_,?_⟩,rfl,rfl⟩
      · rw [ha.capacity, JNIEnv.log_array, JNIEnv.callRead_array, JByteArray.length_store]
      · rw [JNIEnv.log_array, JNIEnv.callRead_array, JByteArray.length_store]
        exact hpos
      · dsimp only
        exact m.toSizeT_lt _
    · rw [JNIEnv.log_events, hp, hlog]

theorem doReadLoop_turn (K : ReadContract S c) {a : JavaInputStreamAdaptor σ} (ha : Ready m a)
    {size bytesRead : ℕ} (hsize : bytesRead + size < 2 ^ m.longBits) (buffer : List UInt8) (turns : ℕ) :
    (∃ a', doReadLoop m S (turns + 1) a size bytesRead buffer = (some (.total bytesRead),buffer,a') ∧
      min size (c.length - K.pos a.fEnv.stream) = 0 ∧ Consumes m K 0 a a') ∨
    ∃ k a', k ≤ size ∧ K.pos a.fEnv.stream + k ≤ c.length ∧ (0 < size → 0 < k) ∧ Consumes m K k a a' ∧
      doReadLoop m S (turns + 1) a size bytesRead buffer =
        if size - k = 0 then
          (some (.total (bytesRead + k)),buffer ++ (c.drop (K.pos a.fEnv.stream)).take k,a')
        else doReadLoop m S turns a' (size - k) (bytesRead + k)
          (buffer ++ (c.drop (K.pos a.fEnv.stream)).take k) := by
  rcases doReadLoop_turn_logged K ha hsize buffer turns with ⟨a',he,hzero,hc,-⟩ | ⟨k,a',hk,hin,hone,hc,-,he⟩
  · exact Or.inl ⟨a',he,hzero,hc⟩
  · exact Or.inr ⟨k,a',hk,hin,hone,hc,he⟩

/-- Enough turns end the loop, and it has then delivered exactly the next bytes of the
content. The induction is on the turns; a turn that does not end the loop takes at
least one byte off what is still wanted. -/
theorem doReadLoop_delivers (K : ReadContract S c) {turns : ℕ} {a : JavaInputStreamAdaptor σ} (ha : Ready m a)
    (size bytesRead : ℕ) (hsize : bytesRead + size < 2 ^ m.longBits) (buffer : List UInt8)
    (hturns : min size (c.length - K.pos a.fEnv.stream) < turns) :
    ∃ a', doReadLoop m S turns a size bytesRead buffer =
        (some (.total (bytesRead + min size (c.length - K.pos a.fEnv.stream))),
          buffer ++ (c.drop (K.pos a.fEnv.stream)).take size,a') ∧
      Consumes m K (min size (c.length - K.pos a.fEnv.stream)) a a' := by
  induction turns generalizing a size bytesRead buffer with
  | zero => omega
  | succ turns ih =>
    rcases doReadLoop_turn K ha hsize buffer turns with ⟨a',he,hzero,hc⟩ | ⟨k,a',hk,hin,hone,hc,he⟩
    · refine ⟨a',?_,by rw [hzero]; exact hc⟩
      have hnil : (c.drop (K.pos a.fEnv.stream)).take size = [] := by
        apply List.length_eq_zero_iff.mp
        rw [List.length_take, List.length_drop]
        exact hzero
      rw [he, hzero, hnil, List.append_nil, Nat.add_zero]
    · by_cases hlast : size - k = 0
      · have hks : k = size := by omega
        subst k
        have hmin : min size (c.length - K.pos a.fEnv.stream) = size := by omega
        exact ⟨a',by rw [he, if_pos hlast, hmin],by rw [hmin]; exact hc⟩
      · have hpos := hc.pos
        obtain ⟨a'',he',hc'⟩ := ih hc.ready (size - k) (bytesRead + k) (by omega)
          (buffer ++ (c.drop (K.pos a.fEnv.stream)).take k) (by omega)
        have hsplit : min size (c.length - K.pos a.fEnv.stream) =
            k + min (size - k) (c.length - K.pos a'.fEnv.stream) := by omega
        have hbytes : (c.drop (K.pos a.fEnv.stream)).take k ++
            (c.drop (K.pos a'.fEnv.stream)).take (size - k) = (c.drop (K.pos a.fEnv.stream)).take size := by
          rw [hpos, ← List.drop_drop, ← List.take_add, Nat.add_sub_cancel' hk]
        refine ⟨a'',?_,by rw [hsplit]; exact hc.trans hc'⟩
        rw [he, if_neg hlast, he', List.append_assoc, hbytes, Nat.add_assoc, ← hsplit]

/-- `read` over a stream that honours its contract: the count is the number of bytes
delivered, and they are the next ones of the content. -/
theorem read_delivers (K : ReadContract S c) {turns : ℕ} {a : JavaInputStreamAdaptor σ} (ha : Ready m a)
    (size : ℕ) (hsize : size < 2 ^ m.longBits)
    (hturns : min size (c.length - K.pos a.fEnv.stream) < turns) :
    ∃ a', a.read m S turns size =
        (some (min size (c.length - K.pos a.fEnv.stream)),(c.drop (K.pos a.fEnv.stream)).take size,a') ∧
      Consumes m K (min size (c.length - K.pos a.fEnv.stream)) a a' := by
  obtain ⟨a',he,hc⟩ := doReadLoop_delivers K ha size 0 (by omega) [] hturns
  have hq := K.available_quiet a'.fEnv.stream
  refine ⟨(a'.available m S).2,?_,?_⟩
  · rw [read, doRead, he]
    simp
  · have hav := available_of_quiet (m := m) hc.ready.quiet hq
    refine ⟨?_,available_ready hc.ready,?_,?_⟩
    · rw [hav]
      exact (K.available_pos _).trans hc.pos
    · rw [hav]
      exact hc.capacity
    · rw [hav]
      exact hc.bytesRead

/-- Over any stream, an unfinished or finished loop leaves the adaptor ready. -/
theorem doReadLoop_ready (turns : ℕ) {a : JavaInputStreamAdaptor σ} (ha : Ready m a) (size bytesRead : ℕ)
    (buffer : List UInt8) : Ready m (doReadLoop m S turns a size bytesRead buffer).2.2 := by
  induction turns generalizing a size bytesRead buffer with
  | zero => exact ha
  | succ turns ih =>
    have harray : (a.fEnv.callRead S (a.requested m size)).2.array.data.length = a.fEnv.array.data.length := by
      rw [JNIEnv.callRead_array, JByteArray.length_store]
    rw [doReadLoop]
    dsimp only
    generalize (a.fEnv.callRead S (a.requested m size)).1 = n
    generalize (a.fEnv.callRead S (a.requested m size)).2 = env at harray ⊢
    split
    · exact ha.leaving env.exceptionClear_pending harray ha.bytesRead true
    next hread =>
    split
    · exact ha.leaving (Bool.eq_false_iff.mpr hread) harray ha.bytesRead true
    have harray' : (env.getByteArrayRegion n buffer.length).2.array.data.length = a.fEnv.array.data.length := by
      rw [JNIEnv.getByteArrayRegion_array, harray]
    split
    · exact ha.leaving (JNIEnv.exceptionClear_pending _) harray' ha.bytesRead true
    next hcopy =>
    have hnext := ha.leaving (Bool.eq_false_iff.mpr hcopy) harray' (m.toSizeT_lt (a.fBytesRead + n)) a.fIsAtEnd
    split
    · exact hnext
    · exact ih hnext _ _ _

/-- What every `read` of a stream keeps, the loop keeps. -/
theorem doReadLoop_stream {P : σ → Prop} (hread : ∀ s b n, P s → P (S.read s b n).2.2) (turns : ℕ)
    {a : JavaInputStreamAdaptor σ} (ha : P a.fEnv.stream) (size bytesRead : ℕ) (buffer : List UInt8) :
    P (doReadLoop m S turns a size bytesRead buffer).2.2.fEnv.stream := by
  induction turns generalizing a size bytesRead buffer with
  | zero => exact ha
  | succ turns ih =>
    have hnext := hread a.fEnv.stream a.fEnv.array (a.requested m size) ha
    rw [doReadLoop]
    dsimp only
    split
    · exact hnext
    split
    · exact hnext
    split
    · simpa using hnext
    split
    · simpa using hnext
    · exact ih (by simpa using hnext) _ _ _

theorem read_ready (turns : ℕ) {a : JavaInputStreamAdaptor σ} (ha : Ready m a) (size : ℕ) :
    Ready m (a.read m S turns size).2.2 := by
  have h := doReadLoop_ready (S := S) turns ha size 0 []
  rw [read, doRead]
  rcases he : doReadLoop m S turns a size 0 [] with ⟨_ | _ | bytesRead,buffer,a'⟩
  · rwa [he] at h
  · rwa [he] at h
  · rw [he] at h
    exact available_ready h

theorem read_stream {P : σ → Prop} (hread : ∀ s b n, P s → P (S.read s b n).2.2)
    (havailable : ∀ s, P s → P (S.available s).2) (turns : ℕ) {a : JavaInputStreamAdaptor σ}
    (ha : P a.fEnv.stream) (size : ℕ) : P (a.read m S turns size).2.2.fEnv.stream := by
  have h := doReadLoop_stream (m := m) hread turns ha size 0 []
  rw [read, doRead]
  rcases he : doReadLoop m S turns a size 0 [] with ⟨_ | _ | bytesRead,buffer,a'⟩
  · rwa [he] at h
  · rwa [he] at h
  · rw [he] at h
    rw [available_stream]
    exact havailable _ h

/-- The state after `doSkip` is that of its two Java calls; nothing is left to clear. -/
theorem doSkip_env (a : JavaInputStreamAdaptor σ) (size : ℕ) : ∃ env, (a.doSkip m S size).2 = { a with fEnv := env } ∧
    env.exceptionPending = false ∧ env.array = a.fEnv.array ∧
    env.stream = (S.available (S.skip a.fEnv.stream (toSigned 64 size)).2).2 := by
  obtain ⟨env,he,hq,harray,hs⟩ := available_env (m := m) (S := S)
    { a with fEnv := (a.fEnv.callSkip S (toSigned 64 size)).2 }
  simp only [doSkip, he, JNIEnv.exceptionCheck, hq, Bool.false_eq_true, ↓reduceIte]
  exact ⟨env,rfl,hq,harray,hs⟩

theorem doSkip_stream (a : JavaInputStreamAdaptor σ) (size : ℕ) : (a.doSkip m S size).2.fEnv.stream =
    (S.available (S.skip a.fEnv.stream (toSigned 64 size)).2).2 := by
  obtain ⟨env,he,-,-,hs⟩ := doSkip_env (m := m) (S := S) a size
  rw [he, hs]

theorem doSkip_ready {a : JavaInputStreamAdaptor σ} (ha : Ready m a) (size : ℕ) : Ready m (a.doSkip m S size).2 := by
  obtain ⟨env,he,hq,harray,-⟩ := doSkip_env (m := m) (S := S) a size
  rw [he]
  exact ha.withEnv hq (by rw [harray])

theorem reset_stream (a : JavaInputStreamAdaptor σ) : (a.reset S).fEnv.stream = (S.reset a.fEnv.stream).2 := by
  simp only [reset]
  split <;> rfl

theorem reset_ready {a : JavaInputStreamAdaptor σ} (ha : Ready m a) : Ready m (a.reset S) := by
  simp only [reset]
  split
  · exact ha.withEnv rfl rfl
  · next h => exact ha.withEnv (Bool.eq_false_iff.mpr h) rfl

theorem mark_stream (a : JavaInputStreamAdaptor σ) (readLimit : ℕ) :
    (a.mark S readLimit).fEnv.stream = (S.mark a.fEnv.stream (toSigned 32 readLimit)).2 := by
  simp only [mark]
  split <;> rfl

theorem mark_ready {a : JavaInputStreamAdaptor σ} (ha : Ready m a) (readLimit : ℕ) : Ready m (a.mark S readLimit) := by
  simp only [mark]
  split
  · exact ha.withEnv rfl rfl
  · next h => exact ha.withEnv (Bool.eq_false_iff.mpr h) rfl

end TiffJni.Stream.JavaInputStreamAdaptor
