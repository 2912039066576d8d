import TiffJni.Stream.AdaptorContract
import TiffJni.Stream.TiffInputStream

/-! # The callbacks over a stream that honours its contract

In every state the callbacks can reach, the adaptor is ready and the mark is still
where `makeFileStream` set it: no callback marks again, and no stream method moves
the mark. `read` and absolute `seek` then have exact specifications.
-/
namespace TiffJni.Stream.TiffInputStream
open FixedWidth Jni Transcript
variable {σ : Type*} {m : DataModel} {S : InputStream σ} {c : List UInt8}

/-- The adaptor of an open file is ready and its stream is marked at `start`. -/
structure Sound (m : DataModel) (K : StreamContract S c) (start : ℕ)
    (ts : TiffInputStream (JavaInputStreamAdaptor σ)) : Prop where
  ready : ∀ a, ts.mInStream = some a → a.Ready m
  marked : ∀ a, ts.mInStream = some a → K.markPos a.fEnv.stream = start

theorem Sound.of_some {K : StreamContract S c} {start : ℕ} {ts : TiffInputStream (JavaInputStreamAdaptor σ)}
    {a : JavaInputStreamAdaptor σ} (h : ts.mInStream = some a) (hr : a.Ready m)
    (hm : K.markPos a.fEnv.stream = start) : Sound m K start ts := by
  constructor
  · intro b hb
    rw [h] at hb
    cases hb
    exact hr
  · intro b hb
    rw [h] at hb
    cases hb
    exact hm

theorem attach_inStream (ts : TiffInputStream (JavaInputStreamAdaptor σ)) (str : JavaInputStreamAdaptor σ) :
    (ts.attach m S str).mInStream = some ((str.available m S).2.mark S
      (m.toSizeT (m.toLong (m.toLong (str.available m S).1 * 2)))) := rfl

theorem attach_sound (K : StreamContract S c) (ts : TiffInputStream (JavaInputStreamAdaptor σ)) (stream : σ)
    {array : JByteArray} (h : 0 < array.data.length) :
    Sound m K (K.pos stream) (ts.attach m S (.new (JNIEnv.enter stream array))) := by
  obtain ⟨-,hs,hr⟩ := JavaInputStreamAdaptor.available_contract (m := m) K
    (JavaInputStreamAdaptor.new_ready stream h)
  refine Sound.of_some (attach_inStream ts _) (JavaInputStreamAdaptor.mark_ready hr _) ?_
  rw [JavaInputStreamAdaptor.mark_stream, K.mark_mark, hs]
  exact K.available_pos stream

/-- A property of adaptors that the operations of an open file keep; it is never marked again. -/
structure Kept (m : DataModel) (S : InputStream σ) (turns : ℕ) (Q : JavaInputStreamAdaptor σ → Prop) : Prop where
  available : ∀ a, Q a → Q (a.available m S).2
  read : ∀ a size, Q a → Q (a.read m S turns size).2.2
  doSkip : ∀ a size, Q a → Q (a.doSkip m S size).2
  reset : ∀ a, Q a → Q (a.reset S)

section Kept
variable {turns : ℕ} {Q : JavaInputStreamAdaptor σ → Prop} {ts ts' : TiffInputStream (JavaInputStreamAdaptor σ)}

theorem seekInt_kept (hQ : Kept m S turns Q) (h : ∀ a, ts.mInStream = some a → Q a) (offset : ℕ) (origin : ℤ) :
    ∀ a, (seekInt m S ts offset origin).2.mInStream = some a → Q a := by
  intro b hb
  cases hs : ts.mInStream with
  | none =>
    rw [seekInt_closed m S hs, hs] at hb
    cases hb
  | some a =>
    have ha := h a hs
    rw [seekInt_open m S hs] at hb
    cases hb
    unfold seekSwitch
    split
    · exact hQ.doSkip _ _ (hQ.reset a ha)
    split
    · exact hQ.doSkip _ _ ha
    split
    · exact hQ.doSkip _ _ (hQ.reset a ha)
    · exact ha

theorem read_kept (hQ : Kept m S turns Q) (h : ∀ a, ts.mInStream = some a → Q a) {size : ℤ} {r : ℤ × List UInt8}
    (he : ts.read m S turns size = .ok (r,ts')) : ∀ a, ts'.mInStream = some a → Q a := by
  unfold read at he
  cases hs : ts.mInStream with
  | none =>
    simp only [hs] at he
    cases he
    exact h
  | some a =>
    have ha := hQ.available a (h a hs)
    simp only [hs] at he
    generalize m.toSizeT (if m.toLong (a.available m S).1 < size then m.toLong (a.available m S).1 else size) = n at he
    have hread := hQ.read _ n ha
    rcases hresult : (a.available m S).2.read m S turns n with ⟨count,buffer,b⟩
    rw [hresult] at he hread
    cases count with
    | none => cases he
    | some count =>
      cases he
      intro b' hb'
      cases hb'
      exact hread

theorem callback_kept (hQ : Kept m S turns Q) (h : ∀ a, ts.mInStream = some a → Q a) {call : Callback}
    {answer : Answer} (he : ts.callback m S turns call = .ok (answer,ts')) : ∀ a, ts'.mInStream = some a → Q a := by
  cases call with
  | read size =>
    simp only [callback] at he
    rcases hr : ts.read m S turns size with _ | ⟨r,ts''⟩
    · rw [hr] at he
      cases he
    · rw [hr] at he
      cases he
      exact read_kept hQ h hr
  | seek offset origin =>
    cases he
    exact seekInt_kept hQ h _ _
  | close =>
    cases he
    intro a ha
    cases hs : ts.mInStream with
    | none => simp [close, hs] at ha
    | some b => simp [close, hs] at ha
  | _ =>
    cases he
    exact h

theorem makeFileStream_kept (hQ : Kept m S turns Q) {str : JavaInputStreamAdaptor σ} {opening : List Callback}
    {tif : Option ℕ} {opened : TiffInputStream (JavaInputStreamAdaptor σ)}
    (h : ∀ a, (ts.attach m S str).mInStream = some a → Q a)
    (he : makeFileStream m S turns ts str opening tif = .ok opened) : ∀ a, opened.mInStream = some a → Q a := by
  unfold makeFileStream at he
  rcases hf : (callbacks m S turns).feed opening (ts.attach m S str) with _ | ts₀
  · rw [hf] at he
    cases he
  · rw [hf] at he
    cases he
    have hrun : ∀ a, ts₀.mInStream = some a → Q a := (callbacks m S turns).feed_invariant
      (P := fun t => ∀ a, t.mInStream = some a → Q a) (fun _ _ _ _ hs hc => callback_kept hQ hs hc) h hf
    exact hrun

end Kept

theorem kept_of_stream {P : σ → Prop} (havailable : ∀ s, P s → P (S.available s).2)
    (hread : ∀ s b n, P s → P (S.read s b n).2.2) (hskip : ∀ s n, P s → P (S.skip s n).2)
    (hreset : ∀ s, P s → P (S.reset s).2) (turns : ℕ) : Kept m S turns fun a => P a.fEnv.stream where
  available a ha := by
    rw [JavaInputStreamAdaptor.available_stream]
    exact havailable _ ha
  read a size ha := JavaInputStreamAdaptor.read_stream hread havailable turns ha size
  doSkip a size ha := by
    rw [JavaInputStreamAdaptor.doSkip_stream]
    exact havailable _ (hskip _ _ ha)
  reset a ha := by
    rw [JavaInputStreamAdaptor.reset_stream]
    exact hreset _ ha

theorem kept_ready (turns : ℕ) : Kept m S turns (JavaInputStreamAdaptor.Ready m) where
  available _ ha := JavaInputStreamAdaptor.available_ready ha
  read _ size ha := JavaInputStreamAdaptor.read_ready turns ha size
  doSkip _ size ha := JavaInputStreamAdaptor.doSkip_ready ha size
  reset _ ha := JavaInputStreamAdaptor.reset_ready ha

theorem kept_marked (K : StreamContract S c) (start turns : ℕ) :
    Kept m S turns fun a => K.markPos a.fEnv.stream = start :=
  kept_of_stream (P := fun s => K.markPos s = start) (fun s hs => (K.available_mark s).trans hs)
    (fun s b n hs => (K.read_mark s b n).trans hs) (fun s n hs => (K.skip_mark s n).trans hs)
    (fun s hs => (K.reset_mark s).trans hs) turns

theorem seekInt_sound {K : StreamContract S c} {start : ℕ} {ts : TiffInputStream (JavaInputStreamAdaptor σ)}
    (h : Sound m K start ts) (offset : ℕ) (origin : ℤ) : Sound m K start (seekInt m S ts offset origin).2 :=
  ⟨seekInt_kept (kept_ready 0) h.ready offset origin,seekInt_kept (kept_marked K start 0) h.marked offset origin⟩

theorem callback_sound {K : StreamContract S c} {start : ℕ} {ts ts' : TiffInputStream (JavaInputStreamAdaptor σ)}
    (h : Sound m K start ts) {turns : ℕ} {call : Callback} {answer : Answer}
    (he : ts.callback m S turns call = .ok (answer,ts')) : Sound m K start ts' :=
  ⟨callback_kept (kept_ready turns) h.ready he,callback_kept (kept_marked K start turns) h.marked he⟩

theorem Reached.sound (K : StreamContract S c) {turns : ℕ} {stream : σ}
    {ts : TiffInputStream (JavaInputStreamAdaptor σ)} (h : Reached m S turns stream ts) :
    Sound m K (K.pos stream) ts := by
  obtain ⟨array,opening,tif,opened,hpos,hopen,hrun⟩ := h
  have hattached := attach_sound (m := m) K new stream hpos
  refine hrun.invariant (P := Sound m K (K.pos stream)) (fun _ _ _ _ hs he => callback_sound hs he) ⟨?_,?_⟩
  · exact makeFileStream_kept (kept_ready turns) hattached.ready hopen
  · exact makeFileStream_kept (kept_marked K _ turns) hattached.marked hopen

/-- The read callback delivers the smaller of the request and what `available` answers. -/
theorem read_contract {K : StreamContract S c} {start : ℕ} {ts : TiffInputStream (JavaInputStreamAdaptor σ)}
    (h : Sound m K start ts) {a : JavaInputStreamAdaptor σ} (hs : ts.mInStream = some a)
    {turns : ℕ} (hturns : c.length < turns) (size : ℕ) :
    ∃ a', ts.read m S turns size = .ok
        (((min (S.available a.fEnv.stream).1.value.toNat size : ℕ),
          (c.drop (K.pos a.fEnv.stream)).take (min (S.available a.fEnv.stream).1.value.toNat size)),
          { ts with mInStream := some a' }) ∧
      K.pos a'.fEnv.stream = K.pos a.fEnv.stream + min (S.available a.fEnv.stream).1.value.toNat size := by
  obtain ⟨hfst,hav,hr⟩ := JavaInputStreamAdaptor.available_contract K (h.ready a hs)
  have hle := K.available_le a.fEnv.stream
  have hint := K.available_int a.fEnv.stream
  have hnn := K.available_nonneg a.fEnv.stream
  have hpos : K.pos (a.available m S).2.fEnv.stream = K.pos a.fEnv.stream := by
    rw [hav, K.available_pos]
  generalize hn : min (S.available a.fEnv.stream).1.value.toNat size = n
  have hn' : n < 2 ^ 31 := by omega
  have hlong := m.two_pow_32_le
  have hactual : m.toSizeT (if m.toLong (a.available m S).1 < (size : ℤ) then m.toLong (a.available m S).1
      else (size : ℤ)) = n := by
    rw [hfst, m.toLong_of_lt (by omega)]
    split
    · rw [m.toSizeT_of_lt (by omega)]
      omega
    · rw [m.toSizeT_of_lt (by omega)]
      omega
  have hmin : min n (c.length - K.pos (a.available m S).2.fEnv.stream) = n := by
    rw [hpos]
    omega
  obtain ⟨a',he,hc⟩ := JavaInputStreamAdaptor.read_delivers K.toReadContract hr n (by omega)
    (show min n (c.length - K.pos (a.available m S).2.fEnv.stream) < turns by omega)
  rw [hmin, hpos] at he
  rw [hmin] at hc
  refine ⟨a',?_,by rw [hc.pos, hpos]⟩
  simp only [read, hs, hactual, he]
  rw [m.toLong_of_lt hn']

/-- Only a read can go on forever, and on such a stream it does not. -/
theorem callback_returns {K : StreamContract S c} {start : ℕ} {ts : TiffInputStream (JavaInputStreamAdaptor σ)}
    (h : Sound m K start ts) {turns : ℕ} (hturns : c.length < turns) (call : Callback) :
    ∃ answer ts', ts.callback m S turns call = .ok (answer,ts') := by
  cases call with
  | read size =>
    cases hs : ts.mInStream with
    | none =>
      simp only [callback, read, hs]
      exact ⟨_,_,rfl⟩
    | some a =>
      have hr := JavaInputStreamAdaptor.available_ready (S := S) (h.ready a hs)
      simp only [callback, read, hs]
      generalize hn : m.toSizeT (if m.toLong (a.available m S).1 < size then m.toLong (a.available m S).1 else size) = n
      have hlt : n < 2 ^ m.longBits := by
        rw [← hn]
        exact m.toSizeT_lt _
      have hrest : min n (c.length - K.pos (a.available m S).2.fEnv.stream) < turns := by omega
      obtain ⟨a',he,-⟩ := JavaInputStreamAdaptor.read_delivers K.toReadContract hr n hlt hrest
      rw [he]
      exact ⟨_,_,rfl⟩
  | _ => exact ⟨_,_,rfl⟩

theorem feed_returns {K : StreamContract S c} {start : ℕ} {ts : TiffInputStream (JavaInputStreamAdaptor σ)}
    (h : Sound m K start ts) {turns : ℕ} (hturns : c.length < turns) (calls : List Callback) :
    ∃ ts', (callbacks m S turns).feed calls ts = .ok ts' := by
  induction calls generalizing ts with
  | nil => exact ⟨ts,rfl⟩
  | cons call calls ih =>
    obtain ⟨answer,ts₁,hcall⟩ := callback_returns h hturns call
    obtain ⟨ts₂,hfeed⟩ := ih (callback_sound h hcall)
    exact ⟨ts₂,(callbacks m S turns).feed_cons_ok.mpr ⟨answer,ts₁,hcall,hfeed⟩⟩

/-- What is left of an offset on its way to `doSkip`. -/
theorem skipSize_eq (m : DataModel) (offset : UInt64) :
    m.toSizeT (m.toLong (toUnsigned 32 offset.toNat : ℕ)) = offset.toNat % 2 ^ 32 := by
  rw [m.toSizeT_toLong, toUnsigned_natCast, m.toSizeT_of_lt (Nat.mod_lt _ (by decide))]

/-- An absolute seek resets the stream and skips once. -/
theorem seek_beg (K : StreamContract S c) {ts : TiffInputStream (JavaInputStreamAdaptor σ)}
    {a : JavaInputStreamAdaptor σ} (hs : ts.mInStream = some a) (offset : UInt64) :
    ∃ a', ts.seek m S offset seekBeg = (offset,{ ts with mInStream := some a' }) ∧
      K.pos a'.fEnv.stream =
        K.pos (S.skip (S.reset a.fEnv.stream).2 (offset.toNat % 2 ^ 32 : ℕ)).2 := by
  have hlt : offset.toNat % 2 ^ 32 < 2 ^ 32 := Nat.mod_lt _ (by decide)
  refine ⟨((a.reset S).doSkip m S (offset.toNat % 2 ^ 32)).2,?_,?_⟩
  · simp only [seek, seekInt_open m S hs, seekSwitch, ↓reduceIte, skipSize_eq]
  · rw [JavaInputStreamAdaptor.doSkip_stream, K.available_pos, JavaInputStreamAdaptor.reset_stream,
      toSigned_natCast (by omega)]

theorem seek_closed {ts : TiffInputStream (JavaInputStreamAdaptor σ)} (hs : ts.mInStream = none)
    (offset : UInt64) (origin : ℤ) : ts.seek m S offset origin = (-1,ts) := by
  simp only [seek, seekInt_closed m S hs, Bool.false_eq_true, if_false]

theorem read_closed {ts : TiffInputStream (JavaInputStreamAdaptor σ)} (hs : ts.mInStream = none)
    (turns : ℕ) (size : ℤ) : ts.read m S turns size = .ok ((0,[]),ts) := by
  simp [read, hs]

section Exact
variable {start turns : ℕ} {ts : TiffInputStream (JavaInputStreamAdaptor σ)} {a : JavaInputStreamAdaptor σ}

/-- Nothing but `reset` goes back, and `reset` goes back to the mark. -/
theorem kept_ahead (K : ExactContract S c) (start turns : ℕ) :
    Kept m S turns fun a => K.markPos a.fEnv.stream = start ∧ start ≤ K.pos a.fEnv.stream := by
  refine kept_of_stream (P := fun s => K.markPos s = start ∧ start ≤ K.pos s) ?_ ?_ ?_ ?_ turns
  · rintro s ⟨hmark,hle⟩
    exact ⟨(K.available_mark s).trans hmark,hle.trans (K.available_pos s).ge⟩
  · rintro s b n ⟨hmark,hle⟩
    exact ⟨(K.read_mark s b n).trans hmark,hle.trans (K.read_forward s b n)⟩
  · rintro s n ⟨hmark,hle⟩
    exact ⟨(K.skip_mark s n).trans hmark,hle.trans (K.skip_forward s n)⟩
  · rintro s ⟨hmark,-⟩
    exact ⟨(K.reset_mark s).trans hmark,by rw [K.reset_start, hmark]⟩

theorem Reached.ahead (K : ExactContract S c) {stream : σ} (h : Reached m S turns stream ts) :
    ∀ a, ts.mInStream = some a → K.pos stream ≤ K.pos a.fEnv.stream := by
  obtain ⟨array,opening,tif,opened,-,hopen,hrun⟩ := h
  have hkept : Kept m S turns fun a => K.markPos a.fEnv.stream = K.pos stream ∧ K.pos stream ≤ K.pos a.fEnv.stream :=
    kept_ahead K (K.pos stream) turns
  have hattached : ∀ a, (new.attach m S (.new (JNIEnv.enter stream array))).mInStream = some a →
      K.markPos a.fEnv.stream = K.pos stream ∧ K.pos stream ≤ K.pos a.fEnv.stream := by
    intro a ha
    rw [attach_inStream] at ha
    cases ha
    have hpos : K.pos (S.available stream).2 = K.pos stream := K.available_pos stream
    rw [JavaInputStreamAdaptor.mark_stream, JavaInputStreamAdaptor.available_stream]
    exact ⟨(K.mark_mark _ _).trans hpos,(hpos.symm.trans (K.mark_pos _ _).symm).le⟩
  have hall := hrun.invariant (P := fun t => ∀ a, t.mInStream = some a →
    K.markPos a.fEnv.stream = K.pos stream ∧ K.pos stream ≤ K.pos a.fEnv.stream)
    (fun _ _ _ _ hs he => callback_kept hkept hs he) (makeFileStream_kept hkept hattached hopen)
  exact fun a ha => (hall a ha).2

/-- A read delivers what it was asked for, as far as the content goes. -/
theorem read_exact (K : ExactContract S c) (h : Sound m K.toStreamContract start ts) (hs : ts.mInStream = some a)
    (hturns : c.length < turns) (size : ℕ) :
    ∃ a', ts.read m S turns size = .ok ((((c.drop (K.pos a.fEnv.stream)).take size).length,
        (c.drop (K.pos a.fEnv.stream)).take size),{ ts with mInStream := some a' }) ∧
      K.pos a'.fEnv.stream = K.pos a.fEnv.stream + ((c.drop (K.pos a.fEnv.stream)).take size).length := by
  obtain ⟨a',hread,hpos⟩ := read_contract h hs hturns size
  have hcount : min (S.available a.fEnv.stream).1.value.toNat size =
      ((c.drop (K.pos a.fEnv.stream)).take size).length := by
    rw [K.available_exact, Int.toNat_natCast, List.length_take, List.length_drop, Nat.min_comm]
  rw [hcount] at hread hpos
  rw [List.length_take, ← List.take_take, List.take_length] at hread
  exact ⟨a',by rw [List.length_take]; exact hread,hpos⟩

/-- An absolute seek goes to the offset behind the mark, or to the end. -/
theorem seek_beg_exact (K : ExactContract S c) (h : Sound m K.toStreamContract start ts) (hs : ts.mInStream = some a)
    (offset : UInt64) : ∃ a', ts.seek m S offset seekBeg = (offset,{ ts with mInStream := some a' }) ∧
      K.pos a'.fEnv.stream = min (start + offset.toNat % 2 ^ 32) c.length := by
  obtain ⟨a',he,hpos⟩ := seek_beg (m := m) K.toStreamContract hs offset
  have hmark : K.markPos a.fEnv.stream = start := h.marked a hs
  exact ⟨a',he,by rw [hpos, K.skip_exact, K.reset_start, hmark]⟩

end Exact

end TiffJni.Stream.TiffInputStream
