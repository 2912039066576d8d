import TiffJni.Stream.CallbackContract

/-! # An in-memory stream file behaves as a random-access file

The reference file keeps an unclamped position, as a file descriptor does. The
stream stops at its end instead, and emulates an absolute seek by going back to
its mark and skipping. The two stay related by one equation between positions, so
no client of the three callbacks can tell them apart.
-/
namespace TiffJni.Stream
open FixedWidth Jni Transcript

/-- The calls a client reading a file makes: seeks are absolute and sizes are not negative. `TIFFClientOpen` also asks once
whether the file can be mapped into memory. -/
inductive FileCall
  | read (count : ℕ)
  | seek (offset : UInt64)
  | size
  | map
  deriving DecidableEq, Repr

def FileCall.toCallback : FileCall → Callback
  | .read count => .read count
  | .seek offset => .seek offset TiffInputStream.seekBeg
  | .size => .size
  | .map => .map

/-- Offsets that fit the 32 bits of a classic TIFF offset. -/
def FileCall.InRange : FileCall → Prop
  | .seek offset => offset.toNat < 2 ^ 32
  | _ => True

structure ReferenceFile where
  content : List UInt8
  pos : ℕ

namespace ReferenceFile

def answer (f : ReferenceFile) : FileCall → Answer × ReferenceFile
  | .read count =>
    let got := (f.content.drop f.pos).take count
    (.bytes got.length got,{ f with pos := f.pos + got.length })
  | .seek offset => (.offset offset,{ f with pos := offset.toNat })
  | .size => (.size (UInt64.ofNat f.content.length),f)
  | .map => (.status 0,f)

def server : Server StillRunning FileCall Answer ReferenceFile := ⟨fun f call => .ok (f.answer call)⟩

end ReferenceFile

namespace TiffInputStream
variable {σ : Type*} {m : DataModel} {S : InputStream σ} {c : List UInt8} {turns : ℕ}

def fileServer (m : DataModel) (S : InputStream σ) (turns : ℕ) :
    Server StillRunning FileCall Answer (TiffInputStream (JavaInputStreamAdaptor σ)) :=
  ⟨fun ts call => ts.callback m S turns call.toCallback⟩

theorem fileServer_feed (S : InputStream σ) (calls : List FileCall)
    (ts : TiffInputStream (JavaInputStreamAdaptor σ)) :
    (fileServer m S turns).feed calls ts = (callbacks m S turns).feed (calls.map FileCall.toCallback) ts := by
  induction calls generalizing ts with
  | nil => rfl
  | cons call calls ih =>
    simp only [List.map_cons, Server.feed, fileServer, callbacks]
    split
    · rfl
    · exact ih _

/-- The stream stands where the file does, or at its end when the file is past it. The file holds what the stream had left
when it was opened at `start`. -/
structure Follows (m : DataModel) (K : ExactContract S c) (start : ℕ) (ts : TiffInputStream (JavaInputStreamAdaptor σ))
    (f : ReferenceFile) : Prop where
  sound : Sound m K.toStreamContract start ts
  length : ts.mStreamLength = (c.length - start : ℕ)
  content : f.content = c.drop start
  pos : ∃ a, ts.mInStream = some a ∧ K.pos a.fEnv.stream = min (start + f.pos) c.length

variable {K : ExactContract S c} {start : ℕ} {ts : TiffInputStream (JavaInputStreamAdaptor σ)} {f : ReferenceFile}

/-- Reading from the end of the content delivers what reading from past it does. -/
theorem drop_min_length (c : List UInt8) (p : ℕ) : c.drop (min p c.length) = c.drop p := by
  rw [List.drop_eq_drop_iff]
  omega

theorem Follows.read (h : Follows m K start ts f) (hturns : c.length < turns) (size : ℕ) :
    ∃ ts', ts.callback m S turns (.read size) = .ok ((f.answer (.read size)).1,ts') ∧
      Follows m K start ts' (f.answer (.read size)).2 := by
  obtain ⟨a,hs,hpos⟩ := h.pos
  obtain ⟨a',he,hpos'⟩ := read_exact K h.sound hs hturns size
  have hrest : c.drop (K.pos a.fEnv.stream) = f.content.drop f.pos := by
    rw [hpos, drop_min_length, h.content, List.drop_drop]
  rw [hrest] at he hpos'
  have hcall : ts.callback m S turns (.read size) =
      .ok ((f.answer (.read size)).1,{ ts with mInStream := some a' }) := by
    simp only [callback, he, ReferenceFile.answer]
  refine ⟨{ ts with mInStream := some a' },hcall,callback_sound h.sound hcall,h.length,h.content,a',rfl,?_⟩
  have hlength : ((f.content.drop f.pos).take size).length = min size (c.length - (start + f.pos)) := by
    rw [List.length_take, List.length_drop, h.content, List.length_drop, Nat.sub_sub]
  change K.pos a'.fEnv.stream = min (start + (f.pos + ((f.content.drop f.pos).take size).length)) c.length
  rw [hpos', hpos, hlength]
  omega

theorem Follows.seek (h : Follows m K start ts f) (turns : ℕ) {offset : UInt64} (hoff : offset.toNat < 2 ^ 32) :
    ∃ ts', ts.callback m S turns (.seek offset seekBeg) = .ok ((f.answer (.seek offset)).1,ts') ∧
      Follows m K start ts' (f.answer (.seek offset)).2 := by
  obtain ⟨a,hs,-⟩ := h.pos
  obtain ⟨a',he,hpos'⟩ := seek_beg_exact K h.sound hs offset
  have hcall : ts.callback m S turns (.seek offset seekBeg) = .ok (.offset offset,{ ts with mInStream := some a' }) := by
    simp only [callback, he]
  refine ⟨{ ts with mInStream := some a' },hcall,callback_sound h.sound hcall,h.length,h.content,a',rfl,?_⟩
  rw [hpos', Nat.mod_eq_of_lt hoff]
  rfl

theorem Follows.size (h : Follows m K start ts f) (turns : ℕ) :
    ∃ ts', ts.callback m S turns .size = .ok ((f.answer .size).1,ts') ∧ Follows m K start ts' (f.answer .size).2 := by
  obtain ⟨a,hs,-⟩ := h.pos
  have hmark : K.markPos a.fEnv.stream = start := h.sound.marked a hs
  have hsmall := K.rest_lt (S.reset a.fEnv.stream).2
  rw [K.reset_start, hmark] at hsmall
  refine ⟨ts,?_,h⟩
  simp only [callback, TiffInputStream.size, getSize, h.length, m.toSizeT_of_lt (by omega : c.length - start < 2 ^ 32),
    ReferenceFile.answer, h.content, List.length_drop]

def followsSimulation (m : DataModel) (K : ExactContract S c) (start : ℕ) (hturns : c.length < turns) :
    Simulation (fileServer m S turns) ReferenceFile.server FileCall.InRange where
  rel := Follows m K start
  call ts f call h hrange := by
    cases call with
    | read size =>
      obtain ⟨ts',he,hf⟩ := h.read hturns size
      exact ⟨_,ts',_,he,rfl,hf⟩
    | seek offset =>
      obtain ⟨ts',he,hf⟩ := h.seek turns hrange
      exact ⟨_,ts',_,he,rfl,hf⟩
    | size =>
      obtain ⟨ts',he,hf⟩ := h.size turns
      exact ⟨_,ts',_,he,rfl,hf⟩
    | map => exact ⟨_,ts,f,rfl,rfl,h⟩

theorem attach_follows (K : ExactContract S c) (stream : σ) {array : JByteArray} (h : 0 < array.data.length) :
    Follows m K (K.pos stream) (new.attach m S (.new (JNIEnv.enter stream array))) ⟨c.drop (K.pos stream),0⟩ := by
  obtain ⟨havailable,hstream,-⟩ := JavaInputStreamAdaptor.available_contract (m := m) K.toStreamContract
    (JavaInputStreamAdaptor.new_ready stream h)
  have hpos : K.pos (S.available stream).2 = K.pos stream := K.available_pos stream
  have hexact : (S.available stream).1.value.toNat = c.length - K.pos stream := by
    rw [K.available_exact, Int.toNat_natCast]
  refine ⟨attach_sound K.toStreamContract new stream h,?_,rfl,_,attach_inStream _ _,?_⟩
  · simp only [attach, havailable]
    rw [show (JavaInputStreamAdaptor.new (JNIEnv.enter stream array)).fEnv.stream = stream from rfl, hexact]
    exact m.toLong_of_lt (K.rest_lt stream)
  · rw [JavaInputStreamAdaptor.mark_stream, K.mark_pos, hstream]
    refine hpos.trans ?_
    have hle := K.pos_le stream
    dsimp only
    omega

/-- After `makeFileStream` on a stream that behaves as `ByteArrayInputStream` does, wherever it stands and wherever it was
marked before, and whatever calls `opening` its `TIFFClientOpen` made, every adaptive client of the callbacks gets exactly
the answers of a random-access file that holds what the stream had left. -/
theorem decodeStream_refines_file (m : DataModel) (K : ExactContract S c) (stream : σ) (array : JByteArray)
    (harray : 0 < array.data.length) (turns : ℕ) (hturns : c.length < turns)
    (opening : List FileCall) (hopening : ∀ call ∈ opening, call.InRange) (tif : Option ℕ)
    (client : List Answer → FileCall) (hclient : ∀ answers, (client answers).InRange) (n : ℕ) :
    ∃ ts file answers,
      makeFileStream m S turns new (.new (JNIEnv.enter stream array)) (opening.map FileCall.toCallback) tif = .ok ts ∧
      ReferenceFile.server.feed opening ⟨c.drop (K.pos stream),0⟩ = .ok file ∧
      (fileServer m S turns).transcript client n [] ts = .ok answers ∧
      ReferenceFile.server.transcript client n [] file = .ok answers := by
  obtain ⟨ts,file,hts,hfile,hrel⟩ := (followsSimulation m K (K.pos stream) hturns).feed hopening
    (attach_follows (m := m) K stream harray)
  rw [fileServer_feed] at hts
  have hopened : Follows m K (K.pos stream) { ts with mTif := tif } file :=
    ⟨⟨hrel.sound.ready,hrel.sound.marked⟩,hrel.length,hrel.content,hrel.pos⟩
  obtain ⟨answers,hstream,href⟩ := (followsSimulation m K (K.pos stream) hturns).transcript_eq hclient n [] hopened
  refine ⟨_,file,answers,?_,hfile,hstream,href⟩
  simp only [makeFileStream, hts]

/-- One of four bytes has been read and no mark was set there. A client of the other three seeks past the end, back to
the second of them and reads three. -/
theorem decodeStream_refines_file_threeBytes :
    ∃ ts file answers,
      makeFileStream .lp64 (byteArrayInputStream [9,1,2,3]) 5 new
        (.new (JNIEnv.enter ⟨1,0,by decide,by decide⟩ .oneByte))
        ([FileCall.read 2,.map].map FileCall.toCallback) (some 0) = .ok ts ∧
      ReferenceFile.server.feed [.read 2,.map] ⟨[1,2,3],0⟩ = .ok file ∧
      (fileServer .lp64 (byteArrayInputStream [9,1,2,3]) 5).transcript
        (fun answers => if answers.length = 0 then .seek 9 else if answers.length = 1 then .seek 1 else .read 3)
        3 [] ts = .ok answers ∧
      ReferenceFile.server.transcript
        (fun answers => if answers.length = 0 then .seek 9 else if answers.length = 1 then .seek 1 else .read 3)
        3 [] file = .ok answers := by
  refine decodeStream_refines_file .lp64 (byteArrayExact [9,1,2,3] (by decide)) ⟨1,0,by decide,by decide⟩ .oneByte
    (by decide) 5 (by decide) [.read 2,.map] ?_ (some 0) _ ?_ 3
  · intro call hcall
    simp only [List.mem_cons, List.not_mem_nil, or_false] at hcall
    rcases hcall with rfl | rfl
    · trivial
    · trivial
  · intro answers
    split
    · exact show (9 : UInt64).toNat < 2 ^ 32 by decide
    split
    · exact show (1 : UInt64).toNat < 2 ^ 32 by decide
    · trivial

end TiffInputStream

end TiffJni.Stream
